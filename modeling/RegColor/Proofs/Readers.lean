import RegColor.Proofs.Data
import RegColor.Proofs.Grammar

/-!
# Readers and the grammar

Each reader takes the phrase it is named for. Two lemmas say so: a valid phrase is read without an
error if what follows cannot go on with it (`type_of_spells` and others), and its items have the
meaning of the phrase; where a reader reports no error it has read such a phrase (`spells_of_type`
and others).

A reader that goes on after an error is not looked at further: an error among its items is never
taken back, so that text is no listing. The two lemmas for a whole text are
`meanings_of_definitions` and `definitions_of_clean`.
-/

namespace RegColor

namespace Reader

open Grammar Item

variable {stop t c : Token} {ts us rest : List Token} {kind : TokenKind} {what : Expected}

theorem accept?_of_kind (h : t.kind = kind) : accept? kind (t :: ts) = some (t, ts) := if_pos h

theorem accept?_eq_none_iff : accept? kind ts = none ↔ nextIs kind ts = false := by
  cases ts with
  | nil => simp [accept?, nextIs]
  | cons t ts => simp [accept?, nextIs]

theorem expect_of_kind (h : t.kind = kind) : expect stop kind what (t :: ts) = ⟨true, [], ts⟩ := by
  unfold expect
  rw [accept?_of_kind h]

/-- A token that is expected is there, or its absence is among the items. -/
theorem kind_of_expect (h : Clean (expect stop kind what ts).items) :
    ∃ t rest, ts = t :: rest ∧ t.kind = kind := by
  unfold expect at h
  split at h
  · next t rest found => exact ⟨t, rest, accept?_eq_some found⟩
  · exact absurd h not_clean_error

/-! ### Line breaks -/

/-- Breaks are skipped up to the first token that is none. -/
theorem skipNewlines_of_newlines (h : Newlines ts us) (stops : nextIs .newline us = false) :
    skipNewlines ts = us := by
  induction h with
  | done us =>
    cases us with
    | nil => rfl
    | cons t us => exact List.dropWhile_cons_of_neg (by simpa [nextIs] using stops)
  | more kind _ ih => exact (List.dropWhile_cons_of_pos (by simpa using kind)).trans (ih stops)

/-- Nothing but breaks is skipped. -/
theorem newlines_skipNewlines (ts : List Token) : Newlines ts (skipNewlines ts) := by
  induction ts with
  | nil => exact .done []
  | cons t ts ih =>
    unfold skipNewlines
    rw [List.dropWhile_cons]
    split
    · next kind => exact .more (by simpa using kind) ih
    · exact .done _

/-! ### Types -/

theorem exists_ofName?_iff {name : String} :
    (∃ elem, ScalarType.ofName? name = some elem) ↔ name ∈ ["void", "int", "float"] := by
  rw [← Option.isSome_iff_exists, ScalarType.ofName?, List.find?_isSome]
  simp [ScalarType.name, eq_comm]

/-- A number that is read as an integer is a word. -/
theorem fits_of_signed {negative : Bool} {n : Nat} {v : Int}
    (h : Integer.signed negative n = .ok v) : Word.fits v = true := by
  unfold Integer.signed at h
  generalize (if negative then -(n : Int) else n) = x at h
  dsimp only at h
  split at h
  · next fits =>
    cases h
    exact fits
  · cases h

theorem lt_of_read {text : String} {v : Int} (h : Integer.read text = .ok v) :
    v < Word.bound := by
  unfold Integer.read at h
  split at h
  · cases h
  · exact (Word.fits_iff.1 (fits_of_signed h)).2

/-- A valid type is read to its end, unless a bracket follows that could belong to it. -/
theorem type_of_spells (stop : Token) {n : TypeName} (h : TypeName.Spells ts n rest)
    (valid : n.Valid) (follow : nextIs .lbracket rest = false) :
    ∃ T, type stop ts = ⟨some T, [], rest⟩ := by
  obtain ⟨elem, known⟩ := exists_ofName?_iff.2 valid.1
  cases h with
  | scalar ident =>
    refine ⟨.scalar elem, ?_⟩
    simp only [type, accept?_of_kind ident, known, accept?_eq_none_iff.2 follow]
  | @array name o n c _ ident opens int closes =>
    obtain ⟨v, read, pos, -⟩ := valid.2 n rfl
    refine ⟨.array elem v, ?_⟩
    simp only [type, arrayType, accept?_of_kind ident, known, accept?_of_kind opens,
      accept?_of_kind int, read, expect_of_kind closes, if_pos (show 0 < v by omega)]

/-- Without an error a valid type was read, and its reader has no items of its own. -/
theorem spells_of_type (h : Clean (type stop ts).items) :
    ∃ n T rest, TypeName.Spells ts n rest ∧ n.Valid ∧ type stop ts = ⟨some T, [], rest⟩ := by
  unfold type at h ⊢
  split at h
  · exact absurd h not_clean_error
  next name us found =>
  obtain ⟨rfl, ident⟩ := accept?_eq_some found
  split at h
  · exact absurd h not_clean_error
  next elem known =>
  have named := exists_ofName?_iff.1 ⟨elem, known⟩
  split at h
  · exact ⟨⟨name, none⟩, .scalar elem, us, .scalar ident, ⟨named, by simp⟩, rfl⟩
  next o vs found =>
  obtain ⟨rfl, opens⟩ := accept?_eq_some found
  unfold arrayType at h ⊢
  split at h
  · exact absurd h not_clean_error
  next n ws found =>
  obtain ⟨rfl, int⟩ := accept?_eq_some found
  dsimp only at h ⊢
  split at h
  · exact absurd h not_clean_error
  next v read =>
  split at h
  · next pos =>
    obtain ⟨c, rest, rfl, closes⟩ := kind_of_expect h
    refine ⟨⟨name, some n⟩, .array elem v, rest, .array ident opens int closes, ⟨named, ?_⟩, ?_⟩
    · rintro _ ⟨⟩
      exact ⟨v, read, pos, lt_of_read read⟩
    · rw [if_pos pos, expect_of_kind closes]
  · exact absurd h not_clean_error

/-- A type may be left out; that it is given is seen at the colon. -/
theorem typeAfterColon_of_typed (stop : Token) {n : Option TypeName} (h : Typed ts n rest)
    (valid : ∀ t ∈ n, t.Valid) (colon : nextIs .colon rest = false)
    (bracket : nextIs .lbracket rest = false) :
    ∃ T, typeAfterColon stop ts = ⟨T, [], rest⟩ ∧ T.isSome = n.isSome := by
  unfold typeAfterColon
  cases h with
  | bare => exact ⟨none, by rw [accept?_eq_none_iff.2 colon], rfl⟩
  | colon kind spells =>
    obtain ⟨T, eq⟩ := type_of_spells stop spells (valid _ rfl) bracket
    exact ⟨some T, by rw [accept?_of_kind kind]; exact eq, rfl⟩

/-- Without an error there is a type exactly if there is a colon. -/
theorem typed_of_typeAfterColon (h : Clean (typeAfterColon stop ts).items) :
    ∃ n T rest, Typed ts n rest ∧ (∀ t ∈ n, t.Valid) ∧ T.isSome = n.isSome ∧
      T.isSome = nextIs .colon ts ∧ typeAfterColon stop ts = ⟨T, [], rest⟩ := by
  unfold typeAfterColon at h ⊢
  split at h
  · next missing =>
    exact ⟨none, none, ts, .bare ts, by simp, rfl, (accept?_eq_none_iff.1 missing).symm, rfl⟩
  · next c us found =>
    obtain ⟨rfl, kind⟩ := accept?_eq_some found
    obtain ⟨n, T, rest, spells, valid, eq⟩ := spells_of_type h
    refine ⟨some n, some T, rest, .colon kind spells, ?_, rfl, by simp [nextIs, kind], eq⟩
    rintro _ ⟨⟩
    exact valid

/-! ### Parameters -/

/-- A parameter is followed by a comma and more of them, or by what closes the list. -/
theorem paramList_cons {name : Token} {T : Option DataType} (ident : name.kind = .ident)
    (type : typeAfterColon stop ts = ⟨T, [], c :: us⟩) :
    paramList stop (name :: ts) =
      let items := [Item.param name (T.getD defaultType)]
      if c.kind = .comma then ⟨(), items ++ (paramList stop us).items, (paramList stop us).rest⟩
      else
        let close := expect stop .rparen .closeParams (c :: us)
        ⟨(), items ++ close.items, close.rest⟩ := by
  rw [paramList]
  split
  · next found =>
    rw [accept?_of_kind ident] at found
    cases found
  · next found =>
    rw [accept?_of_kind ident] at found
    cases found
    dsimp only
    split
    · next found =>
      rw [type] at found ⊢
      obtain ⟨same, comma⟩ := accept?_eq_some found
      cases same
      rw [if_pos comma]
      rfl
    · next found =>
      rw [type] at found ⊢
      rw [if_neg (by simpa [accept?] using found)]
      rfl

/-- The items of a list of parameters are the parameters in order. -/
theorem paramList_of_commas (stop : Token) {ps : List Param} (h : Commas Param.Spells ts ps us)
    (stops : us = c :: rest) (closes : c.kind = .rparen)
    (valid : ∀ p ∈ ps, ∀ t ∈ p.type, t.Valid) :
    ∃ items, paramList stop ts = ⟨(), items, rest⟩ ∧
      items.map meaning = ps.map (fun p => (.param p.name.value, none)) := by
  induction h with
  | one spells =>
    subst stops
    cases spells with
    | mk ident typed =>
      obtain ⟨T, eq, -⟩ := typeAfterColon_of_typed stop typed
        (valid _ (List.mem_singleton_self _)) (by simp [nextIs, closes]) (by simp [nextIs, closes])
      rw [paramList_cons ident eq, if_neg (by simp [closes]), expect_of_kind closes]
      exact ⟨_, rfl, rfl⟩
  | more spells comma _ ih =>
    obtain ⟨first, others⟩ := List.forall_mem_cons.1 valid
    obtain ⟨items, rest_eq, meanings⟩ := ih stops others
    cases spells with
    | mk ident typed =>
      obtain ⟨T, eq, -⟩ := typeAfterColon_of_typed stop typed first
        (by simp [nextIs, comma]) (by simp [nextIs, comma])
      rw [paramList_cons ident eq, if_pos comma, rest_eq]
      exact ⟨_, rfl, congrArg _ meanings⟩

/-- Without an error a list of parameters goes on to a parenthesis, and its types are valid. -/
theorem commas_of_paramList (h : Clean (paramList stop ts).items) :
    ∃ ps c, Commas Param.Spells ts ps (c :: (paramList stop ts).rest) ∧ c.kind = .rparen ∧
      ∀ p ∈ ps, ∀ t ∈ p.type, t.Valid := by
  fun_induction paramList stop ts with
  | case1 => exact absurd h not_clean_error
  | case2 ts name us found ty items c vs found' more ih =>
    obtain ⟨rfl, ident⟩ := accept?_eq_some found
    obtain ⟨here, others⟩ := clean_append.1 h
    obtain ⟨n, T, rest, typed, valid, -, -, eq⟩ := typed_of_typeAfterColon (clean_append.1 here).1
    rw [show ty = _ from eq] at found'
    obtain ⟨rfl, comma⟩ := accept?_eq_some found'
    obtain ⟨ps, d, commas, closes, all⟩ := ih others
    exact ⟨⟨name, n⟩ :: ps, d, .more (.mk ident typed) comma commas, closes,
      List.forall_mem_cons.2 ⟨valid, all⟩⟩
  | case3 ts name us found ty items found' close =>
    obtain ⟨rfl, ident⟩ := accept?_eq_some found
    obtain ⟨here, closing⟩ := clean_append.1 h
    obtain ⟨n, T, rest, typed, valid, -, -, eq⟩ := typed_of_typeAfterColon (clean_append.1 here).1
    obtain ⟨c, vs, same, closes⟩ := kind_of_expect closing
    have closed : close = ⟨true, [], vs⟩ := by
      show expect _ _ _ ty.rest = _
      rw [same, expect_of_kind closes]
    rw [show ty = _ from eq] at same
    cases same
    refine ⟨[⟨name, n⟩], c, ?_, closes, List.forall_mem_singleton.2 valid⟩
    show Commas _ _ _ (c :: close.rest)
    rw [closed]
    exact .one (.mk ident typed)

/-- Parameters in parentheses, which may be none. -/
theorem params_of_spells (stop : Token) {ps : List Param} (h : Params ts ps rest)
    (valid : ∀ p ∈ ps, ∀ t ∈ p.type, t.Valid) :
    ∃ items, params stop ts = ⟨(), items, rest⟩ ∧
      items.map meaning = ps.map (fun p => (.param p.name.value, none)) := by
  unfold params
  cases h with
  | empty opens closes =>
    rw [accept?_of_kind opens]
    dsimp only
    rw [accept?_of_kind closes]
    exact ⟨[], rfl, rfl⟩
  | list opens commas closes =>
    obtain ⟨_, _, spells⟩ := commas.first
    obtain ⟨t, us, rfl, ident⟩ := spells.starts
    rw [accept?_of_kind opens]
    dsimp only
    rw [accept?_eq_none_iff.2 (by simp [nextIs, ident])]
    exact paramList_of_commas stop commas rfl closes valid

theorem spells_of_params (h : Clean (params stop ts).items) :
    ∃ ps, Params ts ps (params stop ts).rest ∧ ∀ p ∈ ps, ∀ t ∈ p.type, t.Valid := by
  unfold params at h ⊢
  split at h
  · exact absurd h not_clean_error
  next o us found =>
  obtain ⟨rfl, opens⟩ := accept?_eq_some found
  split at h
  · next c rest found =>
    obtain ⟨rfl, closes⟩ := accept?_eq_some found
    exact ⟨[], .empty opens closes, List.forall_mem_nil _⟩
  · obtain ⟨ps, c, commas, closes, valid⟩ := commas_of_paramList h
    exact ⟨ps, .list opens commas closes, valid⟩

/-! ### Declarations -/

/-- Names go on as long as commas follow them. -/
theorem names_cons {name : Token} (ident : name.kind = .ident) :
    names stop (name :: ts) =
      match accept? .comma ts with
      | none => ⟨some [name], [], ts⟩
      | some (_, us) =>
        ⟨(names stop us).value.map (name :: ·), (names stop us).items, (names stop us).rest⟩ := by
  rw [names]
  split
  · next found =>
    rw [accept?_of_kind ident] at found
    cases found
  · next found =>
    rw [accept?_of_kind ident] at found
    cases found
    split
    · next found => rw [found]
    · next found => rw [found]

/-- All names are taken, if no comma comes after them. -/
theorem names_of_commas (stop : Token) {ns : List Token} (h : Commas Name ts ns rest)
    (follow : nextIs .comma rest = false) : names stop ts = ⟨some ns, [], rest⟩ := by
  induction h with
  | one name =>
    obtain ⟨ident⟩ := name
    rw [names_cons ident, accept?_eq_none_iff.2 follow]
  | more name comma _ ih =>
    obtain ⟨ident⟩ := name
    rw [names_cons ident, accept?_of_kind comma]
    dsimp only
    rw [ih follow]
    rfl

theorem commas_of_names (h : Clean (names stop ts).items) :
    ∃ ns rest, Commas Name ts ns rest ∧ names stop ts = ⟨some ns, [], rest⟩ := by
  fun_induction names stop ts with
  | case1 => exact absurd h not_clean_error
  | case2 ts name us found _ =>
    obtain ⟨rfl, ident⟩ := accept?_eq_some found
    exact ⟨[name], us, .one (.mk ident), rfl⟩
  | case3 ts name us found c vs found' more ih =>
    obtain ⟨rfl, ident⟩ := accept?_eq_some found
    obtain ⟨rfl, comma⟩ := accept?_eq_some found'
    obtain ⟨ns, rest, commas, eq⟩ := ih h
    refine ⟨name :: ns, rest, .more (.mk ident) comma commas, ?_⟩
    rw [show more = _ from eq]
    rfl

/-- What ends an instruction starts no other phrase. -/
theorem nextIs_of_atEnd (kind : TokenKind) (h : atEnd ts = true)
    (other : kind ≠ .newline ∧ kind ≠ .rbrace) : nextIs kind ts = false := by
  cases ts with
  | nil => rfl
  | cons t ts =>
    simp only [atEnd, Bool.or_eq_true, decide_eq_true_eq] at h
    simp only [nextIs, decide_eq_false_iff_not]
    rintro rfl
    rcases h with h | h
    · exact other.1 h
    · exact other.2 h

/-- A declaration is one item for all its names. -/
theorem declaration_of_spells (stop : Token) {ns : List Token} {n : Option TypeName}
    (commas : Commas Name ts ns us) (typed : Typed us n rest) (valid : ∀ t ∈ n, t.Valid)
    (ends : atEnd rest = true) :
    ∃ T, declaration stop ts = ⟨true, [.declare ns T], rest⟩ := by
  have colon : nextIs .colon rest = false := nextIs_of_atEnd _ ends (by decide)
  have bracket : nextIs .lbracket rest = false := nextIs_of_atEnd _ ends (by decide)
  obtain ⟨T, eq, same⟩ := typeAfterColon_of_typed stop typed valid colon bracket
  unfold declaration
  cases typed with
  | bare =>
    rw [names_of_commas stop commas (nextIs_of_atEnd _ ends (by decide))]
    dsimp only
    rw [if_neg (by simp [colon])]
    exact ⟨_, rfl⟩
  | colon kind _ =>
    rw [names_of_commas stop commas (by simp [nextIs, kind])]
    dsimp only
    obtain ⟨T, rfl⟩ := Option.isSome_iff_exists.1 same
    rw [if_pos (by simp [nextIs, kind]), eq]
    exact ⟨T, rfl⟩

/-- Without an error a declaration has names and, behind a colon, a valid type. -/
theorem spells_of_declaration (h : Clean (declaration stop ts).items) :
    ∃ ns n us T rest, Commas Name ts ns us ∧ Typed us n rest ∧ (∀ t ∈ n, t.Valid) ∧
      declaration stop ts = ⟨true, [.declare ns T], rest⟩ := by
  -- Whatever comes after the names, their own errors are among the items.
  have named : Clean (names stop ts).items := by
    unfold declaration at h
    dsimp only at h
    split at h
    · exact h
    · split at h
      · split at h
        · exact (clean_append.1 h).1
        · exact (clean_append.1 (clean_append.1 h).1).1
      · exact (clean_append.1 h).1
  obtain ⟨ns, us, commas, eq⟩ := commas_of_names named
  unfold declaration at h ⊢
  rw [eq] at h ⊢
  dsimp only at h ⊢
  split at h
  · next colon =>
    rw [if_pos colon]
    have typed : Clean (typeAfterColon stop us).items := by
      split at h
      · exact h
      · exact (clean_append.1 h).1
    obtain ⟨n, T, rest, typed, valid, -, given, eq⟩ := typed_of_typeAfterColon typed
    obtain ⟨T, rfl⟩ := Option.isSome_iff_exists.1 (given.trans colon)
    rw [eq]
    exact ⟨ns, n, us, T, rest, commas, typed, valid, rfl⟩
  · next bare =>
    rw [if_neg bare]
    exact ⟨ns, none, us, _, us, commas, .bare us, by simp, rfl⟩

/-! ### Operands -/

theorem isOperand_iff : isOperand t = true ↔ t.kind = .int ∨ t.kind = .float ∨ t.kind = .ident := by
  simp [isOperand, or_assoc]

/-- A valid value denotes an operand: a number within its range, or a name without a sign. -/
theorem exists_operandValue {v : Value} (valid : v.Valid)
    (kind : v.token.kind = .int ∨ v.token.kind = .float ∨
      v.token.kind = .ident ∧ v.negative = false) :
    ∃ o, operandValue v.negative v.token = .ok o := by
  unfold operandValue
  rcases kind with int | float | ⟨ident, plain⟩
  · obtain ⟨n, read⟩ := valid.1 int
    rw [int]
    dsimp only
    rw [read]
    exact ⟨_, rfl⟩
  · obtain ⟨x, read⟩ := valid.2 float
    rw [float]
    dsimp only
    rw [read]
    exact ⟨_, rfl⟩
  · rw [ident, plain]
    exact ⟨_, rfl⟩

/-- What denotes an operand is valid, and a sign stands before numbers only. -/
theorem valid_of_operandValue {v : Value} {o : Operand} (kind : isOperand v.token = true)
    (h : operandValue v.negative v.token = .ok o) :
    v.Valid ∧ o.name? = v.name? ∧
      (v.negative = true → v.token.kind = .int ∨ v.token.kind = .float) := by
  unfold operandValue at h
  rcases isOperand_iff.1 kind with int | float | ident
  · rw [int] at h
    dsimp only at h
    split at h
    · cases h
    · next n read =>
      cases h
      exact ⟨⟨fun _ => ⟨n, read⟩, by simp [int]⟩, by simp [Value.name?, Operand.name?, int],
        fun _ => .inl int⟩
  · rw [float] at h
    dsimp only at h
    split at h
    · cases h
    · next x read =>
      cases h
      exact ⟨⟨by simp [float], fun _ => ⟨x, read⟩⟩, by simp [Value.name?, Operand.name?, float],
        fun _ => .inr float⟩
  · rw [ident] at h
    dsimp only at h
    split at h
    · cases h
    · next plain =>
      cases h
      exact ⟨⟨by simp [ident], by simp [ident]⟩, by simp [Value.name?, Operand.name?, ident],
        fun minus => absurd minus plain⟩

theorem signedOperand_of_ok {v : Value} {o : Operand} (kind : isOperand v.token = true)
    (h : operandValue v.negative v.token = .ok o) :
    signedOperand stop v.negative (v.token :: rest) = ⟨some o, [], rest⟩ := by
  rw [signedOperand, if_pos kind, h]

/-- Behind its sign an operand is read, or an error reported. -/
theorem ok_of_signedOperand (stop : Token) (negative : Bool) (ts : List Token) :
    (∃ t rest o, ts = t :: rest ∧ isOperand t = true ∧ operandValue negative t = .ok o ∧
      signedOperand stop negative ts = ⟨some o, [], rest⟩) ∨
    (signedOperand stop negative ts).value = none ∧
      ¬Clean (signedOperand stop negative ts).items := by
  unfold signedOperand
  split
  · exact .inr ⟨rfl, not_clean_error⟩
  next t rest =>
  split
  · next kind =>
    split
    · next o ok => exact .inl ⟨t, rest, o, rfl, kind, ok, rfl⟩
    · exact .inr ⟨rfl, not_clean_error⟩
  · exact .inr ⟨rfl, not_clean_error⟩

/-- A valid value is read as the operand that it denotes. -/
theorem operand_of_spells (stop : Token) {v : Value} (h : Value.Spells ts v rest)
    (valid : v.Valid) :
    ∃ o, operand stop ts = ⟨some o, [], rest⟩ ∧ o.name? = v.name? ∧ v.operand? = some o := by
  have denotes {o : Operand} (ok : operandValue v.negative v.token = .ok o) :
      v.operand? = some o := by
    rw [Value.operand?, ok]
    rfl
  unfold operand
  cases h with
  | @plain t rest kind =>
    have sign : nextIs .minus (t :: rest) = false := by
      rcases kind with h | h | h <;> simp [nextIs, h]
    obtain ⟨o, ok⟩ := exists_operandValue valid (kind.imp_right (.imp_right (⟨·, rfl⟩)))
    have isOperand := isOperand_iff.2 kind
    rw [accept?_eq_none_iff.2 sign]
    exact ⟨o, signedOperand_of_ok isOperand ok, (valid_of_operandValue isOperand ok).2.1,
      denotes ok⟩
  | @minus m t rest sign kind =>
    obtain ⟨o, ok⟩ := exists_operandValue valid (kind.imp_right .inl)
    have isOperand := isOperand_iff.2 (kind.imp_right .inl)
    rw [accept?_of_kind sign]
    exact ⟨o, signedOperand_of_ok isOperand ok, (valid_of_operandValue isOperand ok).2.1,
      denotes ok⟩

/-- An operand is read, or an error reported. -/
theorem spells_of_operand (stop : Token) (ts : List Token) :
    (∃ v o rest, Value.Spells ts v rest ∧ v.Valid ∧ operand stop ts = ⟨some o, [], rest⟩) ∨
      (operand stop ts).value = none ∧ ¬Clean (operand stop ts).items := by
  unfold operand
  split
  · next m us found =>
    obtain ⟨rfl, sign⟩ := accept?_eq_some found
    refine (ok_of_signedOperand stop true us).imp_left ?_
    rintro ⟨t, rest, o, rfl, kind, ok, eq⟩
    obtain ⟨valid, -, number⟩ := valid_of_operandValue (v := ⟨true, t⟩) kind ok
    exact ⟨⟨true, t⟩, o, rest, .minus sign (number rfl), valid, eq⟩
  · refine (ok_of_signedOperand stop false ts).imp_left ?_
    rintro ⟨t, rest, o, rfl, kind, ok, eq⟩
    obtain ⟨valid, -⟩ := valid_of_operandValue (v := ⟨false, t⟩) kind ok
    exact ⟨⟨false, t⟩, o, rest, .plain (isOperand_iff.1 kind), valid, eq⟩

/-- One step of the list, without what its recursion carries along. -/
theorem operandList_eq (ts : List Token) :
    operandList stop ts =
      match (operand stop ts).value with
      | none => ⟨([], false), (operand stop ts).items, (operand stop ts).rest⟩
      | some o =>
        match accept? .comma (operand stop ts).rest with
        | none => ⟨([o], true), [], (operand stop ts).rest⟩
        | some (_, us) =>
          let more := operandList stop us
          ⟨(o :: more.value.1, more.value.2), more.items, more.rest⟩ := by
  rw [operandList]
  dsimp only
  split
  · next none => rw [none]
  · next o some =>
    rw [some]
    dsimp only
    split
    · next found => rw [found]
    · next found => rw [found]

/-- Values are read as the operands that they denote, in order. -/
theorem operandList_of_commas (stop : Token) {vs : List Value} (h : Commas Value.Spells ts vs rest)
    (valid : ∀ v ∈ vs, v.Valid) (follow : nextIs .comma rest = false) :
    ∃ os, operandList stop ts = ⟨(os, true), [], rest⟩ ∧
      os.map Operand.name? = vs.map Value.name? ∧ vs.filterMap Value.operand? = os := by
  induction h with
  | one spells =>
    obtain ⟨o, eq, name, value⟩ :=
      operand_of_spells stop spells (List.forall_mem_singleton.1 valid)
    rw [operandList_eq, eq]
    dsimp only
    rw [accept?_eq_none_iff.2 follow]
    exact ⟨[o], rfl, congrArg (fun n => [n]) name, by simp [value]⟩
  | more spells comma _ ih =>
    obtain ⟨first, others⟩ := List.forall_mem_cons.1 valid
    obtain ⟨o, eq, name, value⟩ := operand_of_spells stop spells first
    obtain ⟨os, eq', names, rfl⟩ := ih others follow
    rw [operandList_eq, eq]
    dsimp only
    rw [accept?_of_kind comma]
    dsimp only
    rw [eq']
    exact ⟨_, rfl, congrArg₂ List.cons name names, by simp [value]⟩

/-- Without an error no operand of the list was missing. -/
theorem commas_of_operandList (h : Clean (operandList stop ts).items) :
    ∃ vs os rest, Commas Value.Spells ts vs rest ∧ (∀ v ∈ vs, v.Valid) ∧
      operandList stop ts = ⟨(os, true), [], rest⟩ := by
  fun_induction operandList stop ts with
  | case1 ts o missing =>
    rcases spells_of_operand stop ts with ⟨v, x, rest, -, -, eq⟩ | ⟨-, bad⟩
    · rw [show o = _ from eq] at missing
      cases missing
    · exact absurd h bad
  | case2 ts o x found missing =>
    rcases spells_of_operand stop ts with ⟨v, y, rest, spells, valid, eq⟩ | ⟨none, -⟩
    · rw [show o = _ from eq] at found ⊢
      cases found
      exact ⟨[v], [x], rest, .one spells, List.forall_mem_singleton.2 valid, rfl⟩
    · cases found.symm.trans none
  | case3 ts o x found c us found' more ih =>
    rcases spells_of_operand stop ts with ⟨v, y, rest, spells, valid, eq⟩ | ⟨none, -⟩
    · rw [show o = _ from eq] at found found'
      cases found
      obtain ⟨rfl, comma⟩ := accept?_eq_some found'
      obtain ⟨vs, os, rest, commas, all, eq'⟩ := ih h
      refine ⟨v :: vs, x :: os, rest, .more spells comma commas,
        List.forall_mem_cons.2 ⟨valid, all⟩, ?_⟩
      rw [show more = _ from eq']
    · cases found.symm.trans none

/-! ### Lines -/

theorem exists_opcode_iff {name : String} :
    (∃ op, Opcode.ofName? name = some op) ↔ name ∈ Opcode.spelled.map Opcode.name := by
  rw [← Option.isSome_iff_exists, Opcode.ofName?, List.find?_isSome]
  simp

/-- An instruction has the meaning of its line, if the operands are those of the values. -/
theorem meaning_instr {t : Token} {op : Opcode} {os : List Operand} (vs : List Value)
    (known : Opcode.ofName? t.value = some op) (names : os.map Operand.name? = vs.map Value.name?)
    (values : vs.filterMap Value.operand? = os) (line : Int) (spelled : op ∈ Opcode.spelled) :
    (Item.instr op os line spelled).meaning = (Line.instr t vs).meaning := by
  simp only [Item.meaning, Item.effect, Item.statement?, Line.meaning, Line.effect, Line.variables,
    Line.statement?, known, names, values, Option.map_some]

theorem instruction_of_bare (stop : Token) (valid : (Line.instr t []).Valid)
    (ends : atEnd rest = true) :
    ∃ item, instruction stop t rest = ⟨true, [item], rest⟩ ∧
      item.meaning = (Line.instr t []).meaning := by
  obtain ⟨op, known⟩ := exists_opcode_iff.2 valid.1
  unfold instruction
  split
  · next unknown => cases unknown.symm.trans known
  · next op' known =>
    rw [if_pos ends]
    exact ⟨_, rfl, meaning_instr [] known rfl rfl ..⟩

/-- A valid instruction is read up to the end of its line as one item of the same meaning. -/
theorem instruction_of_commas (stop : Token) {vs : List Value}
    (commas : Commas Value.Spells ts vs rest) (valid : (Line.instr t vs).Valid)
    (ends : atEnd rest = true) :
    ∃ item, instruction stop t ts = ⟨true, [item], rest⟩ ∧
      item.meaning = (Line.instr t vs).meaning := by
  obtain ⟨op, known⟩ := exists_opcode_iff.2 valid.1
  obtain ⟨os, eq, names, values⟩ := operandList_of_commas stop commas valid.2
    (nextIs_of_atEnd _ ends (by decide))
  unfold instruction
  split
  · next unknown => cases unknown.symm.trans known
  · next op' known =>
    have inside : ¬atEnd ts = true := by
      obtain ⟨_, _, spells⟩ := commas.first
      obtain ⟨u, us, rfl, kind⟩ := spells.starts
      rcases kind with h | h | h | h <;> simp [atEnd, h]
    rw [if_neg inside, eq]
    exact ⟨_, rfl, meaning_instr vs known names values ..⟩

/-- Without an error the name is that of an opcode, and valid values follow it, or none. -/
theorem spells_of_instruction (ident : t.kind = .ident) (h : Clean (instruction stop t ts).items) :
    ∃ vs item rest, Line.Spells (t :: ts) (.instr t vs) rest ∧ (Line.instr t vs).Valid ∧
      instruction stop t ts = ⟨true, [item], rest⟩ := by
  unfold instruction at h ⊢
  split at h
  · exact absurd h not_clean_error
  next op known =>
  have spelled := exists_opcode_iff.1 ⟨op, known⟩
  dsimp only at h ⊢
  split at h
  · next ends =>
    rw [if_pos ends]
    exact ⟨[], _, ts, .bare ident, ⟨spelled, List.forall_mem_nil _⟩, rfl⟩
  · next more =>
    rw [if_neg more]
    have clean : Clean (operandList stop ts).items := by
      split at h
      · exact (clean_append.1 h).1
      · exact fun bad => h (List.mem_cons_of_mem _ bad)
    obtain ⟨vs, os, rest, commas, valid, eq⟩ := commas_of_operandList clean
    rw [eq]
    exact ⟨vs, _, rest, .instr ident commas, ⟨spelled, valid⟩, rfl⟩

/-- A valid line is one item of the same meaning, whichever kind of line it is. -/
theorem lineBody_of_spells (stop : Token) {line : Line} (h : Line.Spells ts line rest)
    (valid : line.Valid) (ends : atEnd rest = true) :
    ∃ item, lineBody stop ts = ⟨true, [item], rest⟩ ∧ item.meaning = line.meaning := by
  unfold lineBody
  cases h with
  | declare var commas typed =>
    obtain ⟨T, eq⟩ := declaration_of_spells stop commas typed valid ends
    simp only [if_pos var]
    exact ⟨_, eq, rfl⟩
  | label ident colon =>
    simp only [ident, reduceCtorEq, if_false, if_true, accept?_of_kind colon]
    exact ⟨_, rfl, rfl⟩
  | bare ident =>
    have colon : accept? .colon rest = none :=
      accept?_eq_none_iff.2 (nextIs_of_atEnd _ ends (by decide))
    simp only [ident, reduceCtorEq, if_false, if_true, colon]
    exact instruction_of_bare stop valid ends
  | @instr op ts _ vs ident commas =>
    have colon : accept? .colon ts = none := by
      obtain ⟨_, _, spells⟩ := commas.first
      obtain ⟨u, us, rfl, kind⟩ := spells.starts
      refine accept?_eq_none_iff.2 ?_
      rcases kind with h | h | h | h <;> simp [nextIs, h]
    simp only [ident, reduceCtorEq, if_false, if_true, colon]
    exact instruction_of_commas stop commas valid ends

/-- Without an error a line is of one of the three kinds, told by its first two tokens. -/
theorem spells_of_lineBody (h : Clean (lineBody stop ts).items) :
    ∃ line item rest, Line.Spells ts line rest ∧ line.Valid ∧
      lineBody stop ts = ⟨true, [item], rest⟩ := by
  unfold lineBody at h ⊢
  split at h
  · exact absurd h not_clean_error
  next t ts =>
  split at h
  · next var =>
    obtain ⟨ns, n, us, T, rest, commas, typed, valid, eq⟩ := spells_of_declaration h
    rw [if_pos var, eq]
    exact ⟨.declare ns n, _, rest, .declare var commas typed, valid, rfl⟩
  next var =>
  rw [if_neg var]
  split at h
  · next ident =>
    rw [if_pos ident]
    split at h
    · next c rest found =>
      obtain ⟨rfl, colon⟩ := accept?_eq_some found
      exact ⟨.label t, _, rest, .label ident colon, trivial, rfl⟩
    · obtain ⟨vs, item, rest, spells, valid, eq⟩ := spells_of_instruction ident h
      exact ⟨.instr t vs, item, rest, spells, valid, eq⟩
  · exact absurd h not_clean_error

/-- The break at the end of a line is taken with it. -/
theorem line_of_newline (stop : Token) {line : Line} {n : Token}
    (h : Line.Spells ts line (n :: rest)) (valid : line.Valid) (newline : n.kind = .newline) :
    ∃ item, Reader.line stop ts = ⟨(), [item], rest⟩ ∧ item.meaning = line.meaning := by
  obtain ⟨item, eq, meaning⟩ :=
    lineBody_of_spells stop h valid (by simp [atEnd, newline])
  refine ⟨item, ?_, meaning⟩
  unfold Reader.line
  simp only [eq, if_true, accept?_of_kind newline]

/-- The brace at the end of a last line is left to the body. -/
theorem line_of_rbrace (stop : Token) {line : Line} (h : Line.Spells ts line (c :: rest))
    (valid : line.Valid) (closes : c.kind = .rbrace) :
    ∃ item, Reader.line stop ts = ⟨(), [item], c :: rest⟩ ∧ item.meaning = line.meaning := by
  obtain ⟨item, eq, meaning⟩ :=
    lineBody_of_spells stop h valid (by simp [atEnd, closes])
  have newline : accept? .newline (c :: rest) = none :=
    accept?_eq_none_iff.2 (by simp [nextIs, closes])
  refine ⟨item, ?_, meaning⟩
  unfold Reader.line
  simp only [eq, if_true, newline]
  rw [if_pos (by simp [atEnd, closes])]

/-- A line without errors ends with a line break, or where the body does. -/
theorem spells_of_line (h : Clean (line stop ts).items) :
    ∃ ln item rest, ln.Valid ∧ line stop ts = ⟨(), [item], rest⟩ ∧
      ((∃ n, Line.Spells ts ln (n :: rest) ∧ n.kind = .newline) ∨
        Line.Spells ts ln rest ∧ (rest = [] ∨ ∃ c us, rest = c :: us ∧ c.kind = .rbrace)) := by
  have clean : Clean (lineBody stop ts).items := by
    unfold line at h
    dsimp only at h
    split at h
    · split at h
      · exact h
      · split at h
        · exact h
        · exact (clean_append.1 h).1
    · exact h
  obtain ⟨ln, item, rest, spells, valid, eq⟩ := spells_of_lineBody clean
  unfold line at h ⊢
  simp only [eq, if_true] at h ⊢
  split at h
  · next n us found =>
    obtain ⟨rfl, newline⟩ := accept?_eq_some found
    exact ⟨ln, item, us, valid, rfl, .inl ⟨n, spells, newline⟩⟩
  · next missing =>
    split at h
    · next ends =>
      rw [if_pos ends]
      refine ⟨ln, item, rest, valid, rfl, .inr ⟨spells, ?_⟩⟩
      cases rest with
      | nil => exact .inl rfl
      | cons c us =>
        have newline : ¬c.kind = .newline := by simpa [accept?] using missing
        exact .inr ⟨c, us, rfl, by simpa [atEnd, newline] using ends⟩
    · exact absurd (clean_append.1 h).2 not_clean_error

/-! ### Bodies -/

/-- Lines that start with one are that line and those after its end. -/
theorem lines_of_starts (h : ∃ t us, ts = t :: us ∧ (t.kind = .var ∨ t.kind = .ident)) :
    lines stop ts =
      let first := line stop ts
      let more := lines stop (skipNewlines first.rest)
      ⟨(), first.items ++ more.items, more.rest⟩ := by
  obtain ⟨t, us, rfl, kind⟩ := h
  rw [lines, if_neg (by rcases kind with h | h <;> simp [h])]

theorem lines_of_rbrace (closes : c.kind = .rbrace) :
    lines stop (c :: rest) = ⟨(), [], c :: rest⟩ := by
  rw [lines, if_pos closes]

theorem skipNewlines_of_ne (other : c.kind ≠ .newline) : skipNewlines (c :: rest) = c :: rest :=
  List.dropWhile_cons_of_neg (by simpa using other)

/-- A body starts with no break, so that breaks before it can be skipped. -/
theorem nextIs_newline_of_body {ls : List Line} (h : Body ts ls rest) :
    nextIs .newline ts = false := by
  obtain ⟨t, us, rfl, kind⟩ := h.starts
  rcases kind with h | h | h <;> simp [nextIs, h]

/-- A body is read up to the brace that closes it, and its items are its lines in order. -/
theorem lines_of_body (stop : Token) {ls : List Line} (h : Body ts ls rest)
    (valid : ∀ line ∈ ls, line.Valid) :
    ∃ c items, lines stop ts = ⟨(), items, c :: rest⟩ ∧ c.kind = .rbrace ∧
      items.map meaning = ls.map Line.meaning := by
  induction h with
  | close closes => exact ⟨_, [], lines_of_rbrace closes, closes, rfl⟩
  | last spells closes =>
    obtain ⟨item, eq, meaning⟩ :=
      line_of_rbrace stop spells (List.forall_mem_singleton.1 valid) closes
    refine ⟨_, [item], ?_, closes, congrArg (fun e => [e]) meaning⟩
    rw [lines_of_starts spells.starts, eq]
    dsimp only
    rw [skipNewlines_of_ne (by simp [closes]), lines_of_rbrace closes]
    rfl
  | @more n ts us vs rest line ls spells newline newlines body ih =>
    obtain ⟨first, others⟩ := List.forall_mem_cons.1 valid
    obtain ⟨item, eq, meaning⟩ := line_of_newline stop spells first newline
    obtain ⟨c, items, eq', closes, meanings⟩ := ih others
    refine ⟨c, item :: items, ?_, closes, congrArg₂ List.cons meaning meanings⟩
    rw [lines_of_starts spells.starts, eq]
    dsimp only
    rw [skipNewlines_of_newlines newlines (nextIs_newline_of_body body), eq']
    rfl

/-- Without an error, lines that stop before a token are a body, which this token closes. -/
theorem body_of_lines (h : Clean (lines stop ts).items) (stops : (lines stop ts).rest = c :: rest) :
    ∃ ls, Body ts ls rest ∧ ∀ line ∈ ls, line.Valid := by
  fun_induction lines stop ts with
  | case1 => cases stops
  | case2 t ts closes =>
    cases stops
    exact ⟨[], .close closes, List.forall_mem_nil _⟩
  | case3 t ts inside first more ih =>
    obtain ⟨here, others⟩ := clean_append.1 h
    obtain ⟨ln, item, us, valid, eq, ended⟩ := spells_of_line here
    obtain ⟨ls, body, all⟩ := ih others stops
    have valid' := List.forall_mem_cons.2 ⟨valid, all⟩
    rw [show first = _ from eq] at body
    rcases ended with ⟨n, spells, newline⟩ | ⟨spells, rfl | ⟨c, us, rfl, closes⟩⟩
    · exact ⟨ln :: ls, .more spells newline (newlines_skipNewlines us) body, valid'⟩
    -- A line that ends with the text has no brace after it.
    · obtain ⟨_, _, empty, -⟩ := body.starts
      cases empty
    · dsimp only at body
      rw [skipNewlines_of_ne (by simp [closes])] at body
      obtain ⟨rfl, rfl⟩ := body.of_rbrace closes
      exact ⟨[ln], .last spells closes, valid'⟩

/-! ### Functions -/

/-- The type of a result is an item of its own, if it is given. -/
theorem resultType_of_typed (stop : Token) {n : Option TypeName} (h : Typed ts n rest)
    (valid : ∀ t ∈ n, t.Valid) (colon : nextIs .colon rest = false)
    (bracket : nextIs .lbracket rest = false) :
    ∃ items, resultType stop ts = ⟨(), items, rest⟩ ∧
      items.map meaning = (n.map (fun _ => (Effect.mention [], none))).toList := by
  obtain ⟨T, eq, same⟩ := typeAfterColon_of_typed stop h valid colon bracket
  unfold resultType
  rw [eq]
  refine ⟨_, rfl, ?_⟩
  cases n with
  | none =>
    obtain rfl := Option.isSome_eq_false_iff.1 same |> Option.isNone_iff_eq_none.1
    rfl
  | some n =>
    obtain ⟨T, rfl⟩ := Option.isSome_iff_exists.1 same
    rfl

theorem typed_of_resultType (h : Clean (resultType stop ts).items) :
    ∃ n items rest, Typed ts n rest ∧ (∀ t ∈ n, t.Valid) ∧
      resultType stop ts = ⟨(), items, rest⟩ := by
  obtain ⟨n, T, rest, typed, valid, -, -, eq⟩ := typed_of_typeAfterColon (clean_append.1 h).1
  unfold resultType
  rw [eq]
  exact ⟨n, _, rest, typed, valid, rfl⟩

theorem openBody_of_kind (opens : t.kind = .lbrace) : openBody stop (t :: ts) = ⟨(), [], ts⟩ := by
  unfold openBody
  rw [expect_of_kind opens]
  rfl

/-- A valid definition is read to its end, and its items have its meanings in order. -/
theorem function_of_spells (stop : Token) {f : Token} {d : Definition}
    (h : Definition.Spells (f :: ts) d rest) (valid : d.Valid) :
    ∃ items, function stop ts = ⟨(), items, rest⟩ ∧ items.map meaning = d.meanings := by
  cases h with
  | @mk _ name o _ us vs ws _ ps n ls _ ident params result opens newlines body =>
    obtain ⟨given, eqp, meanp⟩ := params_of_spells stop params valid.params
    obtain ⟨res, eqr, meanr⟩ := resultType_of_typed stop result valid.result
      (by simp [nextIs, opens]) (by simp [nextIs, opens])
    obtain ⟨c, inside, eqb, closes, meanb⟩ := lines_of_body stop body valid.body
    have stops := nextIs_newline_of_body body
    refine ⟨.function name :: (given ++ res ++ [] ++ inside ++ []), ?_, ?_⟩
    · simp only [function, accept?_of_kind ident, eqp, eqr, openBody_of_kind opens,
        skipNewlines_of_newlines newlines stops, eqb, expect_of_kind closes]
    · simp only [List.map_cons, List.map_append, List.append_nil, meanp, meanr, meanb]
      rfl

/-- Without an error a function has all the parts of a definition, and they are valid. -/
theorem spells_of_function {f : Token} (func : f.kind = .func)
    (h : Clean (function stop ts).items) :
    ∃ d, Definition.Spells (f :: ts) d (function stop ts).rest ∧ d.Valid := by
  unfold function at h ⊢
  split at h
  · exact absurd h not_clean_error
  next name us found =>
  obtain ⟨rfl, ident⟩ := accept?_eq_some found
  dsimp only at h ⊢
  have parts := show Clean _ from fun bad => h (List.mem_cons_of_mem _ bad)
  simp only [clean_append] at parts
  obtain ⟨⟨⟨⟨cleanp, cleanr⟩, cleano⟩, cleanb⟩, cleanc⟩ := parts
  obtain ⟨ps, params, validp⟩ := spells_of_params cleanp
  obtain ⟨n, res, vs, typed, validr, eqr⟩ := typed_of_resultType cleanr
  rw [eqr] at cleano cleanb cleanc ⊢
  obtain ⟨o, ws, rfl, opens⟩ := kind_of_expect cleano
  rw [openBody_of_kind opens] at cleanb cleanc ⊢
  obtain ⟨c, rest, stops, closes⟩ := kind_of_expect cleanc
  obtain ⟨ls, body, validb⟩ := body_of_lines cleanb stops
  rw [stops, expect_of_kind closes]
  exact ⟨⟨name, ps, n, ls⟩, .mk func ident params typed opens (newlines_skipNewlines ws) body,
    ⟨validp, validr, validb⟩⟩

theorem nextIs_newline_of_definitions {ds : List Definition} (h : Definitions ts ds) :
    nextIs .newline ts = false := by
  rcases h.starts with rfl | ⟨t, us, rfl, func⟩
  · rfl
  · simp [nextIs, func]

/-- A text of valid definitions is read as what they mean, one after the other. -/
theorem meanings_of_definitions (stop : Token) {ds : List Definition} (h : Definitions ts ds)
    (valid : ∀ d ∈ ds, d.Valid) :
    (functions stop ts).map meaning = ds.flatMap Definition.meanings := by
  induction h with
  | done => rw [functions]; rfl
  | @more ts us vs d ds spells newlines rest ih =>
    obtain ⟨first, others⟩ := List.forall_mem_cons.1 valid
    have func : ∃ f fs, ts = f :: fs ∧ f.kind = .func := by
      cases spells with
      | mk func _ _ _ _ _ _ => exact ⟨_, _, rfl, func⟩
    obtain ⟨f, fs, rfl, func⟩ := func
    obtain ⟨items, eq, meanings⟩ := function_of_spells stop spells first
    rw [functions, if_pos func, eq]
    dsimp only
    rw [skipNewlines_of_newlines newlines (nextIs_newline_of_definitions rest), List.map_append,
      meanings, ih others]
    rfl

theorem effects_of_definitions (stop : Token) {ds : List Definition} (h : Definitions ts ds)
    (valid : ∀ d ∈ ds, d.Valid) :
    (functions stop ts).map effect = ds.flatMap Definition.effects := by
  calc (functions stop ts).map effect
      = ((functions stop ts).map meaning).map Prod.fst := by rw [List.map_map]; rfl
    _ = ds.flatMap Definition.effects := by
      rw [meanings_of_definitions stop h valid, List.map_flatMap]
      simp only [Definition.map_fst_meanings]

/-- A text that is read without an error is made of valid definitions. -/
theorem definitions_of_clean (h : Clean (functions stop ts)) :
    ∃ ds, Definitions ts ds ∧ ∀ d ∈ ds, d.Valid := by
  fun_induction functions stop ts with
  | case1 => exact ⟨[], .done, List.forall_mem_nil _⟩
  | case2 t ts func f ih =>
    obtain ⟨here, others⟩ := clean_append.1 h
    obtain ⟨d, spells, valid⟩ := spells_of_function func here
    obtain ⟨ds, rest, all⟩ := ih others
    exact ⟨d :: ds, .more spells (newlines_skipNewlines _) rest,
      List.forall_mem_cons.2 ⟨valid, all⟩⟩
  | case3 => exact absurd h not_clean_error

end Reader

end RegColor
