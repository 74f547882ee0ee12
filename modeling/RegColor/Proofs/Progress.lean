import RegColor.Proofs.Scopes

/-!
# Reading comes to an end

A reader takes tokens from the front of what it gets, and the names that it puts into items are
among them (`Reader.Reads`). The loops over functions and
over the lines of a body take at least one token in every round, whatever the tokens are, so they
end (`Reader.Loops`).

A function is started only where a name follows the keyword (`Reader.Loops.infix_of_function`). All
such names are declared before anything is read, and no item takes a name back, so the symbol of a
function is known when it is started.

* `Builder.changes_ofTokens`: what is built has sized types and the names among the tokens;
* `Listing.ofTokens_progress`: both loops end, and every function that is started is known.
-/

namespace RegColor

/-- Whether a type can be laid out: an array has a positive length. -/
def DataType.isSized : DataType → Bool
  | .scalar _ => true
  | .array _ n => 0 < n

/-- Whether an item can stand inside a function: it starts none, and its types are sized. -/
def Item.isPart : Item → Bool
  | .function _ => false
  | item => item.types.all DataType.isSized

namespace Reader

/-! ## What readers take -/

/-- The names among tokens. -/
def idents (ts : List Token) : List String := (ts.filter (·.kind = .ident)).map Token.value

theorem mem_idents {ts : List Token} {n : String} :
    n ∈ idents ts ↔ ∃ t ∈ ts, t.kind = .ident ∧ t.value = n := by
  simp [idents, and_assoc]

theorem subset_idents {ts : List Token} {t : Token} (ident : t.kind = .ident) :
    [t.value] ⊆ idents (t :: ts) := by
  simp [idents, ident]

theorem idents_subset {ts us : List Token} (h : us.Sublist ts) : idents us ⊆ idents ts :=
  ((h.filter _).map _).subset

/-- A reader has gone from some tokens to the last of them, and the items that it has met stand
inside a function and take their names from the tokens. -/
structure Reads (ts : List Token) (items : List Item) (rest : List Token) : Prop where
  rest : rest <:+ ts
  parts : ∀ item ∈ items, item.isPart = true
  names : ∀ item ∈ items, item.names ⊆ idents ts

section Reads

variable {ts us rest : List Token} {items items' : List Item} {t : Token} {item : Item}

theorem Reads.nothing (h : rest <:+ ts) : Reads ts [] rest :=
  ⟨h, List.forall_mem_nil _, List.forall_mem_nil _⟩

theorem Reads.single (h : rest <:+ ts) (part : item.isPart = true)
    (names : item.names ⊆ idents ts) : Reads ts [item] rest :=
  ⟨h, List.forall_mem_singleton.2 part, List.forall_mem_singleton.2 names⟩

theorem Reads.error (h : rest <:+ ts) (e : ParseError) : Reads ts [.error e] rest :=
  .single h rfl (List.nil_subset _)

theorem Reads.append (h : Reads ts items us) (h' : Reads us items' rest) :
    Reads ts (items ++ items') rest where
  rest := h'.rest.trans h.rest
  parts := List.forall_mem_append.2 ⟨h.parts, h'.parts⟩
  names := List.forall_mem_append.2
    ⟨h.names, fun item mem => List.Subset.trans (h'.names item mem) (idents_subset h.rest.sublist)⟩

theorem Reads.cons (h : Reads ts items rest) (t : Token) : Reads (t :: ts) items rest :=
  .append (.nothing (List.suffix_cons t ts)) h

theorem Reads.to (h : Reads ts items us) (later : rest <:+ us) : Reads ts items rest :=
  ⟨later.trans h.rest, h.parts, h.names⟩

theorem Reads.and_item (h : Reads ts items rest) (part : item.isPart = true)
    (names : item.names ⊆ idents ts) : Reads ts (items ++ [item]) rest where
  rest := h.rest
  parts := List.forall_mem_append.2 ⟨h.parts, List.forall_mem_singleton.2 part⟩
  names := List.forall_mem_append.2 ⟨h.names, List.forall_mem_singleton.2 names⟩

end Reads

theorem suffix_skipNewlines (ts : List Token) : skipNewlines ts <:+ ts := List.dropWhile_suffix _

theorem suffix_nextLine (ts : List Token) : nextLine ts <:+ ts :=
  (List.tail_suffix _).trans (List.dropWhile_suffix _)

section Readers

variable (stop : Token)

theorem reads_unexpected (what : Expected) (ts : List Token) :
    Reads ts [unexpected stop what ts] ts :=
  .error List.suffix_rfl _

theorem reads_expect (kind : TokenKind) (what : Expected) (ts : List Token) :
    Reads ts (expect stop kind what ts).items (expect stop kind what ts).rest := by
  unfold expect
  split
  · next found =>
    obtain ⟨rfl, -⟩ := accept?_eq_some found
    exact .nothing (List.suffix_cons ..)
  · exact reads_unexpected stop what ts

theorem reads_arrayType (elem : ScalarType) (ts : List Token) :
    Reads ts (arrayType stop elem ts).items (arrayType stop elem ts).rest := by
  unfold arrayType
  split
  · exact reads_unexpected stop _ ts
  · next t ts found =>
    obtain ⟨rfl, -⟩ := accept?_eq_some found
    have bad : Reads (t :: ts) [.error (.atToken t (.badLength t.value))] ts :=
      .error (List.suffix_cons ..) _
    dsimp only
    split
    · exact bad
    · split
      · exact (reads_expect stop _ _ ts).cons t
      · exact bad

theorem reads_type (ts : List Token) : Reads ts (type stop ts).items (type stop ts).rest := by
  unfold type
  split
  · exact reads_unexpected stop _ ts
  · next t ts found =>
    obtain ⟨rfl, -⟩ := accept?_eq_some found
    split
    · exact .error (List.suffix_cons ..) _
    · split
      · exact .nothing (List.suffix_cons ..)
      · next u us bracket =>
        obtain ⟨rfl, -⟩ := accept?_eq_some bracket
        exact ((reads_arrayType stop _ us).cons u).cons t

theorem isSized_type {ts : List Token} {T : DataType} (h : T ∈ (type stop ts).value) :
    T.isSized = true := by
  unfold type at h
  split at h
  · cases h
  · split at h
    · cases h
    · split at h
      · cases h
        rfl
      · unfold arrayType at h
        split at h
        · cases h
        · dsimp only at h
          split at h
          · cases h
          · split at h
            · next pos =>
              cases h
              exact decide_eq_true pos
            · cases h

theorem isSized_typeAfterColon {ts : List Token} {T : DataType}
    (h : T ∈ (typeAfterColon stop ts).value) : T.isSized = true := by
  unfold typeAfterColon at h
  split at h
  · cases h
  · exact isSized_type stop h

theorem isSized_paramType (ts : List Token) :
    ((typeAfterColon stop ts).value.getD defaultType).isSized = true := by
  cases found : (typeAfterColon stop ts).value with
  | none => rfl
  | some T => exact isSized_typeAfterColon stop found

theorem reads_typeAfterColon (ts : List Token) :
    Reads ts (typeAfterColon stop ts).items (typeAfterColon stop ts).rest := by
  unfold typeAfterColon
  split
  · exact .nothing List.suffix_rfl
  · next t ts found =>
    obtain ⟨rfl, -⟩ := accept?_eq_some found
    exact (reads_type stop ts).cons t

theorem reads_paramList (ts : List Token) :
    Reads ts (paramList stop ts).items (paramList stop ts).rest := by
  have part {t : Token} (ts : List Token) :
      (Item.param t ((typeAfterColon stop ts).value.getD defaultType)).isPart = true := by
    simp [Item.isPart, Item.types, isSized_paramType]
  have first {t : Token} (ident : t.kind = .ident) (ts : List Token) :
      Reads (t :: ts) ((typeAfterColon stop ts).items ++
        [.param t ((typeAfterColon stop ts).value.getD defaultType)])
        (typeAfterColon stop ts).rest :=
    ((reads_typeAfterColon stop ts).cons t).and_item (part ts) (subset_idents ident)
  fun_induction paramList stop ts with
  | case1 ts => exact reads_unexpected stop _ ts
  | case2 ts t ts' found ty items u rest comma more ih =>
    obtain ⟨rfl, ident⟩ := accept?_eq_some found
    have first : Reads (t :: ts') items (u :: rest) := by
      rw [← (accept?_eq_some comma).1]
      exact first ident ts'
    exact first.append (ih.cons u)
  | case3 ts t ts' found ty items _ close =>
    obtain ⟨rfl, ident⟩ := accept?_eq_some found
    exact (first ident ts').append (reads_expect stop _ _ ty.rest)

theorem reads_params (ts : List Token) :
    Reads ts (params stop ts).items (params stop ts).rest := by
  unfold params
  split
  · exact reads_unexpected stop _ ts
  · next t ts found =>
    obtain ⟨rfl, -⟩ := accept?_eq_some found
    split
    · next u us close =>
      obtain ⟨rfl, -⟩ := accept?_eq_some close
      exact (Reads.nothing (List.suffix_cons u us)).cons t
    · exact (reads_paramList stop ts).cons t

theorem reads_names (ts : List Token) : Reads ts (names stop ts).items (names stop ts).rest := by
  fun_induction names stop ts with
  | case1 ts => exact reads_unexpected stop _ ts
  | case2 ts t ts' found _ =>
    obtain ⟨rfl, -⟩ := accept?_eq_some found
    exact .nothing (List.suffix_cons ..)
  | case3 ts t ts' found u rest comma more ih =>
    obtain ⟨rfl, -⟩ := accept?_eq_some found
    obtain ⟨rfl, -⟩ := accept?_eq_some comma
    exact (ih.cons u).cons t

theorem idents_names (ts : List Token) :
    ∀ ns ∈ (names stop ts).value, ns.map Token.value ⊆ idents ts := by
  fun_induction names stop ts with
  | case1 ts => simp
  | case2 ts t ts' found _ =>
    intro ns h
    obtain ⟨rfl, ident⟩ := accept?_eq_some found
    cases h
    exact subset_idents ident
  | case3 ts t ts' found u rest comma more ih =>
    intro ns h
    obtain ⟨rfl, ident⟩ := accept?_eq_some found
    obtain ⟨rfl, -⟩ := accept?_eq_some comma
    obtain ⟨ns, later, rfl⟩ := Option.map_eq_some_iff.1 h
    have behind : rest <:+ t :: u :: rest := ⟨[t, u], rfl⟩
    refine List.cons_subset.2 ⟨?_, List.Subset.trans (ih ns later) (idents_subset behind.sublist)⟩
    exact mem_idents.2 ⟨t, List.mem_cons_self .., ident, rfl⟩

theorem reads_declaration (ts : List Token) :
    Reads ts (declaration stop ts).items (declaration stop ts).rest := by
  have named := reads_names stop ts
  have typed := named.append (reads_typeAfterColon stop (names stop ts).rest)
  unfold declaration
  dsimp only
  split
  · exact named
  · next ns given =>
    have names : ns.map Token.value ⊆ idents ts := idents_names stop ts ns given
    split
    · split
      · exact typed
      · next found =>
        have part := isSized_typeAfterColon stop found
        exact typed.and_item (by simp [Item.isPart, Item.types, part]) names
    · exact named.and_item rfl names

theorem reads_signedOperand (negative : Bool) (ts : List Token) :
    Reads ts (signedOperand stop negative ts).items (signedOperand stop negative ts).rest := by
  unfold signedOperand
  split
  · exact reads_unexpected stop _ []
  · split
    · split
      · exact .nothing (List.suffix_cons ..)
      · exact .error (List.suffix_cons ..) _
    · exact reads_unexpected stop _ _

theorem reads_operand (ts : List Token) :
    Reads ts (operand stop ts).items (operand stop ts).rest := by
  unfold operand
  split
  · next t rest found =>
    obtain ⟨rfl, -⟩ := accept?_eq_some found
    exact (reads_signedOperand stop true rest).cons t
  · exact reads_signedOperand stop false ts

theorem reads_operandList (ts : List Token) :
    Reads ts (operandList stop ts).items (operandList stop ts).rest := by
  fun_induction operandList stop ts with
  | case1 ts o _ => exact reads_operand stop ts
  | case2 ts o v _ _ => exact .nothing (reads_operand stop ts).rest
  | case3 ts o v _ u rest comma more ih =>
    have first : Reads ts [] (u :: rest) := by
      rw [← (accept?_eq_some comma).1]
      exact .nothing (reads_operand stop ts).rest
    exact first.append (ih.cons u)

/-- An operand is a name only if its token is. -/
theorem idents_signedOperand {negative : Bool} {ts : List Token} {o : Operand} {n : String}
    (h : o ∈ (signedOperand stop negative ts).value) (name : n ∈ o.name?) : n ∈ idents ts := by
  unfold signedOperand at h
  split at h
  · cases h
  · next t ts =>
    split at h
    · next operand =>
      split at h
      · next o' value =>
        cases h
        unfold operandValue at value
        split at value
        · split at value
          · cases value
          · cases value
            cases name
        · split at value
          · cases value
          · cases value
            cases name
        · next notInt notFloat =>
          split at value
          · cases value
          · cases value
            cases name
            rcases isOperand_iff.1 operand with int | float | ident
            · exact absurd int notInt
            · exact absurd float notFloat
            · exact mem_idents.2 ⟨t, List.mem_cons_self .., ident, rfl⟩
      · cases h
    · cases h

theorem idents_operand {ts : List Token} {o : Operand} {n : String}
    (h : o ∈ (operand stop ts).value) (name : n ∈ o.name?) : n ∈ idents ts := by
  unfold operand at h
  split at h
  · next t rest found =>
    obtain ⟨rfl, -⟩ := accept?_eq_some found
    exact idents_subset (List.sublist_cons_self t rest) (idents_signedOperand stop h name)
  · exact idents_signedOperand stop h name

theorem idents_operandList (ts : List Token) :
    (operandList stop ts).value.1.filterMap Operand.name? ⊆ idents ts := by
  simp only [List.subset_def, List.mem_filterMap]
  intro n named
  fun_induction operandList stop ts with
  | case1 ts o _ =>
    obtain ⟨o, mem, -⟩ := named
    cases mem
  | case2 ts o v value _ =>
    obtain ⟨o, mem, name⟩ := named
    cases List.mem_singleton.1 mem
    exact idents_operand stop value name
  | case3 ts o v value u rest comma more ih =>
    obtain ⟨o', mem, name⟩ := named
    have behind : rest <:+ ts := by
      have left := (reads_operand stop ts).rest
      rw [(accept?_eq_some comma).1] at left
      exact (List.suffix_cons u rest).trans left
    rcases List.mem_cons.1 mem with rfl | later
    · exact idents_operand stop value name
    · exact idents_subset behind.sublist (ih ⟨o', later, name⟩)

theorem reads_instruction (t : Token) (ts : List Token) :
    Reads ts (instruction stop t ts).items (instruction stop t ts).rest := by
  have operands := reads_operandList stop ts
  have names := idents_operandList stop ts
  unfold instruction
  split
  · exact .error List.suffix_rfl _
  · next op _ =>
    have abandoned : Reads ts [.abandoned op (operandList stop ts).value.1] ts :=
      .single List.suffix_rfl rfl names
    dsimp only
    split
    · exact .single List.suffix_rfl rfl (List.nil_subset _)
    · split
      · exact operands.and_item rfl names
      · exact abandoned.append operands

theorem reads_lineBody (ts : List Token) :
    Reads ts (lineBody stop ts).items (lineBody stop ts).rest := by
  unfold lineBody
  split
  · exact reads_unexpected stop _ []
  · next t ts =>
    split
    · exact (reads_declaration stop ts).cons t
    · split
      · next ident =>
        split
        · next u rest colon =>
          obtain ⟨rfl, -⟩ := accept?_eq_some colon
          have behind : rest <:+ t :: u :: rest := ⟨[t, u], rfl⟩
          exact .single behind rfl (subset_idents ident)
        · exact (reads_instruction stop t ts).cons t
      · exact reads_unexpected stop _ _

theorem reads_line (ts : List Token) : Reads ts (line stop ts).items (line stop ts).rest := by
  have body := reads_lineBody stop ts
  unfold line
  dsimp only
  split
  · split
    · next u rest found =>
      refine body.to ?_
      rw [(accept?_eq_some found).1]
      exact List.suffix_cons ..
    · split
      · exact body
      · exact (body.append (reads_unexpected stop _ _)).to (suffix_nextLine _)
  · exact body.to (suffix_nextLine _)

theorem reads_lines (ts : List Token) : Reads ts (lines stop ts).items (lines stop ts).rest := by
  fun_induction lines stop ts with
  | case1 => exact .nothing List.suffix_rfl
  | case2 t ts _ => exact .nothing List.suffix_rfl
  | case3 t ts _ first more ih =>
    exact ((reads_line stop (t :: ts)).to (suffix_skipNewlines _)).append ih

theorem reads_resultType (ts : List Token) :
    Reads ts (resultType stop ts).items (resultType stop ts).rest := by
  have typed := reads_typeAfterColon stop ts
  unfold resultType
  dsimp only
  cases found : (typeAfterColon stop ts).value with
  | none => exact typed.append (.nothing List.suffix_rfl)
  | some type =>
    have part := isSized_typeAfterColon stop found
    exact typed.and_item (by simp [Item.isPart, Item.types, part]) (List.nil_subset _)

theorem reads_openBody (ts : List Token) :
    Reads ts (openBody stop ts).items (openBody stop ts).rest := by
  have brace := reads_expect stop .lbrace .openBody ts
  unfold openBody
  dsimp only
  split
  · exact brace
  · exact brace.to (suffix_nextLine _)

/-- A function is an error, or its name and parts. -/
theorem function_cases (ts : List Token) :
    (∃ e, (function stop ts).items = [.error e] ∧ (function stop ts).rest <:+ ts) ∨
      ∃ name us parts, ts = name :: us ∧ name.kind = .ident ∧
        (function stop ts).items = .function name :: parts ∧
        Reads us parts (function stop ts).rest := by
  unfold function
  split
  · exact .inl ⟨_, rfl, suffix_nextLine ts⟩
  · next name us found =>
    obtain ⟨rfl, ident⟩ := accept?_eq_some found
    have header := ((reads_params stop us).append (reads_resultType stop _)).append
      (reads_openBody stop _)
    have body := (header.to (suffix_skipNewlines _)).append (reads_lines stop _)
    exact .inr ⟨name, us, _, rfl, ident, rfl, body.append (reads_expect stop .rbrace .closeBody _)⟩

/-! ## Loops -/

/-- A round of the loop over functions. There is none to make when no token is left. -/
def functionRound : List Token → Option (Step Unit)
  | [] => none
  | t :: ts =>
    if t.kind = .func then
      let f := function stop ts
      some ⟨(), f.items, skipNewlines f.rest⟩
    else some ⟨(), [unexpected stop .func (t :: ts)], skipNewlines (nextLine (t :: ts))⟩

/-- A round of the loop over the lines of a body. There is none to make at a closing brace. -/
def lineRound : List Token → Option (Step Unit)
  | [] => none
  | t :: ts =>
    if t.kind = .rbrace then none
    else
      let first := line stop (t :: ts)
      some ⟨(), first.items, skipNewlines first.rest⟩

end Readers

/-- A number of rounds, made one after the other until there is none to make, each of which takes at
least one token: from some tokens to the rest of them, meeting items. -/
inductive Loops (round : List Token → Option (Step Unit)) :
    Nat → List Token → List Item → List Token → Prop
  | done {ts : List Token} : round ts = none → Loops round 0 ts [] ts
  | next {n : Nat} {ts taken rest : List Token} {s : Step Unit} {items : List Item} :
    round ts = some s → ts = taken ++ s.rest → taken ≠ [] → Loops round n s.rest items rest →
    Loops round (n + 1) ts (s.items ++ items) rest

section Loops

variable {stop : Token} {round : List Token → Option (Step Unit)} {n : Nat} {ts rest : List Token}
  {items : List Item} {s : Step Unit}

theorem Loops.next_of_suffix {t : Token} (made : round (t :: ts) = some s) (left : s.rest <:+ ts)
    (later : Loops round n s.rest items rest) :
    Loops round (n + 1) (t :: ts) (s.items ++ items) rest := by
  obtain ⟨taken, split⟩ := left
  exact .next made (by rw [List.cons_append, split]) (List.cons_ne_nil t taken) later

/-- There are no more rounds than tokens. -/
theorem Loops.rounds_le (h : Loops round n ts items rest) : n ≤ ts.length := by
  induction h with
  | done => exact Nat.zero_le _
  | @next n ts taken rest s items _ split nonempty _ ih =>
    have := List.length_pos_iff.2 nonempty
    rw [split, List.length_append]
    omega

theorem suffix_of_function (ts : List Token) : (function stop ts).rest <:+ ts := by
  rcases function_cases stop ts with ⟨e, -, rest⟩ | ⟨name, us, parts, rfl, -, -, reads⟩
  · exact rest
  · exact (reads.cons name).rest

/-- A reader that leaves fewer tokens has taken the first one. -/
theorem suffix_of_suffix_cons {t : Token} (h : rest <:+ t :: ts)
    (lt : rest.length < (t :: ts).length) : rest <:+ ts := by
  rcases List.suffix_cons_iff.1 h with rfl | suffix
  · exact absurd lt (Nat.lt_irrefl _)
  · exact suffix

theorem loops_functions (stop : Token) (ts : List Token) :
    ∃ n, Loops (functionRound stop) n ts (functions stop ts) [] := by
  fun_induction functions stop ts with
  | case1 => exact ⟨0, .done rfl⟩
  | case2 t ts kind f ih =>
    obtain ⟨n, later⟩ := ih
    let s : Step Unit := ⟨(), f.items, skipNewlines f.rest⟩
    have made : functionRound stop (t :: ts) = some s := if_pos kind
    have left : s.rest <:+ ts := (suffix_skipNewlines _).trans (suffix_of_function ts)
    exact ⟨n + 1, .next_of_suffix (s := s) made left later⟩
  | case3 t ts kind ih =>
    obtain ⟨n, later⟩ := ih
    let s : Step Unit :=
      ⟨(), [unexpected stop .func (t :: ts)], skipNewlines (nextLine (t :: ts))⟩
    have made : functionRound stop (t :: ts) = some s := if_neg kind
    have line : nextLine (t :: ts) <:+ ts :=
      suffix_of_suffix_cons (suffix_nextLine _) (length_nextLine_lt (List.cons_ne_nil t ts))
    exact ⟨n + 1, .next_of_suffix made ((suffix_skipNewlines _).trans line) later⟩

theorem loops_lines (stop : Token) (ts : List Token) :
    ∃ n, Loops (lineRound stop) n ts (lines stop ts).items (lines stop ts).rest := by
  fun_induction lines stop ts with
  | case1 => exact ⟨0, .done rfl⟩
  | case2 t ts brace => exact ⟨0, .done (if_pos brace)⟩
  | case3 t ts brace first more ih =>
    obtain ⟨n, later⟩ := ih
    let s : Step Unit := ⟨(), first.items, skipNewlines first.rest⟩
    have made : lineRound stop (t :: ts) = some s := if_neg brace
    have line : first.rest <:+ ts := suffix_of_suffix_cons (reads_line stop (t :: ts)).rest
      (length_line_lt stop (List.cons_ne_nil t ts))
    exact ⟨n + 1, .next_of_suffix (s := s) made ((suffix_skipNewlines _).trans line) later⟩

/-- A round starts a function only with a name right after the keyword. -/
theorem infix_of_functionRound {u : Token} (made : functionRound stop ts = some s)
    (mem : .function u ∈ s.items) : ∃ t, t.kind = .func ∧ u.kind = .ident ∧ [t, u] <:+: ts := by
  cases ts with
  | nil => cases made
  | cons t ts =>
    simp only [functionRound] at made
    split at made
    · next func =>
      cases made
      rcases function_cases stop ts with ⟨e, items, -⟩ | ⟨name, us, parts, rfl, ident, items, reads⟩
      · rw [items] at mem
        cases List.mem_singleton.1 mem
      · rw [items] at mem
        rcases List.mem_cons.1 mem with same | part
        · cases same
          exact ⟨t, func, ident, [], us, rfl⟩
        · cases reads.parts _ part
    · cases made
      cases List.mem_singleton.1 mem

theorem Loops.infix_of_function {u : Token} (h : Loops (functionRound stop) n ts items rest)
    (mem : .function u ∈ items) : ∃ t, t.kind = .func ∧ u.kind = .ident ∧ [t, u] <:+: ts := by
  induction h with
  | done => cases mem
  | @next n ts taken rest s items made split _ _ ih =>
    rcases List.mem_append.1 mem with here | later
    · exact infix_of_functionRound made here
    · obtain ⟨t, func, ident, pair⟩ := ih later
      rw [split]
      exact ⟨t, func, ident, pair.trans (List.suffix_append taken s.rest).isInfix⟩

/-! ### Types and names -/

/-- What is read from tokens has sized types, and names that are among the tokens. -/
def terms (ts : List Token) : Terms := ⟨(·.isSized = true), (· ∈ idents ts)⟩

theorem within_of_isPart {item : Item} (part : item.isPart = true)
    (names : item.names ⊆ idents ts) : item.Within (terms ts) where
  types := by
    cases item with
    | function name => cases part
    | _ => exact List.all_eq_true.1 part
  names _ mem := names mem

theorem within_of_sublist {item : Item} {us : List Token} (h : us.Sublist ts)
    (within : item.Within (terms us)) : item.Within (terms ts) :=
  ⟨within.types, fun n mem => idents_subset h (within.names n mem)⟩

theorem within_functionRound (made : functionRound stop ts = some s) :
    ∀ item ∈ s.items, item.Within (terms ts) := by
  have error (us : List Token) (e : ParseError) : ∀ item ∈ [Item.error e], item.Within (terms us) :=
    List.forall_mem_singleton.2 ⟨List.forall_mem_nil _, List.forall_mem_nil _⟩
  cases ts with
  | nil => cases made
  | cons t ts =>
    simp only [functionRound] at made
    split at made
    · cases made
      rcases function_cases stop ts with ⟨e, here, -⟩ | ⟨name, us, parts, rfl, ident, here, reads⟩
      · rw [here]
        exact error _ e
      · rw [here]
        have named : name.value ∈ idents (t :: name :: us) :=
          mem_idents.2 ⟨name, by simp, ident, rfl⟩
        have behind : us.Sublist (t :: name :: us) := by simp
        refine List.forall_mem_cons.2 ⟨⟨List.forall_mem_nil _, ?_⟩, fun item mem => ?_⟩
        · exact List.forall_mem_singleton.2 named
        · exact within_of_sublist behind
            (within_of_isPart (reads.parts item mem) (reads.names item mem))
    · cases made
      exact error _ _

theorem Loops.within (h : Loops (functionRound stop) n ts items rest) :
    ∀ item ∈ items, item.Within (terms ts) := by
  induction h with
  | done => exact List.forall_mem_nil _
  | @next n ts taken rest s items made split _ _ ih =>
    have left : s.rest.Sublist ts := split ▸ List.sublist_append_right taken s.rest
    refine List.forall_mem_append.2 ⟨within_functionRound made, fun item mem => ?_⟩
    exact within_of_sublist left (ih item mem)

end Loops

end Reader

namespace Builder

/-- Whatever the tokens, they make changes with sized types and with the names among them. -/
theorem changes_ofTokens (w : Int) (tokens : List Token) :
    Changes (Reader.terms tokens) { wordSize := w } (after w tokens (Item.ofTokens tokens)) := by
  obtain ⟨n, loops⟩ := Reader.loops_functions (Item.endToken tokens)
    (Reader.skipNewlines (tokens.takeWhile (·.kind ≠ .eof)))
  have inside : (Reader.skipNewlines (tokens.takeWhile (·.kind ≠ .eof))).Sublist tokens :=
    (List.dropWhile_sublist _).trans (List.takeWhile_sublist _)
  refine changes_after_of_terms w (fun t mem ident => ?_) fun item mem => ?_
  · exact Reader.mem_idents.2 ⟨t, mem, ident, rfl⟩
  · exact Reader.within_of_sublist inside (loops.within item mem)

/-! ## Names of functions -/

/-- Every name after the keyword of functions is declared. -/
theorem lookup_declareFunctions {b : Builder} {tokens : List Token} {t u : Token}
    (func : t.kind = .func) (ident : u.kind = .ident) (pair : [t, u] <:+: tokens) :
    ∃ s, (b.declareFunctions tokens).functions.lookup u.value = some s := by
  fun_induction declareFunctions b tokens with
  | case1 => simp at pair
  | case2 => exact absurd pair.length_le (by simp)
  | case3 b t' u' ts kinds ih =>
    rcases List.infix_cons_iff.1 pair with here | later
    · obtain ⟨rfl, rfl⟩ : t = t' ∧ u = u' := by simpa using here
      have steps : Changes .any _ _ := changes_declareFunctions (b.functionSymbol u.value).1
        (u :: ts) fun _ _ _ => trivial
      exact ⟨_, steps.kept.functions _ _ (finds_functionSymbol b u.value).2⟩
    · exact ih later
  | case4 b t' u' ts kinds ih =>
    rcases List.infix_cons_iff.1 pair with here | later
    · obtain ⟨rfl, rfl⟩ : t = t' ∧ u = u' := by simpa using here
      exact absurd ⟨func, ident⟩ kinds
    · exact ih later

end Builder

/-- Reading any tokens at all comes to an end. The loop over functions and the loop over the lines
of a body make at most as many rounds as there are tokens before the first end token, each of which
takes a token. When a function is started, its name is known, as that of a function. -/
theorem Listing.ofTokens_progress (w : Int) (tokens : List Token) :
    let front := tokens.takeWhile (·.kind ≠ .eof)
    let stop := Item.endToken tokens
    (∃ n ≤ front.length, Reader.Loops (Reader.functionRound stop) n (Reader.skipNewlines front)
      (Item.ofTokens tokens) []) ∧
      (∀ ts, ∃ n ≤ ts.length, Reader.Loops (Reader.lineRound stop) n ts
        (Reader.lines stop ts).items (Reader.lines stop ts).rest) ∧
      ∀ before t later, Item.ofTokens tokens = before ++ .function t :: later →
        ∃ s, (Builder.after w tokens before).functions.lookup t.value = some s ∧
          ((Builder.after w tokens before).listing.symbol s).kind = .function := by
  intro front stop
  obtain ⟨n, loops⟩ : ∃ n, Reader.Loops (Reader.functionRound stop) n (Reader.skipNewlines front)
    (Item.ofTokens tokens) [] := Reader.loops_functions stop _
  refine ⟨⟨n, ?_, loops⟩, fun ts => ?_, fun before t later items => ?_⟩
  · exact Nat.le_trans loops.rounds_le (Reader.length_skipNewlines_le front)
  · obtain ⟨n, loops⟩ := Reader.loops_lines stop ts
    exact ⟨n, loops.rounds_le, loops⟩
  · obtain ⟨k, func, ident, pair⟩ := loops.infix_of_function (u := t) (by simp [items])
    have inside : Reader.skipNewlines front <:+: tokens :=
      (Reader.suffix_skipNewlines front).isInfix.trans (List.takeWhile_prefix _).isInfix
    obtain ⟨s, declared⟩ := Builder.lookup_declareFunctions (b := { wordSize := w }) func ident
      (pair.trans inside)
    have found := (Builder.changes_addAll _ before).kept.functions _ _ declared
    obtain ⟨tables, h⟩ := Builder.exists_scoped_after w tokens before
    exact ⟨s, found, (h.resolves (.function t.value) s found).2.kind⟩

end RegColor
