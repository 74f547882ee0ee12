import RegColor.Proofs.Naming

/-!
# Texts without errors

The tokens of a text end with an end token, the only one (`tokens_tokenize`), so a reader gets all
of them. With what readers and builders do, this gives the texts that have no errors: those that
follow the grammar, make sense phrase by phrase and keep names apart.
-/

namespace RegColor

/-! ## The end of a text -/

namespace Scan

theorem number_kind (c : Char) (cs : List Char) :
    (number c cs).1 = .int ∨ (number c cs).1 = .float := by
  unfold number
  split
  · exact .inl rfl
  · exact .inl rfl
  · dsimp only
    split
    · exact .inl rfl
    · exact .inr rfl

theorem wordKind_mem (word : String) : wordKind word ∈ [.func, .var, .ident] := by
  unfold wordKind
  split
  · simp
  · split <;> simp

theorem delimiter?_mem {c : Char} {kind : TokenKind} (h : delimiter? c = some kind) :
    kind ∈ [.lparen, .rparen, .lbrace, .rbrace, .lbracket, .rbracket, .colon, .comma, .minus] := by
  unfold delimiter? at h
  split at h <;> cases h <;> simp

/-- A lexeme is a number, a word up to its end, or a delimiter. -/
theorem lexeme?_cases {c : Char} {cs more : List Char} {kind : TokenKind}
    (h : lexeme? c cs = some (kind, more)) :
    (c.isDigit = true ∧ (kind = .int ∨ kind = .float)) ∨
      (isNameStart c = true ∧ more = cs.takeWhile isNamePart ∧
        kind = wordKind (String.ofList (c :: more))) ∨
      delimiter? c = some kind := by
  unfold lexeme? at h
  split at h
  · next digit =>
    have same : (number c cs).1 = kind := congrArg Prod.fst (Option.some.inj h)
    exact .inl ⟨digit, same ▸ number_kind c cs⟩
  · split at h
    · next start =>
      cases h
      exact .inr (.inl ⟨start, rfl, rfl⟩)
    · obtain ⟨kind, found, same⟩ := Option.map_eq_some_iff.1 h
      cases same
      exact .inr (.inr found)

theorem collapse_sublist (after : Bool) (ts : List Token) : (collapse after ts).Sublist ts := by
  fun_induction collapse after ts with
  | case1 => exact .slnil
  | case2 t ts _ ih => exact ih.cons_cons t
  | case3 _ t ts _ _ ih => exact ih.cons t
  | case4 _ t ts _ ih => exact ih.cons_cons t

end Scan

/-- A token is a line break, or what the scanner makes of some characters. -/
def Token.Lexed (t : Token) : Prop :=
  t.kind = .newline ∨ ∃ c cs more, Scan.lexeme? c cs = some (t.kind, more) ∧
    t.value = String.ofList (c :: more)

theorem Token.Lexed.ne_eof {t : Token} (h : t.Lexed) : t.kind ≠ .eof := by
  rcases h with newline | ⟨c, cs, more, found, -⟩
  · rw [newline]
    nofun
  · rcases Scan.lexeme?_cases found with ⟨-, number | number⟩ | ⟨-, -, word⟩ | delimiter
    · rw [number]
      nofun
    · rw [number]
      nofun
    · rintro eof
      have mem := Scan.wordKind_mem (String.ofList (c :: more))
      rw [← word, eof] at mem
      simp at mem
    · rintro eof
      have mem := Scan.delimiter?_mem delimiter
      rw [eof] at mem
      simp at mem

/-- What holds of every line break and of every lexeme holds of all tokens that the scanner
finds. -/
theorem Scan.forall_token_of_scan {P : Token → Prop}
    (newline : ∀ line column, P ⟨.newline, "\n", line, column⟩)
    (lexeme : ∀ {c cs kind more} line column, lexeme? c cs = some (kind, more) →
      P ⟨kind, String.ofList (c :: more), line, column⟩)
    {line column : Int} {cs : List Char} {t : Token} (h : .token t ∈ (scan line column cs).1) :
    P t := by
  fun_induction scan line column cs with
  | case1 => cases h
  | case2 line column cs ps stop eq ih =>
    rw [eq] at ih
    rcases List.mem_cons.1 h with same | later
    · cases same
      exact newline line column
    · exact ih later
  | case3 line column c cs _ _ ih => exact ih h
  | case4 line column cs _ _ ih => exact ih h
  | case5 line column c cs _ _ _ _ more ih => exact ih h
  | case6 line column c cs _ _ _ _ kind more found ps stop eq ih =>
    rw [eq] at ih
    rcases List.mem_cons.1 h with same | later
    · cases same
      exact lexeme line column found
    · exact ih later
  | case7 line column c cs _ _ _ _ _ ps stop eq ih =>
    rw [eq] at ih
    rcases List.mem_cons.1 h with same | later
    · cases same
    · exact ih later

/-- The last token of a text is the end, and the others are line breaks and lexemes. -/
theorem forall_token_of_tokenize {P : Token → Prop}
    (newline : ∀ line column, P ⟨.newline, "\n", line, column⟩)
    (lexeme : ∀ {c cs kind more} line column, Scan.lexeme? c cs = some (kind, more) →
      P ⟨kind, String.ofList (c :: more), line, column⟩) (source : List Char) :
    ∃ ts e, (tokenize source).tokens = ts ++ [e] ∧ e.kind = .eof ∧ ∀ t ∈ ts, P t := by
  refine ⟨_, _, rfl, rfl, fun t mem => ?_⟩
  have raw := (Scan.collapse_sublist ..).subset mem
  rcases List.mem_append.1 raw with piece | last
  · obtain ⟨p, mem, token⟩ := List.mem_filterMap.1 piece
    cases p with
    | token t' =>
      cases token
      exact Scan.forall_token_of_scan newline lexeme mem
    | unknown e => cases token
  · rw [List.mem_singleton.1 last]
    exact newline ..

/-- The last token of a text is the end, and the scanner made the others. -/
theorem lexed_tokenize (source : List Char) :
    ∃ ts e, (tokenize source).tokens = ts ++ [e] ∧ e.kind = .eof ∧ ∀ t ∈ ts, t.Lexed :=
  forall_token_of_tokenize (fun _ _ => .inl rfl) (fun _ _ found => .inr ⟨_, _, _, found, rfl⟩)
    source

/-- The last token of a text is the end, and there is no end before it. -/
theorem tokens_tokenize (source : List Char) :
    ∃ ts e, (tokenize source).tokens = ts ++ [e] ∧ e.kind = .eof ∧ ∀ t ∈ ts, t.kind ≠ .eof := by
  obtain ⟨ts, e, tokens, ends, lexed⟩ := lexed_tokenize source
  exact ⟨ts, e, tokens, ends, fun t mem => (lexed t mem).ne_eof⟩

/-! ## Accepted texts -/

namespace Listing

open Grammar

/-- A reader gets all tokens before the end. -/
theorem items_ofTokens {ts : List Token} {e : Token} (ends : e.kind = .eof)
    (inside : ∀ t ∈ ts, t.kind ≠ .eof) :
    Item.ofTokens (ts ++ [e]) =
      Reader.functions (Item.endToken (ts ++ [e])) (Reader.skipNewlines ts) := by
  rw [Item.ofTokens, List.takeWhile_append_of_pos (by simpa using inside)]
  simp [ends]

theorem errors_ofTokens_iff (w : Int) {ts : List Token} {e : Token} (ends : e.kind = .eof)
    (inside : ∀ t ∈ ts, t.kind ≠ .eof) :
    (ofTokens w (ts ++ [e])).2 = [] ↔
      ∃ ds, Source ts ds ∧ (∀ d ∈ ds, d.Valid) ∧ (∀ d ∈ ds, d.WellNamed) ∧
        (ds.map (·.name.value)).Nodup := by
  obtain ⟨tracks, errors⟩ := (Builder.tracks_start w).declareFunctions (ts ++ [e])
  refine (tracks.addAll errors _).trans ?_
  rw [items_ofTokens ends inside]
  constructor
  · intro allowed
    obtain ⟨ds, definitions, valid⟩ :=
      Reader.definitions_of_clean (Effect.fail_notMem_of_allAllowed allowed)
    rw [Reader.effects_of_definitions _ definitions valid, allAllowed_definitions] at allowed
    exact ⟨ds, ⟨_, Reader.newlines_skipNewlines ts, definitions⟩, valid, allowed.2.2, allowed.1⟩
  · rintro ⟨ds, ⟨us, newlines, definitions⟩, valid, named, distinct⟩
    have stops := Reader.nextIs_newline_of_definitions definitions
    rw [Reader.skipNewlines_of_newlines newlines stops,
      Reader.effects_of_definitions _ definitions valid, allAllowed_definitions]
    exact ⟨distinct, fun _ _ => List.not_mem_nil, named⟩

/-- A text is read without errors if and only if its tokens, but for the end, follow the grammar,
each phrase makes sense and each name is introduced once. -/
theorem ofTokens_accepts_iff (w : Int) (source : List Char) :
    ∃ ts e, (tokenize source).tokens = ts ++ [e] ∧ e.kind = .eof ∧
      ((ofTokens w (tokenize source).tokens).2 = [] ↔
        ∃ ds, Source ts ds ∧ (∀ d ∈ ds, d.Valid) ∧ (∀ d ∈ ds, d.WellNamed) ∧
          (ds.map (·.name.value)).Nodup) := by
  obtain ⟨ts, e, tokens, ends, inside⟩ := tokens_tokenize source
  refine ⟨ts, e, tokens, ends, ?_⟩
  rw [tokens]
  exact errors_ofTokens_iff w ends inside

end Listing

end RegColor
