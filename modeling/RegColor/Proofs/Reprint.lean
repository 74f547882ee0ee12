import RegColor.Proofs.Parsed
import RegColor.Proofs.Printing

/-!
# Reading what was printed

The listing of a text without float constants is printed as a text that is read again, and the new
listing has the same functions (`Listing.SameFunction`): they differ in the numbers, types and lines
that symbols and instructions got, and in nothing else.

What an accepted text says can be printed (`printable_of_definitions`), so both listings are built
from the same procedures, and two functions that realize one procedure are the same
(`sameFunction_of_realizes`).
-/

namespace RegColor

open Scan Grammar

/-! ## Accepted texts can be printed -/

/-- A token of a text that is no float constant. -/
structure Token.Plain (t : Token) : Prop where
  lexed : t.Lexed
  notFloat : t.kind ≠ .float

/-- Plain tokens that spell a phrase give it a property, and those left after it are plain. -/
def Carries {α : Type} (phrase : List Token → α → List Token → Prop) (A : α → Prop) : Prop :=
  ∀ ts a rest, phrase ts a rest → (∀ t ∈ ts, t.Plain) → A a ∧ ∀ t ∈ rest, t.Plain

section Carries

theorem carries_commas {α : Type} {phrase : List Token → α → List Token → Prop} {A : α → Prop}
    (h : Carries phrase A) : Carries (Commas phrase) (fun as => ∀ a ∈ as, A a) := by
  intro ts as rest commas plain
  induction commas with
  | one spells =>
    obtain ⟨holds, left⟩ := h _ _ _ spells plain
    exact ⟨List.forall_mem_singleton.2 holds, left⟩
  | more spells _ _ ih =>
    obtain ⟨holds, left⟩ := h _ _ _ spells plain
    obtain ⟨others, left⟩ := ih (List.forall_mem_cons.1 left).2
    exact ⟨List.forall_mem_cons.2 ⟨holds, others⟩, left⟩

theorem carries_name : Carries Name (fun _ => True) := by
  intro ts name rest spells plain
  cases spells with
  | mk _ => exact ⟨trivial, (List.forall_mem_cons.1 plain).2⟩

theorem carries_typed : Carries Typed (fun _ => True) := by
  intro ts type rest spells plain
  refine ⟨trivial, fun t mem => plain t ?_⟩
  cases spells with
  | bare => exact mem
  | colon _ type =>
    cases type with
    | scalar _ => simp [mem]
    | array _ _ _ _ => simp [mem]

theorem carries_param : Carries Param.Spells (fun p => IsName p.name.value) := by
  intro ts p rest spells plain
  cases spells with
  | mk ident typed =>
    obtain ⟨name, others⟩ := List.forall_mem_cons.1 plain
    exact ⟨name.lexed.isName ident, (carries_typed _ _ _ typed others).2⟩

theorem carries_params : Carries Params (fun ps => ∀ p ∈ ps, IsName p.name.value) := by
  intro ts ps rest spells plain
  cases spells with
  | empty _ _ =>
    refine ⟨List.forall_mem_nil _, fun t mem => plain t ?_⟩
    simp [mem]
  | list _ commas _ =>
    obtain ⟨-, others⟩ := List.forall_mem_cons.1 plain
    obtain ⟨names, left⟩ := carries_commas carries_param _ _ _ commas others
    exact ⟨names, (List.forall_mem_cons.1 left).2⟩

/-- An integer literal is not negative, so its negation does not overflow. -/
theorem printable_of_operandValue {t : Token} {o : Operand} {negative : Bool} (plain : t.Plain)
    (kind : t.kind = .int ∨ t.kind = .ident) (h : Reader.operandValue negative t = .ok o) :
    o.Printable := by
  unfold Reader.operandValue at h
  rcases kind with int | ident
  · rw [int] at h
    dsimp only at h
    split at h
    · cases h
    · next v read =>
      cases h
      obtain ⟨low, high⟩ := plain.lexed.read_nonneg int read
      have negated : Word.wrap (-v) = -v :=
        Word.wrap_of_fits (Word.fits_iff.2 ⟨by omega, by rw [Word.bound]; omega⟩)
      cases negative with
      | false =>
        rw [if_neg Bool.false_ne_true]
        exact ⟨by rw [Word.bound]; omega, high⟩
      | true =>
        rw [if_pos rfl, negated]
        exact ⟨by omega, by rw [Word.bound]; omega⟩
  · rw [ident] at h
    dsimp only at h
    split at h
    · cases h
    · cases h
      exact plain.lexed.isName ident

theorem carries_value : Carries Value.Spells (fun v => ∀ o, v.operand? = some o → o.Printable) := by
  intro ts v rest spells plain
  cases spells with
  | plain kind =>
    obtain ⟨here, left⟩ := List.forall_mem_cons.1 plain
    refine ⟨fun o found => printable_of_operandValue here ?_ (eq_ok_of_toOption found), left⟩
    rcases kind with int | float | ident
    · exact .inl int
    · exact absurd float here.notFloat
    · exact .inr ident
  | minus _ kind =>
    obtain ⟨-, others⟩ := List.forall_mem_cons.1 plain
    obtain ⟨here, left⟩ := List.forall_mem_cons.1 others
    refine ⟨fun o found => printable_of_operandValue here ?_ (eq_ok_of_toOption found), left⟩
    exact .inl (kind.resolve_right here.notFloat)

theorem carries_line :
    Carries Line.Spells (fun line => ∀ st, line.statement? = some st → st.Printable) := by
  intro ts line rest spells plain
  have applied {op : Token} {vs : List Value}
      (values : ∀ v ∈ vs, ∀ o, v.operand? = some o → o.Printable) (st : Statement)
      (h : (Line.instr op vs).statement? = some st) : st.Printable := by
    obtain ⟨o, known, rfl⟩ := Option.map_eq_some_iff.1 h
    refine ⟨Opcode.mem_spelled_of_ofName? known, fun o mem => ?_⟩
    obtain ⟨v, mem, value⟩ := List.mem_filterMap.1 mem
    exact values v mem o value
  cases spells with
  | declare _ commas typed =>
    obtain ⟨-, others⟩ := List.forall_mem_cons.1 plain
    obtain ⟨-, left⟩ := carries_commas carries_name _ _ _ commas others
    exact ⟨nofun, (carries_typed _ _ _ typed left).2⟩
  | label ident _ =>
    obtain ⟨here, others⟩ := List.forall_mem_cons.1 plain
    refine ⟨fun st same => ?_, (List.forall_mem_cons.1 others).2⟩
    cases same
    exact here.lexed.isName ident
  | bare _ =>
    exact ⟨applied (List.forall_mem_nil _), (List.forall_mem_cons.1 plain).2⟩
  | instr _ commas =>
    obtain ⟨-, others⟩ := List.forall_mem_cons.1 plain
    obtain ⟨values, left⟩ := carries_commas carries_value _ _ _ commas others
    exact ⟨applied values, left⟩

theorem plain_of_newlines {ts us : List Token} (h : Newlines ts us) (plain : ∀ t ∈ ts, t.Plain) :
    ∀ t ∈ us, t.Plain := by
  induction h with
  | done => exact plain
  | more _ _ ih => exact ih (List.forall_mem_cons.1 plain).2

theorem carries_body :
    Carries Body (fun lines => ∀ line ∈ lines, ∀ st, line.statement? = some st → st.Printable) := by
  intro ts lines rest body plain
  induction body with
  | close _ => exact ⟨List.forall_mem_nil _, (List.forall_mem_cons.1 plain).2⟩
  | last spells _ =>
    obtain ⟨holds, left⟩ := carries_line _ _ _ spells plain
    exact ⟨List.forall_mem_singleton.2 holds, (List.forall_mem_cons.1 left).2⟩
  | more spells _ newlines _ ih =>
    obtain ⟨holds, left⟩ := carries_line _ _ _ spells plain
    obtain ⟨others, left⟩ := ih (plain_of_newlines newlines (List.forall_mem_cons.1 left).2)
    exact ⟨List.forall_mem_cons.2 ⟨holds, others⟩, left⟩

theorem carries_definition :
    Carries Definition.Spells (fun d => d.WellNamed → d.procedure.Printable) := by
  intro ts d rest spells plain
  cases spells with
  | mk _ ident params typed _ newlines body =>
    obtain ⟨-, others⟩ := List.forall_mem_cons.1 plain
    obtain ⟨name, others⟩ := List.forall_mem_cons.1 others
    obtain ⟨names, left⟩ := carries_params _ _ _ params others
    obtain ⟨-, left⟩ := carries_typed _ _ _ typed left
    obtain ⟨lines, left⟩ :=
      carries_body _ _ _ body (plain_of_newlines newlines (List.forall_mem_cons.1 left).2)
    refine ⟨fun named => ⟨name.lexed.isName ident, ?_, named.params, fun st mem => ?_⟩, left⟩
    · exact List.forall_mem_map.2 names
    · obtain ⟨line, mem, said⟩ := List.mem_filterMap.1 mem
      exact lines line mem st said

theorem printable_of_definitions {ts : List Token} {ds : List Definition} (h : Definitions ts ds)
    (plain : ∀ t ∈ ts, t.Plain) (named : ∀ d ∈ ds, d.WellNamed) :
    ∀ d ∈ ds, d.procedure.Printable := by
  induction h with
  | done => exact List.forall_mem_nil _
  | more spells newlines _ ih =>
    obtain ⟨first, others⟩ := List.forall_mem_cons.1 named
    obtain ⟨printable, left⟩ := carries_definition _ _ _ spells plain
    exact List.forall_mem_cons.2 ⟨printable first, ih (plain_of_newlines newlines left) others⟩

end Carries

/-! ## Functions from the same procedure -/

/-- The text of a listing: its functions with line breaks between them. -/
def Listing.text (l : Listing) : String := "\n".intercalate (l.functions.map l.functionText)

namespace Listing

variable {l l' : Listing} {T T' : Table}

theorem text_of_realizes {P : List Procedure} (h : l.Realizes P) :
    l.text = "\n".intercalate (P.map Procedure.text) := by
  rw [text, map_eq_map_of_forall₂ (fun f p ⟨T, resolves, realizes⟩ =>
    functionText_of_realizes resolves realizes) h]

end Listing

/-- Symbols of the same class, for integers with the same value, and of the same name. -/
def Listing.SameSymbol (l l' : Listing) (s s' : SymbolId) : Prop :=
  (l'.symbol s').kind = (l.symbol s).kind ∧ (l'.symbol s').name = (l.symbol s).name

/-- Instructions with the same operation, label and operands. -/
structure Listing.SameInstr (l l' : Listing) (i i' : Instr) : Prop where
  op : i'.op = i.op
  label : i'.label?.map (fun s => (l'.symbol s).name) = i.label?.map fun s => (l.symbol s).name
  operands : List.Forall₂ (l.SameSymbol l') i.operands i'.operands

/-- The symbols in a function: its own, its parameters, and those of the code in order. -/
def Function.symbols (f : Function) : List SymbolId :=
  f.symbol :: f.params ++ f.code.flatMap fun i => i.label?.toList ++ i.operands

/-- Functions that differ only in the numbers of symbols, in types and in lines: what is the same
symbol in one of them is the same symbol in the other. -/
structure Listing.SameFunction (l l' : Listing) (f f' : Function) : Prop where
  name : l'.nameOf f' = l.nameOf f
  params : f'.params.map (fun s => (l'.symbol s).name) = f.params.map fun s => (l.symbol s).name
  code : List.Forall₂ (l.SameInstr l') f.code f'.code
  sharing : ∀ j k : Nat, f'.symbols[j]? = f'.symbols[k]? ↔ f.symbols[j]? = f.symbols[k]?

/-- What the names and operands of a statement refer to. -/
def Statement.refs : Statement → List Ref
  | .label name => [.label name]
  | .apply op os => op.refs 0 os

/-- What the names and operands of a procedure refer to, in the order of `Function.symbols`. -/
def Procedure.refs (p : Procedure) : List Ref :=
  .function p.name :: p.params.map .var ++ p.body.flatMap Statement.refs

theorem not_float_of_printable {op : Opcode} {k : Nat} {os : List Operand}
    (h : ∀ o ∈ os, o.Printable) : ∀ r ∈ op.refs k os, ∀ text, r ≠ .float text := by
  induction os generalizing k with
  | nil => exact List.forall_mem_nil _
  | cons o os ih =>
    obtain ⟨first, others⟩ := List.forall_mem_cons.1 h
    refine List.forall_mem_cons.2 ⟨fun text same => ?_, ih others⟩
    unfold Opcode.ref at same
    cases o with
    | int v => cases same
    | float x => exact first
    | name n =>
      dsimp only at same
      split at same
      · cases same
      · split at same <;> cases same

namespace Listing

variable {l l' : Listing} {T T' : Table} {f f' : Function} {p : Procedure}

theorem sameSymbol_of_found (resolves : l.Resolves T) (resolves' : l'.Resolves T') {r : Ref}
    {s s' : SymbolId} (notFloat : ∀ text, r ≠ .float text) (found : T r = some s)
    (found' : T' r = some s') : l.SameSymbol l' s s' := by
  obtain ⟨-, means⟩ := resolves r s found
  obtain ⟨-, means'⟩ := resolves' r s' found'
  refine ⟨?_, means'.name.trans means.name.symm⟩
  have fits := means.kind
  have fits' := means'.kind
  cases r with
  | float text => exact absurd rfl (notFloat text)
  | _ => exact fits'.trans fits.symm

theorem sameInstr_of_realizes (resolves : l.Resolves T) (resolves' : l'.Resolves T') {i i' : Instr}
    {st : Statement} (printable : st.Printable) (h : i.action.Realizes T st)
    (h' : i'.action.Realizes T' st) : l.SameInstr l' i i' := by
  obtain ⟨id, a, line⟩ := i
  obtain ⟨id', a', line'⟩ := i'
  dsimp only at h h'
  cases h with
  | label found =>
    cases h' with
    | label found' =>
      have name := (name_of_found resolves' found').trans (name_of_found resolves found).symm
      exact ⟨rfl, congrArg some name, .nil⟩
  | apply found =>
    cases h' with
    | apply found' =>
      exact ⟨rfl, rfl, forall₂_of_common found found' fun s s' r mem =>
        sameSymbol_of_found resolves resolves' (not_float_of_printable printable.2 r mem)⟩

theorem symbols_of_realizes (h : f.Realizes T p) :
    List.Forall₂ (fun s r => T r = some s) f.symbols p.refs := by
  have header : List.Forall₂ (fun s r => T r = some s) (f.symbol :: f.params)
      (.function p.name :: p.params.map .var) :=
    .cons h.symbol (List.forall₂_map_right_iff.2 h.params)
  refine List.rel_append header (List.rel_flatMap h.body fun i st realizes => ?_)
  obtain ⟨id, a, line⟩ := i
  cases realizes with
  | label found => exact .cons found .nil
  | apply found => exact found

/-- Places with the same symbol are those with the same reference. -/
theorem symbols_eq_iff (resolves : l.Resolves T) (h : f.Realizes T p) (j k : Nat) :
    f.symbols[j]? = f.symbols[k]? ↔ p.refs[j]? = p.refs[k]? := by
  refine getElem?_eq_iff_of_forall₂ (fun s s' r r' found found' => ?_) (symbols_of_realizes h) j k
  constructor
  · rintro rfl
    exact (resolves r s found).2.unique (resolves r' s found').2
  · rintro rfl
    exact Option.some.inj (found.symm.trans found')

/-- Functions that realize one procedure are the same. -/
theorem sameFunction_of_realizes (resolves : l.Resolves T) (resolves' : l'.Resolves T')
    (printable : p.Printable) (h : f.Realizes T p) (h' : f'.Realizes T' p) :
    l.SameFunction l' f f' where
  name := (name_of_found resolves' h'.symbol).trans (name_of_found resolves h.symbol).symm
  params := (paramNames_of_realizes resolves' h').trans (paramNames_of_realizes resolves h).symm
  code := forall₂_of_common h.body h'.body fun _ _ st mem =>
    sameInstr_of_realizes resolves resolves' (printable.body st mem)
  sharing j k := (symbols_eq_iff resolves' h' j k).trans (symbols_eq_iff resolves h j k).symm

/-! ## Texts and procedures -/

/-- An accepted text without float constants says procedures that can be printed. -/
theorem exists_procedures {w : Int} {source : List Char}
    (noFloats : ∀ t ∈ (tokenize source).tokens, t.kind ≠ .float) (h : parse w source = .ok l) :
    ∃ P, l.Realizes P ∧ (∀ p ∈ P, p.Printable) ∧ (P.map (·.name)).Nodup := by
  obtain ⟨ts, e, tokens, ends, lexed⟩ := lexed_tokenize source
  obtain ⟨-, built⟩ := parse_eq_ok_iff.1 h
  rw [tokens] at built noFloats
  have inside : ∀ t ∈ ts, t.kind ≠ .eof := fun t mem => (lexed t mem).ne_eof
  have plain : ∀ t ∈ ts, t.Plain :=
    fun t mem => ⟨lexed t mem, noFloats t (List.mem_append_left _ mem)⟩
  have clean : (ofTokens w (ts ++ [e])).2 = [] := by rw [built]
  obtain ⟨ds, said, valid, named, distinct⟩ := (errors_ofTokens_iff w ends inside).1 clean
  have realizes := realizes_of_source w ends inside said valid clean
  rw [built] at realizes
  obtain ⟨us, newlines, definitions⟩ := said
  have printable := printable_of_definitions definitions (plain_of_newlines newlines plain) named
  refine ⟨ds.map Definition.procedure, realizes, List.forall_mem_map.2 printable, ?_⟩
  rw [List.map_map]
  exact distinct

/-- Procedures that can be printed are read back from their text. -/
theorem parse_procedures {P : List Procedure} (printable : ∀ p ∈ P, p.Printable)
    (distinct : (P.map (·.name)).Nodup) (w : Int) :
    ∃ l, parse w (sourceOfBytes ("\n".intercalate (P.map Procedure.text)).toUTF8.toList) = .ok l ∧
      l.Realizes P := by
  generalize sourceEq :
    sourceOfBytes ("\n".intercalate (P.map Procedure.text)).toUTF8.toList = source
  obtain ⟨known, ts, e, tokens, ends, ds, definitions, rfl, good⟩ :=
    sourceEq ▸ tokenize_of_scans (scans_procedures printable)
  obtain ⟨ts', e', tokens', -, inside⟩ := tokens_tokenize source
  obtain ⟨rfl, -⟩ := List.append_inj' (tokens'.symm.trans tokens) rfl
  have said : Source ts' ds := ⟨ts', .done ts', definitions⟩
  have valid : ∀ d ∈ ds, d.Valid := fun d mem => (good d mem).1
  rw [List.map_map] at distinct
  have clean : (ofTokens w (ts' ++ [e])).2 = [] := (errors_ofTokens_iff w ends inside).2
    ⟨ds, said, valid, fun d mem => (good d mem).2, distinct⟩
  refine ⟨(ofTokens w (ts' ++ [e])).1, parse_eq_ok_iff.2 ⟨known, ?_⟩,
    realizes_of_source w ends inside said valid clean⟩
  rw [tokens, ← clean]

/-- A text without float constants that is read without errors is printed as one that is read again
without errors, at any word size, and has the same functions. -/
theorem parse_text {w : Int} {source : List Char}
    (noFloats : ∀ t ∈ (tokenize source).tokens, t.kind ≠ .float) (h : parse w source = .ok l)
    (w' : Int) :
    ∃ l', parse w' (sourceOfBytes l.text.toUTF8.toList) = .ok l' ∧
      List.Forall₂ (l.SameFunction l') l.functions l'.functions := by
  obtain ⟨P, realizes, printable, distinct⟩ := exists_procedures noFloats h
  obtain ⟨l', parsed, realizes'⟩ := parse_procedures printable distinct w'
  refine ⟨l', by rw [text_of_realizes realizes, parsed], ?_⟩
  refine forall₂_of_common realizes realizes' fun f f' p mem => ?_
  rintro ⟨T, resolves, realizes⟩ ⟨T', resolves', realizes'⟩
  exact sameFunction_of_realizes resolves resolves' (printable p mem) realizes realizes'

/-- A call and a branch, with an operation's name for a label and a parameter, and a negative
hexadecimal number. -/
def loopText : List Char :=
  ("func f(n: int) \x7b\nadd:  # again\n  call r, g, -0x10\n  bne r, n, add \x7d\n" ++
    "func g(add) \x7b return add \x7d").toList

theorem parse_text_loop :
    (∀ t ∈ (tokenize loopText).tokens, t.kind ≠ .float) ∧
      ∃ l, parse 8 loopText = .ok l ∧ l.functions.length = 2 ∧
        ∃ l', parse 4 (sourceOfBytes l.text.toUTF8.toList) = .ok l' ∧
          List.Forall₂ (l.SameFunction l') l.functions l'.functions := by
  have noFloats : ∀ t ∈ (tokenize loopText).tokens, t.kind ≠ .float := by decide +kernel
  have count : (parse 8 loopText).toOption.map (·.functions.length) = some 2 := by decide +kernel
  obtain ⟨l, parsed, length⟩ := Option.map_eq_some_iff.1 count
  have parsed := eq_ok_of_toOption parsed
  exact ⟨noFloats, l, parsed, length, parse_text noFloats parsed 4⟩

end Listing

end RegColor
