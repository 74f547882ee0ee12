import RegColor.Proofs.Lexing
import RegColor.Proofs.Resolution

/-!
# Printed procedures

`Procedure.text` is a procedure as source text, and every function that realizes a procedure is
printed as that (`Listing.functionText_of_realizes`). A procedure whose names are names and whose
constants are integers is `Printable`: the tokens of its text spell a definition that says just the
procedure again (`scans_procedures`).

Each phrase is scanned with all that follows it. `Spelled` says of tokens that a phrase stands at
their head and that what is left has a given property.
-/

namespace RegColor

open Scan Grammar

/-! ## Texts -/

def Operand.text : Operand → String
  | .int v => toString v
  | .float x => x.text
  | .name n => n

/-- The line of a statement. -/
def Statement.text : Statement → String
  | .label name => Listing.codeLine true (name ++ ":")
  | .apply op [] => Listing.codeLine false op.name
  | .apply op os =>
    Listing.codeLine false (op.name ++ " " ++ ", ".intercalate (os.map Operand.text))

/-- A procedure as source text, without types and declarations. -/
def Procedure.text (p : Procedure) : String :=
  "func " ++ p.name ++ "(" ++ ", ".intercalate p.params ++ ") \x7b\n" ++
    String.join (p.body.map Statement.text) ++ "\x7d"

namespace Listing

variable {l : Listing} {T : Table}

theorem text_ref (op : Opcode) (k : Nat) (o : Operand) : (op.ref k o).text = o.text := by
  unfold Opcode.ref
  cases o with
  | int v => rfl
  | float x => rfl
  | name name =>
    dsimp only
    split
    · rfl
    · split <;> rfl

theorem map_text_refs (op : Opcode) (k : Nat) (os : List Operand) :
    (op.refs k os).map Ref.text = os.map Operand.text := by
  induction os generalizing k with
  | nil => rfl
  | cons o os ih => rw [Opcode.refs, List.map_cons, List.map_cons, text_ref, ih]

theorem name_of_found (resolves : l.Resolves T) {r : Ref} {s : SymbolId} (found : T r = some s) :
    (l.symbol s).name = r.text := (resolves r s found).2.name

theorem codeLine_of_realizes (resolves : l.Resolves T) {i : Instr} {st : Statement}
    (h : i.action.Realizes T st) : codeLine i.isLabel (l.instrText i) = st.text := by
  unfold Instr.isLabel Instr.label? instrText
  generalize i.action = a at h
  cases h with
  | label found =>
    dsimp only
    rw [name_of_found resolves found]
    rfl
  | @apply op ss os found =>
    have texts : ss.map l.textOf = os.map Operand.text :=
      (map_eq_map_of_forall₂ (fun s r found => (resolves r s found).2.text_eq) found).trans
        (map_text_refs op 0 os)
    cases os with
    | nil => cases found; rfl
    | cons o os =>
      cases found with
      | cons here others =>
        dsimp only
        rw [texts]
        rfl

theorem paramNames_of_realizes (resolves : l.Resolves T) {f : Function} {p : Procedure}
    (h : f.Realizes T p) : f.params.map (fun s => (l.symbol s).name) = p.params := by
  rw [← List.map_id p.params]
  exact map_eq_map_of_forall₂ (fun s name found => name_of_found resolves found) h.params

theorem functionText_of_realizes (resolves : l.Resolves T) {f : Function} {p : Procedure}
    (h : f.Realizes T p) : l.functionText f = p.text := by
  have lines : f.code.map (fun i => codeLine i.isLabel (l.instrText i)) =
      p.body.map Statement.text :=
    map_eq_map_of_forall₂ (fun i st realizes => codeLine_of_realizes resolves realizes) h.body
  rw [functionText, Procedure.text, paramNames_of_realizes resolves h, lines, nameOf,
    name_of_found resolves h.symbol]
  rfl

end Listing

/-! ## Phrases -/

/-- A phrase for which `A` holds, and then tokens for which `R` holds. -/
def Spelled {α : Type} (phrase : List Token → α → List Token → Prop) (A : α → Prop)
    (R : List Token → Prop) (ts : List Token) : Prop :=
  ∃ a us, phrase ts a us ∧ A a ∧ R us

section Phrases

variable {after : Bool} {rest : List Char} {R : List Token → Prop}

theorem breaks_cons {c : Char} (h : isNamePart c = false) : Breaks (c :: rest) := by
  intro d first
  cases first
  exact h

/-- Phrases with commas between them, one for each text. -/
theorem scans_commas {α β : Type} {phrase : List Token → α → List Token → Prop}
    {A : β → α → Prop} (text : β → String) {x : β} {xs : List β}
    (each : ∀ y ∈ x :: xs, ∀ after rest R, Breaks rest → Scans true rest R →
      Scans after ((text y).toList ++ rest) (Spelled phrase (A y) R))
    (breaks : Breaks rest) (later : Scans true rest R) :
    Scans after ((", ".intercalate ((x :: xs).map text)).toList ++ rest)
      (Spelled (Commas phrase) (fun as => List.Forall₂ A (x :: xs) as) R) := by
  induction xs generalizing x after with
  | nil =>
    refine (each x (List.mem_cons_self ..) after rest R breaks later).imp ?_
    rintro ts ⟨a, us, spells, holds, left⟩
    exact ⟨[a], us, .one spells, .cons holds .nil, left⟩
  | cons y ys ih =>
    have others : Scans true ((", ".intercalate ((y :: ys).map text)).toList ++ rest) _ :=
      ih fun z mem => each z (List.mem_cons_of_mem _ mem)
    have split : (", ".intercalate ((x :: y :: ys).map text)).toList ++ rest = (text x).toList ++
        ',' :: ' ' :: ((", ".intercalate ((y :: ys).map text)).toList ++ rest) := by
      simp
    rw [split]
    refine (each x (List.mem_cons_self ..) after _ _ (breaks_cons rfl)
      (.delimiter rfl (.blank others))).imp ?_
    rintro ts ⟨a, _, spells, holds, c, us, rfl, comma, as, vs, commas, all, left⟩
    exact ⟨a :: as, vs, .more spells comma commas, .cons holds all, left⟩

/-! ## Operands -/

/-- An operand other than a float constant that can stand in a text. -/
def Operand.Printable : Operand → Prop
  | .int v => -Word.bound < v ∧ v < Word.bound
  | .float _ => False
  | .name n => IsName n

/-- What a token of an integer stands for. -/
theorem operand?_int {t : Token} {v : Int} (int : t.kind = .int)
    (read : Integer.read t.value = .ok v) (negative : Bool) :
    (⟨negative, t⟩ : Value).operand? = some (.int (if negative then Word.wrap (-v) else v)) ∧
      (⟨negative, t⟩ : Value).Valid := by
  refine ⟨?_, fun _ => ⟨v, read⟩, fun float => by cases int.symm.trans float⟩
  simp [Value.operand?, Reader.operandValue, int, read, Except.toOption]

theorem toList_toString_natCast (n : Nat) : (toString (n : Int)).toList = Nat.toDigits 10 n := by
  rw [show toString (n : Int) = n.repr from rfl, Nat.repr_eq_ofList_toDigits, String.toList_ofList]

theorem toList_toString_negSucc (n : Nat) :
    (toString (Int.negSucc n)).toList = '-' :: Nat.toDigits 10 (n + 1) := by
  rw [show toString (Int.negSucc n) = "-" ++ (n + 1).repr from rfl]
  simp

theorem scans_operand {o : Operand} (h : o.Printable) (breaks : Breaks rest)
    (later : Scans true rest R) :
    Scans after (o.text.toList ++ rest)
      (Spelled Value.Spells (fun v => v.operand? = some o ∧ v.Valid) R) := by
  cases o with
  | int v =>
    obtain ⟨low, high⟩ := h
    cases v with
    | ofNat n =>
      rw [Operand.text, Int.ofNat_eq_natCast, toList_toString_natCast]
      refine (Scans.decimal n breaks later).imp ?_
      rintro ts ⟨t, us, rfl, ⟨int, value⟩, left⟩
      have read := Integer.read_toDigits high
      rw [← value] at read
      exact ⟨⟨false, t⟩, us, .plain (.inl int), operand?_int int read false, left⟩
    | negSucc n =>
      rw [Int.negSucc_eq, ← Int.natCast_add_one] at low
      rw [Operand.text, toList_toString_negSucc, List.cons_append]
      refine (Scans.delimiter rfl (.decimal (n + 1) breaks later)).imp ?_
      rintro ts ⟨m, _, rfl, minus, t, us, rfl, ⟨int, value⟩, left⟩
      have read := Integer.read_toDigits (n := n + 1) (by omega)
      rw [← value] at read
      obtain ⟨found, valid⟩ := operand?_int int read true
      have wrapped : Word.wrap (-((n + 1 : Nat) : Int)) = Int.negSucc n :=
        Word.wrap_of_fits (Word.fits_iff.2 ⟨Int.le_of_lt low, high⟩)
      rw [if_pos rfl, wrapped] at found
      exact ⟨⟨true, t⟩, us, .minus minus (.inl int), ⟨found, valid⟩, left⟩
  | float x => exact h.elim
  | name name =>
    refine (Scans.name h breaks later).imp ?_
    rintro ts ⟨t, us, rfl, ⟨kind, rfl⟩, left⟩
    refine ⟨⟨false, t⟩, us, .plain (.inr (.inr kind)), ⟨?_, fun int => ?_, fun float => ?_⟩, left⟩
    · simp [Value.operand?, Reader.operandValue, kind, Except.toOption]
    · cases kind.symm.trans int
    · cases kind.symm.trans float

/-! ## Statements -/

/-- A statement that can stand in a text. -/
def Statement.Printable : Statement → Prop
  | .label name => IsName name
  | .apply op os => op ∈ Opcode.spelled ∧ ∀ o ∈ os, o.Printable

theorem isName_of_spelled {op : Opcode} (h : op ∈ Opcode.spelled) : IsName op.name := by
  cases op with
  | label => exact absurd h (by decide)
  | unnamed code => simp [Opcode.spelled, Opcode.named] at h
  | arith operation => cases operation <;> exact ⟨_, _, rfl, rfl, List.all_eq_true.1 rfl, rfl⟩
  | branch condition => cases condition <;> exact ⟨_, _, rfl, rfl, List.all_eq_true.1 rfl, rfl⟩
  | _ => exact ⟨_, _, rfl, rfl, List.all_eq_true.1 rfl, rfl⟩

theorem ofName?_name : ∀ op ∈ Opcode.spelled, Opcode.ofName? op.name = some op := by decide

theorem scans_statement {st : Statement} (h : st.Printable) (later : Scans false rest R) :
    Scans after (st.text.toList ++ rest)
      (Spelled Line.Spells (fun line => line.statement? = some st ∧ line.Valid)
        (First (·.kind = .newline) R)) := by
  cases st with
  | label name =>
    have split :
        (Statement.label name).text.toList ++ rest = name.toList ++ ':' :: '\n' :: rest := by
      simp [Statement.text, Listing.codeLine]
    rw [split]
    refine (Scans.name h (breaks_cons rfl) (.delimiter rfl (.newline later))).imp ?_
    rintro ts ⟨t, _, rfl, ⟨ident, rfl⟩, c, us, rfl, colon, left⟩
    exact ⟨.label t, us, .label ident colon, ⟨rfl, trivial⟩, left⟩
  | apply op os =>
    obtain ⟨spelled, printable⟩ := h
    have known := ofName?_name op spelled
    cases os with
    | nil =>
      have split : (Statement.apply op []).text.toList ++ rest =
          ' ' :: ' ' :: (op.name.toList ++ '\n' :: rest) := by
        simp [Statement.text, Listing.codeLine]
      rw [split]
      refine ((Scans.name (isName_of_spelled spelled) (breaks_cons rfl)
        (.newline later)).blank.blank).imp ?_
      rintro ts ⟨t, us, rfl, ⟨ident, value⟩, left⟩
      refine ⟨.instr t [], us, .bare ident, ⟨?_, ?_⟩, left⟩
      · simp [Line.statement?, value, known]
      · exact ⟨value ▸ List.mem_map_of_mem spelled, List.forall_mem_nil _⟩
    | cons o os =>
      have split : (Statement.apply op (o :: os)).text.toList ++ rest = ' ' :: ' ' ::
          (op.name.toList ++ ' ' :: ((", ".intercalate ((o :: os).map Operand.text)).toList ++
            '\n' :: rest)) := by
        simp [Statement.text, Listing.codeLine]
      have operands : Scans true _ _ := scans_commas Operand.text
        (fun o mem _ _ _ breaks later => scans_operand (printable o mem) breaks later)
        (breaks_cons rfl) (.newline later)
      rw [split]
      refine ((Scans.name (isName_of_spelled spelled) (breaks_cons rfl)
        operands.blank).blank.blank).imp ?_
      rintro ts ⟨t, us, rfl, ⟨ident, value⟩, vs, ws, commas, all, left⟩
      have operands : vs.map Value.operand? = (o :: os).map some :=
        (map_eq_map_of_forall₂ (fun _ _ found => found.1.symm) all).symm
      refine ⟨.instr t vs, ws, .instr ident commas, ⟨?_, ?_⟩, left⟩
      · rw [Line.statement?, value, known, filterMap_of_map_some operands]
        rfl
      · exact ⟨value ▸ List.mem_map_of_mem spelled,
          forall_mem_of_forall₂ (fun _ _ found => found.2) all⟩

theorem scans_body {body : List Statement} (h : ∀ st ∈ body, st.Printable)
    (later : Scans true rest R) :
    Scans false ((String.join (body.map Statement.text)).toList ++ '\x7d' :: rest)
      (Spelled Body (fun lines => List.Forall₂
        (fun st line => line.statement? = some st ∧ line.Valid) body lines) R) := by
  induction body with
  | nil =>
    refine (Scans.delimiter rfl later).imp ?_
    rintro ts ⟨c, us, rfl, closes, left⟩
    exact ⟨[], us, .close closes, .nil, left⟩
  | cons st body ih =>
    obtain ⟨first, others⟩ := List.forall_mem_cons.1 h
    have split : (String.join ((st :: body).map Statement.text)).toList ++ '\x7d' :: rest =
        st.text.toList ++ ((String.join (body.map Statement.text)).toList ++ '\x7d' :: rest) := by
      simp
    rw [split]
    refine (scans_statement first (ih others)).imp ?_
    rintro ts ⟨line, _, spells, holds, n, us, rfl, newline, lines, vs, lineBody, all, left⟩
    exact ⟨line :: lines, vs, .more spells newline (.done us) lineBody, .cons holds all, left⟩

/-! ## Procedures -/

/-- A procedure that can stand in a text. -/
structure Procedure.Printable (p : Procedure) : Prop where
  name : IsName p.name
  params : ∀ name ∈ p.params, IsName name
  distinct : p.params.Nodup
  body : ∀ st ∈ p.body, st.Printable

theorem scans_params {names : List String} (h : ∀ name ∈ names, IsName name)
    (later : Scans true rest R) :
    Scans true ('(' :: ((", ".intercalate names).toList ++ ')' :: rest))
      (Spelled Params (fun params => List.Forall₂
        (fun name param => param.name.value = name ∧ param.type = none) names params) R) := by
  cases names with
  | nil =>
    refine (Scans.delimiter rfl (.delimiter rfl later)).imp ?_
    rintro ts ⟨o, _, rfl, opens, c, us, rfl, closes, left⟩
    exact ⟨[], us, .empty opens closes, .nil, left⟩
  | cons name names =>
    have each (name : String) (mem : IsName name) (after : Bool) (rest : List Char)
        (R : List Token → Prop) (breaks : Breaks rest) (later : Scans true rest R) :
        Scans after (name.toList ++ rest)
          (Spelled Param.Spells (fun param => param.name.value = name ∧ param.type = none) R) := by
      refine (Scans.name mem breaks later).imp ?_
      rintro ts ⟨t, us, rfl, ⟨ident, value⟩, left⟩
      exact ⟨⟨t, none⟩, us, .mk ident (.bare us), ⟨value, rfl⟩, left⟩
    have closed : Scans true (')' :: rest) _ := .delimiter rfl later
    have list : Scans true _ _ := scans_commas id (fun name mem => each name (h name mem))
      (breaks_cons rfl) closed
    rw [List.map_id] at list
    refine (Scans.delimiter rfl list).imp ?_
    rintro ts ⟨o, _, rfl, opens, params, _, commas, all, c, us, rfl, closes, left⟩
    exact ⟨params, us, .list opens commas closes, all, left⟩

theorem scans_procedure {p : Procedure} (h : p.Printable) (later : Scans true rest R) :
    Scans after (p.text.toList ++ rest)
      (Spelled Definition.Spells (fun d => d.procedure = p ∧ d.Valid ∧ d.WellNamed) R) := by
  have split : p.text.toList ++ rest = "func".toList ++ ' ' :: (p.name.toList ++
      '(' :: ((", ".intercalate p.params).toList ++ ')' :: ' ' :: '\x7b' :: '\n' ::
        ((String.join (p.body.map Statement.text)).toList ++ '\x7d' :: rest))) := by
    simp [Procedure.text]
  rw [split]
  have opened : Scans true ('\x7b' :: '\n' :: _) _ :=
    .delimiter rfl (.newline (scans_body h.body later))
  have params := scans_params h.params opened.blank
  refine (Scans.func (breaks_cons rfl) (.blank (.name h.name (breaks_cons rfl) params))).imp ?_
  rintro ts ⟨f, _, rfl, func, t, _, rfl, ⟨ident, value⟩, ps, _, spells, named, o, _, rfl, opens,
    n, us, rfl, newline, lines, vs, bodyLines, all, left⟩
  have names : ps.map (·.name.value) = p.params := by
    rw [← List.map_id p.params]
    exact (map_eq_map_of_forall₂ (fun _ _ found => found.1.symm) named).symm
  have statements : lines.map Line.statement? = p.body.map some :=
    (map_eq_map_of_forall₂ (fun _ _ found => found.1.symm) all).symm
  refine ⟨⟨t, ps, none, lines⟩, vs,
    .mk func ident spells (.bare _) opens (.more newline (.done us)) bodyLines, ⟨?_, ?_, ?_⟩, left⟩
  · rw [Definition.procedure, names, value, filterMap_of_map_some statements]
  · have types : ∀ q ∈ ps, q.type = none := forall_mem_of_forall₂ (fun _ _ found => found.2) named
    refine ⟨fun q mem t type => ?_, fun t type => ?_, ?_⟩
    · rw [types q mem] at type
      cases type
    · cases type
    · exact forall_mem_of_forall₂ (fun _ _ found => found.2) all
  · refine ⟨names ▸ h.distinct, fun before declared type later same => ?_⟩
    -- A declaration adds no statement, but each line does.
    have mem : none ∈ lines.map Line.statement? := by
      rw [show lines = before ++ .declare declared type :: later from same]
      simp [Line.statement?]
    rw [statements] at mem
    simp at mem

/-- Procedures with line breaks between them. -/
theorem scans_procedures {P : List Procedure} (h : ∀ p ∈ P, p.Printable) :
    Scans false ("\n".intercalate (P.map Procedure.text)).toList fun ts =>
      ∃ ds, Definitions ts ds ∧ ds.map Definition.procedure = P ∧
        ∀ d ∈ ds, d.Valid ∧ d.WellNamed := by
  induction P with
  | nil => exact scans_empty ⟨[], .done, rfl, List.forall_mem_nil _⟩
  | cons p P ih =>
    obtain ⟨first, others⟩ := List.forall_mem_cons.1 h
    cases P with
    | nil =>
      have split : ("\n".intercalate ([p].map Procedure.text)).toList = p.text.toList ++ [] := by
        simp
      rw [split]
      refine (scans_procedure first scans_nil).imp ?_
      rintro ts ⟨d, _, spells, ⟨same, good⟩, n, _, rfl, newline, rfl⟩
      exact ⟨[d], .more spells (.more newline (.done [])) .done, by simp [same],
        List.forall_mem_singleton.2 good⟩
    | cons q P =>
      have split : ("\n".intercalate ((p :: q :: P).map Procedure.text)).toList =
          p.text.toList ++ '\n' :: ("\n".intercalate ((q :: P).map Procedure.text)).toList := by
        simp
      rw [split]
      refine (scans_procedure first (.newline (ih others))).imp ?_
      rintro ts ⟨d, _, spells, ⟨same, good⟩, n, us, rfl, newline, ds, definitions, rest, all⟩
      refine ⟨d :: ds, .more spells (.more newline (.done us)) definitions, ?_,
        List.forall_mem_cons.2 ⟨good, all⟩⟩
      rw [List.map_cons, same, rest]

end Phrases

end RegColor
