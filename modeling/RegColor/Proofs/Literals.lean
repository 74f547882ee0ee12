import RegColor.Dot
import RegColor.Proofs.Printing
import RegColor.Proofs.Progress

/-!
# Literals of dot texts

The label of a block stands in a dot text as a string literal, and dot reads it as a record: braces,
bars and angle brackets are the syntax of records, a backslash starts an escape, and a quote ends
the literal. A label needs no escapes for them, because none of them gets into it: names of a source
text are names as the scanner takes them, constants are numerals, and nothing else is written in a
label but blanks, commas, colons and square brackets (`Dot.Plain`).

* `Listing.plain_of_parse`: all symbols of a source text are written in plain texts;
* `Dot.exists_lines`: a label is plain lines, each ended by `\l`;
* `Dot.literals`: the literals of a dot text, by the rules of dot and not by how it was written.

So dot finds the literals of a control-flow graph where they were put (`Dot.flow_literals`).
-/

namespace RegColor

open Scan

/-! ## Plain texts -/

namespace Dot

/-- The characters that are syntax in a record label, and the quote. -/
def fieldChars : List Char := ['\x7b', '\x7d', '|', '<', '>', '"']

/-- Whether a character is used in the texts of instructions and sets. -/
def isPlain (c : Char) : Bool := isNamePart c || ['+', '-', ' ', ',', ':', '[', ']'].contains c

/-- A text that means itself in a label. -/
def Plain (s : String) : Prop := ∀ c ∈ s.toList, isPlain c = true

theorem not_isPlain : ∀ c ∈ '\\' :: fieldChars, isPlain c = false := by
  have all : ('\\' :: fieldChars).all (fun c => !isPlain c) = true := rfl
  simpa only [List.all_eq_true, Bool.not_eq_true'] using all

theorem isPlain_of_isNamePart {c : Char} (h : isNamePart c = true) : isPlain c = true := by
  rw [isPlain, h, Bool.true_or]

theorem isPlain_of_mem_toDigits {n : Nat} {c : Char} (h : c ∈ Nat.toDigits 10 n) :
    isPlain c = true :=
  isPlain_of_isNamePart (isNamePart_of_isDigit
    (Nat.isDigit_of_mem_toDigits (by decide) (Nat.le_refl _) h))

variable {s t : String}

theorem Plain.not_mem {c : Char} (h : Plain s) (special : c ∈ '\\' :: fieldChars) :
    c ∉ s.toList := by
  intro mem
  have plain := h c mem
  rw [not_isPlain c special] at plain
  cases plain

theorem Plain.append (hs : Plain s) (ht : Plain t) : Plain (s ++ t) := by
  unfold Plain
  rw [String.toList_append]
  exact List.forall_mem_append.2 ⟨hs, ht⟩

theorem Plain.intercalate (sep : Plain s) {ts : List String} (h : ∀ t ∈ ts, Plain t) :
    Plain (s.intercalate ts) := by
  induction ts with
  | nil => exact List.forall_mem_nil _
  | cons t ts ih =>
    obtain ⟨first, others⟩ := List.forall_mem_cons.1 h
    cases ts with
    | nil => rwa [String.intercalate_singleton]
    | cons u ts =>
      rw [String.intercalate_cons_cons]
      exact (first.append sep).append (ih others)

theorem plain_of_isName (h : IsName s) : Plain s := by
  obtain ⟨c, more, rfl, start, parts, -⟩ := h
  unfold Plain
  rw [String.toList_ofList]
  refine List.forall_mem_cons.2 ⟨?_, fun d mem => isPlain_of_isNamePart (parts d mem)⟩
  exact isPlain_of_isNamePart (isNamePart_of_isNameStart start)

theorem plain_int (v : Int) : Plain (toString v) := by
  unfold Plain
  cases v with
  | ofNat n =>
    rw [Int.ofNat_eq_natCast, toList_toString_natCast]
    exact fun c => isPlain_of_mem_toDigits
  | negSucc n =>
    rw [toList_toString_negSucc]
    exact List.forall_mem_cons.2 ⟨rfl, fun c => isPlain_of_mem_toDigits⟩

end Dot

namespace Double

open Dot

theorem isPlain_exponentText (e : Int) : ∀ c ∈ exponentText e, isPlain c = true := by
  have digits : ∀ c ∈ Nat.toDigits 10 e.natAbs, isPlain c = true := fun c => isPlain_of_mem_toDigits
  refine List.forall_mem_cons.2 ⟨rfl, List.forall_mem_cons.2 ⟨?_, ?_⟩⟩
  · split <;> rfl
  · split
    · exact List.forall_mem_cons.2 ⟨rfl, digits⟩
    · exact digits

theorem isPlain_layOut {cs : List Char} (h : ∀ c ∈ cs, isPlain c = true) (e : Int) :
    ∀ c ∈ layOut cs e, isPlain c = true := by
  have exponent := isPlain_exponentText e
  have zeros (n : Nat) : ∀ c ∈ List.replicate n '0', isPlain c = true := by
    intro c mem
    rw [List.eq_of_mem_replicate mem]
    rfl
  have point {ds : List Char} (hd : ∀ c ∈ ds, isPlain c = true) :
      ∀ c ∈ '.' :: ds, isPlain c = true := List.forall_mem_cons.2 ⟨rfl, hd⟩
  unfold layOut
  split
  · split
    · exact exponent
    · next c => exact List.forall_mem_cons.2 ⟨h c (List.mem_singleton_self c), exponent⟩
    · next c cs _ =>
      obtain ⟨first, others⟩ := List.forall_mem_cons.1 h
      exact List.forall_mem_cons.2 ⟨first, point (List.forall_mem_append.2 ⟨others, exponent⟩)⟩
  · split
    · exact List.forall_mem_cons.2 ⟨rfl, point (List.forall_mem_append.2 ⟨zeros _, h⟩)⟩
    · have whole (n : Nat) : ∀ c ∈ cs.take n ++ List.replicate (n - cs.length) '0',
          isPlain c = true :=
        List.forall_mem_append.2 ⟨fun c mem => h c (List.mem_of_mem_take mem), zeros _⟩
      dsimp only
      split
      · exact whole _
      · refine List.forall_mem_append.2 ⟨whole _, point fun c mem => ?_⟩
        exact h c (List.mem_of_mem_drop mem)

theorem plain_text (x : Double) : Plain x.text := by
  cases x with
  | nan => exact List.all_eq_true.1 rfl
  | infinite negative => cases negative <;> exact List.all_eq_true.1 rfl
  | finite negative m e =>
    have digits : ∀ c ∈ (if m = 0 then ['0'] else
        layOut (shortest m e).normal.1 (shortest m e).normal.2), isPlain c = true := by
      split
      · exact List.all_eq_true.1 rfl
      · refine isPlain_layOut (fun c mem => ?_) _
        have mem := (List.dropWhile_sublist _).mem (List.mem_reverse.1 mem)
        exact isPlain_of_mem_toDigits (List.mem_reverse.1 mem)
    unfold Plain text
    rw [String.toList_ofList]
    split
    · exact List.forall_mem_cons.2 ⟨rfl, digits⟩
    · exact digits

end Double

theorem Opcode.plain_name (op : Opcode) : Dot.Plain op.name := by
  cases op with
  | unnamed code =>
    have start : Dot.Plain "op_" := List.all_eq_true.1 rfl
    exact start.append (Dot.plain_int code)
  | label => exact List.all_eq_true.1 rfl
  | arith operation => cases operation <;> exact List.all_eq_true.1 rfl
  | branch condition => cases condition <;> exact List.all_eq_true.1 rfl
  | _ => exact List.all_eq_true.1 rfl

/-! ## Symbols of source texts -/

/-- A symbol is written in plain texts. -/
structure Symbol.Plain (y : Symbol) : Prop where
  name : Dot.Plain y.name
  text : Dot.Plain y.text

theorem Symbol.Plain.of_eq {y y' : Symbol} (h : y.Plain) (name : y'.name = y.name)
    (kind : y'.kind = y.kind) : y'.Plain := by
  have text : y'.text = y.text := by rw [Symbol.text, kind, name, Symbol.text]
  exact ⟨name ▸ h.name, text ▸ h.text⟩

theorem Listing.symbol_of_size_le {l : Listing} {s : SymbolId} (h : l.symbols.size ≤ s) :
    l.symbol s = default := by
  rw [symbol, Array.getD_eq_getD_getElem?, Array.getElem?_eq_none h]
  rfl

theorem Symbol.plain_default : (default : Symbol).Plain :=
  ⟨List.forall_mem_nil _, List.forall_mem_nil _⟩

namespace Builder

variable {b b' : Builder} {r : Ref} {y : Symbol} {g : Function → Function} {ts : List Token}

theorem Entry.plain (h : Entry (Reader.terms ts) b r y g)
    (names : ∀ n ∈ Reader.idents ts, Dot.Plain n) : y.Plain := by
  cases h with
  | int v => exact ⟨Dot.plain_int v, Dot.plain_int v⟩
  | float x => exact ⟨x.plain_text, x.plain_text⟩
  | function named | label named | localVar named _ | param named _ =>
    exact ⟨names _ named, names _ named⟩

/-- Symbols stay as they are written, and new ones get the names among the tokens. -/
theorem Change.plain (h : Change (Reader.terms ts) b b')
    (names : ∀ n ∈ Reader.idents ts, Dot.Plain n) (plain : ∀ s, (b.listing.symbol s).Plain)
    (s : SymbolId) : (b'.listing.symbol s).Plain := by
  cases h with
  | enter entry _ =>
    rw [Listing.symbol_push (symbols_enter ..)]
    split
    · exact entry.plain names
    · exact plain s
  | @retype type _ =>
    by_cases known : s < b.listing.symbols.size
    · obtain ⟨name, kind⟩ := (kept_setResult b type).keeps.symbol s known
      exact (plain s).of_eq name kind
    · have beyond : (b.setResult type).listing.symbols.size ≤ s := by
        rw [setResult, Array.size_modify]
        exact Nat.le_of_not_lt known
      rw [Listing.symbol_of_size_le beyond]
      exact Symbol.plain_default
  | push line _ => exact plain s
  | start _ _ => exact plain s
  | report e => exact plain s

theorem Changes.plain (h : Changes (Reader.terms ts) b b')
    (names : ∀ n ∈ Reader.idents ts, Dot.Plain n) (plain : ∀ s, (b.listing.symbol s).Plain) :
    ∀ s, (b'.listing.symbol s).Plain := by
  induction h with
  | refl => exact plain
  | tail _ step ih => exact step.plain names ih

end Builder

theorem Listing.plain_of_parse {w : Int} {source : List Char} {l : Listing}
    (h : parse w source = .ok l) (s : SymbolId) : (l.symbol s).Plain := by
  obtain ⟨ts, e, tokens, ends, lexed⟩ := lexed_tokenize source
  have names : ∀ n ∈ Reader.idents (tokenize source).tokens, Dot.Plain n := by
    intro n mem
    obtain ⟨t, here, ident, rfl⟩ := Reader.mem_idents.1 mem
    rw [tokens, List.mem_append, List.mem_singleton] at here
    rcases here with mem | rfl
    · exact Dot.plain_of_isName ((lexed t mem).isName ident)
    · cases ends.symm.trans ident
  have start (s : SymbolId) : (({} : Listing).symbol s).Plain := by
    rw [symbol_of_size_le (Nat.zero_le s)]
    exact Symbol.plain_default
  have plain := (Builder.changes_ofTokens w (tokenize source).tokens).plain names start s
  have built := (parse_eq_ok_iff.1 h).2
  rw [Builder.ofTokens_eq_after] at built
  obtain ⟨listing, -⟩ := Prod.mk.inj built
  rwa [listing] at plain

namespace Dot

/-! ## Lines of labels -/

section Lines

variable {l : Listing} (plain : ∀ s, (l.symbol s).Plain)

include plain

theorem plain_texts (ss : List SymbolId) : Plain (", ".intercalate (ss.map l.textOf)) := by
  have comma : Plain ", " := List.all_eq_true.1 rfl
  exact comma.intercalate (List.forall_mem_map.2 fun s _ => (plain s).text)

theorem plain_instrText (i : Instr) : Plain (l.instrText i) := by
  have colon : Plain ":" := List.all_eq_true.1 rfl
  have blank : Plain " " := List.all_eq_true.1 rfl
  unfold Listing.instrText
  split
  · next s _ => exact (plain s).name.append colon
  · next op _ => exact op.plain_name
  · next op ss _ _ => exact (op.plain_name.append blank).append (plain_texts plain ss)

theorem plain_setText (set : SymbolSet) : Plain (l.setText "[" "]" set) := by
  have left : Plain "[" := List.all_eq_true.1 rfl
  have right : Plain "]" := List.all_eq_true.1 rfl
  exact (left.append (plain_texts plain set.toList)).append right

end Lines

/-- A text of plain lines. -/
def Lined (s : String) : Prop :=
  ∃ lines : List String, s = String.join (lines.map line) ∧ ∀ t ∈ lines, Plain t

section Lined

variable {s t : String}

theorem lined_empty : Lined "" := ⟨[], rfl, List.forall_mem_nil _⟩

theorem Plain.lined (h : Plain t) : Lined (line t) :=
  ⟨[t], by simp, List.forall_mem_singleton.2 h⟩

theorem Lined.append (hs : Lined s) (ht : Lined t) : Lined (s ++ t) := by
  obtain ⟨lines, rfl, plain⟩ := hs
  obtain ⟨lines', rfl, plain'⟩ := ht
  refine ⟨lines ++ lines', ?_, List.forall_mem_append.2 ⟨plain, plain'⟩⟩
  rw [List.map_append, String.join_append]

theorem lined_join {ss : List String} (h : ∀ s ∈ ss, Lined s) : Lined (String.join ss) := by
  induction ss with
  | nil => exact lined_empty
  | cons s ss ih =>
    obtain ⟨first, others⟩ := List.forall_mem_cons.1 h
    rw [String.join_cons]
    exact first.append (ih others)

/-- Backslashes aside, a text of plain lines has plain characters. -/
theorem Lined.isPlain (h : Lined s) : ∀ c ∈ s.toList, c = '\\' ∨ isPlain c = true := by
  obtain ⟨lines, rfl, plain⟩ := h
  intro c mem
  rw [String.toList_join, List.mem_flatMap] at mem
  obtain ⟨t, here, mem⟩ := mem
  obtain ⟨t, inside, rfl⟩ := List.mem_map.1 here
  rw [line, String.toList_append, List.mem_append] at mem
  rcases mem with text | ending
  · exact .inr (plain t inside c text)
  · have ends : c = '\\' ∨ c = 'l' := by simpa using ending
    exact ends.imp_right fun e => by rw [e]; rfl

theorem Lined.not_mem (h : Lined s) : ∀ c ∈ s.toList, c ∉ fieldChars := by
  intro c mem field
  rcases h.isPlain c mem with rfl | plain
  · exact absurd field (by decide)
  · rw [not_isPlain c (List.mem_cons_of_mem _ field)] at plain
    cases plain

end Lined

section Labels

variable {l : Listing} (plain : ∀ s, (l.symbol s).Plain)

include plain

theorem lined_set (set : Option SymbolSet) : Lined ((set.map (setLine l)).getD "") := by
  have dash : Plain "- " := List.all_eq_true.1 rfl
  cases set with
  | none => exact lined_empty
  | some set => exact (dash.append (plain_setText plain set)).lined

theorem lined_instr (live : Option LiveSets) (i : Instr) : Lined (instrLines l live i) :=
  (lined_set plain _).append (plain_instrText plain i).lined

theorem lined_blockLabel (live : Option LiveSets) (b : Block) : Lined (blockLabel l live b) :=
  (lined_join (List.forall_mem_map.2 fun i _ => lined_instr plain live i)).append
    (lined_set plain _)

end Labels

/-! ## Reading literals -/

/-- Reads the literals of a text from outside of them, or with the front of one already read, as dot
does: a quote ends a literal, a backslash takes the next character with it, and the two stand for a
quote if that character is one. There is no answer if the last literal does not end. -/
def literalsFrom : Option (List Char) → List Char → Option (List String)
  | none, [] => some []
  | some _, [] => none
  | none, c :: cs => if c = '"' then literalsFrom (some []) cs else literalsFrom none cs
  | some front, c :: cs =>
    if c = '"' then (literalsFrom none cs).map (String.ofList front :: ·)
    else if c = '\\' then
      match cs with
      | [] => none
      | d :: cs => literalsFrom (some (front ++ if d = '"' then [d] else [c, d])) cs
    else literalsFrom (some (front ++ [c])) cs

/-- The literals of a text in order. -/
def literals (s : String) : Option (List String) := literalsFrom none s.toList

/-- Inside of a literal, a text is read as it stands. -/
def Inert (s : String) : Prop := ∀ front rest,
  literalsFrom (some front) (s.toList ++ rest) = literalsFrom (some (front ++ s.toList)) rest

/-- Outside of literals, a text is read as some of them. -/
def Yields (s : String) (found : List String) : Prop := ∀ rest,
  literalsFrom none (s.toList ++ rest) = (literalsFrom none rest).map (found ++ ·)

section Reading

variable {s t : String} {found found' : List String} {front cs : List Char} {c : Char}

theorem literalsFrom_quote : literalsFrom (some front) ('"' :: cs) =
    (literalsFrom none cs).map (String.ofList front :: ·) := by
  rw [literalsFrom.eq_def]
  exact if_pos rfl

theorem literalsFrom_other (notQuote : c ≠ '"') (notBackslash : c ≠ '\\') :
    literalsFrom (some front) (c :: cs) = literalsFrom (some (front ++ [c])) cs := by
  rw [literalsFrom.eq_def]
  simp only [notQuote, notBackslash, if_false]

theorem Inert.append (hs : Inert s) (ht : Inert t) : Inert (s ++ t) := by
  intro front rest
  rw [String.toList_append, List.append_assoc, hs, ht, List.append_assoc]

theorem Plain.inert (h : Plain s) : Inert s := by
  intro front rest
  have noQuote : '"' ∉ s.toList := h.not_mem (by decide)
  have noBackslash : '\\' ∉ s.toList := h.not_mem (by decide)
  generalize s.toList = cs at noQuote noBackslash ⊢
  induction cs generalizing front with
  | nil => rw [List.nil_append, List.append_nil]
  | cons c cs ih =>
    rw [List.mem_cons, not_or, eq_comm] at noQuote noBackslash
    rw [List.cons_append, literalsFrom_other noQuote.1 noBackslash.1,
      ih _ noQuote.2 noBackslash.2, List.append_assoc, List.singleton_append]

theorem inert_ending : Inert "\\l" := fun _ _ => rfl

theorem Lined.inert (h : Lined s) : Inert s := by
  obtain ⟨lines, rfl, plain⟩ := h
  induction lines with
  | nil => exact Plain.inert (List.forall_mem_nil _)
  | cons t lines ih =>
    obtain ⟨first, others⟩ := List.forall_mem_cons.1 plain
    rw [List.map_cons, String.join_cons]
    exact (first.inert.append inert_ending).append (ih others)

theorem Yields.append (hs : Yields s found) (ht : Yields t found') :
    Yields (s ++ t) (found ++ found') := by
  intro rest
  rw [String.toList_append, List.append_assoc, hs, ht, Option.map_map]
  simp only [Function.comp_def, List.append_assoc]

theorem yields_nothing (h : '"' ∉ s.toList) : Yields s [] := by
  intro rest
  generalize s.toList = cs at h
  induction cs with
  | nil => simp
  | cons c cs ih =>
    rw [List.mem_cons, not_or, eq_comm] at h
    rw [List.cons_append, literalsFrom, if_neg h.1, ih h.2]

theorem yields_join {α : Type} {f : α → String} {found : α → List String} (xs : List α)
    (h : ∀ x ∈ xs, Yields (f x) (found x)) :
    Yields (String.join (xs.map f)) (xs.flatMap found) := by
  induction xs with
  | nil => exact yields_nothing List.not_mem_nil
  | cons x xs ih =>
    obtain ⟨first, others⟩ := List.forall_mem_cons.1 h
    rw [List.map_cons, String.join_cons, List.flatMap_cons]
    exact first.append (ih others)

theorem yields_texts {α : Type} {f : α → String} (xs : List α) (h : ∀ x, Yields (f x) []) :
    Yields (String.join (xs.map f)) [] := by
  have all := yields_join xs fun x _ => h x
  rwa [List.flatMap_eq_nil_iff.2 fun _ _ => rfl] at all

/-- A text without quotes is read back from its literal. -/
theorem yields_quote (inert : Inert s) (h : '"' ∉ s.toList) : Yields (quote s) [s] := by
  have same : s.toList.flatMap (fun c => if c = '"' then ['\\', '"'] else [c]) = s.toList := by
    have kept : ∀ c ∈ s.toList, (if c = '"' then ['\\', '"'] else [c]) = [c] :=
      fun c mem => if_neg fun e => h (by rwa [e] at mem)
    rw [List.flatMap_congr kept, List.flatMap_singleton']
  intro rest
  have split : (quote s).toList ++ rest = '"' :: (s.toList ++ '"' :: rest) := by
    rw [quote, same, String.ofList_toList]
    simp
  rw [split, literalsFrom, if_pos rfl, inert, literalsFrom_quote, List.nil_append,
    String.ofList_toList]
  rfl

theorem Yields.literals (h : Yields s found) : literals s = some found := by
  have all := h []
  rw [List.append_nil, literalsFrom, Option.map_some, List.append_nil] at all
  exact all

end Reading

/-! ## Graphs -/

theorem yields_nat (n : Nat) : Yields (toString n) [] := by
  refine yields_nothing fun mem => ?_
  rw [show toString n = n.repr from rfl, Nat.repr_eq_ofList_toDigits, String.toList_ofList] at mem
  cases isPlain_of_mem_toDigits mem

theorem yields_edge (k t : Nat) : Yields s!"  {k} -> {t};\n" [] := by
  have indent : Yields "  " [] := yields_nothing (by decide)
  have arrow : Yields " -> " [] := yields_nothing (by decide)
  have ending : Yields ";\n" [] := yields_nothing (by decide)
  exact (((indent.append (yields_nat k)).append arrow).append (yields_nat t)).append ending

theorem yields_shape : Yields " [ shape=\"Mrecord\" label=" ["Mrecord"] := by
  have record : Plain "Mrecord" := List.all_eq_true.1 rfl
  have before : Yields " [ shape=" [] := yields_nothing (by decide)
  have after : Yields " label=" [] := yields_nothing (by decide)
  have parts : " [ shape=\"Mrecord\" label=" = " [ shape=" ++ quote "Mrecord" ++ " label=" := by
    decide
  rw [parts]
  exact (before.append (yields_quote record.inert (record.not_mem (by decide)))).append after

section Graphs

variable {l : Listing} (plain : ∀ s, (l.symbol s).Plain)

include plain

theorem yields_nameOf (f : Function) : Yields (quote (l.nameOf f)) [l.nameOf f] := by
  have name := (plain f.symbol).name
  exact yields_quote name.inert (name.not_mem (by decide))

theorem yields_blockLabel (live : Option LiveSets) (b : Block) :
    Yields (quote (blockLabel l live b)) [blockLabel l live b] := by
  have lined := lined_blockLabel plain live b
  exact yields_quote lined.inert fun mem => lined.not_mem _ mem (by decide)

theorem yields_vertex (live : Option LiveSets) (b : Block) (k : Nat) :
    Yields s!"  {k} [ shape=\"Mrecord\" label={quote (blockLabel l live b)} ];\n"
      ["Mrecord", blockLabel l live b] := by
  have indent : Yields "  " [] := yields_nothing (by decide)
  have ending : Yields " ];\n" [] := yields_nothing (by decide)
  exact (((indent.append (yields_nat k)).append yields_shape).append
    (yields_blockLabel plain live b)).append ending

theorem yields_vertices (live : Option LiveSets) (bs : List Block) :
    Yields (String.join (bs.zipIdx.map fun p =>
        s!"  {p.2} [ shape=\"Mrecord\" label={quote (blockLabel l live p.1)} ];\n"))
      (bs.flatMap fun b => ["Mrecord", blockLabel l live b]) := by
  have numbered := yields_join bs.zipIdx fun p _ => yields_vertex plain live p.1 p.2
  have blocks : bs.zipIdx.flatMap (fun p => ["Mrecord", blockLabel l live p.1]) =
      (bs.zipIdx.map Prod.fst).flatMap fun b => ["Mrecord", blockLabel l live b] := by
    rw [List.flatMap_map]
  rwa [blocks, List.zipIdx_map_fst] at numbered

theorem yields_flow (f : Function) (a : Annotation) (withLiveness : Bool) :
    Yields (flow l f a withLiveness) (l.nameOf f :: a.blocks.flatMap fun b =>
      ["Mrecord", blockLabel l (if withLiveness then some a.live else none) b]) := by
  have digraph : Yields "digraph " [] := yields_nothing (by decide)
  have opening : Yields " \x7b\n" [] := yields_nothing (by decide)
  have closing : Yields "\x7d\n" [] := yields_nothing (by decide)
  have head := (digraph.append (yields_nameOf plain f)).append opening
  have vertices := yields_vertices plain (if withLiveness then some a.live else none) a.blocks
  have edges : Yields ((a.flow.map fun g => String.join ((List.range a.blocks.length).map fun k =>
      String.join ((g.outEdges k).map fun t => s!"  {k} -> {t};\n"))).getD "") [] := by
    cases a.flow with
    | none => exact yields_nothing List.not_mem_nil
    | some g => exact yields_texts _ fun k => yields_texts _ (yields_edge k)
  have all := ((head.append vertices).append edges).append closing
  simp only [List.append_nil, List.nil_append, List.singleton_append] at all
  exact all

end Graphs

/-- In the dot text of the control flow of a function, whatever the source text was and whatever
sets are known, the labels of blocks have no syntax of records and no quotes in them, and
backslashes only where `\l` ends a line. So dot reads the name of the function and the shapes and
labels of the blocks as they were written, and no other literals. -/
theorem flow_literals {w : Int} {source : List Char} {l : Listing}
    (parsed : Listing.parse w source = .ok l) (f : Function) (a : Annotation)
    (withLiveness : Bool) :
    let live := if withLiveness then some a.live else none
    (∀ b ∈ a.blocks, (∀ c ∈ (blockLabel l live b).toList, c ∉ fieldChars) ∧
      ∃ lines : List String, blockLabel l live b = String.join (lines.map line) ∧
        ∀ t ∈ lines, '\\' ∉ t.toList) ∧
    literals (flow l f a withLiveness) =
      some (l.nameOf f :: a.blocks.flatMap fun b => ["Mrecord", blockLabel l live b]) := by
  intro live
  have plain := Listing.plain_of_parse parsed
  refine ⟨fun b _ => ?_, (yields_flow plain f a withLiveness).literals⟩
  have lined := lined_blockLabel plain live b
  refine ⟨lined.not_mem, ?_⟩
  obtain ⟨lines, same, texts⟩ := lined
  exact ⟨lines, same, fun t mem => (texts t mem).not_mem (by decide)⟩

/-- A call, a negative float constant, names with points and dollar signs, and a comment made of
syntax. -/
def drawnText : List Char :=
  ("func f(n) \x7b\nagain:  # |<\"\\\n  call r, g.1, n\n  add $n, r, -2.5e7\n" ++
    "  bne $n, n, again \x7d\nfunc g.1(x) \x7b\n  add x, x, y\n  return x \x7d").toList

/-- The literals after one pass, which does not yet bring to the caller what its callee reads. -/
theorem flow_literals_drawn : ∃ l as a, Listing.parse 8 drawnText = .ok l ∧
    Liveness.sweep l (Liveness.start (l.buildFlows l.functions l.freshAnnotations).1) = .ok as ∧
    as[0]? = some a ∧ literals (flow l (l.functions.getD 0 default) a true) =
      some ["f", "Mrecord", "again:\\l- [n]\\lcall r, g.1, n\\l- [n, r]\\l" ++
        "add $n, r, -2.5e+07\\l- [n, $n]\\lbne $n, n, again\\l- [n]\\l"] := by
  have drawn : ((Listing.parse 8 drawnText).toOption.bind fun l =>
      (Liveness.sweep l
        (Liveness.start (l.buildFlows l.functions l.freshAnnotations).1)).toOption.bind fun as =>
        as[0]?.map fun a => (l.nameOf (l.functions.getD 0 default),
          a.blocks.map (blockLabel l (some a.live)))) =
      some ("f", ["again:\\l- [n]\\lcall r, g.1, n\\l- [n, r]\\l" ++
        "add $n, r, -2.5e+07\\l- [n, $n]\\lbne $n, n, again\\l- [n]\\l"]) := by
    decide +kernel
  obtain ⟨l, parsed, drawn⟩ := Option.bind_eq_some_iff.1 drawn
  obtain ⟨as, swept, drawn⟩ := Option.bind_eq_some_iff.1 drawn
  obtain ⟨a, first, same⟩ := Option.map_eq_some_iff.1 drawn
  obtain ⟨name, labels⟩ := Prod.mk.inj same
  have parsed := eq_ok_of_toOption parsed
  refine ⟨l, as, a, parsed, eq_ok_of_toOption swept, first, ?_⟩
  have read := (flow_literals parsed (l.functions.getD 0 default) a true).2
  have blocks : (a.blocks.flatMap fun b => ["Mrecord", blockLabel l (some a.live) b]) =
      (a.blocks.map (blockLabel l (some a.live))).flatMap fun t => ["Mrecord", t] := by
    rw [List.flatMap_map]
  rw [if_pos rfl, name, blocks, labels] at read
  exact read

end Dot

end RegColor
