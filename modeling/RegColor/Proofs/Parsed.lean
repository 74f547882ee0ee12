import RegColor.Listing.Resolve
import RegColor.Proofs.Built

/-!
# Source texts build listings

A source text without errors gives a listing that was built step by step (`built_of_parse`): its
parameters have the word size it was read with, and its instructions operations that can be written.

The items of a text start with a function (`Item.headed_ofTokens`), so whatever else they add has a
function to go to. `Builder.Sound` is what every item keeps.
-/

namespace RegColor

/-! ## Items -/

namespace Item

/-- Nothing but errors stands before the first function. -/
def Headed : List Item → Prop
  | [] => True
  | .error _ :: items => Headed items
  | .function _ :: _ => True
  | _ :: _ => False

end Item

namespace Reader

variable {stop : Token}

theorem function_items (stop : Token) (ts : List Token) :
    (∃ e, (function stop ts).items = [.error e]) ∨
      ∃ t items, (function stop ts).items = .function t :: items := by
  unfold function
  split
  · exact .inl ⟨_, rfl⟩
  · exact .inr ⟨_, _, rfl⟩

theorem headed_functions (ts : List Token) : Item.Headed (functions stop ts) := by
  fun_induction functions stop ts with
  | case1 => trivial
  | case2 t ts kind f ih =>
    rcases function_items stop ts with ⟨e, he⟩ | ⟨t, items, he⟩
    · show Item.Headed ((function stop ts).items ++ _)
      rw [he]
      exact ih
    · show Item.Headed ((function stop ts).items ++ _)
      rw [he]
      trivial
  | case3 t ts kind ih => exact ih

end Reader

theorem Item.headed_ofTokens (tokens : List Token) : Headed (ofTokens tokens) :=
  Reader.headed_functions _

/-! ## Builders -/

namespace Builder

variable {w : Int} {n : Nat} {b : Builder}

/-- A builder with at least `n` functions: its listing was built, and the names it knows are those
of functions and labels. -/
structure Sound (w : Int) (n : Nat) (b : Builder) : Prop where
  wordSize : b.wordSize = w
  count : n ≤ b.listing.functions.length
  built : b.listing.Built (· = w) (· ∈ Opcode.spelled)
  functions : ∀ name s, b.functions.lookup name = some s → (b.listing.symbol s).kind = .function
  labels : ∀ name s, b.scope.labels.lookup name = some s → (b.listing.symbol s).kind = .label

/-- Symbols keep their kinds. The symbol of an unused number counts as a variable. -/
def KeepsKinds (l l' : Listing) : Prop :=
  ∀ s, (l.symbol s).kind ≠ .var → (l'.symbol s).kind = (l.symbol s).kind

theorem Sound.listing (h : b.Sound w n) {l : Listing}
    (built : l.Built (· = w) (· ∈ Opcode.spelled)) (kinds : KeepsKinds b.listing l)
    (count : b.listing.functions.length ≤ l.functions.length) :
    Sound w n { b with listing := l } where
  wordSize := h.wordSize
  count := Nat.le_trans h.count count
  built := built
  functions name s hs := by
    have kind := h.functions name s hs
    rw [← kind]
    exact kinds s (by rw [kind]; nofun)
  labels name s hs := by
    have kind := h.labels name s hs
    rw [← kind]
    exact kinds s (by rw [kind]; nofun)

theorem keepsKinds_addSymbol (l : Listing) (y : Symbol) : KeepsKinds l (l.addSymbol y).1 := by
  intro s hs
  rw [Listing.symbol_addSymbol, if_neg]
  intro same
  subst same
  refine hs ?_
  simp only [Listing.symbol, Array.getD_eq_getD_getElem?, Array.getElem?_eq_none (Nat.le_refl _)]
  rfl

theorem Sound.addSymbol (h : b.Sound w n) {y : Symbol} (plain : y.slot = none)
    (free : y.kind = .var → y.owner = none) :
    Sound w n { b with listing := (b.listing.addSymbol y).1 } :=
  h.listing (.symbol h.built plain free) (keepsKinds_addSymbol _ _) (Nat.le_refl _)

theorem symbol_addSymbol_self (l : Listing) (y : Symbol) :
    (l.addSymbol y).1.symbol (l.addSymbol y).2 = y := by
  rw [Listing.symbol_addSymbol]
  exact if_pos rfl

/-! ### Names -/

theorem Sound.functionSymbol (h : b.Sound w n) (name : String) :
    (b.functionSymbol name).1.Sound w n ∧
      ((b.functionSymbol name).1.listing.symbol (b.functionSymbol name).2).kind = .function := by
  unfold Builder.functionSymbol
  split
  · next s hs => exact ⟨h, h.functions name s hs⟩
  · next fresh =>
    let y : Symbol := { name, kind := .function, type := some (.scalar .void) }
    have kind := congrArg Symbol.kind (symbol_addSymbol_self b.listing y)
    have h' := h.addSymbol (y := y) rfl nofun
    refine ⟨⟨h'.wordSize, h'.count, h'.built, fun key s hs => ?_, h'.labels⟩, kind⟩
    rcases (lookup_concat fresh).1 hs with hs | ⟨-, rfl⟩
    · exact h'.functions key s hs
    · exact kind

theorem Sound.labelSymbol (h : b.Sound w n) (name : String) :
    (b.labelSymbol name).1.Sound w n ∧
      ((b.labelSymbol name).1.listing.symbol (b.labelSymbol name).2).kind = .label := by
  unfold Builder.labelSymbol
  split
  · next s hs => exact ⟨h, h.labels name s hs⟩
  · next fresh =>
    let y : Symbol := { name, kind := .label, type := none, owner := some b.owner }
    have kind := congrArg Symbol.kind (symbol_addSymbol_self b.listing y)
    have h' := h.addSymbol (y := y) rfl nofun
    refine ⟨⟨h'.wordSize, h'.count, h'.built, h'.functions, fun key s hs => ?_⟩, kind⟩
    rcases (lookup_concat fresh).1 hs with hs | ⟨-, rfl⟩
    · exact h'.labels key s hs
    · exact kind

theorem current_lt (h : b.Sound w 1) : b.current < b.listing.functions.length := by
  have := h.count
  unfold current
  omega

theorem Sound.declareLocal (h : b.Sound w 1) (name : String) (type : DataType) :
    (b.declareLocal name type).1.Sound w 1 := by
  have h' := h.listing (.localVar name (some type) h.built (current_lt h))
    (keepsKinds_addSymbol _ _)
    (by simp [Listing.addLocal, Listing.modifyFunction, Listing.addSymbol])
  exact ⟨h'.wordSize, h'.count, h'.built, h'.functions, h'.labels⟩

theorem Sound.varSymbol (h : b.Sound w 1) (name : String) : (b.varSymbol name).1.Sound w 1 := by
  unfold Builder.varSymbol
  split
  · exact h
  · exact h.declareLocal name _

theorem Sound.intSymbol (h : b.Sound w n) (v : Int) : (b.intSymbol v).1.Sound w n := by
  unfold Builder.intSymbol
  split
  · exact h
  · have h' := h.addSymbol
      (y := { name := toString v, kind := .int v, type := some (.scalar .int) }) rfl nofun
    exact ⟨h'.wordSize, h'.count, h'.built, h'.functions, h'.labels⟩

theorem Sound.floatSymbol (h : b.Sound w n) (x : Double) : (b.floatSymbol x).1.Sound w n := by
  unfold Builder.floatSymbol
  split
  · exact h
  · have h' := h.addSymbol
      (y := { name := x.text, kind := .float x, type := some (.scalar .float) }) rfl nofun
    exact ⟨h'.wordSize, h'.count, h'.built, h'.functions, h'.labels⟩

/-! ### Items -/

theorem Sound.operand (h : b.Sound w 1) (op : Opcode) (k : Nat) (o : Operand) :
    (b.operand op k o).1.Sound w 1 := by
  cases o with
  | int v => exact h.intSymbol v
  | float x => exact h.floatSymbol x
  | name name =>
    unfold Builder.operand
    simp only
    split
    · exact (h.labelSymbol name).1
    · split
      · exact (h.functionSymbol name).1
      · exact h.varSymbol name

theorem Sound.operands (h : b.Sound w 1) (op : Opcode) (k : Nat) (os : List Operand) :
    (b.operands op k os).1.Sound w 1 := by
  induction os generalizing b k with
  | nil => exact h
  | cons o os ih => exact ih (h.operand op k o) (k + 1)

theorem Sound.report (h : b.Sound w n) (e : ParseError) : (b.report e).Sound w n :=
  ⟨h.wordSize, h.count, h.built, h.functions, h.labels⟩

theorem Sound.push (h : b.Sound w n) {a : Action}
    (addable : b.listing.Addable (· ∈ Opcode.spelled) a) (line : Int) : (b.push a line).Sound w n :=
  h.listing (h.built.push addable line) (fun _ _ => rfl)
    (by simp [Listing.push, Listing.modifyFunction])

theorem Sound.startFunction (h : b.Sound w n) (t : Token) : (b.startFunction t).Sound w 1 := by
  obtain ⟨h', kind⟩ := h.functionSymbol t.value
  have added : (b.functionSymbol t.value).1.listing.addFunction (b.functionSymbol t.value).2 =
      .ok _ := if_pos kind
  have built := Listing.Built.function h'.built added
  unfold Builder.startFunction
  simp only
  split <;> exact ⟨h'.wordSize, by simp, built, h'.functions, fun name s hs => by cases hs⟩

theorem Sound.setResult (h : b.Sound w n) (type : DataType) : (b.setResult type).Sound w n :=
  h.listing (.retype b.owner type h.built) (fun _ _ => (Listing.symbol_retype ..).1) (Nat.le_refl _)

theorem Sound.addParam (h : b.Sound w 1) (t : Token) (type : DataType) :
    (b.addParam t type).Sound w 1 := by
  unfold Builder.addParam
  split
  · exact h.report _
  · have h' := h.listing (.param t.value (some type) h.built (current_lt h) h.wordSize)
      (keepsKinds_addSymbol _ _)
      (by simp [Listing.addParam, Listing.modifyFunction, Listing.addSymbol])
    exact ⟨h'.wordSize, h'.count, h'.built, h'.functions, h'.labels⟩

theorem Sound.addVariable (h : b.Sound w 1) (type : DataType) (t : Token) :
    (b.addVariable type t).Sound w 1 := by
  unfold Builder.addVariable
  split
  · exact h.report _
  · exact h.declareLocal t.value type

theorem Sound.declare (h : b.Sound w 1) (type : DataType) (names : List Token) :
    (names.foldl (fun b t => b.addVariable type t) b).Sound w 1 := by
  induction names generalizing b with
  | nil => exact h
  | cons t names ih => exact ih (h.addVariable type t)

theorem Sound.addLabel (h : b.Sound w 1) (t : Token) : (b.add (.label t)).Sound w 1 := by
  obtain ⟨h', kind⟩ := h.labelSymbol t.value
  exact h'.push (a := .label _) (decide_eq_true kind) t.line

theorem Sound.addInstr (h : b.Sound w 1) {op : Opcode} (os : List Operand) (line : Int)
    (spelled : op ∈ Opcode.spelled) : (b.add (.instr op os line spelled)).Sound w 1 := by
  have ne : op ≠ .label := by
    intro same
    subst same
    simp [Opcode.spelled] at spelled
  exact (h.operands op 0 os).push (a := .apply op _) ⟨spelled, ne⟩ line

/-- Every item keeps a builder sound that has a function. -/
theorem Sound.add (h : b.Sound w 1) (item : Item) : (b.add item).Sound w 1 := by
  cases item with
  | error e => exact h.report e
  | function t => exact h.startFunction t
  | param t type => exact h.addParam t type
  | returns type => exact h.setResult type
  | declare names type => exact h.declare type names
  | label t => exact h.addLabel t
  | instr op os line spelled => exact h.addInstr os line spelled
  | abandoned op os => exact h.operands op 0 os

theorem Sound.addAll (h : b.Sound w 1) (items : List Item) :
    (items.foldl Builder.add b).Sound w 1 := by
  induction items generalizing b with
  | nil => exact h
  | cons item items ih => exact ih (h.add item)

/-- Items that start with a function need none to be there. -/
theorem Sound.addHeaded (h : b.Sound w 0) {items : List Item} (headed : Item.Headed items) :
    (items.foldl Builder.add b).Sound w 0 := by
  fun_induction Item.Headed items generalizing b with
  | case1 => exact h
  | case2 e items ih => exact ih (h.report e) headed
  | case3 t items =>
    have one := (h.startFunction t).addAll items
    exact ⟨one.wordSize, Nat.zero_le _, one.built, one.functions, one.labels⟩
  | case4 => cases headed

theorem Sound.declareFunctions (h : b.Sound w n) (tokens : List Token) :
    (b.declareFunctions tokens).Sound w n := by
  fun_induction Builder.declareFunctions b tokens with
  | case1 => exact h
  | case2 => exact h
  | case3 b t u ts _ ih => exact ih (h.functionSymbol u.value).1
  | case4 b t u ts _ ih => exact ih h

end Builder

/-- Whatever the tokens, and with errors or without, their listing was built. -/
theorem Listing.built_ofTokens (w : Int) (tokens : List Token) :
    (ofTokens w tokens).1.Built (· = w) (· ∈ Opcode.spelled) := by
  have start : Builder.Sound w 0 { wordSize := w } :=
    ⟨rfl, Nat.zero_le _, .empty, fun _ _ hs => (nomatch hs), fun _ _ hs => (nomatch hs)⟩
  exact ((start.declareFunctions tokens).addHeaded (Item.headed_ofTokens tokens)).built

theorem Listing.parse_eq_ok_iff {w : Int} {source : List Char} {l : Listing} :
    parse w source = .ok l ↔
      (tokenize source).unknown = [] ∧ ofTokens w (tokenize source).tokens = (l, []) := by
  simp only [parse, List.isEmpty_iff, Prod.ext_iff]
  split
  · next known =>
    split
    · next clean => simp [known, clean]
    · next some => simp [some]
  · next unknown => simp [unknown]

/-- A source text without errors gives a listing that was built. -/
theorem Listing.built_of_parse {w : Int} {source : List Char} {l : Listing}
    (h : parse w source = .ok l) : l.Built (· = w) (· ∈ Opcode.spelled) := by
  have built := built_ofTokens w (tokenize source).tokens
  rwa [(parse_eq_ok_iff.1 h).2] at built

end RegColor
