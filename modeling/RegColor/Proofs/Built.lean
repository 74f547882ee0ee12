import RegColor.Listing.Check
import RegColor.Proofs.Data

/-!
# Listings that were built

`Listing.Built` says that a listing was built from nothing by adding symbols, functions, parameters,
locals, instructions and labels. Such a listing is `Coherent`: a function knows the first definition
of every label in its code, and an argument is a parameter of the function that owns it, with a slot
at its position.
-/

namespace RegColor

namespace Listing

/-- A listing that was built step by step. Parameters were added with word sizes in `sizes` and
instructions with operations in `ops`; a variable that is added as a plain symbol belongs to no
function. -/
inductive Built (sizes : Int → Prop) (ops : Opcode → Prop) : Listing → Prop
  | empty : Built sizes ops {}
  | symbol {l : Listing} {y : Symbol} : Built sizes ops l → y.slot = none →
    (y.kind = .var → y.owner = none) → Built sizes ops (l.addSymbol y).1
  | retype {l : Listing} (s : SymbolId) (type : DataType) : Built sizes ops l →
    Built sizes ops { l with symbols := l.symbols.modify s fun y => { y with type := some type } }
  | function {l l' : Listing} {s : SymbolId} : Built sizes ops l → l.addFunction s = .ok l' →
    Built sizes ops l'
  | param {l : Listing} {k : Nat} (name : String) (type : Option DataType) {size : Int} :
    Built sizes ops l → k < l.functions.length → sizes size →
    Built sizes ops (l.addParam k name type size).1
  | localVar {l : Listing} {k : Nat} (name : String) (type : Option DataType) :
    Built sizes ops l → k < l.functions.length → Built sizes ops (l.addLocal k name type).1
  | instr {l l' : Listing} {k : Nat} {op : Opcode} {operands : List (Option SymbolId)} {line : Int}
    {i : Instr} : Built sizes ops l → ops op → l.emit k op operands line = .ok (l', i) →
    Built sizes ops l'
  | label {l l' : Listing} {k : Nat} {s : Option SymbolId} {line : Int} {i : Instr} :
    Built sizes ops l → l.emitLabel k s line = .ok (l', i) → Built sizes ops l'

variable {l l' : Listing} {sizes : Int → Prop} {ops : Opcode → Prop} {k : Nat} {s : SymbolId}

theorem Built.mono {sizes' : Int → Prop} {ops' : Opcode → Prop} (h : l.Built sizes ops)
    (hs : ∀ size, sizes size → sizes' size) (ho : ∀ op, ops op → ops' op) :
    l.Built sizes' ops' := by
  induction h with
  | empty => exact .empty
  | symbol _ plain free ih => exact .symbol ih plain free
  | retype s type _ ih => exact .retype s type ih
  | function _ hadd ih => exact .function ih hadd
  | param name type _ hk hsize ih => exact .param name type ih hk (hs _ hsize)
  | localVar name type _ hk ih => exact .localVar name type ih hk
  | instr _ hop hemit ih => exact .instr ih (ho _ hop) hemit
  | label _ hemit ih => exact .label ih hemit

/-! ## Symbols and functions after a step -/

theorem symbol_addSymbol {y : Symbol} :
    (l.addSymbol y).1.symbol s = if s = l.symbols.size then y else l.symbol s := by
  simp only [symbol, addSymbol, Array.getD_eq_getD_getElem?, Array.getElem?_push]
  split <;> rfl

theorem symbol_retype (s t : SymbolId) (type : DataType) :
    let y := ({ l with
      symbols := l.symbols.modify t fun y => { y with type := some type } } : Listing).symbol s
    y.kind = (l.symbol s).kind ∧ y.slot = (l.symbol s).slot ∧ y.owner = (l.symbol s).owner := by
  simp only [symbol, Array.getD_eq_getD_getElem?, Array.getElem?_modify]
  split
  · cases l.symbols[s]? <;> exact ⟨rfl, rfl, rfl⟩
  · exact ⟨rfl, rfl, rfl⟩

theorem emit_eq_ok {op : Opcode} {operands : List (Option SymbolId)} {line : Int} {i : Instr}
    (h : l.emit k op operands line = .ok (l', i)) :
    op ≠ .label ∧ l' = (l.push k (.apply op (operands.filterMap id)) line).1 := by
  unfold emit at h
  split at h
  · cases h
  · next ne =>
    split at h
    · cases h
    · cases h
      exact ⟨ne, rfl⟩

theorem emitLabel_eq_ok {s : Option SymbolId} {line : Int} {i : Instr}
    (h : l.emitLabel k s line = .ok (l', i)) :
    ∃ t, l.isLabel t = true ∧ l' = (l.push k (.label t) line).1 := by
  unfold emitLabel at h
  split at h
  · split at h
    · next t isLabel =>
      cases h
      exact ⟨t, isLabel, rfl⟩
    · cases h
  · cases h

theorem addFunction_eq_ok (h : l.addFunction s = .ok l') :
    (l.symbol s).kind = .function ∧
      l' = { l with functions := l.functions ++ [{ symbol := s }] } := by
  unfold addFunction at h
  split at h
  · next kind =>
    cases h
    exact ⟨kind, rfl⟩
  · cases h

/-- An action that can be added to a listing. -/
def Addable (l : Listing) (ops : Opcode → Prop) : Action → Prop
  | .label s => l.isLabel s = true
  | .apply op _ => ops op ∧ op ≠ .label

instance [DecidablePred ops] : DecidablePred (l.Addable ops)
  | .label s => inferInstanceAs (Decidable (l.isLabel s = true))
  | .apply op _ => inferInstanceAs (Decidable (ops op ∧ op ≠ .label))

theorem emit_map_some {op : Opcode} (ne : op ≠ .label) (ss : List SymbolId) (line : Int) :
    l.emit k op (ss.map some) line = .ok (l.push k (.apply op ss) line) := by
  have given : (ss.map some).findIdx? Option.isNone = none := by
    simp [List.findIdx?_eq_none_iff]
  have all : (ss.map some).filterMap id = ss := by simp
  rw [emit, if_neg ne, given, all]

theorem Built.push (h : l.Built sizes ops) {a : Action} (addable : l.Addable ops a) (line : Int) :
    (l.push k a line).1.Built sizes ops := by
  cases a with
  | label s => exact .label h (s := some s) (if_pos addable)
  | apply op operands => exact .instr h addable.1 (emit_map_some addable.2 operands line)

theorem Built.pushAll (h : l.Built sizes ops) {code : List Action}
    (addable : ∀ a ∈ code, l.Addable ops a) (line : Int) :
    (code.foldl (fun l a => (l.push k a line).1) l).Built sizes ops := by
  induction code generalizing l with
  | nil => exact h
  | cons a code ih =>
    -- Adding code changes no symbol, so the actions that follow can still be added.
    exact ih (h.push (addable a (List.mem_cons_self ..)) line) fun b hb =>
      show l.Addable ops b from addable b (List.mem_cons_of_mem _ hb)

/-- What changing one function does to a property of all of them. -/
theorem forall_mem_modifyFunction {g : Function → Function} {P : Function → Prop}
    (h : ∀ f ∈ l.functions, P f) (step : ∀ f, P f → P (g f)) :
    ∀ f ∈ (l.modifyFunction k g).functions, P f := by
  intro f hf
  obtain ⟨m, hm⟩ := List.mem_iff_getElem?.1 hf
  rw [modifyFunction, List.getElem?_modify] at hm
  obtain ⟨f', hf', rfl⟩ := Option.map_eq_some_iff.1 hm
  have holds := h f' (List.mem_of_getElem? hf')
  split
  · exact step f' holds
  · exact holds

/-! ## Coherence -/

/-- An argument is a parameter of the function that owns it, and its slot lies at its position. -/
def IsParam (l : Listing) (sizes : Int → Prop) (s : SymbolId) (slot : FrameSlot) : Prop :=
  ∃ (k : Nat) (f : Function) (p : Nat) (size : Int), l.functions[k]? = some f ∧
    f.params[p]? = some s ∧ sizes size ∧ slot.offset = Word.wrap (p * size) ∧
    (l.symbol s).owner = some f.symbol

structure Coherent (sizes : Int → Prop) (ops : Opcode → Prop) (l : Listing) : Prop where
  labels : ∀ f ∈ l.functions, ∀ s, f.labels.lookup s = definition? f.code s
  ops : ∀ f ∈ l.functions, ∀ i ∈ f.code, i.isLabel = true ∨ ops i.op ∧ i.op ≠ .label
  argument : ∀ s slot, (l.symbol s).slot = some slot → l.IsParam sizes s slot

theorem definition?_append {code : List Instr} {i : Instr} :
    definition? (code ++ [i]) s =
      (definition? code s).or (if i.label? = some s then some i else none) := by
  rw [definition?, definition?, List.find?_append, List.find?_singleton]
  simp only [decide_eq_true_eq]

/-- A function goes on knowing the first definition of every label. -/
theorem lookup_labels_push {f : Function} (h : ∀ s, f.labels.lookup s = definition? f.code s)
    (a : Action) (line : Int) (s : SymbolId) :
    (f.push a line).1.labels.lookup s = definition? (f.push a line).1.code s := by
  show _ = definition? (f.code ++ [⟨f.nextId, a, line⟩]) s
  rw [definition?_append, ← h]
  cases a with
  | apply op operands => exact (Option.or_none).symm
  | label t =>
    show (if (f.labels.lookup t).isSome then f.labels
      else f.labels ++ [(t, (⟨f.nextId, .label t, line⟩ : Instr))]).lookup s =
        (f.labels.lookup s).or (if some t = some s then some ⟨f.nextId, .label t, line⟩ else none)
    split
    · next known =>
      by_cases e : t = s
      · subst e
        rw [Option.or_of_isSome known]
      · rw [if_neg fun h => e (Option.some.inj h), Option.or_none]
    · rw [List.lookup_append]
      by_cases e : s = t
      · subst e
        rw [List.lookup_cons_self, if_pos rfl]
      · have other : (s == t) = false := by simpa using e
        rw [List.lookup_cons, other, if_neg fun h => e (Option.some.inj h).symm]
        rfl

/-- Arguments stay parameters when functions keep their parameters in place. -/
theorem IsParam.mono {slot : FrameSlot} (h : l.IsParam sizes s slot)
    (owner : (l'.symbol s).owner = (l.symbol s).owner)
    (functions : ∀ (k : Nat) (f : Function), l.functions[k]? = some f →
      ∃ f' : Function, l'.functions[k]? = some f' ∧ f'.symbol = f.symbol ∧
        f.params <+: f'.params) :
    l'.IsParam sizes s slot := by
  rcases h with ⟨k, f, p, size, hf, hp, hsize, offset, own⟩
  obtain ⟨f', hf', sym, more, params⟩ := functions k f hf
  refine ⟨k, f', p, size, hf', ?_, hsize, offset, by rw [owner, own, sym]⟩
  rw [← params, List.getElem?_append_left (List.getElem?_eq_some_iff.1 hp).1, hp]

theorem IsParam.modifyFunction {slot : FrameSlot} {g : Function → Function}
    (h : l.IsParam sizes s slot) (sym : ∀ f, (g f).symbol = f.symbol)
    (params : ∀ f, f.params <+: (g f).params) : (l.modifyFunction k g).IsParam sizes s slot := by
  refine h.mono rfl ?_
  intro m f hf
  rw [Listing.modifyFunction, List.getElem?_modify, hf]
  split
  · exact ⟨g f, rfl, sym f, params f⟩
  · exact ⟨f, rfl, rfl, List.prefix_rfl⟩

namespace Coherent

theorem symbol (h : l.Coherent sizes ops) {y : Symbol}
    (argument : ∀ slot, y.slot = some slot → (l.addSymbol y).1.IsParam sizes l.symbols.size slot) :
    (l.addSymbol y).1.Coherent sizes ops where
  labels := h.labels
  ops := h.ops
  argument s slot hs := by
    rw [symbol_addSymbol] at hs
    split at hs
    · next e => exact e ▸ argument slot hs
    · next ne =>
      refine (h.argument s slot hs).mono ?_ fun k f hf => ⟨f, hf, rfl, List.prefix_rfl⟩
      rw [symbol_addSymbol, if_neg ne]

/-- Changing a function: labels and instructions stay in order, and parameters are only added. -/
theorem modifyFunction (h : l.Coherent sizes ops) {g : Function → Function}
    (labels : ∀ f : Function, (∀ s, f.labels.lookup s = definition? f.code s) →
      ∀ s, (g f).labels.lookup s = definition? (g f).code s)
    (code : ∀ f : Function, ∀ i ∈ (g f).code,
      i ∈ f.code ∨ i.isLabel = true ∨ ops i.op ∧ i.op ≠ .label)
    (sym : ∀ f, (g f).symbol = f.symbol) (params : ∀ f, f.params <+: (g f).params) :
    (l.modifyFunction k g).Coherent sizes ops where
  labels := forall_mem_modifyFunction h.labels labels
  ops := forall_mem_modifyFunction h.ops fun f hf i hi => (code f i hi).elim (hf i) id
  argument s slot hs := (h.argument s slot hs).modifyFunction sym params

theorem push (h : l.Coherent sizes ops) {a : Action} {line : Int}
    (fine : ∀ op operands, a = .apply op operands → ops op ∧ op ≠ .label) :
    (l.push k a line).1.Coherent sizes ops := by
  refine h.modifyFunction (fun f hf => lookup_labels_push hf a line) (fun f i hi => ?_)
    (fun _ => rfl) fun _ => List.prefix_rfl
  rcases List.mem_append.1 hi with hi | hi
  · exact .inl hi
  · rw [List.mem_singleton.1 hi]
    cases a with
    | label t => exact .inr (.inl rfl)
    | apply op operands => exact .inr (.inr (fine op operands rfl))

/-- A new type for a symbol. -/
theorem retype (h : l.Coherent sizes ops) (t : SymbolId) (type : DataType) :
    Coherent sizes ops
      { l with symbols := l.symbols.modify t fun y => { y with type := some type } } where
  labels := h.labels
  ops := h.ops
  argument s slot hs := by
    obtain ⟨-, slotEq, owner⟩ := symbol_retype (l := l) s t type
    rw [slotEq] at hs
    exact (h.argument s slot hs).mono owner fun k f hf => ⟨f, hf, rfl, List.prefix_rfl⟩

/-- A new function has no code and no parameters. -/
theorem addFunction (h : l.Coherent sizes ops) (t : SymbolId) :
    Coherent sizes ops { l with functions := l.functions ++ [{ symbol := t }] } where
  labels := List.forall_mem_append.2 ⟨h.labels, List.forall_mem_singleton.2 fun _ => rfl⟩
  ops := List.forall_mem_append.2 ⟨h.ops, List.forall_mem_singleton.2 fun i hi => by cases hi⟩
  argument s slot hs := by
    refine (h.argument s slot hs).mono rfl fun k f hf => ⟨f, ?_, rfl, List.prefix_rfl⟩
    exact (List.getElem?_append_left (List.getElem?_eq_some_iff.1 hf).1).trans hf

/-- A new parameter has the slot at its position. -/
theorem addParam (h : l.Coherent sizes ops) (hk : k < l.functions.length) (name : String)
    (type : Option DataType) {size : Int} (hsize : sizes size) :
    (l.addParam k name type size).1.Coherent sizes ops := by
  -- The symbol is added last, when its function has the parameter already.
  have grown : (l.modifyFunction k fun f =>
      { f with params := f.params ++ [l.symbols.size] }).Coherent sizes ops :=
    h.modifyFunction (fun _ hf => hf) (fun _ _ hi => .inl hi) (fun _ => rfl)
      fun _ => List.prefix_append ..
  refine grown.symbol fun slot hs => ?_
  cases hs
  let f := l.functions.getD k default
  have here : l.functions[k]? = some f := by
    rw [List.getElem?_eq_getElem hk, ← List.getD_eq_getElem _ default hk]
  refine ⟨k, { f with params := f.params ++ [l.symbols.size] }, f.params.length, size, ?_,
    List.getElem?_concat_length, hsize, rfl, ?_⟩
  · show (l.functions.modify k _)[k]? = _
    rw [List.getElem?_modify, here]
    exact congrArg some (if_pos rfl)
  · rw [symbol_addSymbol]
    exact congrArg Symbol.owner (if_pos rfl)

theorem addLocal (h : l.Coherent sizes ops) (name : String) (type : Option DataType) :
    (l.addLocal k name type).1.Coherent sizes ops := by
  have grown : (l.modifyFunction k fun f =>
      { f with locals := f.locals ++ [l.symbols.size] }).Coherent sizes ops :=
    h.modifyFunction (fun _ hf => hf) (fun _ _ hi => .inl hi) (fun _ => rfl)
      fun _ => List.prefix_rfl
  exact grown.symbol fun slot hs => by cases hs

end Coherent

/-- Every listing that was built is coherent. -/
theorem Built.coherent (h : l.Built sizes ops) : l.Coherent sizes ops := by
  induction h with
  | empty =>
    exact ⟨fun f hf => (nomatch hf), fun f hf => (nomatch hf), fun s slot hs => (nomatch hs)⟩
  | symbol _ plain _ ih => exact ih.symbol fun slot hs => by rw [plain] at hs; cases hs
  | retype t type _ ih => exact ih.retype t type
  | function _ hadd ih =>
    obtain ⟨-, rfl⟩ := addFunction_eq_ok hadd
    exact ih.addFunction _
  | param name type _ hk hsize ih => exact ih.addParam hk name type hsize
  | localVar name type _ _ ih => exact ih.addLocal name type
  | instr _ hop hemit ih =>
    obtain ⟨ne, rfl⟩ := emit_eq_ok hemit
    exact ih.push fun op' operands' e => by
      cases e
      exact ⟨hop, ne⟩
  | label _ hemit ih =>
    obtain ⟨t, -, rfl⟩ := emitLabel_eq_ok hemit
    exact ih.push fun _ _ e => by cases e

end Listing

end RegColor
