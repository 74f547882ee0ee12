import RegColor.Analysis.Flow
import RegColor.Proofs.Data

/-!
# Program points and the slots of live sets

Point `j` of block `n` stands before the block's `j`-th instruction, or after its last one when `j`
is the length of the block. Live sets are kept by slot: `LiveSets.slotOf` gives the slot of a point,
different points have different slots (`slotOf_inj`), and every slot belongs to a point
(`exists_slotOf`).

`Annotation.LaidOut` says that an annotation keeps its live sets in this way. Then the set before an
instruction is the set at its point and the set after it the one at the next point
(`LaidOut.before?_eq`, `LaidOut.after?_eq`).
-/

namespace RegColor

namespace Block

theorem length_instrs_pos (b : Block) : 0 < b.instrs.length := Nat.succ_pos _

@[simp] theorem getElem?_instrs_zero (b : Block) : b.instrs[0]? = some b.leader := rfl

theorem getElem?_instrs_last (b : Block) : b.instrs[b.instrs.length - 1]? = some b.last := by
  rw [← List.getLast?_eq_getElem?, instrs, List.getLast?_cons, last, List.getLastD_eq_getLast?]

/-- The instruction at position `j` of block `n`. -/
def instrAt? (blocks : List Block) (n j : Nat) : Option Instr := blocks[n]?.bind (·.instrs[j]?)

/-- Whether block `n` has a point `j`. -/
def IsPoint (blocks : List Block) (n j : Nat) : Prop :=
  ∃ b, blocks[n]? = some b ∧ j ≤ b.instrs.length

variable {b : Block} {bs blocks : List Block} {n j : Nat} {i : Instr}

theorem instrAt?_eq_some : instrAt? blocks n j = some i ↔
    ∃ b, blocks[n]? = some b ∧ b.instrs[j]? = some i := by
  rw [instrAt?, Option.bind_eq_some_iff]

@[simp] theorem instrAt?_zero : instrAt? (b :: bs) 0 j = b.instrs[j]? := rfl

@[simp] theorem instrAt?_succ : instrAt? (b :: bs) (n + 1) j = instrAt? bs n j := rfl

theorem instrAt?_of_block (h : blocks[n]? = some b) : instrAt? blocks n j = b.instrs[j]? := by
  rw [instrAt?, h, Option.bind_some]

@[simp] theorem isPoint_zero : IsPoint (b :: bs) 0 j ↔ j ≤ b.instrs.length := by
  simp [IsPoint]

@[simp] theorem isPoint_succ : IsPoint (b :: bs) (n + 1) j ↔ IsPoint bs n j := by
  simp [IsPoint]

theorem IsPoint.of_instrAt? (h : instrAt? blocks n j = some i) : IsPoint blocks n j := by
  obtain ⟨b, hb, hi⟩ := instrAt?_eq_some.1 h
  exact ⟨b, hb, Nat.le_of_lt (List.getElem?_eq_some_iff.1 hi).1⟩

theorem IsPoint.next (h : instrAt? blocks n j = some i) : IsPoint blocks n (j + 1) := by
  obtain ⟨b, hb, hi⟩ := instrAt?_eq_some.1 h
  exact ⟨b, hb, (List.getElem?_eq_some_iff.1 hi).1⟩

theorem IsPoint.entry (h : n < blocks.length) : IsPoint blocks n 0 :=
  ⟨blocks[n], List.getElem?_eq_getElem h, Nat.zero_le _⟩

theorem mem_flatMap_instrs : i ∈ blocks.flatMap instrs ↔ ∃ n j, instrAt? blocks n j = some i := by
  rw [List.mem_flatMap]
  constructor
  · intro given
    rcases given with ⟨b, hb, hi⟩
    obtain ⟨n, hn⟩ := List.mem_iff_getElem?.1 hb
    obtain ⟨j, hj⟩ := List.mem_iff_getElem?.1 hi
    exact ⟨n, j, instrAt?_eq_some.2 ⟨b, hn, hj⟩⟩
  · intro given
    rcases given with ⟨n, j, h⟩
    obtain ⟨b, hb, hi⟩ := instrAt?_eq_some.1 h
    exact ⟨b, List.mem_of_getElem? hb, List.mem_of_getElem? hi⟩

end Block

namespace LiveSets

open Block

/-- The slot of a point. -/
def slotOf (blocks : List Block) (n j : Nat) : Nat := slotCount (blocks.take n) + j

variable {b : Block} {bs blocks : List Block} {n n' j j' p : Nat} {i : Instr}

@[simp] theorem slotCount_nil : slotCount [] = 0 := rfl

@[simp] theorem slotCount_cons :
    slotCount (b :: bs) = b.instrs.length + 1 + slotCount bs := rfl

@[simp] theorem slotOf_zero : slotOf blocks 0 j = j := by
  simp [slotOf]

@[simp] theorem slotOf_cons_succ :
    slotOf (b :: bs) (n + 1) j = b.instrs.length + 1 + slotOf bs n j := by
  simp [slotOf, Nat.add_assoc]

theorem slotOf_add : slotOf blocks n (j + 1) = slotOf blocks n j + 1 := rfl

theorem slotOf_lt (h : IsPoint blocks n j) : slotOf blocks n j < slotCount blocks := by
  induction blocks generalizing n with
  | nil =>
    rcases h with ⟨b, hb, -⟩
    cases hb
  | cons b bs ih =>
    cases n with
    | zero =>
      rw [isPoint_zero] at h
      simp
      omega
    | succ n =>
      have := ih (isPoint_succ.1 h)
      simp
      omega

/-- Different points have different slots. -/
theorem slotOf_inj (h : IsPoint blocks n j) (h' : IsPoint blocks n' j')
    (e : slotOf blocks n j = slotOf blocks n' j') : n = n' ∧ j = j' := by
  induction blocks generalizing n n' with
  | nil =>
    rcases h with ⟨b, hb, -⟩
    cases hb
  | cons b bs ih =>
    cases n with
    | zero =>
      cases n' with
      | zero => simpa using e
      | succ n' =>
        rw [isPoint_zero] at h
        simp at e
        omega
    | succ n =>
      cases n' with
      | zero =>
        rw [isPoint_zero] at h'
        simp at e
        omega
      | succ n' =>
        have := ih (isPoint_succ.1 h) (isPoint_succ.1 h') (by simpa using e)
        omega

/-- Every slot is the slot of a point. -/
theorem exists_slotOf (h : p < slotCount blocks) :
    ∃ n j, IsPoint blocks n j ∧ slotOf blocks n j = p := by
  induction blocks generalizing p with
  | nil => cases h
  | cons b bs ih =>
    by_cases first : p ≤ b.instrs.length
    · exact ⟨0, p, isPoint_zero.2 first, slotOf_zero⟩
    · rw [slotCount_cons] at h
      obtain ⟨n, j, hp, e⟩ := ih (p := p - (b.instrs.length + 1)) (by omega)
      refine ⟨n + 1, j, isPoint_succ.2 hp, ?_⟩
      rw [slotOf_cons_succ, e]
      omega

theorem mem_number (slot : Nat) {is : List Instr} (h : is[j]? = some i) :
    (i.id, slot + j) ∈ number slot is := by
  induction is generalizing slot j with
  | nil => cases h
  | cons i' is ih =>
    cases j with
    | zero =>
      cases h
      exact List.mem_cons_self ..
    | succ j =>
      have := ih (slot + 1) h
      rw [Nat.add_assoc, Nat.add_comm 1 j] at this
      exact List.mem_cons_of_mem _ this

theorem mem_numberBlocks (slot : Nat) (h : instrAt? blocks n j = some i) :
    (i.id, slot + slotOf blocks n j) ∈ numberBlocks slot blocks := by
  induction blocks generalizing slot n with
  | nil => cases h
  | cons b bs ih =>
    cases n with
    | zero =>
      rw [slotOf_zero]
      exact List.mem_append_left _ (mem_number slot h)
    | succ n =>
      have := ih (slot + b.instrs.length + 1) h
      rw [slotOf_cons_succ]
      refine List.mem_append_right _ ?_
      rwa [show slot + (b.instrs.length + 1 + slotOf bs n j)
        = slot + b.instrs.length + 1 + slotOf bs n j by omega]

theorem map_fst_number {is : List Instr} {slot : Nat} :
    (number slot is).map Prod.fst = is.map Instr.id := by
  induction is generalizing slot with
  | nil => rfl
  | cons i is ih => rw [number, List.map_cons, List.map_cons, ih]

theorem map_fst_numberBlocks {slot : Nat} :
    (numberBlocks slot blocks).map Prod.fst = (blocks.flatMap instrs).map Instr.id := by
  induction blocks generalizing slot with
  | nil => rfl
  | cons b bs ih =>
    rw [numberBlocks, List.map_append, map_fst_number, ih, List.flatMap_cons, List.map_append]

end LiveSets

namespace Annotation

open Block LiveSets

/-- The set at a point. -/
def setAt (a : Annotation) (n j : Nat) : SymbolSet := a.live.sets.getD (slotOf a.blocks n j) ∅

/-- The live sets are kept by the slots of the points. -/
structure LaidOut (a : Annotation) : Prop where
  slot : ∀ {n j i}, instrAt? a.blocks n j = some i →
    a.live.slots.get? i.id = some (slotOf a.blocks n j)
  size : a.live.sets.size = slotCount a.blocks

variable {a : Annotation} {n j : Nat} {i : Instr} {b : Block}

theorem getElem?_sets (laid : a.LaidOut) (h : IsPoint a.blocks n j) :
    a.live.sets[slotOf a.blocks n j]? = some (a.setAt n j) := by
  have lt : slotOf a.blocks n j < a.live.sets.size := laid.size ▸ slotOf_lt h
  rw [setAt, Array.getD_eq_getD_getElem?, Array.getElem?_eq_getElem lt, Option.getD_some]

theorem LaidOut.before?_eq (laid : a.LaidOut) (h : instrAt? a.blocks n j = some i) :
    a.live.before? i.id = some (a.setAt n j) := by
  rw [before?, laid.slot h, Option.bind_some, getElem?_sets laid (.of_instrAt? h)]

theorem LaidOut.after?_eq (laid : a.LaidOut) (h : instrAt? a.blocks n j = some i) :
    a.live.after? i.id = some (a.setAt n (j + 1)) := by
  rw [after?, laid.slot h, Option.bind_some, ← slotOf_add, getElem?_sets laid (.next h)]

theorem LaidOut.entryOf?_eq (laid : a.LaidOut) (h : a.blocks[n]? = some b) :
    a.entryOf? b = some (a.setAt n 0) :=
  laid.before?_eq (instrAt?_eq_some.2 ⟨b, h, b.getElem?_instrs_zero⟩)

/-- What is live on entry to a function stands at its first point. -/
theorem LaidOut.mem_entry (laid : a.LaidOut) (h : a.blocks ≠ []) {s : SymbolId} :
    s ∈ a.entry ↔ s ∈ a.setAt 0 0 := by
  unfold entry
  split
  · next e => exact absurd e h
  · next b bs e =>
    rw [laid.entryOf?_eq (n := 0) (by rw [e]; rfl), Option.map_some, Option.getD_some]
    exact Iff.rfl

/-- Fresh live sets are laid out when no two instructions of the blocks are the same one. -/
theorem LaidOut.ofBlocks (distinct : ((a.blocks.flatMap instrs).map Instr.id).Nodup) :
    LaidOut { a with live := .ofBlocks a.blocks } where
  slot {n j i} h := by
    refine (OrdMap.get?_ofList ?_).2 ?_
    · rwa [map_fst_numberBlocks]
    · have := mem_numberBlocks 0 h
      rwa [Nat.zero_add] at this
  size := Array.size_replicate

end Annotation

end RegColor
