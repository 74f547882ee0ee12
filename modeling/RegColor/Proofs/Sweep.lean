import RegColor.Analysis.Liveness
import RegColor.Proofs.Flow

/-!
# What a sweep does

A sweep only adds to live sets: `Liveness.Grows` relates a state to each later one. What it adds is
asked for by the rules of liveness, which `LiveAt` states as a derivation: a symbol is live at a
point because the instruction there reads it, because it is live at the next point and not written
on the way, because it is live on entry to the callee, or because it is live on entry to a
successor.

* `pass_ok`: a pass over control flow that has been built succeeds, whatever it adds can be derived,
  and it tells exactly when it has added something (`Noted`);
* `stable_of_sweep`: a sweep that changes nothing has found every rule satisfied;
* `mem_setAt_iff_liveAt`: in such a state the sets hold exactly what can be derived.
-/

namespace RegColor

open Block LiveSets

namespace Annotation

/-- The live sets may have grown, all else is the same. -/
structure Grows (a a' : Annotation) : Prop where
  blocks : a'.blocks = a.blocks
  flow : a'.flow = a.flow
  leaders : a'.leaders = a.leaders
  slots : a'.live.slots = a.live.slots
  sets : List.Forall₂ (fun s t : SymbolSet => ∀ x ∈ s, x ∈ t)
    a.live.sets.toList a'.live.sets.toList

namespace Grows

variable {a b c : Annotation}

theorem refl (a : Annotation) : a.Grows a :=
  ⟨rfl, rfl, rfl, rfl, List.forall₂_same.2 fun _ _ _ hx => hx⟩

theorem trans (h : a.Grows b) (h' : b.Grows c) : a.Grows c where
  blocks := h'.blocks.trans h.blocks
  flow := h'.flow.trans h.flow
  leaders := h'.leaders.trans h.leaders
  slots := h'.slots.trans h.slots
  sets := forall₂_trans (fun _ _ _ h₁ h₂ x hx => h₂ x (h₁ x hx)) h.sets h'.sets

theorem antisymm (h : a.Grows b) (h' : b.Grows a) : a = b := by
  rcases a with ⟨blocks, flow, leaders, ⟨slots, sets⟩⟩
  rcases b with ⟨blocks', flow', leaders', ⟨slots', sets'⟩⟩
  have same := forall₂_antisymm (fun s t h₁ h₂ => OrdSet.ext_mem fun x => ⟨h₁ x, h₂ x⟩)
    h.sets h'.sets
  cases h.blocks
  cases h.flow
  cases h.leaders
  cases h.slots
  cases Array.toList_inj.1 same
  rfl

theorem size (h : a.Grows b) : b.live.sets.size = a.live.sets.size := h.sets.length_eq.symm

theorem laidOut (h : a.Grows b) (laid : a.LaidOut) : b.LaidOut where
  slot hi := by
    rw [h.blocks] at hi ⊢
    rw [h.slots]
    exact laid.slot hi
  size := by rw [h.size, h.blocks, laid.size]

/-- The live sets alone tell whether anything has grown. -/
theorem eq_of_live (h : a.Grows b) (e : a.live = b.live) : a = b :=
  h.antisymm ⟨h.blocks.symm, h.flow.symm, h.leaders.symm, h.slots.symm,
    e ▸ List.forall₂_same.2 fun _ _ _ hx => hx⟩

end Grows

theorem grows_grow (a : Annotation) (p : Nat) (new : SymbolSet) :
    a.Grows { a with live := a.live.grow p new } where
  blocks := rfl
  flow := rfl
  leaders := rfl
  slots := rfl
  sets := by
    rw [grow, Array.toList_modify]
    exact forall₂_modify (fun _ _ hx => hx) (fun _ _ hx => OrdSet.mem_union.2 (.inl hx)) _ _

/-- Growing the set of a point changes no other point. -/
theorem mem_setAt_grow {a : Annotation} (laid : a.LaidOut) {n j n' j' : Nat} {new : SymbolSet}
    {s : SymbolId} (h : IsPoint a.blocks n j) (h' : IsPoint a.blocks n' j') :
    s ∈ ({ a with live := a.live.grow (slotOf a.blocks n j) new } : Annotation).setAt n' j' ↔
      s ∈ a.setAt n' j' ∨ (n' = n ∧ j' = j) ∧ s ∈ new := by
  have lt : slotOf a.blocks n' j' < a.live.sets.size := laid.size ▸ slotOf_lt h'
  simp only [setAt, grow, Array.getD_eq_getD_getElem?, Array.getElem?_modify,
    Array.getElem?_eq_getElem lt, Option.getD_some]
  by_cases e : slotOf a.blocks n j = slotOf a.blocks n' j'
  · obtain ⟨rfl, rfl⟩ := slotOf_inj h h' e
    simp
  · have : ¬ (n' = n ∧ j' = j) := fun same => e (by rw [same.1, same.2])
    simp [e, this]

/-- Growing a set by what is in it changes nothing. -/
theorem grow_eq_self {a : Annotation} {n j : Nat} {new : SymbolSet}
    (sub : ∀ s ∈ new, s ∈ a.setAt n j) :
    { a with live := a.live.grow (slotOf a.blocks n j) new } = a := by
  have sets : a.live.sets.modify (slotOf a.blocks n j) (·.union new) = a.live.sets := by
    refine Array.ext_getElem? fun p => ?_
    rw [Array.getElem?_modify]
    split
    · next e =>
      subst e
      rw [setAt, Array.getD_eq_getD_getElem?] at sub
      cases hp : a.live.sets[slotOf a.blocks n j]? with
      | none => rfl
      | some set =>
        rw [hp, Option.getD_some] at sub
        refine congrArg some (OrdSet.ext_mem fun s => ?_)
        rw [OrdSet.mem_union]
        exact ⟨fun hs => hs.elim id (sub s), .inl⟩
    · rfl
  rw [grow, sets]

end Annotation

theorem mem_operands_of_mem_reads {i : Instr} {s : SymbolId} (h : s ∈ i.reads) :
    s ∈ i.operands := by
  have operand {k : Nat} (h : s ∈ (i.operands[k]?).toList) : s ∈ i.operands :=
    List.mem_of_getElem? (Option.mem_toList.1 h)
  unfold Instr.reads Opcode.readsOf at h
  split at h
  · exact operand h
  · exact operand h
  · exact (List.mem_append.1 h).elim operand operand
  · exact (List.mem_append.1 h).elim operand operand
  · exact (List.mem_append.1 h).elim operand operand
  · exact operand h
  · exact List.mem_of_mem_drop h
  · exact operand h
  · cases h
  · cases h
  · cases h

theorem mem_uses {l : Listing} {entry : Nat → List SymbolId} {i : Instr} {s : SymbolId} :
    s ∈ l.uses entry i ↔ (s ∈ i.reads ∨ ∃ c k, i.callee? = some c ∧ l.bodyOf? c = some k ∧
      s ∈ entry k ∧ (l.symbol s).isArgument = false) ∧ l.isConstant s = false := by
  have callee : s ∈ l.calleeReads entry i ↔ ∃ c k, i.callee? = some c ∧ l.bodyOf? c = some k ∧
      s ∈ entry k ∧ (l.symbol s).isArgument = false := by
    unfold Listing.calleeReads
    split
    · next k hk =>
      obtain ⟨c, hc, hk⟩ := Option.bind_eq_some_iff.1 hk
      simp only [List.mem_filter, Bool.not_eq_true']
      constructor
      · intro given
        rcases given with ⟨hs, ha⟩
        exact ⟨c, k, hc, hk, hs, ha⟩
      · intro given
        rcases given with ⟨c', k', hc', hk', hs, ha⟩
        cases hc.symm.trans hc'
        cases hk.symm.trans hk'
        exact ⟨hs, ha⟩
    · next absent =>
      simp only [List.not_mem_nil, false_iff]
      intro given
      rcases given with ⟨c, k, hc, hk, -, -⟩
      rw [Option.bind_eq_some_iff.2 ⟨c, hc, hk⟩] at absent
      cases absent
  simp only [Listing.uses, List.mem_eraseDups, List.mem_filter, List.mem_append, callee,
    Bool.not_eq_true']

theorem Listing.bodyOf?_eq_some {l : Listing} {c : SymbolId} {k : Nat} (h : l.bodyOf? c = some k) :
    ∃ f, l.functions[k]? = some f ∧ f.symbol = c := by
  obtain ⟨m, hm, rfl⟩ := Option.map_eq_some_iff.1 h
  obtain ⟨lt, found, -⟩ := List.findIdx?_eq_some_iff_getElem.1 hm
  rw [List.length_reverse] at lt
  rw [List.getElem_reverse] at found
  exact ⟨_, List.getElem?_eq_getElem (by omega), by simpa using found⟩

namespace Liveness

/-- Live sets may have grown in any function. -/
abbrev Grows : List Annotation → List Annotation → Prop := List.Forall₂ Annotation.Grows

variable {l : Listing} {as bs cs : List Annotation} {k n j : Nat} {i : Instr} {s : SymbolId}

namespace Grows

theorem refl (as : List Annotation) : Grows as as := List.forall₂_same.2 fun a _ => .refl a

theorem trans (h : Grows as bs) (h' : Grows bs cs) : Grows as cs :=
  forall₂_trans (fun _ _ _ h₁ h₂ => h₁.trans h₂) h h'

theorem antisymm (h : Grows as bs) (h' : Grows bs as) : as = bs :=
  forall₂_antisymm (fun _ _ h₁ h₂ => h₁.antisymm h₂) h h'

theorem get (h : Grows as bs) (k : Nat) : (as.getD k default).Grows (bs.getD k default) :=
  forall₂_getD .refl h k default

end Grows

/-- Live sets are laid out for blocks that are not empty and whose edges lead to blocks. -/
structure Ready (l : Listing) (as : List Annotation) : Prop where
  length : as.length = l.functions.length
  laid : ∀ k < as.length, (as.getD k default).LaidOut
  blocks_ne : ∀ k < as.length, (as.getD k default).blocks ≠ []
  flow : ∀ k < as.length, ∃ g, (as.getD k default).flow = some g ∧
    ∀ n t, t ∈ g.successors n → t < (as.getD k default).blocks.length

theorem Ready.of_grows (ready : Ready l as) (h : Grows as bs) : Ready l bs where
  length := h.length_eq ▸ ready.length
  laid k hk := (h.get k).laidOut (ready.laid k (h.length_eq ▸ hk))
  blocks_ne k hk := (h.get k).blocks ▸ ready.blocks_ne k (h.length_eq ▸ hk)
  flow k hk := by
    rw [(h.get k).flow, (h.get k).blocks]
    exact ready.flow k (h.length_eq ▸ hk)

/-! ## The rules -/

/-- What the rules of liveness make live: `LiveAt l as k n j s` says so of symbol `s` at point `j`
of block `n` of function `k`. -/
inductive LiveAt (l : Listing) (as : List Annotation) : Nat → Nat → Nat → SymbolId → Prop
  | read {k n j : Nat} {i : Instr} {s : SymbolId} :
    instrAt? (as.getD k default).blocks n j = some i → s ∈ i.reads → l.isConstant s = false →
    LiveAt l as k n j s
  | pass {k n j : Nat} {i : Instr} {s : SymbolId} :
    instrAt? (as.getD k default).blocks n j = some i → LiveAt l as k n (j + 1) s → s ∉ i.defs →
    LiveAt l as k n j s
  | call {k n j k' : Nat} {i : Instr} {c s : SymbolId} :
    instrAt? (as.getD k default).blocks n j = some i → i.callee? = some c →
    l.bodyOf? c = some k' → LiveAt l as k' 0 0 s → (l.symbol s).isArgument = false →
    LiveAt l as k n j s
  | edge {k n t : Nat} {b : Block} {g : Digraph} {s : SymbolId} :
    (as.getD k default).blocks[n]? = some b → (as.getD k default).flow = some g →
    t ∈ g.successors n → LiveAt l as k t 0 s → LiveAt l as k n b.instrs.length s

theorem LiveAt.not_constant (h : LiveAt l as k n j s) : l.isConstant s = false := by
  induction h with
  | read _ _ h => exact h
  | pass _ _ _ ih => exact ih
  | call _ _ _ _ _ ih => exact ih
  | edge _ _ _ _ ih => exact ih

/-- The rules read blocks and control flow only. -/
theorem LiveAt.of_flow_eq (blocks : ∀ k, (bs.getD k default).blocks = (as.getD k default).blocks)
    (flow : ∀ k, (bs.getD k default).flow = (as.getD k default).flow) (h : LiveAt l as k n j s) :
    LiveAt l bs k n j s := by
  induction h with
  | read hi hs const => exact .read (blocks _ ▸ hi) hs const
  | pass hi _ hd ih => exact .pass (blocks _ ▸ hi) ih hd
  | call hi hc hk _ arg ih => exact .call (blocks _ ▸ hi) hc hk ih arg
  | edge hb hg ht _ ih => exact .edge (blocks _ ▸ hb) (flow _ ▸ hg) ht ih

theorem lt_of_getElem?_blocks {b : Block} (h : (as.getD k default).blocks[n]? = some b) :
    k < as.length := by
  by_contra ge
  rw [List.getD_eq_default _ _ (Nat.le_of_not_lt ge)] at h
  cases h

theorem lt_of_instrAt? (h : instrAt? (as.getD k default).blocks n j = some i) : k < as.length :=
  let ⟨_, hb, _⟩ := instrAt?_eq_some.1 h
  lt_of_getElem?_blocks hb

/-- Only operands become live. -/
theorem LiveAt.mem_candidates (h : LiveAt l as k n j s) : s ∈ candidates l as := by
  induction h with
  | @read k n j i s hi hs hc =>
    obtain ⟨b, hb, hi⟩ := instrAt?_eq_some.1 hi
    have lt := lt_of_getElem?_blocks hb
    rw [List.getD_eq_getElem _ _ lt] at hb
    refine OrdSet.mem_ofList.2 (List.mem_filter.2 ⟨List.mem_flatMap.2 ⟨_, List.getElem_mem lt,
      List.mem_flatMap.2 ⟨b, List.mem_of_getElem? hb, List.mem_flatMap.2
        ⟨i, List.mem_of_getElem? hi, mem_operands_of_mem_reads hs⟩⟩⟩, by simp [hc]⟩)
  | pass _ _ _ ih => exact ih
  | call _ _ _ _ _ ih => exact ih
  | edge _ _ _ _ ih => exact ih

/-! ## Steps -/

/-- Adds symbols to one slot of one function. -/
def growAt (as : List Annotation) (k slot : Nat) (new : SymbolSet) : List Annotation :=
  as.modify k fun a => { a with live := a.live.grow slot new }

theorem grows_growAt (as : List Annotation) (k slot : Nat) (new : SymbolSet) :
    Grows as (growAt as k slot new) :=
  forall₂_modify .refl (fun a => a.grows_grow slot new) as k

theorem getD_growAt {slot k' : Nat} {new : SymbolSet} (hk : k < as.length) :
    (growAt as k slot new).getD k' default = if k' = k then
      { as.getD k default with live := (as.getD k default).live.grow slot new }
    else as.getD k' default := by
  rw [growAt, List.getD_eq_getElem?_getD, List.getElem?_modify]
  by_cases e : k = k'
  · subst e
    simp [List.getElem?_eq_getElem hk]
  · have : ¬ k' = k := fun h => e h.symm
    simp [e, this, List.getD_eq_getElem?_getD]

theorem mem_setAt_growAt {k' n' j' : Nat} {new : SymbolSet} (hk : k < as.length)
    (laid : (as.getD k default).LaidOut) (h : IsPoint (as.getD k default).blocks n j)
    (h' : IsPoint (as.getD k' default).blocks n' j') :
    s ∈ ((growAt as k (slotOf (as.getD k default).blocks n j) new).getD k' default).setAt n' j' ↔
      s ∈ (as.getD k' default).setAt n' j' ∨ (k' = k ∧ n' = n ∧ j' = j) ∧ s ∈ new := by
  rw [getD_growAt hk]
  by_cases e : k' = k
  · subst e
    rw [if_pos rfl, Annotation.mem_setAt_grow laid h h']
    simp
  · simp [e]

/-- When the set of a point keeps its size, nothing was added. -/
theorem growAt_eq_of_size {new : SymbolSet} (hk : k < as.length)
    (laid : (as.getD k default).LaidOut) (h : IsPoint (as.getD k default).blocks n j)
    (same : ((as.getD k default).setAt n j).size =
      (((growAt as k (slotOf (as.getD k default).blocks n j) new).getD k default).setAt n j).size) :
    growAt as k (slotOf (as.getD k default).blocks n j) new = as := by
  have eq := OrdSet.eq_of_subset_of_size_le
    (fun s hs => (mem_setAt_growAt hk laid h h).2 (.inl hs)) (Nat.le_of_eq same.symm)
  have sub : ∀ s ∈ new, s ∈ (as.getD k default).setAt n j := fun s hs =>
    eq ▸ (mem_setAt_growAt hk laid h h).2 (.inr ⟨⟨rfl, rfl, rfl⟩, hs⟩)
  refine List.ext_getElem? fun m => ?_
  rw [growAt, List.getElem?_modify]
  split
  · next e =>
    subst e
    have same := Annotation.grow_eq_self sub
    rw [List.getElem?_eq_getElem hk, ← List.getD_eq_getElem as default hk]
    exact congrArg some same
  · exact id_map _

theorem modify_eq_growAt {g : Annotation → Annotation} {slot : Nat} {new : SymbolSet}
    (h : g (as.getD k default) =
      { as.getD k default with live := (as.getD k default).live.grow slot new }) :
    as.modify k g = growAt as k slot new := by
  refine List.ext_getElem? ?_
  intro m
  rw [growAt, List.getElem?_modify, List.getElem?_modify]
  by_cases e : k = m
  · subst e
    by_cases hk : k < as.length
    · rw [List.getD_eq_getElem _ _ hk] at h
      simp [List.getElem?_eq_getElem hk, h]
    · simp [List.getElem?_eq_none (Nat.le_of_not_lt hk)]
  · simp [e]

/-- What an instruction asks for before it. -/
def demand (l : Listing) (as : List Annotation) (k n j : Nat) (i : Instr) : SymbolSet :=
  (((as.getD k default).setAt n (j + 1)).diff (.ofList i.defs)).union
    (.ofList (l.uses (entries as) i))

theorem transfer_eq (laid : (as.getD k default).LaidOut)
    (hi : instrAt? (as.getD k default).blocks n j = some i) :
    transfer l k as i =
      .ok (growAt as k (slotOf (as.getD k default).blocks n j) (demand l as k n j i)) := by
  rw [transfer, laid.before?_eq hi, laid.after?_eq hi]
  refine congrArg Except.ok (modify_eq_growAt ?_)
  simp only [growBefore, laid.slot hi]
  rfl

theorem join_eq {b : Block} {t : Nat} (laid : (as.getD k default).LaidOut)
    (hb : (as.getD k default).blocks[n]? = some b) (ht : t < (as.getD k default).blocks.length) :
    join k b as t = .ok (growAt as k (slotOf (as.getD k default).blocks n b.instrs.length)
      ((as.getD k default).setAt t 0)) := by
  have entry : (as.getD k default).blocks[t]? =
      some ((as.getD k default).blocks.getD t default) := by
    rw [List.getD_eq_getElem _ _ ht, List.getElem?_eq_getElem ht]
  have slot := laid.slot (instrAt?_eq_some.2 ⟨b, hb, b.getElem?_instrs_last⟩)
  rw [join, laid.entryOf?_eq entry]
  refine congrArg Except.ok (modify_eq_growAt ?_)
  simp only [growAfter, slot]
  rw [← slotOf_add, Nat.sub_add_cancel b.length_instrs_pos]

theorem mem_entries (ready : Ready l as) (hk : k < as.length) :
    s ∈ entries as k ↔ s ∈ (as.getD k default).setAt 0 0 :=
  (ready.laid k hk).mem_entry (ready.blocks_ne k hk)

/-- A state that sweeps reach: everything in its sets can be derived. -/
structure Reached (l : Listing) (base as : List Annotation) : Prop where
  grows : Grows base as
  sound : ∀ {k n j s}, k < base.length → IsPoint (base.getD k default).blocks n j →
    s ∈ (as.getD k default).setAt n j → LiveAt l base k n j s

/-- From a state of a pass to a later one: sets may have grown, and the later state tells whether
they have. -/
structure Noted (s s' : List Annotation × Bool) : Prop where
  grows : Grows s.1 s'.1
  grown : s'.2 = true ↔ s.2 = true ∨ s.1 ≠ s'.1

namespace Noted

variable {s s' s'' : List Annotation × Bool}

theorem refl (s : List Annotation × Bool) : Noted s s := ⟨.refl s.1, by simp⟩

theorem trans (h : Noted s s') (h' : Noted s' s'') : Noted s s'' where
  grows := h.grows.trans h'.grows
  grown := by
    have between : s.1 ≠ s''.1 ↔ s.1 ≠ s'.1 ∨ s'.1 ≠ s''.1 := by
      constructor
      · intro ne
        by_contra same
        simp only [not_or, not_not] at same
        exact ne (same.1.trans same.2)
      · intro ne e
        have back : s.1 = s'.1 := h.grows.antisymm (e ▸ h'.grows)
        exact ne.elim (· back) (· (back.symm.trans e))
    rw [h'.grown, h.grown, between, or_assoc]

theorem antisymm (h : Noted s s') (h' : Noted s' s) : s = s' := by
  have first := h.grows.antisymm h'.grows
  refine Prod.ext first (Bool.eq_iff_iff.2 ?_)
  rw [h.grown]
  simp [first]

/-- A step that leaves the sets as they are when the set it adds to keeps its size. -/
theorem of_step {α : Type} {step : List Annotation → α → Except Fault (List Annotation)}
    {set : List Annotation → α → Option SymbolSet} {x : α} {as' : List Annotation}
    (ok : step s.1 x = .ok as') (grows : Grows s.1 as')
    (same : (set s.1 x).map OrdSet.size = (set as' x).map OrdSet.size → as' = s.1) :
    ∃ s', noting step set s x = .ok s' ∧ s'.1 = as' ∧ Noted s s' := by
  rw [noting, ok]
  refine ⟨_, rfl, rfl, grows, ?_⟩
  have told : (set s.1 x).map OrdSet.size ≠ (set as' x).map OrdSet.size ↔ s.1 ≠ as' :=
    not_congr ⟨fun e => (same e).symm, fun e => by rw [e]⟩
  simp only [Bool.or_eq_true, decide_eq_true_eq, told]

end Noted

variable {base : List Annotation} {state : List Annotation × Bool}

theorem Reached.foldlM {α : Type} {xs : List α}
    {step : List Annotation × Bool → α → Except Fault (List Annotation × Bool)}
    (h : Reached l base state.1)
    (ok : ∀ s, ∀ x ∈ xs, Reached l base s.1 →
      ∃ s', step s x = .ok s' ∧ Reached l base s'.1 ∧ Noted s s') :
    ∃ s', xs.foldlM step state = .ok s' ∧ Reached l base s'.1 ∧ Noted state s' := by
  obtain ⟨s', hfold, h', le, -⟩ :=
    foldlM_ok (fun s => Reached l base s.1) Noted.refl (fun _ _ _ => Noted.trans) ok h
  exact ⟨s', hfold, h', le⟩

theorem Reached.foldlM_fixed {α : Type} {xs : List α}
    {step : List Annotation × Bool → α → Except Fault (List Annotation × Bool)}
    (h : Reached l base state.1)
    (ok : ∀ s, ∀ x ∈ xs, Reached l base s.1 →
      ∃ s', step s x = .ok s' ∧ Reached l base s'.1 ∧ Noted s s')
    (fixed : xs.foldlM step state = .ok state) : ∀ x ∈ xs, step state x = .ok state :=
  RegColor.foldlM_fixed (fun s => Reached l base s.1) Noted.refl (fun _ _ _ => Noted.trans)
    (fun _ _ => Noted.antisymm) ok h fixed

theorem eq_of_noting {α : Type} {step : List Annotation → α → Except Fault (List Annotation)}
    {set : List Annotation → α → Option SymbolSet} {x : α}
    (h : noting step set state x = .ok state) : step state.1 x = .ok state.1 := by
  obtain ⟨as', ok, e⟩ := map_eq_ok h
  rw [ok, ← e]

theorem mem_reversed {blocks : List Block} :
    i ∈ blocks.flatMap (·.instrs.reverse) ↔ ∃ n j, instrAt? blocks n j = some i := by
  rw [← mem_flatMap_instrs]
  simp [List.mem_flatMap]

section Steps

variable (ready : Ready l base)

include ready

/-- Adding at a point what can be derived there. -/
theorem Reached.growAt (h : Reached l base as) (hk : k < base.length)
    (hp : IsPoint (base.getD k default).blocks n j) {new : SymbolSet}
    (derived : ∀ s ∈ new, LiveAt l base k n j s) :
    Reached l base (growAt as k (slotOf (as.getD k default).blocks n j) new) where
  grows := h.grows.trans (grows_growAt ..)
  sound {k' n' j' s} hk' hp' hs := by
    have laid := ((ready.of_grows h.grows).laid k (h.grows.length_eq ▸ hk))
    rw [mem_setAt_growAt (h.grows.length_eq ▸ hk) laid ((h.grows.get k).blocks ▸ hp)
      ((h.grows.get k').blocks ▸ hp')] at hs
    rcases hs with hs | ⟨⟨rfl, rfl, rfl⟩, hs⟩
    · exact h.sound hk' hp' hs
    · exact derived s hs

/-- A step that adds at a point what can be derived there, and notes the set of that point. -/
theorem Reached.noting {α : Type} {step : List Annotation → α → Except Fault (List Annotation)}
    {set : List Annotation → α → Option SymbolSet} {x : α} (h : Reached l base state.1)
    (hk : k < base.length) (hp : IsPoint (base.getD k default).blocks n j) {new : SymbolSet}
    (derived : ∀ s ∈ new, LiveAt l base k n j s)
    (noted : ∀ as, Grows base as → set as x = some ((as.getD k default).setAt n j))
    (ok : step state.1 x =
      .ok (Liveness.growAt state.1 k (slotOf (state.1.getD k default).blocks n j) new)) :
    ∃ s', noting step set state x = .ok s' ∧ Reached l base s'.1 ∧ Noted state s' := by
  have reached := h.growAt ready hk hp derived
  have laid := (ready.of_grows h.grows).laid k (h.grows.length_eq ▸ hk)
  have same (e : (set state.1 x).map OrdSet.size = (set (Liveness.growAt state.1 k
      (slotOf (state.1.getD k default).blocks n j) new) x).map OrdSet.size) :
      Liveness.growAt state.1 k (slotOf (state.1.getD k default).blocks n j) new = state.1 := by
    rw [noted _ h.grows, noted _ reached.grows] at e
    exact growAt_eq_of_size (h.grows.length_eq ▸ hk) laid ((h.grows.get k).blocks ▸ hp)
      (Option.some.inj e)
  obtain ⟨s', step, e, told⟩ := Noted.of_step ok (grows_growAt ..) same
  exact ⟨s', step, e ▸ reached, told⟩

theorem transfer_ok (h : Reached l base state.1) (hk : k < base.length)
    (hi : instrAt? (base.getD k default).blocks n j = some i) :
    ∃ s', noting (transfer l k) (fun as i => (as.getD k default).live.before? i.id) state i
      = .ok s' ∧ Reached l base s'.1 ∧ Noted state s' := by
  have ready' := ready.of_grows h.grows
  have blocks := (h.grows.get k).blocks
  refine h.noting ready hk (.of_instrAt? hi) (fun s hs => ?_) (fun as grows => ?_)
    (transfer_eq (ready'.laid k (h.grows.length_eq ▸ hk)) (blocks ▸ hi))
  · rcases OrdSet.mem_union.1 hs with hs | hs
    · rw [OrdSet.mem_diff, OrdSet.mem_ofList] at hs
      exact .pass hi (h.sound hk (.next hi) hs.1) hs.2
    · obtain ⟨hs | ⟨c, k', hc, hk', hs, arg⟩, const⟩ := mem_uses.1 (OrdSet.mem_ofList.1 hs)
      · exact .read hi hs const
      · obtain ⟨f, hf, -⟩ := Listing.bodyOf?_eq_some hk'
        have lt : k' < base.length := ready.length ▸ (List.getElem?_eq_some_iff.1 hf).1
        rw [mem_entries ready' (h.grows.length_eq ▸ lt)] at hs
        have entry := IsPoint.entry (List.length_pos_iff.2 (ready.blocks_ne k' lt))
        exact .call hi hc hk' (h.sound lt entry hs) arg
  · have laid := (ready.of_grows grows).laid k (grows.length_eq ▸ hk)
    exact laid.before?_eq ((grows.get k).blocks ▸ hi)

theorem join_ok (h : Reached l base state.1) (hk : k < base.length) {b : Block} {g : Digraph}
    {t : Nat} (hb : (base.getD k default).blocks[n]? = some b)
    (hg : (base.getD k default).flow = some g) (ht : t ∈ g.successors n) :
    ∃ s', noting (join k b) (fun as _ => (as.getD k default).exitOf? b) state t = .ok s' ∧
      Reached l base s'.1 ∧ Noted state s' := by
  have ready' := ready.of_grows h.grows
  have blocks := (h.grows.get k).blocks
  obtain ⟨g', hg', inside⟩ := ready.flow k hk
  cases hg'.symm.trans hg
  refine h.noting ready hk ⟨b, hb, Nat.le_refl _⟩ (fun s hs => ?_) (fun as grows => ?_)
    (join_eq (ready'.laid k (h.grows.length_eq ▸ hk)) (blocks ▸ hb) (blocks ▸ inside n t ht))
  · exact .edge hb hg ht (h.sound hk (.entry (inside n t ht)) hs)
  · have laid := (ready.of_grows grows).laid k (grows.length_eq ▸ hk)
    have last : instrAt? (as.getD k default).blocks n (b.instrs.length - 1) = some b.last :=
      instrAt?_eq_some.2 ⟨b, (grows.get k).blocks ▸ hb, b.getElem?_instrs_last⟩
    unfold Annotation.exitOf?
    rw [laid.after?_eq last, Nat.sub_add_cancel b.length_instrs_pos]

theorem passEdges_ok (h : Reached l base state.1) (hk : k < base.length) {b : Block}
    (hb : (base.getD k default).blocks[n]? = some b) :
    ∃ s', passEdges k state (b, n) = .ok s' ∧ Reached l base s'.1 ∧ Noted state s' := by
  obtain ⟨g, hg, -⟩ := ready.flow k hk
  rw [passEdges, (h.grows.get k).flow, hg]
  exact h.foldlM fun _ t ht h => join_ok ready h hk hb hg ht

/-- The two halves of a pass over a function. -/
theorem transfers_ok (h : Reached l base state.1) (hk : k < base.length) :
    ∃ s', ((base.getD k default).blocks.flatMap (·.instrs.reverse)).foldlM
        (noting (transfer l k) fun as i => (as.getD k default).live.before? i.id) state = .ok s' ∧
      Reached l base s'.1 ∧ Noted state s' :=
  h.foldlM fun _ _ hi h =>
    let ⟨_, _, hi⟩ := mem_reversed.1 hi
    transfer_ok ready h hk hi

theorem joins_ok (h : Reached l base state.1) (hk : k < base.length) :
    ∃ s', (base.getD k default).blocks.zipIdx.foldlM (passEdges k) state = .ok s' ∧
      Reached l base s'.1 ∧ Noted state s' :=
  h.foldlM fun _ _ hx h => passEdges_ok ready h hk (List.mem_zipIdx_iff_getElem?.1 hx)

theorem passFunction_ok (h : Reached l base state.1) (hk : k < base.length) :
    ∃ s', passFunction l state k = .ok s' ∧ Reached l base s'.1 ∧ Noted state s' := by
  obtain ⟨mid, first, hmid, le⟩ := transfers_ok ready h hk
  obtain ⟨s', second, h', le'⟩ := joins_ok ready hmid hk
  refine ⟨s', ?_, h', le.trans le'⟩
  rw [passFunction, (h.grows.get k).blocks, first]
  exact second

/-- A pass over control flow that has been built succeeds, whatever it adds can be derived, and it
tells whether it has added anything. -/
theorem pass_ok (h : Reached l base as) : ∃ as' grown, pass l as = .ok (as', grown) ∧
    Reached l base as' ∧ Grows as as' ∧ (grown = true ↔ as ≠ as') := by
  have start : Reached l base (as, false).1 := h
  have functions (s : List Annotation × Bool) (k : Nat) (hk : k ∈ List.range l.functions.length)
      (h : Reached l base s.1) := passFunction_ok ready h (ready.length ▸ List.mem_range.1 hk)
  obtain ⟨⟨as', grown⟩, ok, h', noted⟩ := start.foldlM functions
  exact ⟨as', grown, ok, h', noted.grows, by simpa using noted.grown⟩

theorem sweep_ok (h : Reached l base as) :
    ∃ as', sweep l as = .ok as' ∧ Reached l base as' ∧ Grows as as' := by
  obtain ⟨as', grown, ok, h', grows, -⟩ := pass_ok ready h
  exact ⟨as', by rw [sweep, ok]; rfl, h', grows⟩

/-- A sweep leaves the sets as they are exactly when the pass tells that nothing has grown. -/
theorem sweep_eq_self_iff (h : Reached l base as) :
    sweep l as = .ok as ↔ pass l as = .ok (as, false) := by
  obtain ⟨as', grown, ok, -, -, told⟩ := pass_ok ready h
  rw [sweep, ok]
  constructor
  · intro e
    cases e
    cases grown with
    | false => rfl
    | true => exact absurd rfl (told.1 rfl)
  · intro e
    cases e
    rfl

/-! ## Sweeps that change nothing -/

/-- No step of a sweep would change anything. -/
structure Stable (l : Listing) (as : List Annotation) : Prop where
  transfer : ∀ {k n j i}, k < as.length → instrAt? (as.getD k default).blocks n j = some i →
    transfer l k as i = .ok as
  join : ∀ {k n b g t}, k < as.length → (as.getD k default).blocks[n]? = some b →
    (as.getD k default).flow = some g → t ∈ g.successors n → join k b as t = .ok as

theorem stable_of_sweep (h : Reached l base as) (same : sweep l as = .ok as) : Stable l as := by
  have length := h.grows.length_eq
  have h : Reached l base (as, false).1 := h
  -- The folds of a pass change nothing, from the outermost to the innermost.
  have passes : ∀ k < base.length, passFunction l (as, false) k = .ok (as, false) := fun k hk =>
    h.foldlM_fixed (fun _ _ hk h => passFunction_ok ready h (ready.length ▸ List.mem_range.1 hk))
      ((sweep_eq_self_iff ready h).1 same) k (List.mem_range.2 (ready.length ▸ hk))
  have halves : ∀ k < base.length,
      ((base.getD k default).blocks.flatMap (·.instrs.reverse)).foldlM
          (noting (Liveness.transfer l k) fun as i => (as.getD k default).live.before? i.id)
          (as, false) = .ok (as, false) ∧
        (base.getD k default).blocks.zipIdx.foldlM (passEdges k) (as, false)
          = .ok (as, false) := by
    intro k hk
    have fixed := passes k hk
    obtain ⟨mid, first, hmid, le⟩ := transfers_ok ready h hk
    obtain ⟨s', second, -, le'⟩ := joins_ok ready hmid hk
    rw [passFunction, (h.grows.get k).blocks, first] at fixed
    cases second.symm.trans fixed
    cases le'.antisymm le
    exact ⟨first, second⟩
  refine ⟨fun {k n j i} hk hi => ?_, fun {k n b g t} hk hb hg ht => ?_⟩
  · rw [← length] at hk
    rw [(h.grows.get k).blocks] at hi
    refine eq_of_noting (h.foldlM_fixed (fun _ i hi h => ?_) (halves k hk).1 i
      (mem_reversed.2 ⟨n, j, hi⟩))
    obtain ⟨n, j, hi⟩ := mem_reversed.1 hi
    exact transfer_ok ready h hk hi
  · rw [← length] at hk
    rw [(h.grows.get k).blocks] at hb
    have joins : passEdges k (as, false) (b, n) = .ok (as, false) :=
      h.foldlM_fixed (fun _ _ hx h => passEdges_ok ready h hk (List.mem_zipIdx_iff_getElem?.1 hx))
        (halves k hk).2 (b, n) (List.mem_zipIdx_iff_getElem?.2 hb)
    rw [passEdges, hg] at joins
    rw [(h.grows.get k).flow] at hg
    exact eq_of_noting (h.foldlM_fixed (fun _ t ht h => join_ok ready h hk hb hg ht) joins t ht)

omit ready in
/-- Where nothing changes, what an instruction asks for is there. -/
theorem Stable.mem_of_demand (ready : Ready l as) (stable : Stable l as)
    (hi : instrAt? (as.getD k default).blocks n j = some i) (hs : s ∈ demand l as k n j i) :
    s ∈ (as.getD k default).setAt n j := by
  have lt := lt_of_instrAt? hi
  have laid := ready.laid k lt
  have same := Except.ok.inj ((transfer_eq laid hi).symm.trans (stable.transfer lt hi))
  rw [← same]
  exact (mem_setAt_growAt lt laid (.of_instrAt? hi) (.of_instrAt? hi)).2
    (.inr ⟨⟨rfl, rfl, rfl⟩, hs⟩)

omit ready in
theorem Stable.mem_of_successor (ready : Ready l as) (stable : Stable l as) {b : Block}
    {g : Digraph} {t : Nat} (hb : (as.getD k default).blocks[n]? = some b)
    (hg : (as.getD k default).flow = some g) (ht : t ∈ g.successors n)
    (hs : s ∈ (as.getD k default).setAt t 0) :
    s ∈ (as.getD k default).setAt n b.instrs.length := by
  have lt := lt_of_getElem?_blocks hb
  have laid := ready.laid k lt
  obtain ⟨g', hg', inside⟩ := ready.flow k lt
  cases hg'.symm.trans hg
  have same := Except.ok.inj
    ((join_eq laid hb (inside n t ht)).symm.trans (stable.join lt hb hg ht))
  have point : IsPoint (as.getD k default).blocks n b.instrs.length := ⟨b, hb, Nat.le_refl _⟩
  rw [← same]
  exact (mem_setAt_growAt lt laid point point).2 (.inr ⟨⟨rfl, rfl, rfl⟩, hs⟩)

/-- Where nothing changes, the sets hold exactly what can be derived. -/
theorem mem_setAt_iff_liveAt (h : Reached l base as) (stable : Stable l as) (hk : k < base.length)
    (hp : IsPoint (base.getD k default).blocks n j) :
    s ∈ (as.getD k default).setAt n j ↔ LiveAt l base k n j s := by
  refine ⟨h.sound hk hp, fun live => ?_⟩
  clear hk hp
  have ready' := ready.of_grows h.grows
  induction live with
  | @read k n j i s hi hs const =>
    rw [← (h.grows.get k).blocks] at hi
    refine stable.mem_of_demand ready' hi (OrdSet.mem_union.2 (.inr (OrdSet.mem_ofList.2 ?_)))
    exact mem_uses.2 ⟨.inl hs, const⟩
  | @pass k n j i s hi _ hd ih =>
    rw [← (h.grows.get k).blocks] at hi
    refine stable.mem_of_demand ready' hi (OrdSet.mem_union.2 (.inl ?_))
    rw [OrdSet.mem_diff, OrdSet.mem_ofList]
    exact ⟨ih, hd⟩
  | @call k n j k' i c s hi hc hk' live arg ih =>
    rw [← (h.grows.get k).blocks] at hi
    refine stable.mem_of_demand ready' hi (OrdSet.mem_union.2 (.inr (OrdSet.mem_ofList.2 ?_)))
    obtain ⟨f, hf, -⟩ := Listing.bodyOf?_eq_some hk'
    have lt : k' < as.length := ready'.length ▸ (List.getElem?_eq_some_iff.1 hf).1
    exact mem_uses.2 ⟨.inr ⟨c, k', hc, hk', (mem_entries ready' lt).2 ih, arg⟩, live.not_constant⟩
  | @edge k n t b g s hb hg ht _ ih =>
    rw [← (h.grows.get k).blocks] at hb
    rw [← (h.grows.get k).flow] at hg
    exact stable.mem_of_successor ready' hb hg ht ih

end Steps

end Liveness

end RegColor
