import Mathlib.Data.Set.Basic
import RegColor.Proofs.Sweep

/-!
# Liveness is the least solution of its equations

Every sweep but the last adds a symbol to a set, and only operands are added, so sweeps end
(`run_ok`) in a state that no further sweep would change. `LiveAssignment.Obeys` states the
equations of liveness for any assignment of sets to instructions, with a relation in the place of
equality. `isLeast_solution` is the main result: the sets that are computed satisfy the equations,
and are part of every assignment that satisfies them as inclusions.
-/

namespace RegColor

open Block LiveSets

/-! ## Sweeps end -/

/-- The number of symbols in all sets. -/
def Annotation.weight (a : Annotation) : Nat := total OrdSet.size a.live.sets.toList

theorem Annotation.Grows.weight_le {a b : Annotation} (h : a.Grows b) :
    a.weight ≤ b.weight ∧ (b.weight ≤ a.weight → a = b) := by
  obtain ⟨le, same⟩ := total_le_of_forall₂ (w := OrdSet.size)
    (fun s t sub => ⟨OrdSet.size_le_of_subset sub, OrdSet.eq_of_subset_of_size_le sub⟩) h.sets
  refine ⟨le, fun ge => h.eq_of_live ?_⟩
  have sets : a.live.sets = b.live.sets := Array.toList_inj.1 (same ge)
  have slots := h.slots
  rcases ha : a.live with ⟨slotsA, setsA⟩
  rcases hb : b.live with ⟨slotsB, setsB⟩
  simp only [ha, hb] at sets slots
  rw [sets, slots]

namespace Liveness

variable {l : Listing} {as bs base : List Annotation} {k n j : Nat} {s : SymbolId}

/-- The live set in slot `p` of function `k`. -/
def slot? (as : List Annotation) (k p : Nat) : Option SymbolSet :=
  (as.getD k default).live.sets[p]?

/-- The number of symbols in the sets of all functions. -/
def weight (as : List Annotation) : Nat := total Annotation.weight as

namespace Grows

theorem weight_le (h : Grows as bs) : weight as ≤ weight bs ∧ (weight bs ≤ weight as → as = bs) :=
  total_le_of_forall₂ (fun _ _ h => h.weight_le) h

theorem candidates_eq (h : Grows as bs) : candidates l bs = candidates l as := by
  have : (bs.flatMap fun a => a.blocks.flatMap fun b => b.instrs.flatMap Instr.operands) =
      as.flatMap fun a => a.blocks.flatMap fun b => b.instrs.flatMap Instr.operands := by
    induction h with
    | nil => rfl
    | cons hab _ ih => rw [List.flatMap_cons, List.flatMap_cons, hab.blocks, ih]
  rw [candidates, candidates, this]

theorem setCount_eq (h : Grows as bs) : setCount bs = setCount as := by
  unfold setCount
  induction h with
  | nil => rfl
  | cons hab _ ih =>
    rw [List.foldr_cons, List.foldr_cons, ih, LiveSets.size, LiveSets.size, hab.size]

theorem enough_eq (h : Grows as bs) : enough l bs = enough l as := by
  rw [enough, enough, h.candidates_eq, h.setCount_eq]

end Grows

/-- Passes are made until one tells that nothing has grown: from `as` they lead to `as'`, and `m` are
made. -/
inductive Settles (l : Listing) : List Annotation → List Annotation → Nat → Prop
  | last {as as' : List Annotation} : pass l as = .ok (as', false) → Settles l as as' 1
  | more {as as₁ as' : List Annotation} {m : Nat} : pass l as = .ok (as₁, true) →
    Settles l as₁ as' m → Settles l as as' (m + 1)

section Run

variable (ready : Ready l base)

include ready

/-- Every slot belongs to a point, so what is in it can be derived there. -/
theorem Reached.exists_liveAt (h : Reached l base as) {p : Nat} {set : SymbolSet}
    (hset : slot? as k p = some set) (hs : s ∈ set) : ∃ n j, LiveAt l base k n j s := by
  have hk : k < as.length := by
    by_contra ge
    rw [slot?, List.getD_eq_default _ _ (Nat.le_of_not_lt ge)] at hset
    cases hset
  obtain ⟨hp, rfl⟩ := Array.getElem?_eq_some_iff.1 hset
  have laid := (ready.of_grows h.grows).laid k hk
  obtain ⟨n, j, point, rfl⟩ :=
    exists_slotOf (show p < slotCount (as.getD k default).blocks from laid.size ▸ hp)
  have here : s ∈ (as.getD k default).setAt n j := by
    rwa [ Annotation.setAt, Array.getD_eq_getD_getElem?, Array.getElem?_eq_getElem hp]
  exact ⟨n, j, h.sound (h.grows.length_eq ▸ hk) ((h.grows.get k).blocks ▸ point) here⟩

/-- Only candidates are in the sets, so their number is bounded. -/
theorem Reached.weight_lt (h : Reached l base as) : weight as < enough l base := by
  rw [enough, ← h.grows.setCount_eq]
  refine Nat.lt_succ_of_le (total_le_mul (v := fun a : Annotation => a.live.size) fun a ha => ?_)
  obtain ⟨k, hk, rfl⟩ := List.mem_iff_getElem.1 ha
  have bounded : ∀ set ∈ as[k].live.sets.toList, set.size ≤ 1 * (candidates l base).size := by
    intro set hset
    obtain ⟨p, hp, rfl⟩ := List.mem_iff_getElem.1 hset
    rw [Nat.one_mul]
    refine OrdSet.size_le_of_subset ?_
    intro s hs
    have slot : slot? as k p = some as[k].live.sets.toList[p] := by
      rw [slot?, List.getD_eq_getElem _ _ hk, ← Array.getElem?_toList]
      exact List.getElem?_eq_getElem hp
    obtain ⟨n, j, live⟩ := h.exists_liveAt ready slot hs
    exact live.mem_candidates
  have := total_le_mul bounded
  rwa [total_const, Nat.mul_one, Array.length_toList] at this

theorem sweeps_ok (fuel : Nat) (h : Reached l base as) (room : enough l base ≤ weight as + fuel) :
    ∃ as' m, sweeps l fuel as = .ok (as', m) ∧ Reached l base as' ∧ sweep l as' = .ok as' ∧
      Settles l as as' m ∧ m ≤ fuel := by
  induction fuel generalizing as with
  | zero =>
    have := h.weight_lt ready
    omega
  | succ fuel ih =>
    obtain ⟨as₁, grown, hpass, h₁, le, told⟩ := pass_ok ready h
    cases grown with
    | false =>
      have same : as = as₁ := by simpa using told
      subst same
      exact ⟨as, 1, by simp [sweeps, hpass, bind, Except.bind], h,
        (sweep_eq_self_iff ready h).2 hpass, .last hpass, by omega⟩
    | true =>
      have more : weight as < weight as₁ :=
        Nat.lt_of_not_le fun ge => told.1 rfl (le.weight_le.2 ge)
      obtain ⟨as', m, hrun, h', fixed, settles, le⟩ := ih h₁ (by omega)
      exact ⟨as', m + 1, by simp [sweeps, hpass, hrun, bind, Except.bind], h', fixed,
        .more hpass settles, by omega⟩

/-- Sweeps end in a state that a further sweep does not change. -/
theorem run_ok (h : Reached l base as) :
    ∃ as' m, run l as = .ok (as', m) ∧ Reached l base as' ∧ sweep l as' = .ok as' := by
  obtain ⟨as', m, hrun, h', fixed, -⟩ :=
    sweeps_ok ready (enough l as) h (h.grows.enough_eq ▸ Nat.le_add_left ..)
  exact ⟨as', m, hrun, h', fixed⟩

theorem run_settles (h : Reached l base as) :
    ∃ as' m, run l as = .ok (as', m) ∧ Settles l as as' m ∧ m ≤ enough l as := by
  obtain ⟨as', m, hrun, -, -, settles, le⟩ :=
    sweeps_ok ready (enough l as) h (h.grows.enough_eq ▸ Nat.le_add_left ..)
  exact ⟨as', m, hrun, settles, le⟩

end Run

/-- A number of sweeps in a row. -/
def sweepTimes (l : Listing) : Nat → List Annotation → Except Fault (List Annotation)
  | 0, as => .ok as
  | n + 1, as => do
    let as' ← sweep l as
    sweepTimes l n as'

theorem sweepTimes_ok (ready : Ready l base) (n : Nat) (h : Reached l base as) :
    ∃ as', sweepTimes l n as = .ok as' ∧ Reached l base as' := by
  induction n generalizing as with
  | zero => exact ⟨as, rfl, h⟩
  | succ n ih =>
    obtain ⟨as₁, hsweep, h₁, -⟩ := sweep_ok ready h
    obtain ⟨as', hrest, h'⟩ := ih h₁
    exact ⟨as', by simp [sweepTimes, hsweep, hrest, bind, Except.bind], h'⟩

/-! ## The start -/

end Liveness

/-- Every function of a listing has its control flow built. -/
def Listing.FlowsBuilt (l : Listing) (as : List Annotation) : Prop :=
  List.Forall₂ (fun f a => ∃ a₀, l.buildFlow f a₀ = (a, none)) l.functions as

theorem Listing.buildFlows_inv {l : Listing} {fs : List Function} {as as' : List Annotation}
    (length : as.length = fs.length) (h : l.buildFlows fs as = (as', none)) :
    List.Forall₂ (fun f a => ∃ a₀, l.buildFlow f a₀ = (a, none)) fs as' := by
  induction fs generalizing as as' with
  | nil =>
    cases List.length_eq_zero_iff.1 length
    cases h
    exact .nil
  | cons f fs ih =>
    cases as with
    | nil => cases length
    | cons a as =>
      unfold buildFlows at h
      rcases hf : l.buildFlow f a with ⟨a', fault⟩
      cases fault with
      | some e => simp [hf] at h
      | none =>
        rcases hfs : l.buildFlows fs as with ⟨rest, fault⟩
        simp only [hf, hfs, Prod.mk.injEq] at h
        rcases h with ⟨rfl, rfl⟩
        exact .cons ⟨a, hf⟩ (ih (Nat.succ.inj length) hfs)

theorem Listing.FlowsBuilt.get {l : Listing} {as : List Annotation} (h : l.FlowsBuilt as) {k : Nat}
    {f : Function} (hf : l.functions[k]? = some f) : l.HasFlow f (as.getD k default) := by
  obtain ⟨lt, rfl⟩ := List.getElem?_eq_some_iff.1 hf
  have lt' : k < as.length := h.length_eq ▸ lt
  rw [List.getD_eq_getElem _ _ lt']
  obtain ⟨a₀, ha⟩ := List.Forall₂.get h lt lt'
  exact buildFlow_inv ha

namespace Liveness

variable {l : Listing} {as bs base : List Annotation} {k n j : Nat} {s : SymbolId}

theorem getD_start (hk : k < as.length) : (start as).getD k default =
    { as.getD k default with live := .ofBlocks (as.getD k default).blocks } := by
  rw [List.getD_eq_getElem _ _ (by simpa [start] using hk), List.getD_eq_getElem _ _ hk]
  simp [start]

theorem length_start : (start as).length = as.length := List.length_map _

theorem blocks_start : ((start as).getD k default).blocks = (as.getD k default).blocks := by
  simp only [start, List.getD_eq_getElem?_getD, List.getElem?_map]
  cases as[k]? <;> rfl

theorem flow_start : ((start as).getD k default).flow = (as.getD k default).flow := by
  simp only [start, List.getD_eq_getElem?_getD, List.getElem?_map]
  cases as[k]? <;> rfl

theorem liveAt_start : LiveAt l (start as) k n j s ↔ LiveAt l as k n j s :=
  ⟨.of_flow_eq (fun _ => blocks_start.symm) fun _ => flow_start.symm,
    .of_flow_eq (fun _ => blocks_start) fun _ => flow_start⟩

/-- Fresh live sets over control flow that has been built are laid out. -/
theorem ready_start (built : l.FlowsBuilt as) : Ready l (start as) := by
  have flows : ∀ k < (start as).length, ∃ f, l.HasFlow f (as.getD k default) := fun k hk => by
    rw [length_start, ← built.length_eq] at hk
    exact ⟨_, built.get (List.getElem?_eq_getElem hk)⟩
  refine ⟨length_start.trans built.length_eq.symm, fun k hk => ?_, fun k hk => ?_, fun k hk => ?_⟩
  all_goals
    obtain ⟨f, hf⟩ := flows k hk
    rw [length_start] at hk
    rw [getD_start hk]
  · exact .ofBlocks hf.nodup_ids
  · exact hf.blocks_ne
  · rcases hf.flow with ⟨g, hg, -⟩
    exact ⟨g, hg, fun n t ht => hf.successor_lt hg ht⟩

theorem reached_start : Reached l (start as) (start as) where
  grows := .refl _
  sound {k n j s} hk _ hs := by
    rw [length_start] at hk
    rw [getD_start hk, Annotation.setAt, Array.getD_eq_getD_getElem?] at hs
    simp only [LiveSets.ofBlocks, Array.getElem?_replicate] at hs
    split at hs <;> exact absurd hs (OrdSet.not_mem_empty s)

end Liveness

/-! ## The equations -/

/-- Sets before and after the instructions of functions. -/
structure LiveAssignment where
  before : Nat → InstrId → Set SymbolId
  after : Nat → InstrId → Set SymbolId

namespace LiveAssignment

/-- The sets that annotations hold. -/
def ofAnnotations (as : List Annotation) : LiveAssignment where
  before k i := {s | ∃ set, (as.getD k default).live.before? i = some set ∧ s ∈ set}
  after k i := {s | ∃ set, (as.getD k default).live.after? i = some set ∧ s ∈ set}

/-- What an instruction of function `k` asks for: what is live after it and not written by it, the
operands it reads, and, for a call of a function with a body, what is live before the first
instruction of the body without arguments. -/
def beforeRule (l : Listing) (X : LiveAssignment) (k : Nat) (i : Instr) : Set SymbolId :=
  {s | (s ∈ X.after k i.id ∧ s ∉ i.defs) ∨ (s ∈ i.reads ∧ l.isConstant s = false) ∨
    ∃ c k' f first, i.callee? = some c ∧ l.bodyOf? c = some k' ∧ l.functions[k']? = some f ∧
      f.code[0]? = some first ∧ s ∈ X.before k' first.id ∧ (l.symbol s).isArgument = false}

/-- What the successors of block `n` of function `k` ask for. -/
def exitRule (as : List Annotation) (X : LiveAssignment) (k n : Nat) : Set SymbolId :=
  {s | ∃ g t b, (as.getD k default).flow = some g ∧ t ∈ g.successors n ∧
    (as.getD k default).blocks[t]? = some b ∧ s ∈ X.before k b.leader.id}

/-- The equations of liveness, with `R` in the place of equality. -/
structure Obeys (R : Set SymbolId → Set SymbolId → Prop) (l : Listing) (as : List Annotation)
    (X : LiveAssignment) : Prop where
  before : ∀ k f i, l.functions[k]? = some f → i ∈ f.code → R (X.before k i.id) (X.beforeRule l k i)
  inside : ∀ k n j i i', instrAt? (as.getD k default).blocks n j = some i →
    instrAt? (as.getD k default).blocks n (j + 1) = some i' → R (X.after k i.id) (X.before k i'.id)
  exit : ∀ k n b, (as.getD k default).blocks[n]? = some b →
    R (X.after k b.last.id) (X.exitRule as k n)

end LiveAssignment

namespace Liveness

open LiveAssignment

variable {l : Listing} {as as' base : List Annotation} {k n j : Nat} {s : SymbolId} {i : Instr}
  {X : LiveAssignment}

theorem mem_after_iff (ready : Ready l as) (hi : instrAt? (as.getD k default).blocks n j = some i) :
    s ∈ (ofAnnotations as).after k i.id ↔ s ∈ (as.getD k default).setAt n (j + 1) := by
  have eq := (ready.laid k (lt_of_instrAt? hi)).after?_eq hi
  constructor
  · intro given
    rcases given with ⟨set, hset, hs⟩
    cases eq.symm.trans hset
    exact hs
  · exact fun hs => ⟨_, eq, hs⟩

theorem mem_before_iff (ready : Ready l as)
    (hi : instrAt? (as.getD k default).blocks n j = some i) :
    s ∈ (ofAnnotations as).before k i.id ↔ s ∈ (as.getD k default).setAt n j := by
  have eq := (ready.laid k (lt_of_instrAt? hi)).before?_eq hi
  constructor
  · intro given
    rcases given with ⟨set, hset, hs⟩
    cases eq.symm.trans hset
    exact hs
  · exact fun hs => ⟨_, eq, hs⟩

/-- An assignment holds a symbol at a point: before the instruction at the point and after the one
that leads to it. -/
structure HoldsAt (X : LiveAssignment) (as : List Annotation) (k n j : Nat) (s : SymbolId) :
    Prop where
  before : ∀ i, instrAt? (as.getD k default).blocks n j = some i → s ∈ X.before k i.id
  after : ∀ m i, j = m + 1 → instrAt? (as.getD k default).blocks n m = some i → s ∈ X.after k i.id

theorem mem_code_of_instrAt? (built : l.FlowsBuilt as)
    (hi : instrAt? (as.getD k default).blocks n j = some i) :
    ∃ f, l.functions[k]? = some f ∧ i ∈ f.code := by
  have lt : k < l.functions.length := built.length_eq ▸ lt_of_instrAt? hi
  have hf := List.getElem?_eq_getElem lt
  exact ⟨_, hf, (built.get hf).mem_code.2 ⟨n, j, hi⟩⟩

/-- What an instruction asks for is before it, so also after the instruction above it. -/
theorem HoldsAt.of_beforeRule (built : l.FlowsBuilt as) (obeys : X.Obeys (· ⊇ ·) l as)
    (hi : instrAt? (as.getD k default).blocks n j = some i) (hs : s ∈ X.beforeRule l k i) :
    HoldsAt X as k n j s := by
  obtain ⟨f, hf, mem⟩ := mem_code_of_instrAt? built hi
  have here : s ∈ X.before k i.id := obeys.before k f i hf mem hs
  refine ⟨fun i' hi' => Option.some.inj (hi.symm.trans hi') ▸ here, fun m i' e hi' => ?_⟩
  subst e
  exact obeys.inside k n m i' i hi' hi here

/-- The first instruction of a function with control flow leads its first block. -/
theorem exists_first {f : Function} (built : l.FlowsBuilt as) (hf : l.functions[k]? = some f) :
    ∃ i, f.code[0]? = some i ∧ instrAt? (as.getD k default).blocks 0 0 = some i := by
  have flow := built.get hf
  obtain ⟨b, bs, hb⟩ := List.exists_cons_of_ne_nil flow.blocks_ne
  refine ⟨b.leader, ?_, by rw [hb]; rfl⟩
  rw [← flow.flatMap_instrs, hb]
  rfl

/-- Whatever satisfies the equations as inclusions holds what can be derived. -/
theorem LiveAt.holdsAt (built : l.FlowsBuilt as) (obeys : X.Obeys (· ⊇ ·) l as)
    (live : LiveAt l as k n j s) : HoldsAt X as k n j s := by
  induction live with
  | read hi hs const =>
    exact .of_beforeRule built obeys hi (.inr (.inl ⟨hs, const⟩))
  | pass hi _ hd ih =>
    exact .of_beforeRule built obeys hi (.inl ⟨ih.after _ _ rfl hi, hd⟩)
  | @call k n j k' i c s hi hc hk' _ arg ih =>
    obtain ⟨f, hf, -⟩ := Listing.bodyOf?_eq_some hk'
    obtain ⟨first, head, point⟩ := exists_first built hf
    exact .of_beforeRule built obeys hi
      (.inr (.inr ⟨c, k', f, first, hc, hk', hf, head, ih.before _ point, arg⟩))
  | @edge k n t b g s hb hg ht live ih =>
    constructor
    · intro i hi
      rw [instrAt?_of_block hb] at hi
      exact absurd (List.getElem?_eq_some_iff.1 hi).1 (Nat.lt_irrefl _)
    · intro m i e hi
      rw [instrAt?_of_block hb, show m = b.instrs.length - 1 by omega, b.getElem?_instrs_last] at hi
      cases hi
      have hk : k < l.functions.length := built.length_eq ▸ lt_of_getElem?_blocks hb
      have ht' := List.getElem?_eq_getElem
        ((built.get (List.getElem?_eq_getElem hk)).successor_lt hg ht)
      exact obeys.exit k n b hb ⟨g, t, _, hg, ht, ht',
        ih.before _ (instrAt?_eq_some.2 ⟨_, ht', getElem?_instrs_zero _⟩)⟩

/-- At an instruction the last rule of liveness was one of the three about instructions. -/
theorem liveAt_iff_of_instrAt? (hi : instrAt? (as.getD k default).blocks n j = some i) :
    LiveAt l as k n j s ↔ (LiveAt l as k n (j + 1) s ∧ s ∉ i.defs) ∨
      (s ∈ i.reads ∧ l.isConstant s = false) ∨
      ∃ c k', i.callee? = some c ∧ l.bodyOf? c = some k' ∧ LiveAt l as k' 0 0 s ∧
        (l.symbol s).isArgument = false := by
  constructor
  · intro live
    cases live with
    | read hi' hs const =>
      cases hi.symm.trans hi'
      exact .inr (.inl ⟨hs, const⟩)
    | pass hi' live hd =>
      cases hi.symm.trans hi'
      exact .inl ⟨live, hd⟩
    | call hi' hc hk' live arg =>
      cases hi.symm.trans hi'
      exact .inr (.inr ⟨_, _, hc, hk', live, arg⟩)
    | edge hb _ _ _ =>
      rw [instrAt?_of_block hb] at hi
      exact absurd (List.getElem?_eq_some_iff.1 hi).1 (Nat.lt_irrefl _)
  · intro given
    rcases given with ⟨live, hd⟩ | ⟨hs, const⟩ | ⟨c, k', hc, hk', live, arg⟩
    · exact .pass hi live hd
    · exact .read hi hs const
    · exact .call hi hc hk' live arg

/-- At the end of a block the last rule of liveness was the one about edges. -/
theorem liveAt_exit_iff {b : Block} (hb : (as.getD k default).blocks[n]? = some b) :
    LiveAt l as k n b.instrs.length s ↔
      ∃ g t, (as.getD k default).flow = some g ∧ t ∈ g.successors n ∧ LiveAt l as k t 0 s := by
  have outside {i} (hi : instrAt? (as.getD k default).blocks n b.instrs.length = some i) :
      False := by
    rw [instrAt?_of_block hb] at hi
    exact Nat.lt_irrefl _ (List.getElem?_eq_some_iff.1 hi).1
  constructor
  · intro live
    generalize e : b.instrs.length = j at live outside
    cases live with
    | read hi _ _ => exact (outside hi).elim
    | pass hi _ _ => exact (outside hi).elim
    | call hi _ _ _ _ => exact (outside hi).elim
    | edge _ hg ht live => exact ⟨_, _, hg, ht, live⟩
  · intro given
    rcases given with ⟨g, t, hg, ht, live⟩
    exact .edge hb hg ht live

/-- Live sets that sweeps have ended with, over control flow that has been built. -/
structure Solved (l : Listing) (as as' : List Annotation) : Prop where
  built : l.FlowsBuilt as
  reached : Reached l (start as) as'
  settled : sweep l as' = .ok as'

namespace Solved

theorem stable (h : Solved l as as') : Stable l as' :=
  stable_of_sweep (ready_start h.built) h.reached h.settled

theorem ready (h : Solved l as as') : Ready l as' := (ready_start h.built).of_grows h.reached.grows

theorem blocks_eq (h : Solved l as as') :
    (as'.getD k default).blocks = (as.getD k default).blocks :=
  (h.reached.grows.get k).blocks.trans blocks_start

theorem flow_eq (h : Solved l as as') : (as'.getD k default).flow = (as.getD k default).flow :=
  (h.reached.grows.get k).flow.trans flow_start

theorem mem_setAt (h : Solved l as as') (hp : IsPoint (as.getD k default).blocks n j) :
    s ∈ (as'.getD k default).setAt n j ↔ LiveAt l as k n j s := by
  rcases hp with ⟨b, hb, le⟩
  rw [← blocks_start] at hb
  rw [mem_setAt_iff_liveAt (ready_start h.built) h.reached h.stable (lt_of_getElem?_blocks hb)
    ⟨b, hb, le⟩, liveAt_start]

theorem mem_before (h : Solved l as as') (hi : instrAt? (as.getD k default).blocks n j = some i) :
    s ∈ (ofAnnotations as').before k i.id ↔ LiveAt l as k n j s := by
  rw [mem_before_iff h.ready (h.blocks_eq ▸ hi), h.mem_setAt (.of_instrAt? hi)]

theorem mem_after (h : Solved l as as') (hi : instrAt? (as.getD k default).blocks n j = some i) :
    s ∈ (ofAnnotations as').after k i.id ↔ LiveAt l as k n (j + 1) s := by
  rw [mem_after_iff h.ready (h.blocks_eq ▸ hi), h.mem_setAt (.next hi)]

/-- The sets satisfy the equations. -/
theorem obeys (h : Solved l as as') : (ofAnnotations as').Obeys (· = ·) l as where
  before k f i hf hi := by
    obtain ⟨n, j, hi⟩ := (h.built.get hf).mem_code.1 hi
    ext s
    rw [h.mem_before hi, liveAt_iff_of_instrAt? hi]
    refine or_congr (and_congr_left' (h.mem_after hi).symm) (or_congr_right ?_)
    constructor
    · intro given
      rcases given with ⟨c, k', hc, hk', live, arg⟩
      obtain ⟨f', hf', -⟩ := Listing.bodyOf?_eq_some hk'
      obtain ⟨first, head, point⟩ := exists_first h.built hf'
      exact ⟨c, k', f', first, hc, hk', hf', head, (h.mem_before point).2 live, arg⟩
    · intro given
      rcases given with ⟨c, k', f', first, hc, hk', hf', head, hs, arg⟩
      obtain ⟨first', head', point⟩ := exists_first h.built hf'
      cases head.symm.trans head'
      exact ⟨c, k', hc, hk', (h.mem_before point).1 hs, arg⟩
  inside k n j i i' hi hi' := by
    ext s
    rw [h.mem_after hi, h.mem_before hi']
  exit k n b hb := by
    have last := instrAt?_eq_some.2 ⟨b, hb, b.getElem?_instrs_last⟩
    have hk : k < l.functions.length := h.built.length_eq ▸ lt_of_getElem?_blocks hb
    have flow := h.built.get (List.getElem?_eq_getElem hk)
    ext s
    rw [h.mem_after last, Nat.sub_add_cancel b.length_instrs_pos, liveAt_exit_iff hb]
    constructor
    · intro given
      rcases given with ⟨g, t, hg, ht, live⟩
      have ht' := List.getElem?_eq_getElem (flow.successor_lt hg ht)
      have lead := instrAt?_eq_some.2 ⟨_, ht', getElem?_instrs_zero _⟩
      exact ⟨g, t, _, hg, ht, ht', (h.mem_before lead).2 live⟩
    · intro given
      rcases given with ⟨g, t, c, hg, ht, hc, hs⟩
      have lead := instrAt?_eq_some.2 ⟨c, hc, c.getElem?_instrs_zero⟩
      exact ⟨g, t, hg, ht, (h.mem_before lead).1 hs⟩

/-- The sets are part of every assignment that satisfies the equations as inclusions. -/
theorem subset_of_obeys (h : Solved l as as') {f : Function} (obeys : X.Obeys (· ⊇ ·) l as)
    (hf : l.functions[k]? = some f) (hi : i ∈ f.code) :
    (ofAnnotations as').before k i.id ⊆ X.before k i.id ∧
      (ofAnnotations as').after k i.id ⊆ X.after k i.id := by
  obtain ⟨n, j, hi⟩ := (h.built.get hf).mem_code.1 hi
  constructor
  · intro s hs
    exact (((h.mem_before hi).1 hs).holdsAt h.built obeys).before i hi
  · intro s hs
    exact (((h.mem_after hi).1 hs).holdsAt h.built obeys).after j i rfl hi

end Solved

/-- Liveness is the least solution of its equations. After any number of sweeps a run succeeds and
leaves every instruction with a set before and a set after it; these sets satisfy the equations, and
are part of every assignment of sets that satisfies them as inclusions. -/
theorem isLeast_solution (built : l.FlowsBuilt as) (n : Nat) :
    ∃ as₁ as₂ m, sweepTimes l n (start as) = .ok as₁ ∧ run l as₁ = .ok (as₂, m) ∧
      (∀ k f i, l.functions[k]? = some f → i ∈ f.code →
        ((as₂.getD k default).live.before? i.id).isSome ∧
          ((as₂.getD k default).live.after? i.id).isSome) ∧
      (ofAnnotations as₂).Obeys (· = ·) l as ∧
      ∀ X : LiveAssignment, X.Obeys (· ⊇ ·) l as → ∀ k f i, l.functions[k]? = some f → i ∈ f.code →
        (ofAnnotations as₂).before k i.id ⊆ X.before k i.id ∧
          (ofAnnotations as₂).after k i.id ⊆ X.after k i.id := by
  have ready := ready_start built
  obtain ⟨as₁, hsweeps, h₁⟩ := sweepTimes_ok ready n reached_start
  obtain ⟨as₂, m, hrun, h₂, settled⟩ := run_ok ready h₁
  have solved : Solved l as as₂ := ⟨built, h₂, settled⟩
  refine ⟨as₁, as₂, m, hsweeps, hrun, fun k f i hf hi => ?_, solved.obeys,
    fun X obeys k f i => solved.subset_of_obeys obeys⟩
  obtain ⟨n, j, hi⟩ := (built.get hf).mem_code.1 hi
  have hi' := solved.blocks_eq ▸ hi
  have laid := solved.ready.laid k (lt_of_instrAt? hi')
  rw [laid.before?_eq hi', laid.after?_eq hi']
  exact ⟨rfl, rfl⟩

end Liveness

/-- A function `pow(n)` with a loop and a call of itself:
`r := 1; t := n; loop: if n ≤ 1 goto done; r := r * t; n := n - 1; goto loop; done: t := pow(t);
r := r + t; return r`. -/
def Listing.pow : Listing :=
  let symbols : List Symbol :=
    [{ name := "pow", kind := .function, type := some (.scalar .int) },
      { name := "1", kind := .int 1, type := some (.scalar .int) },
      { name := "loop", kind := .label, type := none },
      { name := "done", kind := .label, type := none }]
  let l : Listing := symbols.foldl (fun l s => (l.addSymbol s).1) {}
  let l := { l with functions := [{ symbol := 0 }] }
  let l := (l.addParam 0 "n" none 4).1
  let l := ((l.addLocal 0 "r" none).1.addLocal 0 "t" none).1
  let code : List Action :=
    [.apply .assign [5, 1], .apply .assign [6, 4], .label 2, .apply (.branch .le) [4, 1, 3],
      .apply (.arith .mul) [5, 5, 6], .apply (.arith .sub) [4, 4, 1], .apply .goto [2], .label 3,
      .apply .call [6, 0, 6], .apply (.arith .add) [5, 5, 6], .apply .ret [5]]
  code.foldl (fun l a => (l.push 0 a 0).1) l

namespace Liveness

open LiveAssignment

theorem isLeast_solution_pow :
    ∃ as as₁ as₂ m, Listing.pow.FlowsBuilt as ∧ sweepTimes Listing.pow 2 (start as) = .ok as₁ ∧
      run Listing.pow as₁ = .ok (as₂, m) ∧ (ofAnnotations as₂).Obeys (· = ·) Listing.pow as := by
  have built : Listing.pow.FlowsBuilt
      (Listing.pow.buildFlows Listing.pow.functions Listing.pow.freshAnnotations).1 :=
    Listing.buildFlows_inv (rfl : Listing.pow.freshAnnotations.length = _)
      (Prod.ext rfl (by decide))
  obtain ⟨as₁, as₂, m, hsweeps, hrun, -, obeys, -⟩ := isLeast_solution built 2
  exact ⟨_, as₁, as₂, m, built, hsweeps, hrun, obeys⟩

end Liveness

end RegColor
