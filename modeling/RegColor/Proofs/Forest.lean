import Mathlib.Algebra.BigOperators.Group.Finset.Basic
import Mathlib.Data.Finset.Card
import RegColor.Proofs.Data
import RegColor.Web.Forest

/-!
# Sets of webs

A forest is sound when every parent is in it and ranks rise on the way to a root
(`Forest.Sound`). `Forest.Leads` is the way to the root as a relation; it is a function on the webs
of a sound forest, and `Forest.root` computes it (`leads_root`): ranks rise, so no web is met twice
and the number of webs is fuel enough.

* `find_spec`: looking up a representative changes no set;
* `merged_union`: uniting two sets makes the root of one the root of both, and nothing else
  changes;
* `root_union_eq_iff`: the sets of a union are those of before, with the two made one;
* `Pooled.union`: uniting sets keeps, for each root, the ranges and the costs of all webs in its
  set;
* `Joined.union`: uniting sets of webs of one variable keeps the variable of each set.
-/

namespace RegColor.Forest

variable {d d' : Forest} {a b j k p r s u v : Nat} {g : Web → Web}

/-! ## Updates -/

theorem getD_modify (hk : k < d.size) {f : Node → Node} : (d.nodes.modify k f).getD j default =
    if j = k then f (d.nodes.getD k default) else d.nodes.getD j default := by
  have hk' : k < d.nodes.size := hk
  rw [Array.getD_eq_getD_getElem?, Array.getElem?_modify]
  by_cases e : j = k
  · subst e
    simp [Array.getElem?_eq_getElem hk']
  · have : ¬ k = j := fun h => e h.symm
    simp [e, this]

/-- What a change of a node keeps is kept in the forest. -/
theorem getD_modify_kept {α : Type} (part : Node → α) {f : Node → Node}
    (kept : ∀ n, part (f n) = part n) :
    part ((d.nodes.modify k f).getD j default) = part (d.nodes.getD j default) := by
  simp only [Array.getD_eq_getD_getElem?, Array.getElem?_modify]
  split
  · cases d.nodes[j]? with
    | none => rfl
    | some n => exact kept n
  · rfl

@[simp] theorem size_setParent : (d.setParent k p).size = d.size := Array.size_modify

@[simp] theorem size_modifyWeb : (d.modifyWeb k g).size = d.size := Array.size_modify

@[simp] theorem size_raiseRank : (d.raiseRank k).size = d.size := Array.size_modify

@[simp] theorem rank_setParent : (d.setParent k p).rank j = d.rank j :=
  getD_modify_kept Node.rank fun _ => rfl

@[simp] theorem web_setParent : (d.setParent k p).web j = d.web j :=
  getD_modify_kept Node.web fun _ => rfl

@[simp] theorem parent_modifyWeb : (d.modifyWeb k g).parent j = d.parent j :=
  getD_modify_kept Node.parent fun _ => rfl

@[simp] theorem rank_modifyWeb : (d.modifyWeb k g).rank j = d.rank j :=
  getD_modify_kept Node.rank fun _ => rfl

@[simp] theorem parent_raiseRank : (d.raiseRank k).parent j = d.parent j :=
  getD_modify_kept Node.parent fun _ => rfl

@[simp] theorem web_raiseRank : (d.raiseRank k).web j = d.web j :=
  getD_modify_kept Node.web fun _ => rfl

theorem parent_setParent (hk : k < d.size) :
    (d.setParent k p).parent j = if j = k then p else d.parent j := by
  simp only [parent, setParent, getD_modify hk, apply_ite Node.parent]

theorem web_modifyWeb (hk : k < d.size) :
    (d.modifyWeb k g).web j = if j = k then g (d.web k) else d.web j := by
  simp only [web, modifyWeb, getD_modify hk, apply_ite Node.web]

theorem rank_raiseRank (hk : k < d.size) :
    (d.raiseRank k).rank j = if j = k then d.rank k + 1 else d.rank j := by
  simp only [rank, raiseRank, getD_modify hk, apply_ite Node.rank]

@[simp] theorem size_add {w : Web} : (d.add w).1.size = d.size + 1 := Array.size_push ..

theorem getD_add {w : Web} : (d.add w).1.nodes.getD j default =
    if j = d.size then { web := { w with id := d.size }, parent := d.size }
    else d.nodes.getD j default := by
  simp only [add, size, Array.getD_eq_getD_getElem?, Array.getElem?_push]
  split <;> rfl

theorem parent_add {w : Web} :
    (d.add w).1.parent j = if j = d.size then d.size else d.parent j := by
  simp only [parent, getD_add, apply_ite Node.parent]

theorem web_add {w : Web} :
    (d.add w).1.web j = if j = d.size then { w with id := d.size } else d.web j := by
  simp only [web, getD_add, apply_ite Node.web]

theorem web_of_size_le (h : d.size ≤ k) : d.web k = default := by
  have outside : d.nodes[k]? = none := Array.getElem?_eq_none h
  rw [web, Array.getD_eq_getD_getElem?, outside]
  rfl

/-! ## Ways to roots -/

/-- The way from a web along parents ends at a root. -/
inductive Leads (d : Forest) : Nat → Nat → Prop
  | root {r : Nat} : d.parent r = r → Leads d r r
  | step {k r : Nat} : d.parent k ≠ k → Leads d (d.parent k) r → Leads d k r

namespace Leads

theorem isRoot (h : d.Leads k r) : d.parent r = r := by
  induction h with
  | root h => exact h
  | step _ _ ih => exact ih

theorem unique (h : d.Leads k r) (h' : d.Leads k s) : r = s := by
  induction h with
  | root h =>
    cases h' with
    | root _ => rfl
    | step ne _ => exact absurd h ne
  | step ne _ ih =>
    cases h' with
    | root h => exact absurd h ne
    | step _ h' => exact ih h'

/-- Only parents matter. -/
theorem of_parent_eq (same : ∀ j, d'.parent j = d.parent j) (h : d.Leads k r) :
    d'.Leads k r := by
  induction h with
  | root h => exact .root ((same _).trans h)
  | @step k r ne _ ih => exact .step (same k ▸ ne) (same k ▸ ih)

/-- Making its root the parent of a web changes no way's end. -/
theorem setParent (hk : k < d.size) (h : d.Leads k r) (hj : d.Leads j s) :
    (d.setParent k r).Leads j s := by
  have stays : (d.setParent k r).parent r = r := by
    rw [parent_setParent hk]
    split
    · rfl
    · exact h.isRoot
  induction hj with
  | @root s hs =>
    by_cases e : s = k
    · subst e
      cases h.unique (.root hs)
      exact .root stays
    · exact .root (by rw [parent_setParent hk, if_neg e, hs])
  | @step j s ne way ih =>
    by_cases e : j = k
    · subst e
      cases h.unique (.step ne way)
      refine .step ?_ ?_
      · rw [parent_setParent hk, if_pos rfl]
        intro same
        subst same
        exact ne h.isRoot
      · rw [parent_setParent hk, if_pos rfl]
        exact .root stays
    · have kept : (d.setParent k r).parent j = d.parent j := by rw [parent_setParent hk, if_neg e]
      exact .step (kept ▸ ne) (kept ▸ ih)

end Leads

/-- Parents are webs of the forest, and ranks rise on the way to a root. -/
structure Sound (d : Forest) : Prop where
  parent_lt : ∀ k < d.size, d.parent k < d.size
  rank_lt : ∀ k < d.size, d.parent k ≠ k → d.rank k < d.rank (d.parent k)

theorem Leads.lt (sound : d.Sound) (h : d.Leads k r) (hk : k < d.size) : r < d.size := by
  induction h with
  | root _ => exact hk
  | step _ _ ih => exact ih (sound.parent_lt _ hk)

theorem Leads.rank_lt (sound : d.Sound) (h : d.Leads k r) (hk : k < d.size) :
    k = r ∨ d.rank k < d.rank r := by
  induction h with
  | root _ => exact .inl rfl
  | @step k r ne _ ih =>
    have up := sound.rank_lt k hk ne
    rcases ih (sound.parent_lt k hk) with e | lt
    · exact .inr (e ▸ up)
    · exact .inr (up.trans lt)

/-- The number of webs of higher rank. -/
def above (d : Forest) (k : Nat) : Nat :=
  ((Finset.range d.size).filter fun j => d.rank k < d.rank j).card

theorem above_lt (hk : k < d.size) : d.above k < d.size := by
  have : (Finset.range d.size).filter (fun j => d.rank k < d.rank j) ⊂ Finset.range d.size :=
    Finset.filter_ssubset.2 ⟨k, Finset.mem_range.2 hk, Nat.lt_irrefl _⟩
  simpa [above] using Finset.card_lt_card this

theorem above_parent_lt (sound : d.Sound) (hk : k < d.size) (ne : d.parent k ≠ k) :
    d.above (d.parent k) < d.above k := by
  have up := sound.rank_lt k hk ne
  refine Finset.card_lt_card (Finset.ssubset_iff_subset_ne.2 ⟨fun j hj => ?_, fun e => ?_⟩)
  · rw [Finset.mem_filter] at hj ⊢
    exact ⟨hj.1, up.trans hj.2⟩
  · have here : d.parent k ∈ (Finset.range d.size).filter fun j => d.rank k < d.rank j :=
      Finset.mem_filter.2 ⟨Finset.mem_range.2 (sound.parent_lt k hk), up⟩
    rw [← e, Finset.mem_filter] at here
    exact Nat.lt_irrefl _ here.2

/-! ## Looking up -/

/-- The same sets with the same webs, ways to roots apart. -/
structure SameSets (d d' : Forest) : Prop where
  sound : d'.Sound
  size : d'.size = d.size
  web : ∀ j, d'.web j = d.web j
  rank : ∀ j, d'.rank j = d.rank j
  leads : ∀ {j r}, d.Leads j r → d'.Leads j r

theorem SameSets.setParent (h : SameSets d d') (hk : k < d.size) (way : d.Leads k r) :
    SameSets d (d'.setParent k r) := by
  have hk' : k < d'.size := h.size ▸ hk
  have way' := h.leads way
  refine ⟨⟨fun j hj => ?_, fun j hj ne => ?_⟩, ?_, fun j => ?_, fun j => ?_, fun hj => ?_⟩
  · rw [size_setParent] at hj ⊢
    rw [parent_setParent hk']
    split
    · exact way'.lt h.sound hk'
    · exact h.sound.parent_lt j hj
  · rw [size_setParent] at hj
    rw [parent_setParent hk'] at ne ⊢
    rw [rank_setParent, rank_setParent]
    split at ne
    · next e =>
      subst e
      rw [if_pos rfl]
      exact (way'.rank_lt h.sound hk').resolve_left fun e => ne e.symm
    · next e =>
      rw [if_neg e]
      exact h.sound.rank_lt j hj ne
  · rw [size_setParent, h.size]
  · rw [web_setParent, h.web]
  · rw [rank_setParent, h.rank]
  · exact way'.setParent hk' (h.leads hj)

theorem climb_spec (sound : d.Sound) (fuel : Nat) (hk : k < d.size) (enough : d.above k < fuel) :
    SameSets d (d.climb k fuel).1 ∧ d.Leads k (d.climb k fuel).2 := by
  induction fuel generalizing k with
  | zero => cases enough
  | succ fuel ih =>
    unfold climb
    split
    · next e => exact ⟨⟨sound, rfl, fun _ => rfl, fun _ => rfl, id⟩, .root e⟩
    · next ne =>
      have lower := above_parent_lt sound hk ne
      obtain ⟨same, way⟩ := ih (sound.parent_lt k hk) (by omega)
      exact ⟨same.setParent hk (.step ne way), .step ne way⟩

/-- Looking up a representative finds the root and changes no set. -/
theorem find_spec (sound : d.Sound) (hk : k < d.size) :
    SameSets d (d.find k).1 ∧ d.Leads k (d.find k).2 :=
  climb_spec sound d.size hk (above_lt hk)

theorem leads_root (sound : d.Sound) (hk : k < d.size) : d.Leads k (d.root k) :=
  (find_spec sound hk).2

theorem Leads.root_eq (sound : d.Sound) (hk : k < d.size) (h : d.Leads k r) : d.root k = r :=
  (leads_root sound hk).unique h

theorem root_lt (sound : d.Sound) (hk : k < d.size) : d.root k < d.size :=
  (leads_root sound hk).lt sound hk

theorem root_root (sound : d.Sound) (hk : k < d.size) : d.root (d.root k) = d.root k :=
  Leads.root_eq sound (root_lt sound hk) (.root (leads_root sound hk).isRoot)

theorem SameSets.root_eq (sound : d.Sound) (h : SameSets d d') (hk : k < d.size) :
    d'.root k = d.root k :=
  Leads.root_eq h.sound (h.size ▸ hk) (h.leads (leads_root sound hk))

theorem SameSets.trans {d₁ d₂ d₃ : Forest} (h : SameSets d₁ d₂) (h' : SameSets d₂ d₃) :
    SameSets d₁ d₃ where
  sound := h'.sound
  size := h'.size.trans h.size
  web j := (h'.web j).trans (h.web j)
  rank j := (h'.rank j).trans (h.rank j)
  leads way := h'.leads (h.leads way)

theorem mem_roots : r ∈ d.roots ↔ r < d.size ∧ d.root r = r := by
  simp [roots]

/-! ## Uniting -/

/-- The root `u` has become a child of the root `v`, whose web has taken over. -/
structure Merged (d d' : Forest) (u v : Nat) : Prop where
  sound : d'.Sound
  size : d'.size = d.size
  root : ∀ k < d.size, d'.root k = if d.root k = u then v else d.root k
  web : ∀ k, d'.web k = if k = v then (d.web v).absorb (d.web u) else d.web k
  rank : ∀ k, d'.rank k = if k = v ∧ d.rank u = d.rank v then d.rank v + 1 else d.rank k

theorem size_attach : (d.attach u v).size = d.size := by
  rw [attach, size_modifyWeb, size_setParent]

theorem parent_attach (hu : u < d.size) :
    (d.attach u v).parent j = if j = u then v else d.parent j := by
  rw [attach, parent_modifyWeb, parent_setParent hu]

theorem rank_attach : (d.attach u v).rank j = d.rank j := by
  rw [attach, rank_modifyWeb, rank_setParent]

theorem leads_attach (hu : u < d.size) (ru : d.parent u = u) (rv : d.parent v = v) (ne : u ≠ v)
    (h : d.Leads k r) : (d.attach u v).Leads k (if r = u then v else r) := by
  have top : (d.attach u v).Leads v v := .root (by rw [parent_attach hu, if_neg ne.symm, rv])
  induction h with
  | @root r hr =>
    split
    · next e =>
      subst e
      have up : (d.attach r v).parent r = v := by rw [parent_attach hu, if_pos rfl]
      exact .step (by rw [up]; exact ne.symm) (up.symm ▸ top)
    · next e => exact .root (by rw [parent_attach hu, if_neg e, hr])
  | @step k r hk _ ih =>
    have other : k ≠ u := fun e => hk (e ▸ ru)
    have kept : (d.attach u v).parent k = d.parent k := by rw [parent_attach hu, if_neg other]
    exact .step (kept ▸ hk) (kept ▸ ih)

theorem Sound.attach (sound : d.Sound) (hu : u < d.size) (hv : v < d.size)
    (lower : d.rank u < d.rank v) : (d.attach u v).Sound where
  parent_lt k hk := by
    rw [size_attach] at hk ⊢
    rw [parent_attach hu]
    split
    · exact hv
    · exact sound.parent_lt k hk
  rank_lt k hk h := by
    rw [size_attach] at hk
    rw [parent_attach hu] at h
    rw [rank_attach, rank_attach, parent_attach hu]
    split
    · next e => exact e ▸ lower
    · next e => exact sound.rank_lt k hk (by rwa [if_neg e] at h)

theorem merged_attach (sound : d.Sound) (hu : u < d.size) (hv : v < d.size) (ru : d.parent u = u)
    (rv : d.parent v = v) (lower : d.rank u < d.rank v) : Merged d (d.attach u v) u v := by
  have ne : u ≠ v := fun e => Nat.lt_irrefl _ (e ▸ lower)
  have sound' := sound.attach hu hv lower
  refine ⟨sound', size_attach, fun k hk => ?_, fun k => ?_, fun k => ?_⟩
  · exact (leads_attach hu ru rv ne (leads_root sound hk)).root_eq sound' (by rwa [size_attach])
  · rw [Forest.attach, web_modifyWeb (by rwa [size_setParent]), web_setParent, web_setParent]
  · rw [rank_attach, if_neg fun h => Nat.ne_of_lt lower h.2]

theorem Sound.raiseRank (sound : d.Sound) (hk : k < d.size) (root : d.parent k = k) :
    (d.raiseRank k).Sound where
  parent_lt j hj := by
    rw [size_raiseRank] at hj ⊢
    rw [parent_raiseRank]
    exact sound.parent_lt j hj
  rank_lt j hj ne := by
    rw [size_raiseRank] at hj
    rw [parent_raiseRank] at ne ⊢
    have up := sound.rank_lt j hj ne
    have other : j ≠ k := fun e => ne (e ▸ root)
    rw [rank_raiseRank hk, rank_raiseRank hk, if_neg other]
    split
    · next e =>
      rw [e] at up
      omega
    · exact up

theorem root_raiseRank (sound : d.Sound) (hk : k < d.size) (root : d.parent k = k)
    (hj : j < d.size) : (d.raiseRank k).root j = d.root j :=
  Leads.root_eq (sound.raiseRank hk root) (by rwa [size_raiseRank])
    (.of_parent_eq (fun _ => parent_raiseRank) (leads_root sound hj))

/-- A merger after a look-up is a merger. -/
theorem Merged.of_sameSets {d₀ : Forest} (sound : d₀.Sound) (same : SameSets d₀ d)
    (h : Merged d d' u v) : Merged d₀ d' u v where
  sound := h.sound
  size := h.size.trans same.size
  root k hk := by rw [h.root k (same.size ▸ hk), same.root_eq sound hk]
  web k := by simp only [h.web, same.web]
  rank k := by simp only [h.rank, same.rank]

/-- Unites the sets of two roots: what `union` does once it has looked them up. -/
def link (d : Forest) (x y : Nat) : Forest :=
  if x = y then d
  else if d.rank y < d.rank x then d.attach y x
  else if d.rank x = d.rank y then (d.raiseRank y).attach x y
  else d.attach x y

theorem union_eq_link (sound : d.Sound) (ha : a < d.size) (hb : b < d.size) :
    (d.union a b).1 = ((d.find a).1.find b).1.link (d.root a) (d.root b) := by
  have ra : (d.find a).2 = d.root a := rfl
  have rb : ((d.find a).1.find b).2 = d.root b := (find_spec sound ha).1.root_eq sound hb
  simp only [union, link, ra, rb, apply_ite Prod.fst]

theorem merged_link (sound : d.Sound) (hu : u < d.size) (hv : v < d.size) (ru : d.parent u = u)
    (rv : d.parent v = v) (ne : u ≠ v) : (d.rank u ≤ d.rank v ∧ Merged d (d.link u v) u v) ∨
      (d.rank v < d.rank u ∧ Merged d (d.link u v) v u) := by
  rw [link, if_neg ne]
  rcases Nat.lt_trichotomy (d.rank u) (d.rank v) with lower | eq | lower
  · rw [if_neg (by omega), if_neg (by omega)]
    exact .inl ⟨Nat.le_of_lt lower, merged_attach sound hu hv ru rv lower⟩
  · rw [if_neg (by omega), if_pos eq]
    have raised := merged_attach (sound.raiseRank hv rv) (by rwa [size_raiseRank])
      (by rwa [size_raiseRank]) (parent_raiseRank.trans ru) (parent_raiseRank.trans rv)
      (by rw [rank_raiseRank hv, rank_raiseRank hv, if_neg ne, if_pos rfl, eq]; omega)
    refine .inl ⟨Nat.le_of_eq eq, raised.sound, raised.size.trans size_raiseRank, fun k hk => ?_,
      fun k => ?_, fun k => ?_⟩
    · rw [raised.root k (by rwa [size_raiseRank]), root_raiseRank sound hv rv hk]
    · simp only [raised.web, web_raiseRank]
    · simp only [rank_attach, rank_raiseRank hv, eq, and_true]
  · rw [if_pos lower]
    exact .inr ⟨lower, merged_attach sound hv hu rv ru lower⟩

/-- Uniting two sets makes the root of one, which is not of lower rank, the root of both, and
nothing else changes. -/
theorem merged_union (sound : d.Sound) (ha : a < d.size) (hb : b < d.size) :
    (d.root a = d.root b ∧ SameSets d (d.union a b).1) ∨ d.root a ≠ d.root b ∧
      ((d.rank (d.root a) ≤ d.rank (d.root b) ∧
          Merged d (d.union a b).1 (d.root a) (d.root b)) ∨
        (d.rank (d.root b) < d.rank (d.root a) ∧
          Merged d (d.union a b).1 (d.root b) (d.root a))) := by
  have same : SameSets d ((d.find a).1.find b).1 := by
    have first := (find_spec sound ha).1
    exact first.trans (find_spec first.sound (first.size ▸ hb)).1
  rw [union_eq_link sound ha hb]
  by_cases h : d.root a = d.root b
  · rw [link, if_pos h]
    exact .inl ⟨h, same⟩
  · have isRoot {k} (hk : k < d.size) := (same.leads (leads_root sound hk)).isRoot
    have lt {k} (hk : k < d.size) := same.size ▸ root_lt sound hk
    refine .inr ⟨h, ?_⟩
    have link := merged_link same.sound (lt ha) (lt hb) (isRoot ha) (isRoot hb) h
    rw [same.rank, same.rank] at link
    rcases link with ⟨le, m⟩ | ⟨lower, m⟩
    · exact .inl ⟨le, m.of_sameSets sound same⟩
    · exact .inr ⟨lower, m.of_sameSets sound same⟩

/-- What looking up and merging two roots each lead to, a union leads to. -/
theorem union_cases {P : Forest → Prop} (sound : d.Sound) (ha : a < d.size) (hb : b < d.size)
    (same : ∀ d', SameSets d d' → P d')
    (merged : ∀ d' u v, Merged d d' u v → u < d.size → v < d.size → d.root u = u → d.root v = v →
      u ≠ v → P d') : P (d.union a b).1 := by
  have lt {k} (hk : k < d.size) := root_lt sound hk
  have rr {k} (hk : k < d.size) := root_root sound hk
  rcases merged_union sound ha hb with ⟨-, sets⟩ | ⟨ne, ⟨-, m⟩ | ⟨-, m⟩⟩
  · exact same _ sets
  · exact merged _ _ _ m (lt ha) (lt hb) (rr ha) (rr hb) ne
  · exact merged _ _ _ m (lt hb) (lt ha) (rr hb) (rr ha) ne.symm

theorem Merged.root_eq_iff (m : Merged d d' u v) (hj : j < d.size) (hk : k < d.size) :
    d'.root j = d'.root k ↔ d.root j = d.root k ∨
      (d.root j = u ∧ d.root k = v) ∨ (d.root j = v ∧ d.root k = u) := by
  rw [m.root j hj, m.root k hk]
  split <;> split <;> omega

/-- Two webs are in one set of a union if they were before, or if they were in the two sets that
are united. -/
theorem root_union_eq_iff (sound : d.Sound) (ha : a < d.size) (hb : b < d.size) (hj : j < d.size)
    (hk : k < d.size) : (d.union a b).1.root j = (d.union a b).1.root k ↔ d.root j = d.root k ∨
      (d.root j = d.root a ∧ d.root k = d.root b) ∨
      (d.root j = d.root b ∧ d.root k = d.root a) := by
  rcases merged_union sound ha hb with ⟨e, sets⟩ | ⟨-, ⟨-, m⟩ | ⟨-, m⟩⟩
  · rw [sets.root_eq sound hj, sets.root_eq sound hk]
    omega
  · exact m.root_eq_iff hj hk
  · rw [m.root_eq_iff hj hk, or_comm (a := _ ∧ _)]

/-! ## What sets hold -/

/-- Sets of webs of a forest `d₀`. The web of a root covers what the webs of its set cover in `d₀`,
and its cost is theirs together. -/
structure Pooled (d₀ d : Forest) : Prop where
  sound : d.Sound
  size : d.size = d₀.size
  id : ∀ k, (d.web k).id = (d₀.web k).id
  symbol : ∀ k, (d.web k).symbol = (d₀.web k).symbol
  range : ∀ r < d₀.size, d.root r = r → ∀ i,
    i ∈ (d.web r).range ↔ ∃ k < d₀.size, d.root k = r ∧ i ∈ (d₀.web k).range
  cost : (∀ k, Word.fits (d₀.web k).cost = true) → ∀ r < d₀.size, d.root r = r →
    (d.web r).cost = Word.wrap (∑ k ∈ Finset.range d₀.size with d.root k = r, (d₀.web k).cost)

/-- A root that is left after a merge was one before, and is not the one that gave up its place. -/
theorem Merged.root_of_root (m : Merged d d' u v) (ru : d.root u = u) (rv : d.root v = v)
    (ne : u ≠ v) {r : Nat} (hr : r < d.size) (e : d'.root r = r) : r ≠ u ∧ d.root r = r := by
  rw [m.root r hr] at e
  constructor
  · intro same
    subst same
    rw [ru, if_pos rfl] at e
    exact ne e.symm
  · split at e
    · subst e
      exact rv
    · exact e

/-- Sets that are not merged stay as they are. -/
theorem Merged.root_eq_iff_of_ne (m : Merged d d' u v) (hk : k < d.size) (notu : r ≠ u)
    (notv : r ≠ v) : d'.root k = r ↔ d.root k = r := by
  rw [m.root k hk]
  split
  · next e =>
    constructor
    · exact fun same => absurd same.symm notv
    · exact fun same => absurd (same.symm.trans e) notu
  · exact Iff.rfl

namespace Pooled

variable {d₀ : Forest}

/-- Every web is a set of its own where no web has a parent. -/
theorem refl (flat : ∀ k < d.size, d.parent k = k) : Pooled d d := by
  have sound : d.Sound := ⟨fun k hk => (flat k hk).symm ▸ hk, fun k hk ne => absurd (flat k hk) ne⟩
  have root {k} (hk : k < d.size) : d.root k = k := Leads.root_eq sound hk (.root (flat k hk))
  refine ⟨sound, rfl, fun _ => rfl, fun _ => rfl, fun r hr _ i => ?_, fun fits r hr _ => ?_⟩
  · constructor
    · exact fun hi => ⟨r, hr, root hr, hi⟩
    · intro given
      rcases given with ⟨k, hk, rfl, hi⟩
      rwa [root hk]
  · have alone : (Finset.range d.size).filter (d.root · = r) = {r} := by
      ext k
      rw [Finset.mem_filter, Finset.mem_range, Finset.mem_singleton]
      exact ⟨fun h => (root h.1).symm.trans h.2, fun e => e.symm ▸ ⟨hr, root hr⟩⟩
    rw [alone, Finset.sum_singleton, Word.wrap_of_fits (fits r)]

theorem sameSets (h : Pooled d₀ d) (same : SameSets d d') : Pooled d₀ d' := by
  have root {k} (hk : k < d₀.size) : d'.root k = d.root k := same.root_eq h.sound (h.size ▸ hk)
  refine ⟨same.sound, same.size.trans h.size, fun k => by rw [same.web, h.id],
    fun k => by rw [same.web, h.symbol], fun r hr e i => ?_, fun fits r hr e => ?_⟩
  · rw [root hr] at e
    rw [same.web, h.range r hr e]
    refine exists_congr fun k => and_congr_right ?_
    intro hk
    rw [root hk]
  · rw [root hr] at e
    rw [same.web, h.cost fits r hr e]
    refine congrArg Word.wrap (Finset.sum_congr (Finset.filter_congr fun k hk => ?_) fun _ _ => rfl)
    rw [root (Finset.mem_range.1 hk)]

/-- The root that stays holds the ranges of both. -/
theorem mem_range_merged (h : Pooled d₀ d) (m : Merged d d' u v) (hu : u < d₀.size)
    (hv : v < d₀.size) (ru : d.root u = u) (rv : d.root v = v) (ne : u ≠ v) {i : InstrId} :
    i ∈ (d'.web v).range ↔ ∃ k < d₀.size, d'.root k = v ∧ i ∈ (d₀.web k).range := by
  have root {k} (hk : k < d₀.size) := m.root k (h.size.symm ▸ hk)
  rw [m.web, if_pos rfl, Web.absorb, OrdSet.mem_union, h.range v hv rv, h.range u hu ru]
  constructor
  · intro given
    rcases given with ⟨k, hk, hroot, hi⟩ | ⟨k, hk, hroot, hi⟩
    · exact ⟨k, hk, by rw [root hk, hroot, if_neg ne.symm], hi⟩
    · exact ⟨k, hk, by rw [root hk, if_pos hroot], hi⟩
  · intro given
    rcases given with ⟨k, hk, hroot, hi⟩
    rw [root hk] at hroot
    split at hroot
    · next hu' => exact .inr ⟨k, hk, hu', hi⟩
    · exact .inl ⟨k, hk, hroot, hi⟩

/-- The root that stays has the costs of both. -/
theorem cost_merged (h : Pooled d₀ d) (m : Merged d d' u v) (hu : u < d₀.size) (hv : v < d₀.size)
    (ru : d.root u = u) (rv : d.root v = v) (ne : u ≠ v)
    (fits : ∀ k, Word.fits (d₀.web k).cost = true) : (d'.web v).cost =
      Word.wrap (∑ k ∈ Finset.range d₀.size with d'.root k = v, (d₀.web k).cost) := by
  rw [m.web, if_pos rfl, Web.absorb, h.cost fits v hv rv, h.cost fits u hu ru, Word.wrap_wrap_add,
    Word.wrap_add_wrap, Finset.sum_filter, Finset.sum_filter, Finset.sum_filter,
    ← Finset.sum_add_distrib]
  refine congrArg Word.wrap (Finset.sum_congr rfl fun k hk => ?_)
  rw [m.root k (h.size.symm ▸ Finset.mem_range.1 hk)]
  by_cases e : d.root k = u
  · have other : d.root k ≠ v := fun h => ne (e.symm.trans h)
    rw [if_pos e, if_pos e, if_pos rfl, if_neg other, Int.zero_add]
  · rw [if_neg e, if_neg e, Int.add_zero]

theorem merged (h : Pooled d₀ d) (m : Merged d d' u v) (hu : u < d₀.size) (hv : v < d₀.size)
    (ru : d.root u = u) (rv : d.root v = v) (ne : u ≠ v) : Pooled d₀ d' := by
  have lt {k} (hk : k < d₀.size) : k < d.size := h.size.symm ▸ hk
  refine ⟨m.sound, m.size.trans h.size, fun k => ?_, fun k => ?_, fun r hr e i => ?_,
    fun fits r hr e => ?_⟩
  · rw [m.web]
    split
    · next e => rw [e, ← h.id]; rfl
    · exact h.id k
  · rw [m.web]
    split
    · next e => rw [e, ← h.symbol]; rfl
    · exact h.symbol k
  · obtain ⟨notu, was⟩ := m.root_of_root ru rv ne (lt hr) e
    by_cases eq : r = v
    · subst eq
      exact h.mem_range_merged m hu hv ru rv ne
    · rw [m.web, if_neg eq, h.range r hr was]
      refine exists_congr fun k => and_congr_right fun hk => and_congr_left fun _ => ?_
      exact (m.root_eq_iff_of_ne (lt hk) notu eq).symm
  · obtain ⟨notu, was⟩ := m.root_of_root ru rv ne (lt hr) e
    by_cases eq : r = v
    · subst eq
      exact h.cost_merged m hu hv ru rv ne fits
    · rw [m.web, if_neg eq, h.cost fits r hr was]
      refine congrArg Word.wrap
        (Finset.sum_congr (Finset.filter_congr fun k hk => ?_) fun _ _ => rfl)
      exact (m.root_eq_iff_of_ne (lt (Finset.mem_range.1 hk)) notu eq).symm

theorem union (h : Pooled d₀ d) (ha : a < d₀.size) (hb : b < d₀.size) :
    Pooled d₀ (d.union a b).1 := by
  rw [← h.size] at ha hb
  refine union_cases h.sound ha hb (fun d' sets => h.sameSets sets) fun d' u v m hu hv => ?_
  rw [h.size] at hu hv
  exact h.merged m hu hv

end Pooled

/-! ## Uniting webs of one variable -/

/-- Sets of webs of a forest `d₀`, each of one variable. -/
structure Joined (d₀ d : Forest) : Prop extends Pooled d₀ d where
  root_symbol : ∀ k < d₀.size, (d₀.web (d.root k)).symbol = (d₀.web k).symbol

namespace Joined

variable {d₀ : Forest}

theorem refl (flat : ∀ k < d.size, d.parent k = k) : Joined d d := by
  have pooled := Pooled.refl flat
  refine ⟨pooled, fun k hk => ?_⟩
  rw [Leads.root_eq pooled.sound hk (.root (flat k hk))]

/-- Webs of one set are webs of one variable. -/
theorem symbol_eq (h : Joined d₀ d) (hj : j < d₀.size) (hk : k < d₀.size)
    (e : d.root j = d.root k) : (d₀.web j).symbol = (d₀.web k).symbol := by
  rw [← h.root_symbol j hj, e, h.root_symbol k hk]

/-- Merging sets of one variable. -/
theorem symbol_merged (h : Joined d₀ d) (m : Merged d d' u v)
    (same : (d₀.web u).symbol = (d₀.web v).symbol) (hk : k < d₀.size) :
    (d₀.web (d'.root k)).symbol = (d₀.web k).symbol := by
  rw [m.root k (h.size.symm ▸ hk)]
  split
  · next e => rw [← same, ← e, h.root_symbol k hk]
  · exact h.root_symbol k hk

/-- Uniting two webs of a variable. -/
theorem union (h : Joined d₀ d) (ha : a < d₀.size) (hb : b < d₀.size)
    (same : (d₀.web a).symbol = (d₀.web b).symbol) : Joined d₀ (d.union a b).1 := by
  have lt {k} (hk : k < d₀.size) : k < d.size := h.size.symm ▸ hk
  have symbols : (d₀.web (d.root a)).symbol = (d₀.web (d.root b)).symbol := by
    rw [h.root_symbol a ha, h.root_symbol b hb, same]
  refine ⟨h.toPooled.union ha hb, fun k hk => ?_⟩
  rcases merged_union h.sound (lt ha) (lt hb) with ⟨-, sets⟩ | ⟨-, ⟨-, m⟩ | ⟨-, m⟩⟩
  · rw [sets.root_eq h.sound (lt hk), h.root_symbol k hk]
  · exact h.symbol_merged m symbols hk
  · exact h.symbol_merged m symbols.symm hk

end Joined

end RegColor.Forest
