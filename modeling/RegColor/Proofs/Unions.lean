import Mathlib.Logic.Relation
import RegColor.Proofs.Forest

/-!
# Runs on sets of webs

Webs are added, looked up and united in any order (`Forest.Call`). `Forest.Tracks` says what the
calls made so far leave behind: who is with whom is what the unions connect, a root holds what the
webs of its set had when they were added, and a root of rank `n` has a set of at least `2 ^ n` webs.
Each call keeps it (`Tracks.add`, `Tracks.find`, `Tracks.union`), so every run does (`Tracks.run`).

`run_unions` puts this together with what one look-up and one union answer.
-/

namespace RegColor.Forest

open Relation

variable {d d' d₀ : Forest} {a b j k r u v : Nat} {w : Web}

/-! ## Looking up without fuel -/

/-- More fuel than there are webs of higher rank changes nothing. -/
theorem climb_eq_climb (sound : d.Sound) {n m : Nat} (hk : k < d.size) (hn : d.above k < n)
    (hm : d.above k < m) : d.climb k n = d.climb k m := by
  induction n generalizing k m with
  | zero => cases hn
  | succ n ih =>
    cases m with
    | zero => cases hm
    | succ m =>
      unfold climb
      split
      · rfl
      · next ne =>
        have lower := above_parent_lt sound hk ne
        rw [ih (sound.parent_lt k hk) (by omega) (show d.above (d.parent k) < m by omega)]

/-- Looking up a web looks up its parent. -/
theorem find_eq (sound : d.Sound) (hk : k < d.size) : d.find k = if d.parent k = k then (d, k) else
    ((d.find (d.parent k)).1.setParent k (d.find (d.parent k)).2, (d.find (d.parent k)).2) := by
  have bound := above_lt hk
  unfold find
  obtain ⟨n, hn⟩ : ∃ n, d.size = n + 1 := ⟨d.size - 1, by omega⟩
  rw [hn] at bound ⊢
  rw [climb]
  split
  · rfl
  · next ne =>
    have lower := above_parent_lt sound hk ne
    rw [climb_eq_climb sound (sound.parent_lt k hk) (show _ < n by omega)
      (show _ < n + 1 by omega)]

/-! ## Uniting -/

theorem size_union (sound : d.Sound) (ha : a < d.size) (hb : b < d.size) :
    (d.union a b).1.size = d.size :=
  union_cases (P := fun d' => d'.size = d.size) sound ha hb (fun _ sets => sets.size)
    fun _ _ _ m _ _ _ _ _ => m.size

theorem union_snd (sound : d.Sound) (ha : a < d.size) (hb : b < d.size) : (d.union a b).2 =
    if d.rank (d.root b) < d.rank (d.root a) then d.root a else d.root b := by
  have first := (find_spec sound ha).1
  have ra : (d.find a).2 = d.root a := rfl
  have rb : ((d.find a).1.find b).2 = d.root b := first.root_eq sound hb
  have rank j : ((d.find a).1.find b).1.rank j = d.rank j :=
    (first.trans (find_spec first.sound (first.size ▸ hb)).1).rank j
  simp only [union, ra, rb, rank, apply_ite Prod.snd]
  split
  · next e => rw [e, ite_self]
  · rw [ite_self]

/-- A union answers the representative of the united set. -/
theorem union_snd_eq_root (sound : d.Sound) (ha : a < d.size) (hb : b < d.size) :
    (d.union a b).2 = (d.union a b).1.root a ∧ (d.union a b).2 = (d.union a b).1.root b := by
  rw [union_snd sound ha hb]
  rcases merged_union sound ha hb with ⟨e, sets⟩ | ⟨ne, ⟨le, m⟩ | ⟨lower, m⟩⟩
  · rw [sets.root_eq sound ha, sets.root_eq sound hb, e, ite_self]
    exact ⟨rfl, rfl⟩
  · rw [m.root a ha, m.root b hb, if_neg (Nat.not_lt.2 le), if_pos rfl, if_neg ne.symm]
    exact ⟨rfl, rfl⟩
  · rw [m.root a ha, m.root b hb, if_pos lower, if_pos rfl, if_neg ne]
    exact ⟨rfl, rfl⟩

/-! ## Adding -/

theorem rank_add : (d.add w).1.rank j = if j = d.size then 0 else d.rank j := by
  simp only [rank, getD_add, apply_ite Node.rank]

theorem Sound.add (sound : d.Sound) : (d.add w).1.Sound where
  parent_lt k hk := by
    rw [size_add] at hk ⊢
    rw [parent_add]
    split
    · exact Nat.lt_succ_self _
    · exact Nat.lt_succ_of_lt (sound.parent_lt k (by omega))
  rank_lt k hk ne := by
    rw [size_add] at hk
    rw [parent_add] at ne ⊢
    split at ne
    · next e => exact absurd e.symm ne
    · next other =>
      have old : k < d.size := by omega
      rw [if_neg other, rank_add, rank_add, if_neg other,
        if_neg (Nat.ne_of_lt (sound.parent_lt k old))]
      exact sound.rank_lt k old ne

theorem Leads.add (sound : d.Sound) (hk : k < d.size) (h : d.Leads k r) :
    (d.add w).1.Leads k r := by
  induction h with
  | @root r h => exact .root (by rw [parent_add, if_neg (Nat.ne_of_lt hk), h])
  | @step k r ne _ ih =>
    have kept : (d.add w).1.parent k = d.parent k := by rw [parent_add, if_neg (Nat.ne_of_lt hk)]
    exact .step (kept ▸ ne) (kept ▸ ih (sound.parent_lt k hk))

theorem root_add (sound : d.Sound) (hk : k < d.size) : (d.add w).1.root k = d.root k :=
  ((leads_root sound hk).add sound hk).root_eq sound.add (by rw [size_add]; omega)

/-- A web that is added is a set of its own. -/
theorem root_add_self (sound : d.Sound) : (d.add w).1.root d.size = d.size :=
  Leads.root_eq sound.add (by rw [size_add]; omega) (.root (by rw [parent_add, if_pos rfl]))

/-- The set of an added web. -/
theorem root_add_eq_size_iff (sound : d.Sound) (hk : k < d.size + 1) :
    (d.add w).1.root k = d.size ↔ k = d.size := by
  constructor
  · intro e
    by_contra other
    have old : k < d.size := by omega
    rw [root_add sound old] at e
    exact Nat.ne_of_lt (root_lt sound old) e
  · intro e
    rw [e, root_add_self sound]

/-! ## Members of sets -/

/-- The webs that a root represents. -/
def members (d : Forest) (r : Nat) : Finset Nat := (Finset.range d.size).filter (d.root · = r)

theorem mem_members : k ∈ d.members r ↔ k < d.size ∧ d.root k = r := by
  rw [members, Finset.mem_filter, Finset.mem_range]

theorem members_add (sound : d.Sound) (hr : r < d.size) :
    (d.add w).1.members r = d.members r := by
  ext k
  rw [mem_members, mem_members, size_add]
  constructor
  · intro given
    have other : k ≠ d.size := by
      intro e
      rw [(root_add_eq_size_iff sound given.1).2 e] at given
      omega
    have old : k < d.size := by omega
    exact ⟨old, root_add sound old ▸ given.2⟩
  · intro given
    exact ⟨Nat.lt_succ_of_lt given.1, (root_add sound given.1).trans given.2⟩

theorem members_add_self (sound : d.Sound) : (d.add w).1.members d.size = {d.size} := by
  ext k
  rw [mem_members, size_add, Finset.mem_singleton]
  constructor
  · exact fun given => (root_add_eq_size_iff sound given.1).1 given.2
  · intro e
    have lt : k < d.size + 1 := by omega
    exact ⟨lt, (root_add_eq_size_iff sound lt).2 e⟩

theorem SameSets.members_eq (sound : d.Sound) (h : SameSets d d') : d'.members r = d.members r := by
  ext k
  rw [mem_members, mem_members, h.size]
  refine and_congr_right fun hk => ?_
  rw [h.root_eq sound hk]

theorem Merged.members_of_ne (m : Merged d d' u v) (notu : r ≠ u) (notv : r ≠ v) :
    d'.members r = d.members r := by
  ext k
  rw [mem_members, mem_members, m.size]
  exact and_congr_right fun hk => m.root_eq_iff_of_ne hk notu notv

/-- The root that stays represents the webs of both. -/
theorem Merged.card_members (m : Merged d d' u v) (ne : u ≠ v) :
    (d'.members v).card = (d.members u).card + (d.members v).card := by
  have apart : Disjoint (d.members u) (d.members v) := by
    rw [Finset.disjoint_left]
    intro k hu hv
    exact ne ((mem_members.1 hu).2.symm.trans (mem_members.1 hv).2)
  rw [← Finset.card_union_of_disjoint apart]
  congr 1
  ext k
  rw [Finset.mem_union, mem_members, mem_members, mem_members, m.size, ← and_or_left]
  refine and_congr_right fun hk => ?_
  rw [m.root k hk]
  split
  · next e => simp [e]
  · next e => simp [e]

namespace Pooled

theorem mem_range (h : Pooled d₀ d) (hr : r < d.size) (root : d.root r = r) {i : InstrId} :
    i ∈ (d.web r).range ↔ ∃ k ∈ d.members r, i ∈ (d₀.web k).range := by
  rw [h.range r (h.size ▸ hr) root]
  simp only [mem_members, h.size, and_assoc]

theorem cost_eq (h : Pooled d₀ d) (fits : ∀ k, Word.fits (d₀.web k).cost = true) (hr : r < d.size)
    (root : d.root r = r) : (d.web r).cost = Word.wrap (∑ k ∈ d.members r, (d₀.web k).cost) := by
  rw [h.cost fits r (h.size ▸ hr) root, members, h.size]

/-- Adding a web to sets and to the webs that they are sets of. -/
theorem add (h : Pooled d₀ d) : Pooled (d₀.add w).1 (d.add w).1 := by
  have size : (d.add w).1.size = (d₀.add w).1.size := by rw [size_add, size_add, h.size]
  have web₀ {r k} (hk : k ∈ d.members r) : (d₀.add w).1.web k = d₀.web k := by
    rw [web_add, if_neg (h.size ▸ Nat.ne_of_lt (mem_members.1 hk).1)]
  have added : (d₀.add w).1.web d.size = (d.add w).1.web d.size := by
    rw [web_add, web_add, h.size, if_pos rfl, if_pos rfl]
  have web {r} (hr : r < d.size) : (d.add w).1.web r = d.web r := by
    rw [web_add, if_neg (Nat.ne_of_lt hr)]
  refine ⟨h.sound.add, size, fun k => ?_, fun k => ?_, fun r hr e i => ?_, fun fits r hr e => ?_⟩
  · rw [web_add, web_add, h.size]
    split
    · rfl
    · exact h.id k
  · rw [web_add, web_add, h.size]
    split
    · rfl
    · exact h.symbol k
  · rw [← size, size_add, Nat.lt_succ_iff_lt_or_eq] at hr
    simp only [← size, ← and_assoc, ← mem_members]
    rcases hr with hr | rfl
    · rw [root_add h.sound hr] at e
      rw [web hr, h.mem_range hr e, members_add h.sound hr]
      refine exists_congr fun k => and_congr_right fun hk => ?_
      rw [web₀ hk]
    · rw [members_add_self h.sound, ← added]
      simp only [Finset.mem_singleton, exists_eq_left]
  · rw [← size, size_add, Nat.lt_succ_iff_lt_or_eq] at hr
    rw [← size, ← members]
    rcases hr with hr | rfl
    · have fits₀ k : Word.fits (d₀.web k).cost = true := by
        by_cases new : k = d₀.size
        · rw [web_of_size_le (Nat.le_of_eq new.symm)]
          rfl
        · have old := fits k
          rwa [web_add, if_neg new] at old
      rw [root_add h.sound hr] at e
      rw [web hr, h.cost_eq fits₀ hr e, members_add h.sound hr]
      refine congrArg Word.wrap (Finset.sum_congr rfl fun k hk => ?_)
      rw [web₀ hk]
    · rw [members_add_self h.sound, Finset.sum_singleton, Word.wrap_of_fits (fits _), added]

end Pooled

/-! ## Ranks -/

/-- A root of rank `n` represents at least `2 ^ n` webs. -/
def Ranked (d : Forest) : Prop :=
  ∀ r < d.size, d.root r = r → 2 ^ d.rank r ≤ (d.members r).card

namespace Ranked

theorem add (sound : d.Sound) (h : d.Ranked) : (d.add w).1.Ranked := by
  intro r hr e
  rw [size_add, Nat.lt_succ_iff_lt_or_eq] at hr
  rcases hr with hr | rfl
  · rw [root_add sound hr] at e
    rw [rank_add, if_neg (Nat.ne_of_lt hr), members_add sound hr]
    exact h r hr e
  · rw [rank_add, if_pos rfl, members_add_self sound, Finset.card_singleton, Nat.pow_zero]

theorem sameSets (sound : d.Sound) (h : d.Ranked) (same : SameSets d d') : d'.Ranked := by
  intro r hr e
  rw [same.size] at hr
  rw [same.root_eq sound hr] at e
  rw [same.rank, same.members_eq sound]
  exact h r hr e

/-- A rank rises where a set of the same rank, so of as many webs, comes in. -/
theorem merged (h : d.Ranked) (m : Merged d d' u v) (hu : u < d.size) (hv : v < d.size)
    (ru : d.root u = u) (rv : d.root v = v) (ne : u ≠ v) : d'.Ranked := by
  intro r hr e
  rw [m.size] at hr
  obtain ⟨notu, was⟩ := m.root_of_root ru rv ne hr e
  by_cases eq : r = v
  · subst eq
    have left := h u hu ru
    have right := h r hr rv
    rw [m.rank, m.card_members ne]
    split
    · next same =>
      rw [same.2] at left
      rw [Nat.pow_succ]
      omega
    · omega
  · rw [m.rank, if_neg fun both => eq both.1, m.members_of_ne notu eq]
    exact h r hr was

theorem union (sound : d.Sound) (h : d.Ranked) (ha : a < d.size) (hb : b < d.size) :
    (d.union a b).1.Ranked :=
  union_cases sound ha hb (fun _ sets => h.sameSets sound sets) fun _ _ _ m => h.merged m

end Ranked

/-! ## Runs -/

/-- A call on sets of webs. -/
inductive Call where
  | add (w : Web)
  | find (k : Nat)
  | union (a b : Nat)
deriving DecidableEq

/-- The web that a call adds. -/
def Call.web? : Call → Option Web
  | add w => some w
  | find _ => none
  | union .. => none

/-- The sets after a call. -/
def after (d : Forest) : Call → Forest
  | .add w => (d.add w).1
  | .find k => (d.find k).1
  | .union a b => (d.union a b).1

/-- The sets after calls on none. -/
def run (calls : List Call) : Forest := calls.foldl after {}

/-- The webs that calls add, by number. -/
def added (calls : List Call) : List Web := calls.filterMap Call.web?

/-- Webs that are looked up or united are there, `n` of them at first. -/
def InRange : Nat → List Call → Prop
  | _, [] => True
  | n, .add _ :: calls => InRange (n + 1) calls
  | n, .find k :: calls => k < n ∧ InRange n calls
  | n, .union a b :: calls => a < n ∧ b < n ∧ InRange n calls

instance decidableInRange : (n : Nat) → (calls : List Call) → Decidable (InRange n calls)
  | _, [] => inferInstanceAs (Decidable True)
  | n, .add _ :: calls => decidableInRange (n + 1) calls
  | n, .find k :: calls =>
    have := decidableInRange n calls
    inferInstanceAs (Decidable (k < n ∧ InRange n calls))
  | n, .union a b :: calls =>
    have := decidableInRange n calls
    inferInstanceAs (Decidable (a < n ∧ b < n ∧ InRange n calls))

/-- Webs, each a set of its own. -/
def flat (ws : List Web) : Forest := ws.foldl (fun d w => (d.add w).1) {}

theorem flat_concat (ws : List Web) (w : Web) : flat (ws ++ [w]) = ((flat ws).add w).1 := by
  rw [flat, List.foldl_append]
  rfl

theorem size_flat (ws : List Web) : (flat ws).size = ws.length := by
  induction ws using List.reverseRecOn with
  | nil => rfl
  | append_singleton ws w ih => rw [flat_concat, size_add, ih, List.length_append]; rfl

/-- A web is stored as it was added, its number apart. -/
theorem web_flat (ws : List Web) (k : Nat) :
    ∃ id, (flat ws).web k = { ws.getD k default with id } := by
  induction ws using List.reverseRecOn with
  | nil => exact ⟨0, rfl⟩
  | append_singleton ws w ih =>
    rw [flat_concat, web_add, size_flat]
    split
    · next e =>
      subst e
      exact ⟨ws.length, by simp⟩
    · next other =>
      obtain ⟨id, same⟩ := ih
      have kept : (ws ++ [w]).getD k default = ws.getD k default := by
        rcases Nat.lt_or_gt_of_ne other with lt | gt
        · rw [List.getD_append _ _ _ _ lt]
        · have beyond : (ws ++ [w]).length ≤ k := by rwa [List.length_append]
          rw [List.getD_eq_default _ _ beyond, List.getD_eq_default _ _ (Nat.le_of_lt gt)]
      exact ⟨id, by rw [same, kept]⟩

theorem added_concat (calls : List Call) (c : Call) :
    added (calls ++ [c]) = added calls ++ c.web?.toList := by
  cases c with
  | add w => simp [added, Call.web?]
  | find k => simp [added, Call.web?]
  | union a b => simp [added, Call.web?]

/-- Sets that calls have made. -/
structure Tracks (calls : List Call) (d : Forest) : Prop where
  pooled : Pooled (flat (added calls)) d
  ranked : d.Ranked
  joined : ∀ x y, .union x y ∈ calls → x < d.size ∧ y < d.size ∧ d.root x = d.root y
  linked : ∀ x < d.size, ∀ y < d.size, d.root x = d.root y →
    EqvGen (fun x y => .union x y ∈ calls) x y

theorem tracks_start : Tracks [] {} where
  pooled := .refl fun _ hk => absurd hk (Nat.not_lt_zero _)
  ranked _ hr := absurd hr (Nat.not_lt_zero _)
  joined _ _ h := absurd h List.not_mem_nil
  linked _ hx := absurd hx (Nat.not_lt_zero _)

namespace Tracks

variable {calls : List Call}

/-- What is connected stays so when a call is added. -/
theorem linked_concat (c : Call) {x y : Nat} (h : EqvGen (fun x y => .union x y ∈ calls) x y) :
    EqvGen (fun x y => .union x y ∈ calls ++ [c]) x y :=
  h.mono fun _ _ => List.mem_append_left _

theorem add (t : Tracks calls d) (w : Web) : Tracks (calls ++ [.add w]) (d.add w).1 := by
  have sound := t.pooled.sound
  refine ⟨?_, t.ranked.add sound, fun x y h => ?_, fun x hx y hy e => linked_concat _ ?_⟩
  · rw [added_concat, Call.web?, Option.toList_some, flat_concat]
    exact t.pooled.add
  · have old : .union x y ∈ calls := by simpa using h
    obtain ⟨hx, hy, e⟩ := t.joined x y old
    rw [size_add, root_add sound hx, root_add sound hy]
    exact ⟨Nat.lt_succ_of_lt hx, Nat.lt_succ_of_lt hy, e⟩
  · rw [size_add] at hx hy
    by_cases newx : x = d.size
    · rw [(root_add_eq_size_iff sound hx).2 newx, eq_comm, root_add_eq_size_iff sound hy] at e
      rw [newx, e]
      exact .refl _
    · by_cases newy : y = d.size
      · rw [(root_add_eq_size_iff sound hy).2 newy, root_add_eq_size_iff sound hx] at e
        exact absurd e newx
      · have hx : x < d.size := by omega
        have hy : y < d.size := by omega
        rw [root_add sound hx, root_add sound hy] at e
        exact t.linked x hx y hy e

theorem find (t : Tracks calls d) (hk : k < d.size) :
    Tracks (calls ++ [.find k]) (d.find k).1 := by
  have sound := t.pooled.sound
  have same := (find_spec sound hk).1
  refine ⟨?_, t.ranked.sameSets sound same, fun x y h => ?_,
    fun x hx y hy e => linked_concat _ ?_⟩
  · rw [added_concat, Call.web?, Option.toList_none, List.append_nil]
    exact t.pooled.sameSets same
  · have old : .union x y ∈ calls := by simpa using h
    obtain ⟨hx, hy, e⟩ := t.joined x y old
    rw [same.size, same.root_eq sound hx, same.root_eq sound hy]
    exact ⟨hx, hy, e⟩
  · rw [same.size] at hx hy
    rw [same.root_eq sound hx, same.root_eq sound hy] at e
    exact t.linked x hx y hy e

theorem union (t : Tracks calls d) (ha : a < d.size) (hb : b < d.size) :
    Tracks (calls ++ [.union a b]) (d.union a b).1 := by
  have sound := t.pooled.sound
  have size := size_union sound ha hb
  refine ⟨?_, t.ranked.union sound ha hb, fun x y h => ?_, fun x hx y hy e => ?_⟩
  · rw [added_concat, Call.web?, Option.toList_none, List.append_nil]
    exact t.pooled.union (t.pooled.size ▸ ha) (t.pooled.size ▸ hb)
  · rw [List.mem_append, List.mem_singleton] at h
    rcases h with old | new
    · obtain ⟨hx, hy, e⟩ := t.joined x y old
      rw [size]
      exact ⟨hx, hy, (root_union_eq_iff sound ha hb hx hy).2 (.inl e)⟩
    · cases new
      rw [size]
      exact ⟨ha, hb, (root_union_eq_iff sound ha hb ha hb).2 (.inr (.inl ⟨rfl, rfl⟩))⟩
  · -- The two are connected as before, or by way of the new union, in one direction or the other.
    rw [size] at hx hy
    have old {x y} (hx : x < d.size) (hy : y < d.size) (e : d.root x = d.root y) :=
      linked_concat (.union a b) (t.linked x hx y hy e)
    have new : EqvGen (fun x y => .union x y ∈ calls ++ [.union a b]) a b :=
      .rel a b List.mem_concat_self
    rcases (root_union_eq_iff sound ha hb hx hy).1 e with e | ⟨ex, ey⟩ | ⟨ex, ey⟩
    · exact old hx hy e
    · exact .trans _ _ _ (old hx ha ex) (.trans _ _ _ new (old hb hy ey.symm))
    · exact .trans _ _ _ (old hx hb ex) (.trans _ _ _ (.symm _ _ new) (old ha hy ey.symm))

theorem run {rest : List Call} (t : Tracks calls d) (inRange : InRange d.size rest) :
    Tracks (calls ++ rest) (rest.foldl after d) := by
  induction rest generalizing calls d with
  | nil => rwa [List.append_nil]
  | cons c rest ih =>
    rw [List.append_cons]
    cases c with
    | add w => exact ih (t.add w) (size_add ▸ inRange)
    | find k =>
      refine ih (t.find inRange.1) ?_
      rw [after, (find_spec t.pooled.sound inRange.1).1.size]
      exact inRange.2
    | union a b =>
      refine ih (t.union inRange.1 inRange.2.1) ?_
      rw [after, size_union t.pooled.sound inRange.1 inRange.2.1]
      exact inRange.2.2

/-- Two webs have one representative exactly if unions connect them. -/
theorem root_eq_iff (t : Tracks calls d) (ha : a < d.size) (hb : b < d.size) :
    d.root a = d.root b ↔ EqvGen (fun x y => .union x y ∈ calls) a b := by
  constructor
  · exact t.linked a ha b hb
  · intro h
    clear ha hb
    induction h with
    | rel x y h => exact (t.joined x y h).2.2
    | refl x => rfl
    | symm x y _ ih => exact ih.symm
    | trans x y z _ _ ih ih' => exact ih.trans ih'

theorem size (t : Tracks calls d) : d.size = (added calls).length :=
  t.pooled.size.trans (size_flat _)

/-- The range of a root is what the webs of its set covered when they were added. -/
theorem mem_range (t : Tracks calls d) (hr : r < d.size) (root : d.root r = r) (i : InstrId) :
    i ∈ (d.web r).range ↔ ∃ k ∈ d.members r, i ∈ ((added calls).getD k default).range := by
  rw [t.pooled.mem_range hr root]
  refine exists_congr fun k => and_congr_right fun _ => ?_
  obtain ⟨id, e⟩ := web_flat (added calls) k
  rw [e]

/-- The cost of a root is the sum of what the webs of its set cost when they were added. -/
theorem cost_eq (t : Tracks calls d) (fits : ∀ w ∈ added calls, Word.fits w.cost = true)
    (hr : r < d.size) (root : d.root r = r) :
    (d.web r).cost = Word.wrap (∑ k ∈ d.members r, ((added calls).getD k default).cost) := by
  have cost k : ((flat (added calls)).web k).cost = ((added calls).getD k default).cost := by
    obtain ⟨id, e⟩ := web_flat (added calls) k
    rw [e]
  have small k : Word.fits ((flat (added calls)).web k).cost = true := by
    rw [cost]
    by_cases hk : k < (added calls).length
    · rw [List.getD_eq_getElem _ _ hk]
      exact fits _ (List.getElem_mem hk)
    · rw [List.getD_eq_default _ _ (Nat.le_of_not_lt hk)]
      rfl
  rw [t.pooled.cost_eq small hr root]
  simp only [cost]

end Tracks

/-- After any calls in range: ranks rise along parents, so a look-up comes to a root, the recursion
that it is ends, and it changes no representative and no web. Two webs have one representative
exactly if the unions made so far connect them. A union answers the representative of the united
set, and among roots of equal rank it is that of the second web. The web of a root covers what the
webs of its set covered when they were added, its cost is the sum of theirs in words, and a root of
rank `n` represents at least `2 ^ n` webs. -/
theorem run_unions {calls : List Call} (inRange : InRange 0 calls) :
    let d := run calls
    d.size = (added calls).length ∧
      (∀ k < d.size, d.parent k < d.size ∧ (d.parent k ≠ k → d.rank k < d.rank (d.parent k)) ∧
        d.Leads k (d.find k).2 ∧ d.find k = if d.parent k = k then (d, k) else
          ((d.find (d.parent k)).1.setParent k (d.find (d.parent k)).2,
            (d.find (d.parent k)).2)) ∧
      (∀ a < d.size, ∀ b < d.size,
        (d.find a).2 = (d.find b).2 ↔ EqvGen (fun x y => .union x y ∈ calls) a b) ∧
      (∀ k < d.size, ∀ j < d.size,
        ((d.find k).1.find j).2 = (d.find j).2 ∧ (d.find k).1.web j = d.web j) ∧
      (∀ a < d.size, ∀ b < d.size, (d.union a b).2 = ((d.union a b).1.find a).2 ∧
        (d.union a b).2 = ((d.union a b).1.find b).2 ∧
        (d.rank (d.find a).2 = d.rank (d.find b).2 → (d.union a b).2 = (d.find b).2)) ∧
      ∀ r < d.size, (d.find r).2 = r →
        (∀ i, i ∈ (d.web r).range ↔
          ∃ k ∈ d.members r, i ∈ ((added calls).getD k default).range) ∧
        ((∀ w ∈ added calls, Word.fits w.cost = true) → (d.web r).cost =
          Word.wrap (∑ k ∈ d.members r, ((added calls).getD k default).cost)) ∧
        2 ^ d.rank r ≤ (d.members r).card := by
  intro d
  have t : Tracks calls d := tracks_start.run inRange
  have sound := t.pooled.sound
  refine ⟨t.size, fun k hk => ?_, fun a ha b hb => t.root_eq_iff ha hb, fun k hk j hj => ?_,
    fun a ha b hb => ?_, fun r hr root => ?_⟩
  · exact ⟨sound.parent_lt k hk, sound.rank_lt k hk, (find_spec sound hk).2, find_eq sound hk⟩
  · have same := (find_spec sound hk).1
    exact ⟨same.root_eq sound hj, same.web j⟩
  · obtain ⟨left, right⟩ := union_snd_eq_root sound ha hb
    refine ⟨left, right, fun equal => ?_⟩
    rw [union_snd sound ha hb]
    exact if_neg (Nat.not_lt.2 (Nat.le_of_eq equal))
  · exact ⟨t.mem_range hr root, fun fits => t.cost_eq fits hr root, t.ranked r hr root⟩

/-- Two sets of two webs are united by way of webs that are no roots, and then once more. All four
webs are then at `3`, the root that came second, whose rank has risen twice. -/
theorem run_unions_twice :
    let web (index : Nat) (cost : Int) : Web :=
      { id := 0, symbol := 0, range := OrdSet.ofList [⟨index, 0⟩], cost }
    let calls : List Call := [.add (web 0 5), .add (web 1 6), .union 0 1, .add (web 2 7),
      .add (web 3 8), .union 2 3, .union 0 2, .union 3 1, .find 0]
    InRange 0 calls ∧ ((run calls).find 1).2 = ((run calls).find 3).2 ∧
      ((run calls).find 3).2 = 3 ∧ ((run calls).web 3).cost = 26 ∧
      ⟨0, 0⟩ ∈ ((run calls).web 3).range ∧ 2 ^ 2 ≤ ((run calls).members 3).card := by
  intro web calls
  have inRange : InRange 0 calls := by decide
  have united : EqvGen (fun x y => .union x y ∈ calls) 1 3 := .symm _ _ (.rel 3 1 (by decide))
  have size : (run calls).size = 4 := by decide +kernel
  have root : ((run calls).find 3).2 = 3 := by decide +kernel
  have top : (run calls).rank 3 = 2 := by decide +kernel
  have sum : Word.wrap (∑ k ∈ (run calls).members 3, ((added calls).getD k default).cost) = 26 := by
    decide +kernel
  have first : 0 ∈ (run calls).members 3 ∧ ⟨0, 0⟩ ∈ ((added calls).getD 0 default).range := by
    decide +kernel
  have fits : ∀ w ∈ added calls, Word.fits w.cost = true := by decide
  obtain ⟨-, -, sets, -, -, roots⟩ := run_unions inRange
  -- What is left does not look into the calls.
  clear_value calls
  obtain ⟨range, cost, rank⟩ := roots 3 (by omega) root
  refine ⟨inRange, (sets 1 (by omega) 3 (by omega)).2 united, root, (cost fits).trans sum, ?_, ?_⟩
  · exact (range ⟨0, 0⟩).2 ⟨0, first⟩
  · rwa [top] at rank

end RegColor.Forest
