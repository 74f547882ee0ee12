import Mathlib.Data.List.Forall2
import Mathlib.Data.List.GetD
import Mathlib.Data.List.Nodup
import Mathlib.Data.List.Perm.Subperm
import RegColor.Data.OrdMap
import RegColor.Data.OrdSet

/-!
# Maps, sets and folds

What the proofs about the analyses need of the containers.

* `OrdMap.get?_eq_some_iff`, `OrdMap.get?_ofList`: look-ups as membership among the entries;
* `OrdMap.ext_get?`: a map is given by its look-ups;
* `foldlM_keeps`: a fold whose steps may fail keeps what every step keeps;
* `foldlM_ok`: a fold whose steps may fail succeeds when every step does, keeps what every step
  keeps, and meets each element at some state in between;
* `foldlM_post`: what the step of an element establishes and later steps keep holds in the end.
-/

namespace RegColor

namespace OrdMap

variable {κ ν : Type} [Ord κ] [DecidableEq κ]

@[simp] theorem get?_empty (k : κ) : (∅ : OrdMap κ ν).get? k = none := rfl

theorem mem_of_get? {m : OrdMap κ ν} {k : κ} {v : ν} (h : m.get? k = some v) :
    (k, v) ∈ m.toList := by
  obtain ⟨e, he, rfl⟩ := Option.map_eq_some_iff.1 h
  have key := List.find?_some he
  simp only [decide_eq_true_eq] at key
  subst key
  exact List.mem_of_find?_eq_some he

theorem mem_keys_iff {m : OrdMap κ ν} {k : κ} : k ∈ m.keys ↔ (m.get? k).isSome := by
  simp [keys, get?, List.find?_isSome]

variable [Std.LawfulEqOrd κ]

omit [DecidableEq κ] in
theorem nodup_keys (m : OrdMap κ ν) : m.keys.Nodup := by
  refine List.pairwise_map.2 (m.increasing.imp fun lt e => ?_)
  rw [e, Std.compare_self] at lt
  cases lt

/-- Keys differ, so a look-up finds exactly the entry of its key. -/
theorem get?_eq_some_iff {m : OrdMap κ ν} {k : κ} {v : ν} :
    m.get? k = some v ↔ (k, v) ∈ m.toList := by
  refine ⟨mem_of_get?, fun h => ?_⟩
  have key : k ∈ m.keys := List.mem_map.2 ⟨(k, v), h, rfl⟩
  obtain ⟨u, hu⟩ := Option.isSome_iff_exists.1 (mem_keys_iff.1 key)
  cases List.inj_on_of_nodup_map m.nodup_keys h (mem_of_get? hu) rfl
  exact hu

/-- The map of entries with different keys finds exactly these. -/
theorem get?_ofList [Std.TransOrd κ] {l : List (κ × ν)} (distinct : (l.map Prod.fst).Nodup)
    {k : κ} {v : ν} : (ofList l).get? k = some v ↔ (k, v) ∈ l := by
  suffices h : ∀ m : OrdMap κ ν, (l.foldl (fun m e => m.insert e.1 e.2) m).get? k = some v ↔
      (k, v) ∈ l ∨ k ∉ l.map Prod.fst ∧ m.get? k = some v by
    have := h ∅
    simpa [ofList] using this
  induction l with
  | nil => simp
  | cons e es ih =>
    intro m
    rw [List.map_cons, List.nodup_cons] at distinct
    rw [List.foldl_cons, ih distinct.2, get?_insert, List.mem_cons, List.map_cons, List.mem_cons]
    by_cases hk : k = e.1
    · subst hk
      have fresh : (e.1, v) ∉ es := fun h => distinct.1 (List.mem_map.2 ⟨_, h, rfl⟩)
      have here : (e.1, v) = e ↔ e.2 = v :=
        ⟨fun h => by rw [← h], fun h => by rw [← h]⟩
      simp [fresh, distinct.1, here]
    · have other : (k, v) ≠ e := fun h => hk (by rw [← h])
      simp [hk, other]

/-- A map is given by its look-ups. -/
theorem ext_get? [Std.TransOrd κ] {m m' : OrdMap κ ν} (h : ∀ k, m.get? k = m'.get? k) : m = m' := by
  have distinct (m : OrdMap κ ν) : m.toList.Nodup := m.nodup_keys.of_map
  have perm : m.toList.Perm m'.toList :=
    (List.perm_ext_iff_of_nodup (distinct m) (distinct m')).2 fun e => by
      rw [← get?_eq_some_iff (k := e.1), h, get?_eq_some_iff]
  have antisymm (a b : κ × ν) (lt : compare a.1 b.1 = .lt) (gt : compare b.1 a.1 = .lt) :
      a = b := by
    rw [Std.OrientedCmp.gt_iff_lt.2 lt] at gt
    cases gt
  have same : m.toList = m'.toList :=
    perm.eq_of_pairwise (fun a b _ _ => antisymm a b) m.increasing m'.increasing
  cases m
  cases m'
  cases same
  rfl

end OrdMap

namespace OrdSet

variable {α : Type} [Ord α] [Std.LawfulEqOrd α]

theorem nodup_toList (s : OrdSet α) : s.toList.Nodup :=
  s.increasing.imp fun lt e => by
    rw [e, Std.compare_self] at lt
    cases lt

theorem size_le_of_subset {s t : OrdSet α} (h : ∀ a ∈ s, a ∈ t) : s.size ≤ t.size :=
  (List.subperm_of_subset s.nodup_toList h).length_le

/-- A set that is part of another of the same size is the other. -/
theorem eq_of_subset_of_size_le [Std.TransOrd α] {s t : OrdSet α} (h : ∀ a ∈ s, a ∈ t)
    (le : t.size ≤ s.size) : s = t := by
  refine ext_mem fun a => ⟨h a, fun ha => ?_⟩
  have perm : s.toList.Perm t.toList :=
    (List.subperm_of_subset s.nodup_toList h).perm_of_length_le le
  exact perm.mem_iff.2 ha

end OrdSet

section Folds

variable {σ α ε : Type}

theorem bind_eq_ok {β : Type} {x : Except ε α} {f : α → Except ε β} {b : β} :
    x >>= f = .ok b ↔ ∃ a, x = .ok a ∧ f a = .ok b := by
  cases x with
  | error e => exact ⟨nofun, nofun⟩
  | ok a => exact ⟨fun h => ⟨a, rfl, h⟩, fun ⟨_, rfl, h⟩ => h⟩

theorem map_eq_ok {β : Type} {x : Except ε α} {f : α → β} {b : β} (h : x.map f = .ok b) :
    ∃ a, x = .ok a ∧ f a = b := by
  cases x with
  | error e => cases h
  | ok a => exact ⟨a, rfl, Except.ok.inj h⟩

theorem eq_ok_of_toOption {x : Except ε α} {a : α} (h : x.toOption = some a) : x = .ok a := by
  cases x with
  | error e => cases h
  | ok b => exact congrArg Except.ok (Option.some.inj h)

theorem map_eq_error {β : Type} {x : Except ε α} {f : α → β} {e : ε} :
    x.map f = .error e ↔ x = .error e := by
  cases x with
  | error e => exact ⟨fun h => by cases h; rfl, fun h => by cases h; rfl⟩
  | ok a => exact ⟨nofun, nofun⟩

/-- A fold of steps that may fail keeps what every step keeps. -/
theorem foldlM_keeps (Inv : σ → Prop) {step : σ → α → Except ε σ}
    (keeps : ∀ s x s', step s x = .ok s' → Inv s → Inv s') {xs : List α} {s s' : σ}
    (fold : xs.foldlM step s = .ok s') (start : Inv s) : Inv s' := by
  induction xs generalizing s with
  | nil =>
    cases fold
    exact start
  | cons x xs ih =>
    rw [List.foldlM_cons] at fold
    obtain ⟨t, hx, rest⟩ := bind_eq_ok.1 fold
    exact ih rest (keeps s x t hx start)

/-- What a fold of steps that may fail keeps, and that it met every element on the way: `Inv` holds
at every state, `Le` from every state to each later one. -/
theorem foldlM_ok (Inv : σ → Prop) {step : σ → α → Except ε σ} {Le : σ → σ → Prop}
    (refl : ∀ s, Le s s) (trans : ∀ a b c, Le a b → Le b c → Le a c) {xs : List α}
    (ok : ∀ s, ∀ x ∈ xs, Inv s → ∃ s', step s x = .ok s' ∧ Inv s' ∧ Le s s') {s : σ}
    (start : Inv s) :
    ∃ s', xs.foldlM step s = .ok s' ∧ Inv s' ∧ Le s s' ∧
      ∀ x ∈ xs, ∃ t t', Inv t ∧ Le s t ∧ step t x = .ok t' ∧ Le t' s' := by
  induction xs generalizing s with
  | nil => exact ⟨s, rfl, start, refl s, fun x hx => absurd hx List.not_mem_nil⟩
  | cons y ys ih =>
    obtain ⟨u, hstep, hu, le⟩ := ok s y (List.mem_cons_self ..) start
    obtain ⟨s', hfold, hs', le', met⟩ := ih (fun t x hx => ok t x (List.mem_cons_of_mem _ hx)) hu
    refine ⟨s', ?_, hs', trans _ _ _ le le', fun x hx => ?_⟩
    · rw [List.foldlM_cons, hstep]
      exact hfold
    · rcases List.mem_cons.1 hx with rfl | hx
      · exact ⟨s, u, start, refl s, hstep, le'⟩
      · obtain ⟨t, t', ht, le₁, hx', le₂⟩ := met x hx
        exact ⟨t, t', ht, trans _ _ _ le le₁, hx', le₂⟩

/-- A fold establishes for every element what its step establishes and later steps keep. -/
theorem foldlM_post (Inv : σ → Prop) (Le : σ → σ → Prop) (Post : σ → α → Prop)
    {step : σ → α → Except ε σ} (refl : ∀ s, Le s s) (trans : ∀ a b c, Le a b → Le b c → Le a c)
    (kept : ∀ s s' x, Le s s' → Post s x → Post s' x) {xs : List α}
    (ok : ∀ s, ∀ x ∈ xs, Inv s → ∃ s', step s x = .ok s' ∧ Inv s' ∧ Le s s' ∧ Post s' x) {s : σ}
    (start : Inv s) :
    ∃ s', xs.foldlM step s = .ok s' ∧ Inv s' ∧ Le s s' ∧ ∀ x ∈ xs, Post s' x := by
  have ok' : ∀ s, ∀ x ∈ xs, Inv s → ∃ s', step s x = .ok s' ∧ Inv s' ∧ Le s s' := by
    intro s x hx hs
    obtain ⟨s', hstep, hs', le, -⟩ := ok s x hx hs
    exact ⟨s', hstep, hs', le⟩
  obtain ⟨s', hfold, hs', le, met⟩ := foldlM_ok Inv refl trans ok' start
  refine ⟨s', hfold, hs', le, fun x hx => ?_⟩
  obtain ⟨t, t', ht, -, hstep, le'⟩ := met x hx
  obtain ⟨u, hu, -, -, post⟩ := ok t x hx ht
  cases hu.symm.trans hstep
  exact kept _ _ _ le' post

/-- A fold that gives back the state it started from has changed nothing on the way. -/
theorem foldlM_fixed (Inv : σ → Prop) {step : σ → α → Except ε σ} {Le : σ → σ → Prop}
    (refl : ∀ s, Le s s) (trans : ∀ a b c, Le a b → Le b c → Le a c)
    (antisymm : ∀ a b, Le a b → Le b a → a = b) {xs : List α}
    (ok : ∀ s, ∀ x ∈ xs, Inv s → ∃ s', step s x = .ok s' ∧ Inv s' ∧ Le s s') {s : σ}
    (start : Inv s) (fixed : xs.foldlM step s = .ok s) : ∀ x ∈ xs, step s x = .ok s := by
  intro x hx
  obtain ⟨s', hfold, -, -, met⟩ := foldlM_ok Inv refl trans ok start
  cases hfold.symm.trans fixed
  obtain ⟨t, t', ht, le₁, hstep, le₂⟩ := met x hx
  obtain ⟨u, hu, -, le⟩ := ok t x hx ht
  cases hu.symm.trans hstep
  have ht : t = s := antisymm _ _ (trans _ _ _ le le₂) le₁
  have ht' : t' = s := antisymm _ _ le₂ (trans _ _ _ le₁ le)
  rw [ht, ht'] at hstep
  exact hstep

end Folds

/-! ## Lists of names -/

section Lookup

variable {κ α : Type} [BEq κ] [LawfulBEq κ] {names : List (κ × α)} {name key : κ} {x y : α}

theorem isSome_lookup_concat :
    ((names ++ [(name, x)]).lookup key).isSome = true ↔
      (names.lookup key).isSome = true ∨ key = name := by
  rw [List.lookup_append, Option.isSome_or, Bool.or_eq_true, List.lookup_cons]
  split <;> simp_all

/-- A list with a new name: what it finds was there or is the new one. -/
theorem lookup_concat (new : names.lookup name = none) :
    (names ++ [(name, x)]).lookup key = some y ↔
      names.lookup key = some y ∨ key = name ∧ y = x := by
  rw [List.lookup_append, Option.or_eq_some_iff, List.lookup_cons, List.lookup_nil]
  cases same : key == name with
  | true =>
    obtain rfl := eq_of_beq same
    simp [new, eq_comm]
  | false => simp [ne_of_beq_false same]

end Lookup

/-! ## Lists that grow place by place -/

section Forall₂

variable {α : Type} {R : α → α → Prop}

theorem forall₂_modify (refl : ∀ x, R x x) {g : α → α} (grows : ∀ x, R x (g x)) (xs : List α)
    (k : Nat) : List.Forall₂ R xs (xs.modify k g) := by
  induction xs generalizing k with
  | nil => simp
  | cons x xs ih =>
    cases k with
    | zero => exact .cons (grows x) (List.forall₂_same.2 fun y _ => refl y)
    | succ k => exact .cons (refl x) (ih k)

theorem forall₂_getD (refl : ∀ x, R x x) {xs ys : List α} (h : List.Forall₂ R xs ys) (k : Nat)
    (d : α) : R (xs.getD k d) (ys.getD k d) := by
  induction h generalizing k with
  | nil => exact refl _
  | cons hxy _ ih =>
    cases k with
    | zero => exact hxy
    | succ k => exact ih k

theorem forall₂_trans (trans : ∀ x y z, R x y → R y z → R x z) {xs ys zs : List α}
    (h : List.Forall₂ R xs ys) (h' : List.Forall₂ R ys zs) : List.Forall₂ R xs zs := by
  induction h generalizing zs with
  | nil => exact h'
  | cons hxy _ ih =>
    cases h' with
    | cons hyz rest => exact .cons (trans _ _ _ hxy hyz) (ih rest)

theorem forall₂_antisymm (antisymm : ∀ x y, R x y → R y x → x = y) {xs ys : List α}
    (h : List.Forall₂ R xs ys) (h' : List.Forall₂ R ys xs) : xs = ys := by
  induction h with
  | nil => rfl
  | cons hxy _ ih =>
    cases h' with
    | cons hyx rest => rw [antisymm _ _ hxy hyx, ih rest]

theorem map_eq_map_of_forall₂ {β γ : Type} {S : α → β → Prop} {f : α → γ} {g : β → γ}
    (same : ∀ x y, S x y → f x = g y) {xs : List α} {ys : List β} (h : List.Forall₂ S xs ys) :
    xs.map f = ys.map g := by
  induction h with
  | nil => rfl
  | cons hxy _ ih => rw [List.map_cons, List.map_cons, same _ _ hxy, ih]

theorem forall_mem_of_forall₂ {β : Type} {S : α → β → Prop} {p : β → Prop}
    (each : ∀ x y, S x y → p y) {xs : List α} {ys : List β} (h : List.Forall₂ S xs ys) :
    ∀ y ∈ ys, p y := by
  induction h with
  | nil => exact List.forall_mem_nil _
  | cons hxy _ ih => exact List.forall_mem_cons.2 ⟨each _ _ hxy, ih⟩

theorem forall₂_getElem? {β : Type} {S : α → β → Prop} {xs : List α} {ys : List β}
    (h : List.Forall₂ S xs ys) (k : Nat) : Option.Rel S xs[k]? ys[k]? := by
  induction h generalizing k with
  | nil => exact .none
  | cons hxy _ ih =>
    cases k with
    | zero => exact .some hxy
    | succ k => exact ih k

theorem forall₂_set {β : Type} {S : α → β → Prop} {xs : List α} {ys : List β}
    (h : List.Forall₂ S xs ys) {x : α} {y : β} (new : S x y) (k : Nat) :
    List.Forall₂ S (xs.set k x) (ys.set k y) := by
  induction h generalizing k with
  | nil => exact .nil
  | cons here others ih =>
    cases k with
    | zero => exact .cons new others
    | succ k => exact .cons here (ih k)

/-- A one-to-one relation tells places apart in both lists alike. -/
theorem getElem?_eq_iff_of_forall₂ {β : Type} {S : α → β → Prop}
    (inj : ∀ x x' y y', S x y → S x' y' → (x = x' ↔ y = y')) {xs : List α} {ys : List β}
    (h : List.Forall₂ S xs ys) (j k : Nat) : xs[j]? = xs[k]? ↔ ys[j]? = ys[k]? := by
  have apart {a a' : Option α} {b b' : Option β} (rel : Option.Rel S a b)
      (rel' : Option.Rel S a' b') : a = a' ↔ b = b' := by
    cases rel with
    | none => cases rel' <;> simp
    | some here =>
      cases rel' with
      | none => simp
      | some there => simpa using inj _ _ _ _ here there
  exact apart (forall₂_getElem? h j) (forall₂_getElem? h k)

/-- Lists that go with a third one place by place go with each other. -/
theorem forall₂_of_common {β γ : Type} {S : α → γ → Prop} {S' : β → γ → Prop}
    {Q : α → β → Prop} {xs : List α} {ys : List β} {zs : List γ} (h : List.Forall₂ S xs zs)
    (h' : List.Forall₂ S' ys zs) (each : ∀ x y, ∀ z ∈ zs, S x z → S' y z → Q x y) :
    List.Forall₂ Q xs ys := by
  induction h generalizing ys with
  | nil =>
    cases h'
    exact .nil
  | cons hxz _ ih =>
    cases h' with
    | cons hyz rest =>
      exact .cons (each _ _ _ (List.mem_cons_self ..) hxz hyz)
        (ih rest fun x y z mem => each x y z (List.mem_cons_of_mem _ mem))

theorem filterMap_of_map_some {β : Type} {f : α → Option β} {xs : List α} {ys : List β}
    (h : xs.map f = ys.map some) : xs.filterMap f = ys := by
  calc xs.filterMap f
      = (xs.map f).filterMap id := by rw [List.filterMap_map]; rfl
    _ = (ys.map some).filterMap id := by rw [h]
    _ = ys := by rw [List.filterMap_map]; exact List.filterMap_some

theorem nodup_eraseDups {α : Type} [BEq α] [LawfulBEq α] : ∀ xs : List α, xs.eraseDups.Nodup
  | [] => .nil
  | x :: xs => by
    rw [List.eraseDups_cons, List.nodup_cons]
    refine ⟨fun mem => ?_, nodup_eraseDups _⟩
    have kept := (List.mem_filter.1 (List.mem_eraseDups.1 mem)).2
    simp at kept
termination_by xs => xs.length
decreasing_by exact Nat.lt_succ_of_le (List.length_filter_le ..)

/-- The weights of a list's elements together. -/
def total (w : α → Nat) (xs : List α) : Nat := xs.foldr (fun x n => w x + n) 0

@[simp] theorem total_nil {w : α → Nat} : total w [] = 0 := rfl

@[simp] theorem total_cons {w : α → Nat} {x : α} {xs : List α} :
    total w (x :: xs) = w x + total w xs := rfl

theorem total_append {w : α → Nat} {xs ys : List α} :
    total w (xs ++ ys) = total w xs + total w ys := by
  induction xs with
  | nil => rw [List.nil_append, total_nil, Nat.zero_add]
  | cons x xs ih => rw [List.cons_append, total_cons, ih, total_cons, Nat.add_assoc]

theorem total_congr {w v : α → Nat} {xs : List α} (h : ∀ x ∈ xs, w x = v x) :
    total w xs = total v xs := by
  induction xs with
  | nil => rfl
  | cons x xs ih =>
    rw [total_cons, total_cons, h x (List.mem_cons_self ..),
      ih fun y hy => h y (List.mem_cons_of_mem _ hy)]

theorem total_const {c : Nat} {xs : List α} : total (fun _ => c) xs = xs.length * c := by
  induction xs with
  | nil => rw [total_nil, List.length_nil, Nat.zero_mul]
  | cons x xs ih => rw [total_cons, ih, List.length_cons, Nat.succ_mul, Nat.add_comm]

/-- Adding up weights one after the other. -/
theorem foldl_add_eq_total {w : α → Nat} {xs : List α} {n : Nat} :
    xs.foldl (fun n x => n + w x) n = n + total w xs := by
  induction xs generalizing n with
  | nil => rfl
  | cons x xs ih => rw [List.foldl_cons, ih, total_cons, Nat.add_assoc]

theorem total_map {β : Type} {w : β → Nat} {f : α → β} {xs : List α} :
    total w (xs.map f) = total (fun x => w (f x)) xs :=
  List.foldr_map

theorem total_set {w : α → Nat} {xs : List α} {k : Nat} {x : α} (h : xs[k]? = some x) (y : α) :
    total w (xs.set k y) + w x = total w xs + w y := by
  induction xs generalizing k with
  | nil => cases h
  | cons z zs ih =>
    cases k with
    | zero =>
      cases h
      rw [List.set_cons_zero, total_cons, total_cons]
      omega
    | succ k =>
      have later := ih h
      rw [List.set_cons_succ, total_cons, total_cons]
      omega

/-- A weight that tells related places apart tells related lists apart. -/
theorem total_le_of_forall₂ {w : α → Nat}
    (weigh : ∀ x y, R x y → w x ≤ w y ∧ (w y ≤ w x → x = y)) {xs ys : List α}
    (h : List.Forall₂ R xs ys) :
    total w xs ≤ total w ys ∧ (total w ys ≤ total w xs → xs = ys) := by
  induction h with
  | nil => simp
  | cons hxy _ ih =>
    obtain ⟨le, eq⟩ := weigh _ _ hxy
    simp only [total_cons]
    refine ⟨by omega, fun ge => ?_⟩
    rw [eq (by omega), ih.2 (by omega)]

theorem total_le_mul {w v : α → Nat} {c : Nat} {xs : List α} (h : ∀ x ∈ xs, w x ≤ v x * c) :
    total w xs ≤ total v xs * c := by
  induction xs with
  | nil => simp
  | cons x xs ih =>
    have here := h x (List.mem_cons_self ..)
    have rest := ih fun y hy => h y (List.mem_cons_of_mem _ hy)
    rw [total_cons, total_cons, Nat.add_mul]
    omega

end Forall₂

end RegColor
