/-!
# Finite sets in order

`OrdSet α` keeps a finite set as the list of its members in strictly increasing order, so two sets
with the same members are the same value and listing a set needs no sort.

* `OrdSet.ext_mem`: sets with the same members are equal;
* `mem_insert`, `mem_union`, `mem_filter`, `mem_ofList`: what each operation does to membership;
* `add_grows_iff`: a set grows by what it did not have.
-/

namespace RegColor

/-- A finite set, held as its members in strictly increasing order. -/
structure OrdSet (α : Type) [Ord α] where
  toList : List α
  increasing : toList.Pairwise (fun a b => compare a b = .lt)

namespace OrdSet

variable {α : Type} [Ord α]

instance [DecidableEq α] : DecidableEq (OrdSet α) := fun s t =>
  if h : s.toList = t.toList then
    isTrue (by cases s; cases t; cases h; rfl)
  else
    isFalse (fun e => h (congrArg toList e))

instance : EmptyCollection (OrdSet α) := ⟨⟨[], .nil⟩⟩

instance : Inhabited (OrdSet α) := ⟨∅⟩

instance : Membership α (OrdSet α) := ⟨fun s a => a ∈ s.toList⟩

instance [DecidableEq α] (a : α) (s : OrdSet α) : Decidable (a ∈ s) :=
  inferInstanceAs (Decidable (a ∈ s.toList))

theorem mem_def {a : α} {s : OrdSet α} : a ∈ s ↔ a ∈ s.toList := Iff.rfl

@[simp] theorem not_mem_empty (a : α) : ¬ a ∈ (∅ : OrdSet α) := List.not_mem_nil

/-- The number of members. -/
def size (s : OrdSet α) : Nat := s.toList.length

/-- The members that satisfy `p`. -/
def filter (p : α → Bool) (s : OrdSet α) : OrdSet α :=
  ⟨s.toList.filter p, s.increasing.filter p⟩

@[simp] theorem mem_filter {p : α → Bool} {a : α} {s : OrdSet α} :
    a ∈ s.filter p ↔ a ∈ s ∧ p a := List.mem_filter

/-- Whether every member satisfies `p`. -/
def all (p : α → Bool) (s : OrdSet α) : Bool := s.toList.all p

/-- Puts `a` at its place in an increasing list, unless it stands there already. -/
def insertSorted (a : α) : List α → List α
  | [] => [a]
  | b :: bs =>
    match compare a b with
    | .lt => a :: b :: bs
    | .eq => b :: bs
    | .gt => b :: insertSorted a bs

@[simp] theorem mem_insertSorted [Std.LawfulEqOrd α] {a x : α} {l : List α} :
    x ∈ insertSorted a l ↔ x = a ∨ x ∈ l := by
  induction l with
  | nil => simp [insertSorted]
  | cons b bs ih =>
    unfold insertSorted
    split
    · simp
    · next h =>
      have : a = b := Std.LawfulEqOrd.eq_of_compare h
      simp [this]
    · rw [List.mem_cons, ih, List.mem_cons]
      constructor
      · rintro (h | h | h) <;> simp [h]
      · rintro (h | h | h) <;> simp [h]

section Lawful

variable [Std.TransOrd α] [Std.LawfulEqOrd α]

theorem increasing_insertSorted {a : α} {l : List α}
    (h : l.Pairwise (fun a b => compare a b = .lt)) :
    (insertSorted a l).Pairwise (fun a b => compare a b = .lt) := by
  induction l with
  | nil => simp [insertSorted]
  | cons b bs ih =>
    rw [List.pairwise_cons] at h
    unfold insertSorted
    split
    · next lt =>
      refine List.pairwise_cons.2 ⟨fun x hx => ?_, List.pairwise_cons.2 h⟩
      rcases List.mem_cons.1 hx with rfl | hx
      · exact lt
      · exact Std.TransCmp.lt_trans lt (h.1 x hx)
    · exact List.pairwise_cons.2 h
    · next gt =>
      refine List.pairwise_cons.2 ⟨fun x hx => ?_, ih h.2⟩
      rcases mem_insertSorted.1 hx with rfl | hx
      · exact Std.OrientedCmp.gt_iff_lt.1 gt
      · exact h.1 x hx

/-- The set with `a` added. -/
def insert (a : α) (s : OrdSet α) : OrdSet α :=
  ⟨insertSorted a s.toList, increasing_insertSorted s.increasing⟩

@[simp] theorem mem_insert {a x : α} {s : OrdSet α} : x ∈ s.insert a ↔ x = a ∨ x ∈ s :=
  mem_insertSorted

/-- The members of a list. -/
def ofList (l : List α) : OrdSet α := l.foldr (fun a s => s.insert a) ∅

@[simp] theorem mem_ofList {x : α} {l : List α} : x ∈ ofList l ↔ x ∈ l := by
  induction l with
  | nil => simp [ofList]
  | cons b bs ih =>
    rw [ofList, List.foldr_cons, mem_insert, List.mem_cons]
    exact or_congr_right ih

/-- Merges an increasing list into one that starts with `a`, given how to merge into the rest. -/
def mergeHead (a : α) (rest : List α → List α) : List α → List α
  | [] => a :: rest []
  | b :: bs =>
    match compare a b with
    | .lt => a :: rest (b :: bs)
    | .eq => a :: rest bs
    | .gt => b :: mergeHead a rest bs

/-- Merges two increasing lists, keeping common members once. -/
def mergeSorted : List α → List α → List α
  | [] => fun bs => bs
  | a :: as => mergeHead a (mergeSorted as)

omit [Std.TransOrd α] in
theorem mem_mergeHead {a x : α} {as bs : List α} {rest : List α → List α}
    (h : ∀ bs, x ∈ rest bs ↔ x ∈ as ∨ x ∈ bs) :
    x ∈ mergeHead a rest bs ↔ x ∈ a :: as ∨ x ∈ bs := by
  induction bs with
  | nil => simp [mergeHead, h]
  | cons b bs ih =>
    unfold mergeHead
    split
    · simp only [List.mem_cons, h, or_assoc]
    · next e =>
      have : a = b := Std.LawfulEqOrd.eq_of_compare e
      subst this
      simp only [List.mem_cons, h]
      grind
    · simp only [List.mem_cons, ih]
      grind

omit [Std.TransOrd α] in
theorem mem_mergeSorted {x : α} {as bs : List α} :
    x ∈ mergeSorted as bs ↔ x ∈ as ∨ x ∈ bs := by
  induction as generalizing bs with
  | nil => simp [mergeSorted]
  | cons a as ih => exact mem_mergeHead fun bs => ih

theorem increasing_mergeHead {a : α} {as bs : List α} {rest : List α → List α}
    (ha : ∀ x ∈ as, compare a x = .lt) (hb : bs.Pairwise (fun a b => compare a b = .lt))
    (mem : ∀ x bs, x ∈ rest bs ↔ x ∈ as ∨ x ∈ bs)
    (incr : ∀ bs, bs.Pairwise (fun a b => compare a b = .lt) →
      (rest bs).Pairwise (fun a b => compare a b = .lt)) :
    (mergeHead a rest bs).Pairwise (fun a b => compare a b = .lt) := by
  induction bs with
  | nil =>
    refine List.pairwise_cons.2 ⟨fun x hx => ?_, incr [] hb⟩
    rcases (mem x []).1 hx with hx | hx
    · exact ha x hx
    · cases hx
  | cons b bs ih =>
    have tail := List.pairwise_cons.1 hb
    unfold mergeHead
    split
    · next lt =>
      refine List.pairwise_cons.2 ⟨fun x hx => ?_, incr _ hb⟩
      rcases (mem x _).1 hx with hx | hx
      · exact ha x hx
      · rcases List.mem_cons.1 hx with rfl | hx
        · exact lt
        · exact Std.TransCmp.lt_trans lt (tail.1 x hx)
    · next e =>
      have : a = b := Std.LawfulEqOrd.eq_of_compare e
      subst this
      refine List.pairwise_cons.2 ⟨fun x hx => ?_, incr _ tail.2⟩
      rcases (mem x _).1 hx with hx | hx
      · exact ha x hx
      · exact tail.1 x hx
    · next gt =>
      have lt := Std.OrientedCmp.gt_iff_lt.1 gt
      refine List.pairwise_cons.2 ⟨fun x hx => ?_, ih tail.2⟩
      rcases (mem_mergeHead (mem x)).1 hx with hx | hx
      · rcases List.mem_cons.1 hx with rfl | hx
        · exact lt
        · exact Std.TransCmp.lt_trans lt (ha x hx)
      · exact tail.1 x hx

theorem increasing_mergeSorted {as bs : List α}
    (ha : as.Pairwise (fun a b => compare a b = .lt))
    (hb : bs.Pairwise (fun a b => compare a b = .lt)) :
    (mergeSorted as bs).Pairwise (fun a b => compare a b = .lt) := by
  induction as generalizing bs with
  | nil => exact hb
  | cons a as ih =>
    have tail := List.pairwise_cons.1 ha
    exact increasing_mergeHead tail.1 hb (fun _ _ => mem_mergeSorted) (fun _ => ih tail.2)

/-- The members of either set. -/
def union (s t : OrdSet α) : OrdSet α :=
  ⟨mergeSorted s.toList t.toList, increasing_mergeSorted s.increasing t.increasing⟩

@[simp] theorem mem_union {x : α} {s t : OrdSet α} : x ∈ s.union t ↔ x ∈ s ∨ x ∈ t :=
  mem_mergeSorted

/-- A set is given by its members. -/
theorem ext_mem {s t : OrdSet α} (h : ∀ a, a ∈ s ↔ a ∈ t) : s = t := by
  obtain ⟨s, hs⟩ := s
  obtain ⟨t, ht⟩ := t
  have h : ∀ a, a ∈ s ↔ a ∈ t := h
  have : s = t := by
    induction s generalizing t with
    | nil =>
      cases t with
      | nil => rfl
      | cons b bs => exact absurd ((h b).2 (List.mem_cons_self ..)) List.not_mem_nil
    | cons a as ih =>
      cases t with
      | nil => exact absurd ((h a).1 (List.mem_cons_self ..)) List.not_mem_nil
      | cons b bs =>
        rw [List.pairwise_cons] at hs ht
        have hab : a = b := by
          rcases List.mem_cons.1 ((h a).1 (List.mem_cons_self ..)) with e | ha
          · exact e
          · rcases List.mem_cons.1 ((h b).2 (List.mem_cons_self ..)) with e | hb
            · exact e.symm
            · have lt := ht.1 a ha
              have lt' := hs.1 b hb
              rw [Std.OrientedCmp.gt_iff_lt.2 lt] at lt'
              cases lt'
        subst hab
        have tails : ∀ x, x ∈ as ↔ x ∈ bs := by
          intro x
          constructor
          · intro hx
            rcases List.mem_cons.1 ((h x).1 (List.mem_cons_of_mem _ hx)) with rfl | hx'
            · have := hs.1 x hx
              rw [Std.compare_self] at this
              cases this
            · exact hx'
          · intro hx
            rcases List.mem_cons.1 ((h x).2 (List.mem_cons_of_mem _ hx)) with rfl | hx'
            · have := ht.1 x hx
              rw [Std.compare_self] at this
              cases this
            · exact hx'
        rw [ih hs.2 bs ht.2 tails tails]
  subst this
  rfl

omit [Std.TransOrd α] in
theorem length_insertSorted {a : α} {l : List α} (new : ¬ a ∈ l) :
    (insertSorted a l).length = l.length + 1 := by
  induction l with
  | nil => rfl
  | cons b bs ih =>
    rw [List.mem_cons, not_or] at new
    unfold insertSorted
    split
    · rfl
    · next h => exact absurd (Std.LawfulEqOrd.eq_of_compare h) new.1
    · rw [List.length_cons, ih new.2, List.length_cons]

theorem size_insert {a : α} {s : OrdSet α} (new : ¬ a ∈ s) : (s.insert a).size = s.size + 1 :=
  length_insertSorted new

theorem insert_eq_self {a : α} {s : OrdSet α} (old : a ∈ s) : s.insert a = s :=
  ext_mem fun _ => mem_insert.trans (or_iff_right_of_imp fun e => e ▸ old)

/-- Adds `a` and tells whether the set has grown. -/
def add (a : α) (s : OrdSet α) : OrdSet α × Bool :=
  let t := s.insert a
  (t, s.size != t.size)

theorem add_grows_iff {a : α} {s : OrdSet α} : (s.add a).2 = true ↔ ¬ a ∈ s := by
  rw [add, bne_iff_ne]
  constructor
  · intro grown old
    rw [insert_eq_self old] at grown
    exact grown rfl
  · intro new same
    rw [size_insert new] at same
    exact absurd same (Nat.ne_of_lt (Nat.lt_succ_self _))

/-- A copy, made member by member. -/
def copy (s : OrdSet α) : OrdSet α := ofList s.toList

@[simp] theorem copy_eq (s : OrdSet α) : s.copy = s := ext_mem fun _ => mem_ofList

end Lawful

variable [DecidableEq α]

/-- The set without `a`. -/
def erase (a : α) (s : OrdSet α) : OrdSet α := s.filter (· ≠ a)

@[simp] theorem mem_erase {a x : α} {s : OrdSet α} : x ∈ s.erase a ↔ x ∈ s ∧ x ≠ a := by
  simp [erase]

/-- The members of `s` that are not members of `t`. -/
def diff (s t : OrdSet α) : OrdSet α := s.filter (fun a => !decide (a ∈ t))

@[simp] theorem mem_diff {x : α} {s t : OrdSet α} : x ∈ s.diff t ↔ x ∈ s ∧ ¬ x ∈ t := by
  simp [diff]

/-- Whether every member of `s` is a member of `t`. -/
def subset (s t : OrdSet α) : Bool := s.all (· ∈ t)

theorem subset_iff {s t : OrdSet α} : s.subset t = true ↔ ∀ a ∈ s, a ∈ t := by
  simp [subset, all, mem_def]

end OrdSet

end RegColor
