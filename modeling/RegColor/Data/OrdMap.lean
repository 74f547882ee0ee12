/-!
# Finite maps in order of their keys

`OrdMap κ ν` keeps a finite map as the list of its entries in strictly increasing order of the keys.

* `get?_insert`: what an insertion does to look-ups;
* `get?_filterKeys`, `get?_map`: filtering by key and changing values.
-/

namespace RegColor

/-- A finite map, held as its entries in strictly increasing order of the keys. -/
structure OrdMap (κ ν : Type) [Ord κ] where
  toList : List (κ × ν)
  increasing : toList.Pairwise (fun a b => compare a.1 b.1 = .lt)

namespace OrdMap

variable {κ ν : Type} [Ord κ]

instance [DecidableEq κ] [DecidableEq ν] : DecidableEq (OrdMap κ ν) := fun s t =>
  if h : s.toList = t.toList then
    isTrue (by cases s; cases t; cases h; rfl)
  else
    isFalse (fun e => h (congrArg toList e))

instance : EmptyCollection (OrdMap κ ν) := ⟨⟨[], .nil⟩⟩

instance : Inhabited (OrdMap κ ν) := ⟨∅⟩

/-- The keys in increasing order. -/
def keys (m : OrdMap κ ν) : List κ := m.toList.map Prod.fst

/-- The values in the order of their keys. -/
def values (m : OrdMap κ ν) : List ν := m.toList.map Prod.snd

/-- The number of entries. -/
def size (m : OrdMap κ ν) : Nat := m.toList.length

/-- The value of a key. -/
def get? [DecidableEq κ] (m : OrdMap κ ν) (k : κ) : Option ν :=
  (m.toList.find? (fun e => e.1 = k)).map Prod.snd

/-- Whether a key has a value. -/
def contains [DecidableEq κ] (m : OrdMap κ ν) (k : κ) : Bool := (m.get? k).isSome

/-- Changes every value. -/
def map {μ : Type} (f : ν → μ) (m : OrdMap κ ν) : OrdMap κ μ where
  toList := m.toList.map (fun e => (e.1, f e.2))
  increasing := List.pairwise_map.2 m.increasing

/-- The entries whose key satisfies `p`. -/
def filterKeys (p : κ → Bool) (m : OrdMap κ ν) : OrdMap κ ν where
  toList := m.toList.filter (fun e => p e.1)
  increasing := m.increasing.filter _

/-- Puts an entry at its place in a list in order, replacing an entry with the same key. -/
def insertSorted (k : κ) (v : ν) : List (κ × ν) → List (κ × ν)
  | [] => [(k, v)]
  | e :: es =>
    match compare k e.1 with
    | .lt => (k, v) :: e :: es
    | .eq => (k, v) :: es
    | .gt => e :: insertSorted k v es

theorem fst_mem_insertSorted [Std.LawfulEqOrd κ] {k : κ} {v : ν} {e : κ × ν} {l : List (κ × ν)}
    (h : e ∈ insertSorted k v l) : e.1 = k ∨ e ∈ l := by
  induction l with
  | nil => simp [insertSorted] at h; simp [h]
  | cons b bs ih =>
    unfold insertSorted at h
    split at h
    · rcases List.mem_cons.1 h with rfl | h
      · exact .inl rfl
      · exact .inr h
    · rcases List.mem_cons.1 h with rfl | h
      · exact .inl rfl
      · exact .inr (List.mem_cons_of_mem _ h)
    · rcases List.mem_cons.1 h with rfl | h
      · exact .inr (List.mem_cons_self ..)
      · rcases ih h with h | h
        · exact .inl h
        · exact .inr (List.mem_cons_of_mem _ h)

section Lawful

variable [Std.TransOrd κ] [Std.LawfulEqOrd κ]

theorem increasing_insertSorted {k : κ} {v : ν} {l : List (κ × ν)}
    (h : l.Pairwise (fun a b => compare a.1 b.1 = .lt)) :
    (insertSorted k v l).Pairwise (fun a b => compare a.1 b.1 = .lt) := by
  induction l with
  | nil => simp [insertSorted]
  | cons b bs ih =>
    rw [List.pairwise_cons] at h
    unfold insertSorted
    split
    · next lt =>
      refine List.pairwise_cons.2 ⟨fun x hx => ?_, List.pairwise_cons.2 h⟩
      rcases List.mem_cons.1 hx with rfl | hx
      · exact lt
      · exact Std.TransCmp.lt_trans lt (h.1 x hx)
    · next eq =>
      have eq : k = b.1 := Std.LawfulEqOrd.eq_of_compare eq
      refine List.pairwise_cons.2 ⟨fun x hx => ?_, h.2⟩
      rw [eq]
      exact h.1 x hx
    · next gt =>
      refine List.pairwise_cons.2 ⟨fun x hx => ?_, ih h.2⟩
      rcases fst_mem_insertSorted hx with hx | hx
      · rw [hx]
        exact Std.OrientedCmp.gt_iff_lt.1 gt
      · exact h.1 x hx

/-- The map with a new value for a key. -/
def insert (k : κ) (v : ν) (m : OrdMap κ ν) : OrdMap κ ν :=
  ⟨insertSorted k v m.toList, increasing_insertSorted m.increasing⟩

/-- The map of a list of entries, later ones winning. -/
def ofList (l : List (κ × ν)) : OrdMap κ ν := l.foldl (fun m e => m.insert e.1 e.2) ∅

theorem get?_insert [DecidableEq κ] {m : OrdMap κ ν} {k x : κ} {v : ν} :
    (m.insert k v).get? x = if x = k then some v else m.get? x := by
  obtain ⟨l, hl⟩ := m
  show ((insertSorted k v l).find? (fun e => e.1 = x)).map Prod.snd = _
  show _ = if x = k then some v else (l.find? (fun e => e.1 = x)).map Prod.snd
  clear hl
  induction l with
  | nil =>
    by_cases h : x = k
    · simp [insertSorted, h]
    · have h' : ¬ k = x := fun e => h e.symm
      simp [insertSorted, h, h']
  | cons b bs ih =>
    unfold insertSorted
    split
    · by_cases h : x = k
      · simp [h]
      · have h' : ¬ k = x := fun e => h e.symm
        simp [h, h']
    · next eq =>
      have eq : k = b.1 := Std.LawfulEqOrd.eq_of_compare eq
      by_cases h : x = k
      · simp [h]
      · have h' : ¬ k = x := fun e => h e.symm
        have h'' : ¬ b.1 = x := fun e => h' (eq.trans e)
        simp [h, h', h'']
    · next gt =>
      have hne : ¬ b.1 = k := by
        intro e
        rw [e, Std.compare_self] at gt
        cases gt
      by_cases hb : b.1 = x
      · have h : ¬ x = k := fun e => hne (hb.trans e)
        simp [hb, h]
      · simp [hb, ih]

end Lawful

theorem get?_map [DecidableEq κ] {μ : Type} {f : ν → μ} {m : OrdMap κ ν} {k : κ} :
    (m.map f).get? k = (m.get? k).map f := by
  simp [get?, map, List.find?_map, Option.map_map, Function.comp_def]

theorem get?_filterKeys [DecidableEq κ] {p : κ → Bool} {m : OrdMap κ ν} {k : κ} :
    (m.filterKeys p).get? k = if p k then m.get? k else none := by
  have test : (fun e : κ × ν => decide (p e.1 = true ∧ decide (e.1 = k) = true)) =
      fun e => p k && decide (e.1 = k) := by
    funext e
    by_cases h : e.1 = k <;> simp [h]
  rw [get?, filterKeys, List.find?_filter, test, get?]
  by_cases h : p k <;> simp [h]

end OrdMap

end RegColor
