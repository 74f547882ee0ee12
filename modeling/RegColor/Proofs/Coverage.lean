import Mathlib.Logic.Function.Iterate
import RegColor.Listing.Access
import RegColor.Proofs.Forest

/-!
# What webs cover and what they pay for

`Forest.Covers d s i w` says that `w` is a web of variable `s` whose range holds instruction `i`.
`Web.accesses` counts how often an instruction writes or reads the variable of a web that covers it,
and `Forest.Paid` says that the costs of webs have grown by the accesses of given instructions.
Costs are charged one by one in 64 bits, which is what `Word.succ` and its iterates stand for; from
zero on, `n` charges make `Word.wrap n` (`Word.iterate_succ`).
-/

namespace RegColor

namespace Forest

/-! ## Ranges -/

variable {d : Forest} {s : SymbolId} {i j : InstrId} {v w : Nat} {g : Web → Web}

/-- A web of a variable covers an instruction. -/
structure Covers (d : Forest) (s : SymbolId) (i : InstrId) (w : Nat) : Prop where
  lt : w < d.size
  symbol : (d.web w).symbol = s
  mem : i ∈ (d.web w).range

theorem mem_range_iff_covers : i ∈ (d.web w).range ↔ d.Covers (d.web w).symbol i w := by
  refine ⟨fun mem => ⟨?_, rfl, mem⟩, Covers.mem⟩
  by_contra out
  rw [web_of_size_le (Nat.not_lt.1 out)] at mem
  exact OrdSet.not_mem_empty _ mem

/-- A change of a web that adds an instruction to its range. -/
theorem covers_modifyWeb (hw : w < d.size) (symbol : ∀ x, (g x).symbol = x.symbol)
    (range : ∀ x, (g x).range = x.range.insert i) :
    (d.modifyWeb w g).Covers s j v ↔
      d.Covers s j v ∨ (v = w ∧ j = i ∧ (d.web w).symbol = s) := by
  constructor
  · intro given
    rcases given with ⟨lt, sym, mem⟩
    rw [size_modifyWeb] at lt
    rw [web_modifyWeb hw] at sym mem
    split at mem
    · next e =>
      subst e
      rw [if_pos rfl, symbol] at sym
      rw [range, OrdSet.mem_insert] at mem
      exact mem.elim (fun e => .inr ⟨rfl, e, sym⟩) fun mem => .inl ⟨lt, sym, mem⟩
    · next e =>
      rw [if_neg e] at sym
      exact .inl ⟨lt, sym, mem⟩
  · intro given
    rcases given with ⟨lt, sym, mem⟩ | ⟨rfl, rfl, sym⟩
    · refine ⟨by rwa [size_modifyWeb], ?_, ?_⟩
      · rw [web_modifyWeb hw]
        split
        · next e => rw [symbol, ← e, sym]
        · exact sym
      · rw [web_modifyWeb hw]
        split
        · next e =>
          rw [range, ← e]
          exact OrdSet.mem_insert.2 (.inr mem)
        · exact mem
    · refine ⟨by rwa [size_modifyWeb], ?_, ?_⟩
      · rw [web_modifyWeb hw, if_pos rfl, symbol, sym]
      · rw [web_modifyWeb hw, if_pos rfl, range]
        exact OrdSet.mem_insert.2 (.inl rfl)

theorem covers_charge (hw : w < d.size) :
    (d.modifyWeb w Web.charge).Covers s j v ↔ d.Covers s j v := by
  have same (k : Nat) : ((d.modifyWeb w Web.charge).web k).symbol = (d.web k).symbol ∧
      ((d.modifyWeb w Web.charge).web k).range = (d.web k).range := by
    rw [web_modifyWeb hw]
    split
    · next e => exact ⟨by rw [e]; rfl, by rw [e]; rfl⟩
    · exact ⟨rfl, rfl⟩
  constructor
  · intro given
    rcases given with ⟨lt, sym, mem⟩
    exact ⟨by rwa [size_modifyWeb] at lt, by rwa [(same v).1] at sym, by rwa [(same v).2] at mem⟩
  · intro given
    rcases given with ⟨lt, sym, mem⟩
    exact ⟨by rwa [size_modifyWeb], by rwa [(same v).1], by rwa [(same v).2]⟩

/-- A new web covers nothing. -/
theorem covers_add {t : SymbolId} :
    (d.add { id := 0, symbol := t }).1.Covers s j v ↔ d.Covers s j v := by
  constructor
  · intro given
    rcases given with ⟨lt, sym, mem⟩
    rw [size_add] at lt
    rw [web_add] at sym mem
    split at mem
    · exact absurd mem (OrdSet.not_mem_empty _)
    · next e =>
      rw [if_neg e] at sym
      exact ⟨by omega, sym, mem⟩
  · intro given
    rcases given with ⟨lt, sym, mem⟩
    have e : v ≠ d.size := by omega
    exact ⟨by rw [size_add]; omega, by rwa [web_add, if_neg e], by rwa [web_add, if_neg e]⟩

end Forest

/-! ## Costs -/

namespace Word

/-- The cost after one more charge. -/
def succ (n : Int) : Int := wrap (n + 1)

/-- Charges one by one add up. -/
theorem iterate_succ (n : Nat) (c : Int) : succ^[n] (wrap c) = wrap (c + n) := by
  induction n with
  | zero => rw [Function.iterate_zero_apply, Int.natCast_zero, Int.add_zero]
  | succ n ih =>
    rw [Function.iterate_succ_apply', ih, succ, wrap_wrap_add, Int.natCast_succ, Int.add_assoc]

end Word

/-- How often an instruction writes or reads the variable of a web that covers it. -/
def Web.accesses (uses : Instr → List SymbolId) (w : Web) (i : Instr) : Nat :=
  if i.id ∈ w.range then (i.defs ++ uses i).count w.symbol else 0

namespace Forest

variable {d d' d'' : Forest} {uses : Instr → List SymbolId} {is js : List Instr} {k w : Nat}
  {g : Web → Web}

theorem accesses_congr {i : Instr} (same : ∀ s, d'.Covers s i.id k ↔ d.Covers s i.id k) :
    (d'.web k).accesses uses i = (d.web k).accesses uses i := by
  by_cases mem : i.id ∈ (d.web k).range
  · have covers := (same _).2 (mem_range_iff_covers.1 mem)
    rw [Web.accesses, Web.accesses, if_pos mem, if_pos covers.mem, covers.symbol]
  · have mem' : i.id ∉ (d'.web k).range := fun h =>
      mem ((same _).1 (mem_range_iff_covers.1 h)).mem
    rw [Web.accesses, Web.accesses, if_neg mem, if_neg mem']

/-- From the one forest to the other, every web is charged for each access to it. -/
def Paid (uses : Instr → List SymbolId) (is : List Instr) (d d' : Forest) : Prop :=
  ∀ k, (d'.web k).cost = Word.succ^[total ((d'.web k).accesses uses) is] (d.web k).cost

/-- Accesses are paid for once, if later changes of ranges are not at their instructions. -/
theorem Paid.trans (h : Paid uses is d d') (h' : Paid uses js d' d'')
    (same : ∀ i ∈ is, ∀ s k, d''.Covers s i.id k ↔ d'.Covers s i.id k) :
    Paid uses (is ++ js) d d'' := by
  intro k
  have before : total ((d''.web k).accesses uses) is = total ((d'.web k).accesses uses) is :=
    total_congr fun i hi => accesses_congr fun s => same i hi s k
  rw [total_append, before, Nat.add_comm, Function.iterate_add_apply, ← h k, h' k]

theorem cost_modifyWeb (kept : ∀ x, (g x).cost = x.cost) :
    ((d.modifyWeb w g).web k).cost = (d.web k).cost :=
  getD_modify_kept (fun n => n.web.cost) fun n => kept n.web

theorem cost_modifyWeb_succ (hw : w < d.size) (charged : ∀ x, (g x).cost = Word.succ x.cost) :
    ((d.modifyWeb w g).web k).cost =
      if w = k then Word.succ (d.web k).cost else (d.web k).cost := by
  rw [web_modifyWeb hw]
  by_cases e : k = w
  · rw [if_pos e, if_pos e.symm, charged, e]
  · rw [if_neg e, if_neg (Ne.symm e)]

/-- A new web has paid nothing. -/
theorem cost_add {s : SymbolId} :
    ((d.add { id := 0, symbol := s }).1.web k).cost = (d.web k).cost := by
  rw [web_add]
  split
  · next e => rw [web_of_size_le (Nat.le_of_eq e.symm)]; rfl
  · rfl

end Forest

end RegColor
