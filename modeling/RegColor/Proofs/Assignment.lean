import RegColor.Proofs.Ranges
import RegColor.Proofs.Rerun

/-!
# What a failed assignment leaves behind

Assigning writes places web by web and stops at the first color beyond the registers
(`placeAll_failed`): the webs before that one have their new places, that one is in memory, and the
webs after it are as they were. A palette that has not recorded the result does not see this. One
that has recorded it answers by the webs as they are now, so its answers stay the same exactly if
every place that was written had been there before (`assign_failed`).

In `trio` the places left behind belong to no coloring: of three variables that are live together
two end up in one register.
-/

namespace RegColor

namespace Palette

variable {t : Target} {l : Listing} {f : Function} {color : Int → Int} {e : Fault}
  {ws ws' : List Web} {p : Palette} {r : Webs}

/-! ## Places written -/

/-- The place for a color that is not beyond the registers. -/
def placeFor (t : Target) (color : Int) : Option Place :=
  if color = -1 then none else some ⟨color.toNat, t.gpRegs.getD color.toNat ""⟩

/-- A web in the place that a coloring gives it. -/
def moved (t : Target) (color : Int → Int) (w : Web) : Web :=
  { w with place := placeFor t (color w.id) }

/-- A web in memory. -/
def dropped (w : Web) : Web := { w with place := none }

theorem placeOf_eq {c : Int} (w : Web) (valid : -1 ≤ c) : placeOf t l f w c =
    if c < t.size then .ok (placeFor t c)
    else .error (.colorBeyond (l.nameOf f) (w.text l) c t.size) := by
  unfold placeOf placeFor
  by_cases spill : c = -1
  · rw [if_pos spill, if_pos spill, if_pos (by omega)]
  · rw [if_neg spill, if_neg spill]
    by_cases small : c < t.size
    · rw [if_neg (by omega), if_neg (by omega), if_pos small]
    · rw [if_pos (by omega), if_neg small]

/-- Writing that fails stops at the first web whose color is beyond the registers. -/
theorem placeAll_failed (valid : ∀ w ∈ ws, -1 ≤ color w.id)
    (h : placeAll t l f color ws = (ws', some e)) :
    ∃ pre w post, ws = pre ++ w :: post ∧ (∀ v ∈ pre, color v.id < t.size) ∧
      t.size ≤ color w.id ∧ e = .colorBeyond (l.nameOf f) (w.text l) (color w.id) t.size ∧
      ws' = pre.map (moved t color) ++ dropped w :: post := by
  induction ws generalizing ws' with
  | nil => cases h
  | cons w ws ih =>
    rw [placeAll, placeOf_eq w (valid w (List.mem_cons_self ..))] at h
    by_cases small : color w.id < t.size
    · rw [if_pos small] at h
      rcases rest : placeAll t l f color ws with ⟨ws₁, fault⟩
      rw [rest] at h
      cases h
      obtain ⟨pre, v, post, split, before, beyond, fault, after⟩ :=
        ih (fun v hv => valid v (List.mem_cons_of_mem _ hv)) rest
      refine ⟨w :: pre, v, post, by rw [split]; rfl, ?_, beyond, fault, by rw [after]; rfl⟩
      exact List.forall_mem_cons.2 ⟨small, before⟩
    · rw [if_neg small] at h
      cases h
      exact ⟨[], w, ws, rfl, List.forall_mem_nil _, by omega, rfl, rfl⟩

/-- Nothing has changed exactly if every place written was there before. -/
theorem moved_eq_iff {pre post : List Web} {w : Web} :
    pre.map (moved t color) ++ dropped w :: post = pre ++ w :: post ↔
      (∀ v ∈ pre, v.place = placeFor t (color v.id)) ∧ w.place = none := by
  have move (v : Web) : moved t color v = v ↔ v.place = placeFor t (color v.id) := by
    cases v
    simp [moved, eq_comm]
  have drop : dropped w = w ↔ w.place = none := by
    cases w
    simp [dropped, eq_comm]
  induction pre with
  | nil => simp [drop]
  | cons v pre ih =>
    refine List.cons_eq_cons.trans ((and_congr (move v) ih).trans ?_)
    rw [List.forall_mem_cons, and_assoc]

/-! ## Answers -/

/-- Two palettes give the same answers: the register of every symbol at every point, and the spilled
variables and the recorded webs of every function. -/
structure SameAnswers (l : Listing) (p q : Palette) : Prop where
  registers : ∀ s point,
    (Allocator.coloring p).resolve l s point = (Allocator.coloring q).resolve l s point
  spilled : ∀ k, p.spilled k = q.spilled k
  webs : ∀ k, p.webs? k = q.webs? k

/-- A palette answers by its target and by the webs it has recorded. -/
theorem sameAnswers_iff {q : Palette} (target : p.target = q.target) :
    SameAnswers l p q ↔ ∀ k, p.webs? k = q.webs? k := by
  refine ⟨SameAnswers.webs, fun webs => ⟨fun s point => ?_, fun k => ?_, webs⟩⟩
  · exact Allocator.Same.resolve (.coloring ⟨target, fun k => by rw [webs k]⟩) s point
  · rw [spilled, spilled, webs k]

theorem webs?_record (k : Nat) :
    (p.record r).webs? k = if k = r.function then some r else p.webs? k :=
  OrdMap.get?_insert

theorem holds_of_webs? (h : p.webs? r.function = some r) : p.holds r = true := by
  unfold webs? at h
  simp [holds, h]

/-- Recording another result in the place of one changes the answers. -/
theorem sameAnswers_record_iff {r' : Webs} (recorded : p.webs? r.function = some r)
    (function : r'.function = r.function) : SameAnswers l p (p.record r') ↔ r' = r := by
  have target : p.target = (p.record r').target := rfl
  rw [sameAnswers_iff target]
  constructor
  · intro webs
    have here := webs r.function
    rw [webs?_record, if_pos function.symm, recorded] at here
    exact (Option.some.inj here).symm
  · intro e k
    rw [webs?_record, e]
    split
    · next here => rw [here, recorded]
    · rfl

theorem assign_of_fault
    (h : placeAll p.target l (l.functions.getD r.function default) color r.webs = (ws, some e)) :
    p.assign l r color = (if p.holds r then p.record { r with webs := ws } else p,
      { r with webs := ws }, some e) := by
  simp only [assign, h, Option.isNone_some, Bool.false_or]

/-- Writing places changes no variable. -/
theorem map_symbol_placeAll (ws : List Web) :
    (placeAll t l f color ws).1.map Web.symbol = ws.map Web.symbol := by
  induction ws with
  | nil => rfl
  | cons w ws ih =>
    rw [placeAll]
    split
    · rfl
    · rw [List.map_cons, List.map_cons, ih]

/-- Allocating a function records the webs that were built for it, each in its place. -/
theorem allocate_inv {p' : Palette} {as : List Annotation} {k serial : Nat}
    {res : Coloring.Result} (h : p.allocate l as k serial = .ok (p', r, res)) :
    p' = p.record r ∧ ∃ r₀, Webs.build l as k serial = .ok r₀ ∧ r.function = r₀.function ∧
      r.webs.map Web.symbol = r₀.webs.map Web.symbol := by
  obtain ⟨r₀, hbuild, h⟩ := bind_eq_ok.1 h
  dsimp only at h
  split at h
  · next assigned =>
    cases h
    rcases placed : placeAll p.target l (l.functions.getD r₀.function default)
      (Coloring.color r₀.graph r₀.cost p.target.size).color r₀.webs with ⟨ws, fault⟩
    have symbols : ws.map Web.symbol = r₀.webs.map Web.symbol := by
      rw [← show (placeAll ..).1 = ws from congrArg Prod.fst placed]
      exact map_symbol_placeAll r₀.webs
    rw [assign, placed] at assigned
    cases assigned
    exact ⟨by rw [Option.isNone_none, Bool.true_or, if_pos rfl], r₀, hbuild, rfl, symbols⟩
  · cases h

theorem webs?_of_allocate {p' : Palette} {as : List Annotation} {k serial : Nat}
    {res : Coloring.Result} (h : p.allocate l as k serial = .ok (p', r, res)) :
    p'.webs? r.function = some r := by
  rw [(allocate_inv h).1, webs?_record, if_pos rfl]

/-- An assignment that fails shows in a palette that has recorded the result, and in no other. There
the webs before the one at fault have their new places, the one at fault is in memory and the others
are as they were. So the answers stay the same exactly if the palette has not recorded the result or
every place written was there before. -/
theorem assign_failed (valid : ∀ w ∈ r.webs, -1 ≤ color w.id)
    (current : p.holds r = true → p.webs? r.function = some r)
    (failed : (p.assign l r color).2.2 = some e) :
    ∃ pre w post, r.webs = pre ++ w :: post ∧ (∀ v ∈ pre, color v.id < p.target.size) ∧
      p.target.size ≤ color w.id ∧
      let p' := (p.assign l r color).1
      let written := { r with webs := pre.map (moved p.target color) ++ dropped w :: post }
      (∀ k, p'.webs? k = if p.holds r ∧ k = r.function then some written else p.webs? k) ∧
      (SameAnswers l p p' ↔ p.holds r = false ∨
        (∀ v ∈ pre, v.place = placeFor p.target (color v.id)) ∧ w.place = none) := by
  rcases placed : placeAll p.target l (l.functions.getD r.function default) color r.webs with
    ⟨ws, fault⟩
  have fault : fault = some e := by
    rw [← failed, assign, placed]
  subst fault
  obtain ⟨pre, w, post, split, before, beyond, -, rfl⟩ := placeAll_failed valid placed
  refine ⟨pre, w, post, split, before, beyond, ?_⟩
  rw [assign_of_fault placed]
  cases held : p.holds r with
  | false =>
    refine ⟨fun k => ?_, iff_of_true ⟨fun _ _ => rfl, fun _ => rfl, fun _ => rfl⟩ (.inl rfl)⟩
    simp
  | true =>
    let written : Webs := { r with webs := pre.map (moved p.target color) ++ dropped w :: post }
    have same : SameAnswers l p (p.record written) ↔ written = r :=
      sameAnswers_record_iff (current held) rfl
    refine ⟨fun k => ?_, same.trans ?_⟩
    · simpa using webs?_record k
    · rw [or_iff_right Bool.noConfusion, ← moved_eq_iff, ← split]
      exact ⟨congrArg Webs.webs, congrArg fun webs => { r with webs }⟩

end Palette

/-! ## Three variables that are live together -/

/-- A function `trio()` with three variables that are live together: `a := 1; b := 1; c := 1;
a := a + b; a := a + c; return a`. -/
def Listing.trio : Listing :=
  let symbols : List Symbol :=
    [{ name := "trio", kind := .function, type := none },
      { name := "1", kind := .int 1, type := none }]
  let l : Listing := symbols.foldl (fun l s => (l.addSymbol s).1) {}
  let l := { l with functions := [{ symbol := 0 }] }
  let l := (((l.addLocal 0 "a" none).1.addLocal 0 "b" none).1.addLocal 0 "c" none).1
  let code : List Action :=
    [.apply .assign [2, 1], .apply .assign [3, 1], .apply .assign [4, 1],
      .apply (.arith .add) [2, 2, 3], .apply (.arith .add) [2, 2, 4], .apply .ret [2]]
  code.foldl (fun l a => (l.push 0 a 0).1) l

namespace Palette

open Listing

/-- A coloring of `trio` for more registers than there are: `a` takes the first one, `b` one that is
missing, and `c` none. -/
def beyond (v : Int) : Int := if v = 0 then 0 else if v = 1 then 9 else -1

/-- After allocating `trio` for three registers each variable has one of its own at the first
addition. An assignment that fails then leaves `a` and `c` in one register and `b` in memory. -/
theorem trio_registers :
    ∃ p r res, Palette.allocate { target := Target.mips.limit 3 } trio trio.analyzed.2 0 0 =
        .ok (p, r, res) ∧ r.function = 0 ∧ (∀ w ∈ r.webs, -1 ≤ beyond w.id) ∧
      (p.assign trio r beyond).2.2.isSome ∧
      let registers (p : Palette) :=
        [2, 3, 4].map ((Allocator.coloring p).resolve trio · (some (0, ⟨3, 0⟩)))
      registers p = [some "$t2", some "$t1", some "$t0"] ∧
        registers (p.assign trio r beyond).1 = [some "$t0", none, some "$t0"] ∧
        p.spilled 0 = [] ∧ (p.assign trio r beyond).1.spilled 0 = [3] := by
  have computed : (Palette.allocate { target := Target.mips.limit 3 } trio trio.analyzed.2 0
      0).toOption.map (fun x =>
        let failed := x.1.assign trio x.2.1 beyond
        let registers (p : Palette) :=
          [2, 3, 4].map ((Allocator.coloring p).resolve trio · (some (0, ⟨3, 0⟩)))
        ((x.2.1.function, x.2.1.webs.all (-1 ≤ beyond ·.id), failed.2.2.isSome),
          [registers x.1, registers failed.1], [x.1.spilled 0, failed.1.spilled 0])) =
      some ((0, true, true), [[some "$t2", some "$t1", some "$t0"],
        [some "$t0", none, some "$t0"]], [[], [3]]) := by decide +kernel
  rcases allocated : Palette.allocate { target := Target.mips.limit 3 } trio trio.analyzed.2 0 0
    with e | ⟨p, r, res⟩
  · rw [allocated] at computed
    cases computed
  rw [allocated] at computed
  simp only [Except.toOption, Option.map_some, Option.some.injEq, Prod.mk.injEq, List.cons.injEq,
    and_true, List.all_eq_true, decide_eq_true_eq] at computed
  rcases computed with ⟨⟨function, valid, failed⟩, ⟨before, after⟩, none, one⟩
  exact ⟨p, r, res, rfl, function, valid, failed, before, after, none, one⟩

/-- The palette of `trio` has recorded the webs, so it shows what the assignment wrote. -/
theorem assign_failed_trio :
    ∃ p r res, Palette.allocate { target := Target.mips.limit 3 } trio trio.analyzed.2 0 0 =
        .ok (p, r, res) ∧ (∀ w ∈ r.webs, -1 ≤ beyond w.id) ∧ p.holds r = true ∧
      (p.assign trio r beyond).2.2.isSome ∧
      ∃ pre w post, r.webs = pre ++ w :: post ∧ p.target.size ≤ beyond w.id ∧
        (p.assign trio r beyond).1.webs? 0 =
          some { r with webs := pre.map (moved p.target beyond) ++ dropped w :: post } := by
  obtain ⟨p, r, res, allocated, function, valid, failed, -⟩ := trio_registers
  have recorded := webs?_of_allocate allocated
  have held := holds_of_webs? recorded
  obtain ⟨e, he⟩ := Option.isSome_iff_exists.1 failed
  obtain ⟨pre, w, post, split, -, beyond, webs, -⟩ :=
    assign_failed valid (fun _ => recorded) he
  refine ⟨p, r, res, allocated, valid, held, failed, pre, w, post, split, beyond, ?_⟩
  exact (webs 0).trans (if_pos ⟨held, function.symm⟩)

/-- An assignment of recorded webs that fails changes the answers: the registers of `a` and `c`,
which are live together, differ before it and are the same after it. -/
theorem trio_answers_change :
    ∃ p r res, Palette.allocate { target := Target.mips.limit 3 } trio trio.analyzed.2 0 0 =
        .ok (p, r, res) ∧ p.webs? r.function = some r ∧ (∀ w ∈ r.webs, -1 ≤ beyond w.id) ∧
      (p.assign trio r beyond).2.2.isSome ∧
      let a := Allocator.coloring p
      let a' := Allocator.coloring (p.assign trio r beyond).1
      a.resolve trio 2 (some (0, ⟨3, 0⟩)) = some "$t2" ∧
        a.resolve trio 4 (some (0, ⟨3, 0⟩)) = some "$t0" ∧
        a'.resolve trio 2 (some (0, ⟨3, 0⟩)) = some "$t0" ∧
        a'.resolve trio 4 (some (0, ⟨3, 0⟩)) = some "$t0" ∧
        p.spilled 0 ≠ (p.assign trio r beyond).1.spilled 0 ∧
        ¬SameAnswers trio p (p.assign trio r beyond).1 := by
  obtain ⟨p, r, res, allocated, -, valid, failed, before, after, none, one⟩ := trio_registers
  have spills : p.spilled 0 ≠ (p.assign trio r beyond).1.spilled 0 := by
    rw [none, one]
    decide
  simp only [List.map_cons, List.cons.injEq] at before after
  exact ⟨p, r, res, allocated, webs?_of_allocate allocated, valid, failed, before.1, before.2.2.1,
    after.1, after.2.2.1, spills, fun same => spills (same.spilled 0)⟩

end Palette

end RegColor
