import RegColor.Allocation.Run
import RegColor.Proofs.Liveness
import RegColor.Proofs.Webs

/-!
# Registers for webs

Coloring gives webs colors below the number of registers, so every web finds its place
(`placeAll_eq`), and webs that interfere get different ones. `Palette.Settled` states what this
means for the locals of a function; `allocate_ok` and `allocateFunctions_ok` establish it for one
function and for all of them, over live sets that sweeps have ended with.
-/

namespace RegColor

open Block

/-! ## Final live sets -/

namespace Liveness.Solved

variable {l : Listing} {as as' : List Annotation} {k : Nat}

theorem liveRules (h : Solved l as as') (hk : k < as'.length) :
    Webs.LiveRules (l.uses (entries as')) (as'.getD k default) where
  laid := h.ready.laid k hk
  pass {n j i s} hi hs := by
    by_cases hd : s ∈ i.defs
    · exact .inr hd
    · refine .inl (h.stable.mem_of_demand h.ready hi (OrdSet.mem_union.2 (.inl ?_)))
      rw [OrdSet.mem_diff, OrdSet.mem_ofList]
      exact ⟨hs, hd⟩
  used hi hs :=
    h.stable.mem_of_demand h.ready hi (OrdSet.mem_union.2 (.inr (OrdSet.mem_ofList.2 hs)))

theorem edgeRules (h : Solved l as as') (hk : k < as'.length) :
    ∃ g, (as'.getD k default).flow = some g ∧ Webs.EdgeRules (as'.getD k default) g := by
  obtain ⟨g, hg, inside⟩ := h.ready.flow k hk
  exact ⟨g, hg, fun ht => inside _ _ ht,
    fun hb ht hs => h.stable.mem_of_successor h.ready hb hg ht hs⟩

end Liveness.Solved

namespace Palette

/-! ## Places -/

variable {t : Target} {l : Listing} {f : Function} {res : Coloring.Result}

/-- The place of a web under a coloring. -/
def placed (t : Target) (res : Coloring.Result) (w : Web) : Option Place :=
  (res.colors.get? w.id).map fun c => ⟨c, t.gpRegs.getD c ""⟩

theorem placeOf_color {g : Graph} (proper : Coloring.Proper g t.size res.colors) (w : Web) :
    placeOf t l f w (res.color w.id) = .ok (placed t res w) := by
  unfold placed Coloring.Result.color
  cases h : res.colors.get? w.id with
  | none => rfl
  | some c =>
    have lt := proper.lt _ c h
    show placeOf t l f w c = _
    unfold placeOf
    rw [if_neg (by omega), if_neg (by omega), if_neg (by omega)]
    rfl

theorem placeAll_eq {color : Int → Int} {place : Web → Option Place} {ws : List Web}
    (h : ∀ w ∈ ws, placeOf t l f w (color w.id) = .ok (place w)) :
    placeAll t l f color ws = (ws.map fun w => { w with place := place w }, none) := by
  induction ws with
  | nil => rfl
  | cons w ws ih =>
    rw [placeAll, h w (List.mem_cons_self ..), ih fun v hv => h v (List.mem_cons_of_mem _ hv)]
    rfl

/-- Placing webs changes no variable and no range. -/
theorem lookup?_placed {r : Webs} (place : Web → Option Place) (s : SymbolId) (i : InstrId) :
    ({ r with webs := r.webs.map fun w => { w with place := place w } } : Webs).lookup? s i =
      (r.lookup? s i).map fun w => { w with place := place w } := by
  simp only [Webs.lookup?, List.find?_map]
  rfl

/-! ## One function -/

/-- What the recorded webs of a function guarantee for its locals: each has a web where it is live
or written, control carries the web along, and two locals that are live after an instruction or
written by it never share a color. A place is a general purpose register. -/
structure Settled (l : Listing) (f : Function) (a : Annotation) (t : Target) (r : Webs) :
    Prop where
  found : ∀ {n j i s}, instrAt? a.blocks n j = some i → l.isLocal f s = true →
    s ∈ a.setAt n j ∨ s ∈ i.defs → ∃ w, r.lookup? s i.id = some w
  carried : ∀ {n j i n' j' i' s}, instrAt? a.blocks n j = some i →
    instrAt? a.blocks n' j' = some i' → a.Passes n j n' j' → l.isLocal f s = true →
    s ∈ a.setAt n (j + 1) → s ∈ a.setAt n' j' → r.lookup? s i'.id = r.lookup? s i.id
  apart : ∀ {n j i s u w v p q}, instrAt? a.blocks n j = some i → s ≠ u →
    s ∈ a.setAt n (j + 1) ∨ s ∈ i.defs → u ∈ a.setAt n (j + 1) ∨ u ∈ i.defs →
    r.lookup? s i.id = some w → r.lookup? u i.id = some v → w.place = some p → v.place = some q →
    p.color ≠ q.color
  register : ∀ {s i w p}, r.lookup? s i = some w → w.place = some p →
    t.gpRegs[p.color]? = some p.register

theorem settled {a : Annotation} {r : Webs} (faithful : Webs.Faithful l f a r)
    (proper : Coloring.Proper r.graph t.size res.colors) :
    Settled l f a t { r with webs := r.webs.map fun w => { w with place := placed t res w } } := by
  have color {w : Web} {p : Place} (h : placed t res w = some p) :
      res.colors.get? w.id = some p.color ∧ t.gpRegs[p.color]? = some p.register := by
    obtain ⟨c, hc, rfl⟩ := Option.map_eq_some_iff.1 h
    have lt : c < t.gpRegs.length := proper.lt _ c hc
    refine ⟨hc, ?_⟩
    rw [List.getElem?_eq_getElem lt, List.getD_eq_getElem _ _ lt]
  constructor
  · intro n j i s hi loc hs
    obtain ⟨w, hw⟩ := faithful.found hi loc hs
    exact ⟨_, by rw [lookup?_placed, hw, Option.map_some]⟩
  · intro n j i n' j' i' s hi hi' pass loc hs hs'
    rw [lookup?_placed, lookup?_placed, faithful.carried hi hi' pass loc hs hs']
  · intro n j i s u w v p q hi ne hs hu hw hv hp hq same
    rw [lookup?_placed] at hw hv
    obtain ⟨w, hw', rfl⟩ := Option.map_eq_some_iff.1 hw
    obtain ⟨v, hv', rfl⟩ := Option.map_eq_some_iff.1 hv
    exact proper.ne _ _ _ (faithful.apart hi ne hs hu hw' hv') (color hp).1 (same ▸ (color hq).1)
  · intro s i w p hw hp
    rw [lookup?_placed] at hw
    obtain ⟨w, -, rfl⟩ := Option.map_eq_some_iff.1 hw
    exact (color hp).2

/-- A function has recorded webs that keep these guarantees. -/
def Holds (p : Palette) (l : Listing) (as : List Annotation) (k : Nat) : Prop :=
  ∃ r, p.webs? k = some r ∧
    Settled l (l.functions.getD k default) (as.getD k default) p.target r

/-- Allocating a function succeeds over final live sets. It records webs for the function and leaves
those of other functions alone. -/
theorem allocate_ok {p : Palette} {as as' : List Annotation} {k : Nat}
    (solved : Liveness.Solved l as as') (hk : k < as'.length) (serial : Nat) :
    ∃ p' r res, p.allocate l as' k serial = .ok (p', r, res) ∧ p'.target = p.target ∧
      p'.Holds l as' k ∧ ∀ k' ≠ k, p'.webs? k' = p.webs? k' := by
  obtain ⟨g, hg, edges⟩ := solved.edgeRules hk
  obtain ⟨r, hbuild, hfun, faithful⟩ := Webs.build_ok serial (solved.liveRules hk) edges hg
  have proper := Coloring.proper_color r.graph r.cost p.target.size
  rw [Int.toNat_natCast] at proper
  have places := placeAll_eq (l := l) (f := l.functions.getD r.function default)
    fun w (_ : w ∈ r.webs) => placeOf_color proper w
  generalize hres : Coloring.color r.graph r.cost p.target.size = res at proper places
  let r' : Webs := { r with webs := r.webs.map fun w => { w with place := placed p.target res w } }
  have step : p.allocate l as' k serial = .ok (p.record r', r', res) := by
    rw [allocate, hbuild]
    simp only [bind, Except.bind, assign, hres, places, Option.isNone_none, Bool.true_or, if_true]
    rfl
  refine ⟨_, _, _, step, rfl, ⟨r', ?_, settled faithful proper⟩, fun k' ne => ?_⟩
  · rw [webs?, record, OrdMap.get?_insert]
    exact if_pos hfun.symm
  · rw [webs?, record, OrdMap.get?_insert]
    exact if_neg (hfun ▸ ne)

theorem Holds.of_webs?_eq {p p' : Palette} {as : List Annotation} {k : Nat}
    (target : p'.target = p.target) (same : p'.webs? k = p.webs? k) (h : p.Holds l as k) :
    p'.Holds l as k := by
  rcases h with ⟨r, hr, settled⟩
  exact ⟨r, same.trans hr, target ▸ settled⟩

end Palette

namespace Listing

/-- Allocating functions succeeds over final live sets, and leaves webs for all of them. -/
theorem allocateFunctions_ok {l : Listing} {as as' : List Annotation}
    (solved : Liveness.Solved l as as') (serial : Nat) {ks : List Nat}
    (hks : ∀ k ∈ ks, k < as'.length) (p : Palette) :
    ∃ p' reports, l.allocateFunctions as' serial p ks = (p', reports, none) ∧
      p'.target = p.target ∧ ∀ k, k ∈ ks ∨ p.Holds l as' k → p'.Holds l as' k := by
  induction ks generalizing p with
  | nil =>
    exact ⟨p, [], rfl, rfl, fun k h => h.resolve_left List.not_mem_nil⟩
  | cons k ks ih =>
    obtain ⟨p₁, r, res, hstep, target, holds, others⟩ :=
      Palette.allocate_ok (p := p) solved (hks k (List.mem_cons_self ..)) (serial + k)
    obtain ⟨p', reports, hrest, target', all⟩ :=
      ih (fun k hk => hks k (List.mem_cons_of_mem _ hk)) p₁
    refine ⟨p', _, by rw [allocateFunctions, hstep]; simp only [hrest]; rfl, target'.trans target,
      fun k' h => ?_⟩
    by_cases e : k' = k
    · exact all k' (.inr (e ▸ holds))
    · refine all k' (h.imp (fun mem => (List.mem_cons.1 mem).resolve_left e) fun h => ?_)
      exact h.of_webs?_eq target (others k' e)

end Listing

end RegColor
