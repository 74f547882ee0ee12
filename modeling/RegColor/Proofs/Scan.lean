import Mathlib.Logic.Relation
import RegColor.Proofs.Coverage
import RegColor.Proofs.Flow
import RegColor.Web.Build

/-!
# Scanning blocks for webs

A scan adds to the ranges at the instruction it is at and nowhere else (`Scan.Keeps`), and only to
the webs that are open there. So an instruction is covered by at most one web of each variable, and
that web pays for what the instruction accesses of the variable (`Scan.Charged`).

* `scanInstr_ok`: scanning an instruction succeeds when the live sets around it obey the rules of
  liveness, and leaves the locals that are live before it or written by it, and no others, covered
  by one web each (`InstrWebs`), with its accesses paid for;
* `scanBlocks_ok`: the same for all blocks, with the webs open on entry to and on exit from each of
  them (`BlockFacts`). Nothing is joined without a reason: what one web covers hangs together along
  the control flow, and a cluster lists webs that meet at one instruction (`Justified`).
-/

namespace RegColor

/-- A variable is carried from one instruction to another: control passes and finds it live. -/
def Annotation.Continues (a : Annotation) (s : SymbolId) (x y : InstrId) : Prop :=
  ∃ n j n' j' i i', Block.instrAt? a.blocks n j = some i ∧ i.id = x ∧
    Block.instrAt? a.blocks n' j' = some i' ∧ i'.id = y ∧ a.Passes n j n' j' ∧ s ∈ a.setAt n' j'

namespace Webs

/-! ## States of a scan -/

namespace Scan

/-- Every web is a set of its own and knows its number; open webs belong to their variables, and
clusters and the list of closed webs hold webs. -/
structure Valid (st : Scan) : Prop where
  flat : ∀ w < st.forest.size, st.forest.parent w = w
  id : ∀ w < st.forest.size, (st.forest.web w).id = w
  live : ∀ s w, st.live.get? s = some w → w < st.forest.size ∧ (st.forest.web w).symbol = s
  clusters : ∀ c ∈ st.clusters, ∀ w ∈ c, w < st.forest.size
  closed : ∀ w ∈ st.closed, w < st.forest.size

/-- What a scan does to ranges and clusters: nothing is lost, ranges change only at the instructions
where it is, and a new web covers something. -/
structure Keeps (here : InstrId → Prop) (st st' : Scan) : Prop where
  size : st.forest.size ≤ st'.forest.size
  mono : ∀ {s i w}, st.forest.Covers s i w → st'.forest.Covers s i w
  away : ∀ {s i w}, ¬ here i → st'.forest.Covers s i w → st.forest.Covers s i w
  clusters : ∀ c ∈ st.clusters, c ∈ st'.clusters
  filled : ∀ {w}, st.forest.size ≤ w → w < st'.forest.size → ∃ s i, st'.forest.Covers s i w

namespace Keeps

variable {here there : InstrId → Prop} {st st' st'' : Scan}

theorem refl (here : InstrId → Prop) (st : Scan) : Keeps here st st :=
  ⟨Nat.le_refl _, id, fun _ => id, fun _ => id, fun ge lt => absurd lt (Nat.not_lt.2 ge)⟩

theorem trans (h : Keeps here st st') (h' : Keeps here st' st'') : Keeps here st st'' where
  size := h.size.trans h'.size
  mono hc := h'.mono (h.mono hc)
  away hi hc := h.away hi (h'.away hi hc)
  clusters c hc := h'.clusters c (h.clusters c hc)
  filled {w} ge lt := by
    rcases Nat.lt_or_ge w st'.forest.size with lt' | ge'
    · obtain ⟨s, i, hw⟩ := h.filled ge lt'
      exact ⟨s, i, h'.mono hw⟩
    · exact h'.filled ge' lt

theorem weaken (h : Keeps here st st') (sub : ∀ i, here i → there i) : Keeps there st st' where
  size := h.size
  mono := h.mono
  away hi := h.away fun h => hi (sub _ h)
  clusters := h.clusters
  filled := h.filled

/-- Open and closed webs do not count. -/
theorem forget (h : Keeps here st st') :
    Keeps here st { forest := st'.forest, clusters := st'.clusters } :=
  ⟨h.size, h.mono, h.away, h.clusters, h.filled⟩

end Keeps

/-- Webs stay open, one that was not open before is new, and no cluster is added. -/
structure Opening (st st' : Scan) : Prop where
  kept : ∀ {s w}, st.live.get? s = some w → st'.live.get? s = some w
  fresh : ∀ {s w}, st'.live.get? s = some w → st.live.get? s = some w ∨ st.forest.size ≤ w
  clusters : st'.clusters = st.clusters

theorem Opening.of_live_eq {st st' : Scan} (h : st'.live = st.live)
    (clusters : st'.clusters = st.clusters) : Opening st st' :=
  ⟨fun hw => h ▸ hw, fun hw => .inl (h ▸ hw), clusters⟩

theorem Opening.trans {st st' st'' : Scan} (h : Scan.Opening st st') (h' : Scan.Opening st' st'')
    (size : st.forest.size ≤ st'.forest.size) : Scan.Opening st st'' where
  kept hw := h'.kept (h.kept hw)
  fresh hw := by
    rcases h'.fresh hw with hw | ge
    · exact h.fresh hw
    · exact .inr (size.trans ge)
  clusters := h'.clusters.trans h.clusters

/-- The state of a scan at an instruction: only open webs cover it, and its cluster holds webs. -/
structure At (i : InstrId) (st : Scan) (cluster : List Nat) : Prop where
  valid : st.Valid
  current : ∀ s w, st.forest.Covers s i w → st.live.get? s = some w
  bounded : ∀ w ∈ cluster, w < st.forest.size

/-- An instruction is covered by at most one web of a variable. -/
theorem At.unique {i : InstrId} {st : Scan} {cluster : List Nat} (h : st.At i cluster)
    {s : SymbolId} {w w' : Nat} (hw : st.forest.Covers s i w) (hw' : st.forest.Covers s i w') :
    w = w' :=
  Option.some.inj ((h.current s w hw).symm.trans (h.current s w' hw'))

/-- Each access to a variable in the list is charged to the web that is open for it in the end. -/
def Charged (ss : List SymbolId) (st st' : Scan) : Prop :=
  ∀ k, (st'.forest.web k).cost =
    Word.succ^[ss.countP (st'.live.get? · = some k)] (st.forest.web k).cost

namespace Charged

variable {st st' st'' : Scan} {s : SymbolId} {ss ts : List SymbolId} {w : Nat}

theorem trans (h : Charged ss st st') (h' : Charged ts st' st'') (live : st''.live = st'.live) :
    Charged (ss ++ ts) st st'' := by
  intro k
  rw [List.countP_append, Nat.add_comm, Function.iterate_add_apply, live, ← h k, ← live, h' k]

theorem of_none (h : st.live.get? s = none) : Charged [s] st st := by
  intro k
  simp [h]

theorem of_some (h : st'.live.get? s = some w) (cost : ∀ k, (st'.forest.web k).cost =
    if w = k then Word.succ (st.forest.web k).cost else (st.forest.web k).cost) :
    Charged [s] st st' := by
  intro k
  rw [cost, List.countP_singleton, h]
  by_cases e : w = k <;> simp [e]

end Charged

variable {st : Scan} {i : InstrId} {cluster : List Nat} {s : SymbolId} {w : Nat} {g : Web → Web}

theorem Valid.modifyWeb (h : st.Valid) (hw : w < st.forest.size)
    (symbol : ∀ x, (g x).symbol = x.symbol) (id : ∀ x, (g x).id = x.id) :
    (Webs.modifyWeb st w g).Valid := by
  have size : (Webs.modifyWeb st w g).forest.size = st.forest.size := Forest.size_modifyWeb
  have web (k : Nat) : (Webs.modifyWeb st w g).forest.web k =
      if k = w then g (st.forest.web w) else st.forest.web k := Forest.web_modifyWeb hw
  refine ⟨fun k hk => ?_, fun k hk => ?_, fun t v hv => ?_, fun c hc v hv => ?_,
    fun v hv => size ▸ h.closed v hv⟩
  · exact Forest.parent_modifyWeb.trans (h.flat k (size ▸ hk))
  · rw [web]
    split
    · next e => rw [id, e]; exact h.id w hw
    · exact h.id k (size ▸ hk)
  · obtain ⟨lt, sym⟩ := h.live t v hv
    refine ⟨size ▸ lt, ?_⟩
    rw [web]
    split
    · next e => rw [symbol, ← e, sym]
    · exact sym
  · exact size ▸ h.clusters c hc v hv

/-- Adds the instruction to the range of an open web. -/
theorem At.modifyWeb (h : st.At i cluster) (hw : st.live.get? s = some w)
    (symbol : ∀ x, (g x).symbol = x.symbol) (id : ∀ x, (g x).id = x.id)
    (range : ∀ x, (g x).range = x.range.insert i) :
    (Webs.modifyWeb st w g).At i cluster ∧ Keeps (· = i) st (Webs.modifyWeb st w g) ∧
      (Webs.modifyWeb st w g).forest.Covers s i w := by
  obtain ⟨lt, sym⟩ := h.valid.live s w hw
  have covers {t j v} : (Webs.modifyWeb st w g).forest.Covers t j v ↔ st.forest.Covers t j v ∨
      (v = w ∧ j = i ∧ (st.forest.web w).symbol = t) := Forest.covers_modifyWeb lt symbol range
  have size : (Webs.modifyWeb st w g).forest.size = st.forest.size := Forest.size_modifyWeb
  refine ⟨⟨h.valid.modifyWeb lt symbol id, fun t v hv => ?_, fun v hv => size ▸ h.bounded v hv⟩,
    ⟨size.ge, fun hc => covers.2 (.inl hc), fun hj hc => ?_, fun _ hc => hc, fun ge lt => ?_⟩,
    covers.2 (.inr ⟨rfl, rfl, sym⟩)⟩
  · rcases covers.1 hv with hv | ⟨rfl, -, rfl⟩
    · exact h.current t v hv
    · rw [sym]
      exact hw
  · exact (covers.1 hc).resolve_right fun hc => hj hc.2.1
  · omega

/-- Opens a web, which covers nothing yet. -/
theorem At.openNew (h : st.At i cluster) (fresh : st.live.get? s = none) :
    (openNew st s).1.At i cluster ∧
      (Webs.openNew st s).1.live.get? s = some (Webs.openNew st s).2 ∧
      ∀ t ≠ s, (Webs.openNew st s).1.live.get? t = st.live.get? t := by
  have covers {t j v} : (Webs.openNew st s).1.forest.Covers t j v ↔ st.forest.Covers t j v :=
    Forest.covers_add
  have size : (Webs.openNew st s).1.forest.size = st.forest.size + 1 := Forest.size_add
  have live (t : SymbolId) : (Webs.openNew st s).1.live.get? t =
      if t = s then some st.forest.size else st.live.get? t := OrdMap.get?_insert
  have web (k : Nat) : (Webs.openNew st s).1.forest.web k =
      if k = st.forest.size then { id := st.forest.size, symbol := s } else st.forest.web k :=
    Forest.web_add
  refine ⟨⟨⟨fun k hk => ?_, fun k hk => ?_, fun t v hv => ?_, fun c hc v hv => ?_, fun v hv => ?_⟩,
    fun t v hv => ?_, fun v hv => ?_⟩, by rw [live, if_pos rfl]; rfl,
    fun t ne => by rw [live, if_neg ne]⟩
  · refine Forest.parent_add.trans ?_
    split
    · next e => exact e.symm
    · next ne => exact h.valid.flat k (by omega)
  · rw [web]
    split
    · next e => exact e.symm
    · next ne => exact h.valid.id k (by omega)
  · rw [live] at hv
    split at hv
    · next e =>
      cases hv
      exact ⟨by omega, by rw [web, if_pos rfl, e]⟩
    · obtain ⟨lt, sym⟩ := h.valid.live t v hv
      exact ⟨by omega, by rw [web, if_neg (by omega), sym]⟩
  · have := h.valid.clusters c hc v hv
    omega
  · have := h.valid.closed v hv
    omega
  · have open' := h.current t v (covers.1 hv)
    rw [live]
    split
    · next e =>
      rw [e, fresh] at open'
      cases open'
    · exact open'
  · have := h.bounded v hv
    omega

/-- Opens a web at the instruction. -/
theorem At.openHere (h : st.At i cluster) (fresh : st.live.get? s = none)
    (symbol : ∀ x, (g x).symbol = x.symbol) (id : ∀ x, (g x).id = x.id)
    (range : ∀ x, (g x).range = x.range.insert i) {st' : Scan}
    (hst : Webs.modifyWeb (Webs.openNew st s).1 (Webs.openNew st s).2 g = st') :
    st'.At i cluster ∧ Keeps (· = i) st st' ∧ Opening st st' ∧
      st'.live.get? s = some st.forest.size ∧ st'.forest.Covers s i st.forest.size ∧
      ∀ t ≠ s, st'.live.get? t = st.live.get? t := by
  subst hst
  obtain ⟨at₁, hw, others⟩ := h.openNew fresh
  obtain ⟨at₂, keeps, covers⟩ := at₁.modifyWeb hw symbol id range
  have grown : (Webs.modifyWeb (Webs.openNew st s).1 (Webs.openNew st s).2 g).forest.size =
      st.forest.size + 1 := Forest.size_modifyWeb.trans Forest.size_add
  have before {t j v} : (Webs.openNew st s).1.forest.Covers t j v ↔ st.forest.Covers t j v :=
    Forest.covers_add
  refine ⟨at₂, ⟨by omega, fun hc => keeps.mono (before.2 hc),
    fun hj hc => before.1 (keeps.away hj hc), keeps.clusters, fun {v} ge lt => ?_⟩,
    ⟨fun {t v} hv => ?_, fun {t v} hv => ?_, rfl⟩, hw, covers, others⟩
  · have new : v = st.forest.size := by omega
    exact ⟨s, i, new ▸ covers⟩
  · have other : t ≠ s := fun e => by cases (e ▸ fresh).symm.trans hv
    exact (others t other).trans hv
  · by_cases e : t = s
    · subst e
      cases hw.symm.trans hv
      exact .inr le_rfl
    · exact .inl ((others t e).symm.trans hv)

end Scan

theorem mem_joinCluster {cluster : List Nat} {v w : Nat} :
    v ∈ joinCluster cluster w ↔ v ∈ cluster ∨ v = w := by
  unfold joinCluster
  split
  · next mem => exact ⟨.inl, fun h => h.elim id fun (e : v = w) => e ▸ mem⟩
  · simp

theorem Scan.At.joinCluster {st : Scan} {i : InstrId} {cluster : List Nat} {w : Nat}
    (h : st.At i cluster) (hw : w < st.forest.size) : st.At i (joinCluster cluster w) where
  valid := h.valid
  current := h.current
  bounded v hv := (mem_joinCluster.1 hv).elim (h.bounded v) fun e => e ▸ hw

/-! ## Scanning an instruction -/

section Instr

variable {l : Listing} {f : Function} {uses : Instr → List SymbolId} {live : LiveSets}
  {before after : SymbolSet} {i : Instr} {st : Scan}

/-- The variables whose webs meet at an instruction: those live on both sides of it, and those
written. -/
def Held (before after : SymbolSet) (written : List SymbolId) (s : SymbolId) : Prop :=
  (s ∈ before ∧ s ∈ after) ∨ s ∈ written

/-- A scan between the parts of its work at an instruction: the locals for which a web is open are
those in `before` and `written`; the open webs cover the instruction, and belong to the cluster if
the variable is written or in `after`. The cluster holds no other webs. -/
structure Passed (l : Listing) (f : Function) (before after : SymbolSet) (i : InstrId)
    (written : List SymbolId) (st : Scan) (cluster : List Nat) : Prop extends st.At i cluster where
  opened : ∀ s, (∃ w, st.live.get? s = some w) ↔
    l.isLocal f s = true ∧ (s ∈ before ∨ s ∈ written)
  covered : ∀ s w, st.live.get? s = some w → st.forest.Covers s i w
  gathered : ∀ s w, st.live.get? s = some w → s ∈ after ∨ s ∈ written → w ∈ cluster
  members : ∀ w ∈ cluster, ∃ s, st.live.get? s = some w ∧ Held before after written s

/-- What passing over the locals live before an instruction keeps. -/
structure Passing (i : InstrId) (p p' : Scan × List Nat) : Prop where
  keeps : Scan.Keeps (· = i) p.1 p'.1
  live : p'.1.live = p.1.live
  clusters : p'.1.clusters = p.1.clusters
  cluster : ∀ w ∈ p.2, w ∈ p'.2
  cost : ∀ k, (p'.1.forest.web k).cost = (p.1.forest.web k).cost

theorem passLive_ok (ha : live.after? i.id = some after) {p : Scan × List Nat} {s : SymbolId}
    (h : p.1.At i.id p.2) (opened : l.isLocal f s = true → ∃ w, p.1.live.get? s = some w) :
    ∃ p', passLive l f live i p s = .ok p' ∧ p'.1.At i.id p'.2 ∧ Passing i.id p p' ∧
      (l.isLocal f s = true → ∃ w, p'.1.live.get? s = some w ∧ p'.1.forest.Covers s i.id w ∧
        (s ∈ after → w ∈ p'.2)) ∧
      ∀ w ∈ p'.2, w ∈ p.2 ∨ (p.1.live.get? s = some w ∧ s ∈ after) := by
  cases loc : l.isLocal f s with
  | false =>
    refine ⟨p, ?_, h, ⟨.refl _ _, rfl, rfl, fun _ hw => hw, fun _ => rfl⟩, (fun e => by cases e),
      fun _ => .inl⟩
    simp [passLive, loc]
  | true =>
    obtain ⟨w, hw⟩ := opened loc
    obtain ⟨at', keeps, covers⟩ := h.modifyWeb hw (g := (·.extend i.id)) (fun _ => rfl)
      (fun _ => rfl) (fun _ => rfl)
    have cost (k : Nat) : ((modifyWeb p.1 w (·.extend i.id)).forest.web k).cost =
        (p.1.forest.web k).cost := Forest.cost_modifyWeb fun _ => rfl
    by_cases hs : s ∈ after
    · have step : passLive l f live i p s =
          .ok (modifyWeb p.1 w (·.extend i.id), joinCluster p.2 w) := by
        simp [passLive, loc, openWeb, hw, isLiveAfter, ha, hs, bind, Except.bind]
      refine ⟨_, step, at'.joinCluster covers.lt,
        ⟨keeps, rfl, rfl, fun v hv => mem_joinCluster.2 (.inl hv), cost⟩,
        fun _ => ⟨w, hw, covers, fun _ => mem_joinCluster.2 (.inr rfl)⟩, fun v hv => ?_⟩
      rcases mem_joinCluster.1 hv with hv | rfl
      · exact .inl hv
      · exact .inr ⟨hw, hs⟩
    · have step : passLive l f live i p s = .ok (modifyWeb p.1 w (·.extend i.id), p.2) := by
        simp [passLive, loc, openWeb, hw, isLiveAfter, ha, hs, bind, Except.bind]
      exact ⟨_, step, at', ⟨keeps, rfl, rfl, fun _ hv => hv, cost⟩,
        fun _ => ⟨w, hw, covers, fun h => absurd h hs⟩, fun _ => .inl⟩

/-- The locals live before an instruction. -/
theorem passLives_ok (ha : live.after? i.id = some after) (h : st.At i.id [])
    (opened : ∀ s, (∃ w, st.live.get? s = some w) ↔ l.isLocal f s = true ∧ s ∈ before) :
    ∃ p, before.toList.foldlM (passLive l f live i) (st, []) = .ok p ∧
      Passed l f before after i.id [] p.1 p.2 ∧ Scan.Keeps (· = i.id) st p.1 ∧
      Scan.Opening st p.1 ∧ Scan.Charged [] st p.1 := by
  let Inv (p : Scan × List Nat) : Prop := p.1.At i.id p.2 ∧ p.1.live = st.live ∧
    ∀ w ∈ p.2, ∃ s, st.live.get? s = some w ∧ Held before after [] s
  have step (p : Scan × List Nat) (s : SymbolId) (hs : s ∈ before.toList) (hp : Inv p) :
      ∃ p', passLive l f live i p s = .ok p' ∧ Inv p' ∧ Passing i.id p p' ∧
        (l.isLocal f s = true → ∃ w, p'.1.live.get? s = some w ∧ p'.1.forest.Covers s i.id w ∧
          (s ∈ after → w ∈ p'.2)) := by
    rcases hp with ⟨at', same, members⟩
    obtain ⟨p', hstep, hp', passing, post, added⟩ := passLive_ok ha at' fun loc => by
      rw [same]
      exact (opened s).2 ⟨loc, hs⟩
    refine ⟨p', hstep, ⟨hp', passing.live.trans same, fun w hw => ?_⟩, passing, post⟩
    rcases added w hw with hw | ⟨hw, stays⟩
    · exact members w hw
    · exact ⟨s, same ▸ hw, .inl ⟨hs, stays⟩⟩
  obtain ⟨p, hfold, ⟨at', same, members⟩, passing, post⟩ := foldlM_post Inv (Passing i.id) _
    (fun p => ⟨.refl _ _, rfl, rfl, fun _ hw => hw, fun _ => rfl⟩)
    (fun p q r h h' => ⟨h.keeps.trans h'.keeps, h'.live.trans h.live, h'.clusters.trans h.clusters,
      fun w hw => h'.cluster w (h.cluster w hw), fun k => (h'.cost k).trans (h.cost k)⟩)
    (fun p q s h post loc => by
      obtain ⟨w, hw, covers, clustered⟩ := post loc
      exact ⟨w, h.live ▸ hw, h.keeps.mono covers, fun hs => h.cluster w (clustered hs)⟩)
    step (s := (st, [])) ⟨h, rfl, fun w hw => (nomatch hw)⟩
  refine ⟨p, hfold, ⟨at', fun s => ?_, fun s w hw => ?_, fun s w hw hs => ?_, same.symm ▸ members⟩,
    passing.keeps, .of_live_eq same passing.clusters, passing.cost⟩
  · rw [same, opened]
    simp
  · obtain ⟨loc, hs⟩ := (opened s).1 ⟨w, same ▸ hw⟩
    obtain ⟨v, hv, covers, -⟩ := post s hs loc
    cases hv.symm.trans hw
    exact covers
  · obtain ⟨loc, mem⟩ := (opened s).1 ⟨w, same ▸ hw⟩
    obtain ⟨v, hv, -, clustered⟩ := post s mem loc
    cases hv.symm.trans hw
    exact clustered (hs.resolve_right List.not_mem_nil)

theorem defs_eq (i : Instr) : i.defs = [] ∨ ∃ s, i.defs = [s] := by
  unfold Instr.defs
  split
  · cases i.operands with
    | nil => exact .inl rfl
    | cons s ss => exact .inr ⟨s, rfl⟩
  · exact .inl rfl

theorem Passed.closed {written : List SymbolId} {cluster : List Nat} {s : SymbolId}
    (h : Passed l f before after i.id written st cluster) (loc : l.isLocal f s = false) :
    st.live.get? s = none := by
  refine Option.eq_none_iff_forall_ne_some.2 fun w hw => ?_
  obtain ⟨loc', -⟩ := (h.opened s).1 ⟨w, hw⟩
  cases loc.symm.trans loc'

/-- Writing what is not a local opens nothing. -/
theorem Passed.skip {cluster : List Nat} {s : SymbolId}
    (h : Passed l f before after i.id [] st cluster) (loc : l.isLocal f s = false) :
    Passed l f before after i.id [s] st cluster := by
  have other {t} (ht : ∃ w, st.live.get? t = some w) : t ∉ [s] := fun mem => by
    rcases ht with ⟨w, hw⟩
    rw [List.mem_singleton.1 mem, h.closed loc] at hw
    cases hw
  refine ⟨h.toAt, fun t => ?_, h.covered, fun t w hw ht => ?_, fun w hw => ?_⟩
  · constructor
    · intro ht
      obtain ⟨loc', mem⟩ := (h.opened t).1 ht
      exact ⟨loc', .inl (mem.resolve_right List.not_mem_nil)⟩
    · intro given
      rcases given with ⟨loc', mem | mem⟩
      · exact (h.opened t).2 ⟨loc', .inl mem⟩
      · rw [List.mem_singleton.1 mem, loc] at loc'
        cases loc'
  · exact h.gathered t w hw (.inl (ht.resolve_right (other ⟨w, hw⟩)))
  · obtain ⟨t, ht, held⟩ := h.members w hw
    exact ⟨t, ht, .inl (held.resolve_right List.not_mem_nil)⟩

/-- A local that is written has an open web, which is new if there was none. -/
theorem passDef_eq {cluster : List Nat} {s : SymbolId} (h : st.At i.id cluster)
    (loc : l.isLocal f s = true) :
    ∃ st' w, passDef l f i (st, cluster) s = (st', joinCluster cluster w) ∧
      st'.At i.id cluster ∧ Scan.Keeps (· = i.id) st st' ∧ Scan.Opening st st' ∧
      st'.live.get? s = some w ∧ st'.forest.Covers s i.id w ∧
      (∀ t ≠ s, st'.live.get? t = st.live.get? t) ∧ Scan.Charged [s] st st' := by
  cases hs : st.live.get? s with
  | some w =>
    obtain ⟨at', keeps, covers⟩ := h.modifyWeb hs (g := fun w => (w.extend i.id).charge)
      (fun _ => rfl) (fun _ => rfl) (fun _ => rfl)
    exact ⟨_, w, by simp [passDef, loc, hs], at', keeps, .of_live_eq rfl rfl, hs, covers,
      fun _ _ => rfl, .of_some hs fun k =>
        Forest.cost_modifyWeb_succ (h.valid.live s w hs).1 fun _ => rfl⟩
  | none =>
    obtain ⟨at', keeps, opening, hw, covers, others⟩ := h.openHere hs
      (g := fun w => (w.extend i.id).charge) (fun _ => rfl) (fun _ => rfl) (fun _ => rfl) rfl
    have step : passDef l f i (st, cluster) s = (modifyWeb (openNew st s).1 (openNew st s).2
        (fun w => (w.extend i.id).charge), joinCluster cluster st.forest.size) := by
      simp only [passDef, loc, hs, if_true]
      rfl
    have grown : st.forest.size < (openNew st s).1.forest.size := by
      rw [show (openNew st s).1.forest.size = st.forest.size + 1 from Forest.size_add]
      exact Nat.lt_succ_self _
    refine ⟨_, _, step, at', keeps, opening, hw, covers, others, .of_some hw fun k => ?_⟩
    rw [← Forest.cost_add (d := st.forest) (s := s)]
    exact Forest.cost_modifyWeb_succ grown fun _ => rfl

/-- The local that an instruction writes. -/
theorem passDef_ok {cluster : List Nat} (h : Passed l f before after i.id [] st cluster)
    (s : SymbolId) {p : Scan × List Nat} (hp : passDef l f i (st, cluster) s = p) :
    Passed l f before after i.id [s] p.1 p.2 ∧ Scan.Keeps (· = i.id) st p.1 ∧
      Scan.Opening st p.1 ∧ Scan.Charged [s] st p.1 := by
  subst hp
  cases loc : l.isLocal f s with
  | false =>
    have same : passDef l f i (st, cluster) s = (st, cluster) := by simp [passDef, loc]
    rw [same]
    exact ⟨h.skip loc, .refl _ _, .of_live_eq rfl rfl, .of_none (h.closed loc)⟩
  | true =>
    obtain ⟨st', w, step, at', keeps, opening, hw, covers, others, charged⟩ :=
      passDef_eq h.toAt loc
    have back {t v} (ne : t ≠ s) (hv : st'.live.get? t = some v) : st.live.get? t = some v :=
      others t ne ▸ hv
    rw [step]
    refine ⟨⟨at'.joinCluster covers.lt, fun t => ?_, fun t v hv => ?_, fun t v hv ht => ?_,
      fun v hv => ?_⟩, keeps, opening, charged⟩
    · by_cases e : t = s
      · subst e
        simp only [loc, List.mem_singleton, or_true, and_true]
        exact iff_of_true ⟨w, hw⟩ trivial
      · rw [others t e, h.opened]
        simp [e]
    · by_cases e : t = s
      · subst e
        cases hw.symm.trans hv
        exact covers
      · exact keeps.mono (h.covered t v (back e hv))
    · by_cases e : t = s
      · subst e
        cases hw.symm.trans hv
        exact mem_joinCluster.2 (.inr rfl)
      · refine mem_joinCluster.2 (.inl (h.gathered t v (back e hv) (.inl ?_)))
        exact ht.resolve_right fun mem => e (List.mem_singleton.1 mem)
    · rcases mem_joinCluster.1 hv with hv | rfl
      · obtain ⟨t, ht, held⟩ := h.members v hv
        exact ⟨t, opening.kept ht, .inl (held.resolve_right List.not_mem_nil)⟩
      · exact ⟨s, hw, .inr (List.mem_singleton.2 rfl)⟩

theorem passDefs_ok {cluster : List Nat} (h : Passed l f before after i.id [] st cluster)
    {p : Scan × List Nat} (hp : i.defs.foldl (passDef l f i) (st, cluster) = p) :
    Passed l f before after i.id i.defs p.1 p.2 ∧ Scan.Keeps (· = i.id) st p.1 ∧
      Scan.Opening st p.1 ∧ Scan.Charged i.defs st p.1 := by
  rcases defs_eq i with e | ⟨s, e⟩
  · rw [e] at hp ⊢
    subst hp
    exact ⟨h, .refl _ _, .of_live_eq rfl rfl, fun _ => rfl⟩
  · rw [e] at hp ⊢
    exact passDef_ok h s hp

/-- A local that an instruction reads. -/
theorem passUse_ok {written : List SymbolId} {cluster : List Nat}
    (h : Passed l f before after i.id written st cluster) {s : SymbolId} (hs : s ∈ before) :
    ∃ st', passUse l f i st s = .ok st' ∧ Passed l f before after i.id written st' cluster ∧
      Scan.Keeps (· = i.id) st st' ∧ (st'.live = st.live ∧ st'.clusters = st.clusters) ∧
      Scan.Charged [s] st st' := by
  cases loc : l.isLocal f s with
  | false =>
    exact ⟨st, by simp [passUse, loc], h, .refl _ _, ⟨rfl, rfl⟩, .of_none (h.closed loc)⟩
  | true =>
    obtain ⟨w, hw⟩ := (h.opened s).2 ⟨loc, .inl hs⟩
    obtain ⟨lt, -⟩ := h.valid.live s w hw
    have covers {t j v} : (modifyWeb st w Web.charge).forest.Covers t j v ↔
        st.forest.Covers t j v := Forest.covers_charge lt
    have size : (modifyWeb st w Web.charge).forest.size = st.forest.size := Forest.size_modifyWeb
    have here : (modifyWeb st w Web.charge).At i.id cluster :=
      ⟨h.valid.modifyWeb lt (fun _ => rfl) (fun _ => rfl),
        fun t v hv => h.current t v (covers.1 hv), fun v hv => size ▸ h.bounded v hv⟩
    refine ⟨modifyWeb st w Web.charge, by simp [passUse, loc, openWeb, hw, bind, Except.bind],
      ⟨here, h.opened, fun t v hv => covers.2 (h.covered t v hv), h.gathered, h.members⟩,
      ⟨size.ge, covers.2, fun _ => covers.1, fun _ hc => hc, fun ge lt => ?_⟩, ⟨rfl, rfl⟩,
      .of_some hw fun k => Forest.cost_modifyWeb_succ lt fun _ => rfl⟩
    omega

/-- The locals that an instruction reads. -/
theorem passUses_ok {written ss : List SymbolId} {cluster : List Nat}
    (h : Passed l f before after i.id written st cluster) (used : ∀ s ∈ ss, s ∈ before) :
    ∃ st', ss.foldlM (passUse l f i) st = .ok st' ∧
      Passed l f before after i.id written st' cluster ∧ Scan.Keeps (· = i.id) st st' ∧
      (st'.live = st.live ∧ st'.clusters = st.clusters) ∧ Scan.Charged ss st st' := by
  induction ss generalizing st with
  | nil => exact ⟨st, rfl, h, .refl _ _, ⟨rfl, rfl⟩, fun _ => rfl⟩
  | cons s ss ih =>
    obtain ⟨st₁, hstep, h₁, keeps₁, ⟨live₁, clusters₁⟩, charged₁⟩ :=
      passUse_ok h (used s (List.mem_cons_self ..))
    obtain ⟨st', hrest, h', keeps, ⟨live, clusters⟩, charged⟩ :=
      ih h₁ fun t ht => used t (List.mem_cons_of_mem _ ht)
    refine ⟨st', ?_, h', keeps₁.trans keeps, ⟨live.trans live₁, clusters.trans clusters₁⟩,
      charged₁.trans charged live⟩
    rw [List.foldlM_cons, hstep]
    exact hrest

/-- What closing webs keeps: all that is live afterwards. The webs it closes were open. -/
structure Closing (after : SymbolSet) (st st' : Scan) : Prop where
  forest : st'.forest = st.forest
  clusters : st'.clusters = st.clusters
  kept : ∀ s ∈ after, st'.live.get? s = st.live.get? s
  still : ∀ {s w}, st'.live.get? s = some w → st.live.get? s = some w
  closed : ∀ w ∈ st'.closed, w ∈ st.closed ∨ ∃ s, st.live.get? s = some w

theorem Closing.refl (after : SymbolSet) (st : Scan) : Closing after st st :=
  ⟨rfl, rfl, fun _ _ => rfl, id, fun _ => .inl⟩

theorem Closing.trans {st' st'' : Scan} (h : Closing after st st') (h' : Closing after st' st'') :
    Closing after st st'' where
  forest := h'.forest.trans h.forest
  clusters := h'.clusters.trans h.clusters
  kept s hs := (h'.kept s hs).trans (h.kept s hs)
  still hw := h.still (h'.still hw)
  closed w hw := by
    rcases h'.closed w hw with hw | ⟨s, hs⟩
    · exact h.closed w hw
    · exact .inr ⟨s, h.still hs⟩

theorem Closing.gone {st' : Scan} {s : SymbolId} (h : Closing after st st')
    (hs : st.live.get? s = none) : st'.live.get? s = none :=
  Option.eq_none_iff_forall_ne_some.2 fun w hw => by cases hs.symm.trans (h.still hw)

theorem closeDead_ok (ha : live.after? i.id = some after) (st : Scan) (s : SymbolId) :
    ∃ st', closeDead live i st s = .ok st' ∧ Closing after st st' ∧
      (s ∉ after → st'.live.get? s = none) := by
  by_cases hs : s ∈ after
  · refine ⟨st, ?_, .refl after st, fun h => absurd hs h⟩
    simp [closeDead, isLiveAfter, ha, hs, bind, Except.bind]
  · have get (t : SymbolId) : (st.live.filterKeys (· ≠ s)).get? t =
        if t = s then none else st.live.get? t := by
      rw [OrdMap.get?_filterKeys]
      by_cases e : t = s <;> simp [e]
    have step : closeDead live i st s = .ok { st with
        closed := st.closed ++ (st.live.get? s).toList, live := st.live.filterKeys (· ≠ s) } := by
      simp [closeDead, isLiveAfter, ha, hs, bind, Except.bind]
    refine ⟨_, step, ⟨rfl, rfl, fun t ht => ?_, fun {t w} hw => ?_, fun w hw => ?_⟩, fun _ => ?_⟩
    · have ne : t ≠ s := fun e => hs (e ▸ ht)
      exact (get t).trans (if_neg ne)
    · have hw := (get t).symm.trans hw
      split at hw
      · cases hw
      · exact hw
    · rcases List.mem_append.1 hw with old | new
      · exact .inl old
      · exact .inr ⟨s, Option.mem_toList.1 new⟩
    · exact (get s).trans (if_pos rfl)

/-- Closing the webs of locals that are not live any more. -/
theorem closeDeads_ok (ha : live.after? i.id = some after) {keys : List SymbolId}
    (mem : ∀ s w, st.live.get? s = some w → s ∈ keys) :
    ∃ st', keys.foldlM (closeDead live i) st = .ok st' ∧ Closing after st st' ∧
      ∀ s, st'.live.get? s = if s ∈ after then st.live.get? s else none := by
  obtain ⟨st', hfold, -, closing, post⟩ := foldlM_post (fun _ => True) (Closing after)
    (fun st s => s ∉ after → st.live.get? s = none)
    (Closing.refl after) (fun _ _ _ => Closing.trans) (fun p q s h post hs => h.gone (post hs))
    (fun st s (_ : s ∈ keys) _ => by
      obtain ⟨st', hstep, closing, post⟩ := closeDead_ok ha st s
      exact ⟨st', hstep, trivial, closing, post⟩)
    (s := st) trivial
  refine ⟨st', hfold, closing, fun s => ?_⟩
  split
  · next hs => exact closing.kept s hs
  · next hs =>
    cases hget : st.live.get? s with
    | none => exact closing.gone hget
    | some w => exact post s (mem s w hget) hs

/-- The webs at an instruction: a local that is live before it or written by it is covered by
exactly one, nothing else is covered by any, and one cluster holds the webs of all that is live
after it or written by it. -/
structure InstrWebs (l : Listing) (f : Function) (before after : SymbolSet) (i : Instr)
    (d : Forest) (clusters : List (List Nat)) : Prop where
  unique : ∀ {s w w'}, d.Covers s i.id w → d.Covers s i.id w' → w = w'
  only : ∀ {s w}, d.Covers s i.id w → l.isLocal f s = true ∧ (s ∈ before ∨ s ∈ i.defs)
  covered : ∀ {s}, l.isLocal f s = true → s ∈ before ∨ s ∈ i.defs → ∃ w, d.Covers s i.id w
  clustered : ∃ c, (c = [] ∨ c ∈ clusters) ∧
    ∀ s w, d.Covers s i.id w → s ∈ after ∨ s ∈ i.defs → w ∈ c

/-- The state after an instruction: the webs of locals that are not live any more are closed, and
the cluster is added unless it is empty. -/
def finished (st st' : Scan) (cluster : List Nat) : Scan :=
  { st' with clusters := if cluster.isEmpty then st.clusters else st.clusters ++ [cluster] }

theorem mem_finished {st' : Scan} {cluster c : List Nat} :
    c ∈ (finished st st' cluster).clusters ↔ c ∈ st.clusters ∨ (cluster ≠ [] ∧ c = cluster) := by
  cases cluster <;> simp [finished]

/-- What scanning an instruction does: it leaves the webs of the instruction in place. Webs open
before or after it cover it, and of the webs there were only open ones are extended to it. A new
cluster lists webs that meet at it. What the instruction accesses is paid for. -/
structure Visits (l : Listing) (f : Function) (uses : Instr → List SymbolId)
    (before after : SymbolSet) (i : Instr) (st st' : Scan) : Prop where
  valid : st'.Valid
  keeps : Scan.Keeps (· = i.id) st st'
  webs : InstrWebs l f before after i st'.forest st'.clusters
  opened : ∀ s, (∃ w, st'.live.get? s = some w) ↔ l.isLocal f s = true ∧ s ∈ after
  arriving : ∀ {s w}, st.live.get? s = some w → st'.forest.Covers s i.id w
  leaving : ∀ {s w}, st'.live.get? s = some w → st'.forest.Covers s i.id w
  extended : ∀ {s w}, st'.forest.Covers s i.id w → w < st.forest.size → st.live.get? s = some w
  clusters : ∀ c ∈ st'.clusters, c ∈ st.clusters ∨
    ∀ w ∈ c, ∃ s, st'.forest.Covers s i.id w ∧ Held before after i.defs s
  paid : Forest.Paid uses [i] st.forest st'.forest

theorem Passed.covers_iff {written : List SymbolId} {cluster : List Nat} {s : SymbolId} {w : Nat}
    (h : Passed l f before after i.id written st cluster) :
    st.live.get? s = some w ↔ st.forest.Covers s i.id w :=
  ⟨h.covered s w, h.current s w⟩

/-- The accesses of an instruction to a web are those to the variables for which it is open. -/
theorem Passed.accesses_eq {written : List SymbolId} {cluster : List Nat} {k : Nat}
    (h : Passed l f before after i.id written st cluster) : (st.forest.web k).accesses uses i =
      (i.defs ++ uses i).countP (st.live.get? · = some k) := by
  unfold Web.accesses
  split
  · next mem =>
    have covers := Forest.mem_range_iff_covers.1 mem
    refine List.countP_congr fun s _ => ?_
    rw [beq_iff_eq, decide_eq_true_iff, h.covers_iff]
    exact ⟨fun e => e ▸ covers, fun hs => hs.symbol.symm⟩
  · next mem =>
    refine (List.countP_eq_zero.2 fun s _ => ?_).symm
    rw [decide_eq_true_iff, h.covers_iff]
    exact fun hs => mem hs.mem

theorem Passed.instrWebs {cluster : List Nat} {clusters : List (List Nat)}
    (h : Passed l f before after i.id i.defs st cluster) (hc : cluster = [] ∨ cluster ∈ clusters) :
    InstrWebs l f before after i st.forest clusters where
  unique := h.unique
  only {s w} hw := (h.opened s).1 ⟨w, h.current s w hw⟩
  covered {s} loc hs := ((h.opened s).2 ⟨loc, hs⟩).imp (h.covered s)
  clustered := ⟨cluster, hc, fun s w hw hs => h.gathered s w (h.current s w hw) hs⟩

theorem Passed.finish {st₀ st' : Scan} {cluster : List Nat}
    (h : Passed l f before after i.id i.defs st cluster) (keeps : Scan.Keeps (· = i.id) st₀ st)
    (opening : Scan.Opening st₀ st) (charged : Scan.Charged (i.defs ++ uses i) st₀ st)
    (pass : ∀ s ∈ after, s ∈ before ∨ s ∈ i.defs) (closing : Closing after st st')
    (closed : ∀ s, st'.live.get? s = if s ∈ after then st.live.get? s else none) :
    Visits l f uses before after i st₀ (finished st st' cluster) := by
  have still {s w} (hw : st'.live.get? s = some w) : s ∈ after ∧ st.live.get? s = some w := by
    rw [closed] at hw
    split at hw
    · next hs => exact ⟨hs, hw⟩
    · cases hw
  have final : (finished st st' cluster).forest = st.forest := closing.forest
  refine ⟨⟨final ▸ h.valid.flat, final ▸ h.valid.id,
    fun s w hw => final ▸ h.valid.live s w (still hw).2, fun c hc w hw => ?_, fun w hw => ?_⟩,
    ?_, ?_, fun s => ?_,
    fun {s w} hw => final ▸ h.covered s w (opening.kept hw),
    fun {s w} hw => final ▸ h.covered s w (still hw).2, fun {s w} hw lt => ?_, fun c hc => ?_,
    fun k => ?_⟩
  · rcases mem_finished.1 hc with hc | ⟨-, rfl⟩
    · exact final ▸ h.valid.clusters c hc w hw
    · exact final ▸ h.bounded w hw
  · rw [final]
    rcases closing.closed w hw with hw | ⟨s, hs⟩
    · exact h.valid.closed w hw
    · exact (h.valid.live s w hs).1
  · exact ⟨final ▸ keeps.size, fun hc => final ▸ keeps.mono hc,
      fun hi hc => keeps.away hi (final ▸ hc),
      fun c hc => mem_finished.2 (.inl (keeps.clusters c hc)),
      fun ge lt => final ▸ keeps.filled ge (final ▸ lt)⟩
  · rw [final]
    refine h.instrWebs ?_
    by_cases e : cluster = []
    · exact .inl e
    · exact .inr (mem_finished.2 (.inr ⟨e, rfl⟩))
  · constructor
    · intro given
      rcases given with ⟨w, hw⟩
      exact ⟨((h.opened s).1 ⟨w, (still hw).2⟩).1, (still hw).1⟩
    · intro given
      rcases given with ⟨loc, hs⟩
      show ∃ w, st'.live.get? s = some w
      rw [closed, if_pos hs]
      exact (h.opened s).2 ⟨loc, pass s hs⟩
  · rw [final] at hw
    exact (opening.fresh (h.current s w hw)).resolve_right (Nat.not_le.2 lt)
  · rcases mem_finished.1 hc with hc | ⟨-, rfl⟩
    · exact .inl (opening.clusters ▸ hc)
    · refine .inr fun w hw => ?_
      obtain ⟨s, hs, held⟩ := h.members w hw
      exact ⟨s, final ▸ h.covered s w hs, held⟩
  · rw [final, total_cons, total_nil, Nat.add_zero, h.accesses_eq, charged k]

/-- Scanning an instruction. -/
theorem scanInstr_ok (hb : live.before? i.id = some before) (ha : live.after? i.id = some after)
    (pass : ∀ s ∈ after, s ∈ before ∨ s ∈ i.defs) (used : ∀ s ∈ uses i, s ∈ before)
    (h : st.At i.id [])
    (opened : ∀ s, (∃ w, st.live.get? s = some w) ↔ l.isLocal f s = true ∧ s ∈ before) :
    ∃ st', scanInstr l f uses live st i = .ok st' ∧ Visits l f uses before after i st st' := by
  obtain ⟨p, hlives, passed₁, keeps₁, opening₁, charged₁⟩ := passLives_ok ha h opened
  obtain ⟨passed₂, keeps₂, opening₂, charged₂⟩ := passDefs_ok passed₁ rfl
  obtain ⟨st₃, huses, passed, keeps₃, ⟨live₃, clusters₃⟩, charged₃⟩ := passUses_ok passed₂ used
  generalize hq : i.defs.foldl (passDef l f i) (p.1, p.2) = q at *
  have keys : ∀ s w, st₃.live.get? s = some w → s ∈ st₃.live.keys := fun s w hw =>
    OrdMap.mem_keys_iff.2 (by rw [hw]; rfl)
  obtain ⟨st₄, hclose, closing, live₄⟩ := closeDeads_ok ha keys
  have keeps₁₂ : Scan.Keeps (· = i.id) st q.1 := keeps₁.trans keeps₂
  have opening : Scan.Opening st st₃ :=
    (opening₁.trans opening₂ keeps₁.size).trans (.of_live_eq live₃ clusters₃) keeps₁₂.size
  have charged₁₂ : Scan.Charged i.defs st q.1 := fun k =>
    (charged₂ k).trans (congrArg _ (charged₁ k))
  refine ⟨finished st₃ st₄ q.2, ?_, passed.finish (keeps₁₂.trans keeps₃) opening
    (charged₁₂.trans charged₃ live₃) pass closing live₄⟩
  simp [scanInstr, finished, hb, hlives, hq, huses, hclose, closing.clusters, bind, Except.bind]

end Instr

/-! ## Scanning a block -/

open Block

/-- The live sets of a function obey the rules of liveness inside its blocks. -/
structure LiveRules (uses : Instr → List SymbolId) (a : Annotation) : Prop where
  laid : a.LaidOut
  pass : ∀ {n j i s}, instrAt? a.blocks n j = some i → s ∈ a.setAt n (j + 1) →
    s ∈ a.setAt n j ∨ s ∈ i.defs
  used : ∀ {n j i s}, instrAt? a.blocks n j = some i → s ∈ uses i → s ∈ a.setAt n j

section Blocks

variable {l : Listing} {f : Function} {uses : Instr → List SymbolId} {a : Annotation} {n : Nat}
  {b : Block} {st st' st₀ : Scan} {here : InstrId → Prop}

theorem InstrWebs.keep {before after : SymbolSet} {i : Instr}
    (h : InstrWebs l f before after i st.forest st.clusters) (keeps : Scan.Keeps here st st')
    (away : ¬ here i.id) : InstrWebs l f before after i st'.forest st'.clusters where
  unique hw hw' := h.unique (keeps.away away hw) (keeps.away away hw')
  only hw := h.only (keeps.away away hw)
  covered loc hs := (h.covered loc hs).imp fun _ => keeps.mono
  clustered := by
    rcases h.clustered with ⟨c, mem, all⟩
    exact ⟨c, mem.imp_right (keeps.clusters c), fun s w hw => all s w (keeps.away away hw)⟩

/-- Nothing is joined without a reason: what a web covers hangs together along the control flow, and
the webs of a cluster meet at one instruction. -/
structure Justified (a : Annotation) (d : Forest) (clusters : List (List Nat)) : Prop where
  tied : ∀ {s x y w}, d.Covers s x w → d.Covers s y w → Relation.EqvGen (a.Continues s) x y
  meet : ∀ c ∈ clusters, ∃ n j i, instrAt? a.blocks n j = some i ∧
    ∀ w ∈ c, ∃ s, d.Covers s i.id w ∧ Held (a.setAt n j) (a.setAt n (j + 1)) i.defs s

/-- A web may be extended to an instruction that hangs together with what it covers. -/
theorem Justified.extend {x : InstrId} (h : Justified a st.forest st.clusters)
    (keeps : Scan.Keeps (· = x) st st')
    (reached : ∀ {s w}, st'.forest.Covers s x w → w < st.forest.size →
      ∃ y, st.forest.Covers s y w ∧ Relation.EqvGen (a.Continues s) y x)
    (meet : ∀ c ∈ st'.clusters, c ∈ st.clusters ∨ ∃ n j i, instrAt? a.blocks n j = some i ∧
      ∀ w ∈ c, ∃ s, st'.forest.Covers s i.id w ∧
        Held (a.setAt n j) (a.setAt n (j + 1)) i.defs s) :
    Justified a st'.forest st'.clusters := by
  have toHere {s y w} (hy : st'.forest.Covers s y w) (hx : st'.forest.Covers s x w) :
      Relation.EqvGen (a.Continues s) y x := by
    by_cases e : y = x
    · exact e ▸ .refl y
    · have hy := keeps.away e hy
      obtain ⟨z, hz, way⟩ := reached hx hy.lt
      exact .trans _ _ _ (h.tied hy hz) way
  refine ⟨fun {s y z w} hy hz => ?_, fun c hc => ?_⟩
  -- Away from the instruction nothing has changed, so one of the two sites is the instruction.
  · by_cases ey : y = x
    · subst ey
      exact .symm _ _ (toHere hz hy)
    · by_cases ez : z = x
      · subst ez
        exact toHere hy hz
      · exact h.tied (keeps.away ey hy) (keeps.away ez hz)
  · rcases meet c hc with hc | met
    · obtain ⟨n, j, i, hi, all⟩ := h.meet c hc
      refine ⟨n, j, i, hi, fun w hw => ?_⟩
      obtain ⟨s, hs, held⟩ := all w hw
      exact ⟨s, keeps.mono hs, held⟩
    · exact met

/-- The webs open on entry to a block. -/
theorem openEntries_ok {i : Instr} {ss : List SymbolId} (nodup : ss.Nodup) (h : st.At i.id [])
    (fresh : ∀ s ∈ ss, st.live.get? s = none) (hst : ss.foldl (openEntry l f i) st = st') :
    st'.At i.id [] ∧ Scan.Keeps (· = i.id) st st' ∧ Scan.Opening st st' ∧
      (∀ s, (∃ w, st'.live.get? s = some w) ↔
        (∃ w, st.live.get? s = some w) ∨ l.isLocal f s = true ∧ s ∈ ss) ∧
      (∀ s w, st'.live.get? s = some w → st.live.get? s = some w ∨ st'.forest.Covers s i.id w) ∧
      Scan.Charged [] st st' := by
  induction ss generalizing st with
  | nil =>
    subst hst
    exact ⟨h, .refl _ _, .of_live_eq rfl rfl, fun s => by simp, fun s w hw => .inl hw, fun _ => rfl⟩
  | cons s ss ih =>
    rw [List.nodup_cons] at nodup
    rw [List.foldl_cons] at hst
    cases loc : l.isLocal f s with
    | false =>
      have skip : openEntry l f i st s = st := by simp [openEntry, loc]
      rw [skip] at hst
      obtain ⟨at', keeps, opening, opened, covers, charged⟩ :=
        ih nodup.2 h (fun t ht => fresh t (List.mem_cons_of_mem _ ht)) hst
      refine ⟨at', keeps, opening, fun t => (opened t).trans ?_, covers, charged⟩
      refine or_congr_right (and_congr_right fun loc' => ?_)
      have ne : t ≠ s := fun e => by rw [e, loc] at loc'; cases loc'
      simp [ne]
    | true =>
      have step : modifyWeb (openNew st s).1 (openNew st s).2 (·.extend i.id) =
          openEntry l f i st s := by simp [openEntry, loc]
      obtain ⟨at₁, keeps₁, opening₁, hw, covers₁, others⟩ := h.openHere
        (fresh s (List.mem_cons_self ..)) (g := (·.extend i.id)) (fun _ => rfl) (fun _ => rfl)
        (fun _ => rfl) step
      have later : ∀ t ∈ ss, (openEntry l f i st s).live.get? t = none := fun t ht => by
        have ne : t ≠ s := fun e => nodup.1 (e ▸ ht)
        rw [others t ne, fresh t (List.mem_cons_of_mem _ ht)]
      obtain ⟨at', keeps, opening, opened, covers, charged⟩ := ih nodup.2 at₁ later hst
      have cost (k : Nat) : ((openEntry l f i st s).forest.web k).cost = (st.forest.web k).cost := by
        rw [← step, ← Forest.cost_add (d := st.forest) (s := s)]
        exact Forest.cost_modifyWeb fun _ => rfl
      refine ⟨at', keeps₁.trans keeps, opening₁.trans opening keeps₁.size, fun t => ?_,
        fun t v hv => ?_, fun k => (charged k).trans (cost k)⟩
      · rw [opened t]
        by_cases e : t = s
        · subst e
          exact iff_of_true (.inl ⟨_, hw⟩) (.inr ⟨loc, List.mem_cons_self ..⟩)
        · refine or_congr (exists_congr fun v => ?_) (and_congr_right fun _ => by simp [e])
          exact iff_of_eq (congrArg (· = some v) (others t e))
      · rcases covers t v hv with hv' | hv'
        · by_cases e : t = s
          · subst e
            cases hw.symm.trans hv'
            exact .inr (keeps.mono covers₁)
          · exact .inl ((others t e).symm.trans hv')
        · exact .inr hv'

/-- A scan at point `j` of block `n`. Open are the webs of the locals live there; they cover the
instruction before the point, or the leader at the start. An instruction still to come is covered
only if it is the leader, and by open webs. The accesses so far are paid for. -/
structure Progress (l : Listing) (f : Function) (uses : Instr → List SymbolId) (a : Annotation)
    (n : Nat) (b : Block) (entry : OrdMap SymbolId Nat) (st₀ : Scan) (j : Nat) (st : Scan) :
    Prop where
  valid : st.Valid
  keeps : Scan.Keeps (fun x => ∃ i ∈ b.instrs, i.id = x) st₀ st
  opened : ∀ s, (∃ w, st.live.get? s = some w) ↔ l.isLocal f s = true ∧ s ∈ a.setAt n j
  coming : ∀ m i, j ≤ m → b.instrs[m]? = some i → ∀ s w, st.forest.Covers s i.id w →
    m = 0 ∧ st.live.get? s = some w
  entry : ∀ s w, entry.get? s = some w → st.forest.Covers s b.leader.id w
  linked : ∀ i, b.instrs[j - 1]? = some i → ∀ s w, st.live.get? s = some w →
    st.forest.Covers s i.id w
  instr : ∀ m i, m < j → b.instrs[m]? = some i →
    InstrWebs l f (a.setAt n m) (a.setAt n (m + 1)) i st.forest st.clusters
  next : ∀ m i i', m + 1 < j → b.instrs[m]? = some i → b.instrs[m + 1]? = some i' → ∀ s w,
    l.isLocal f s = true → s ∈ a.setAt n (m + 1) → st.forest.Covers s i.id w →
    st.forest.Covers s i'.id w
  justified : Justified a st.forest st.clusters
  paid : Forest.Paid uses (b.instrs.take j) st₀.forest st.forest

/-- Instructions at different positions are different ones. -/
theorem LiveRules.position_eq (rules : LiveRules uses a) {n n' j j' : Nat} {i i' : Instr}
    (hi : instrAt? a.blocks n j = some i) (hi' : instrAt? a.blocks n' j' = some i')
    (e : i.id = i'.id) : n = n' ∧ j = j' := by
  have slot := rules.laid.slot hi
  rw [e, rules.laid.slot hi'] at slot
  exact LiveSets.slotOf_inj (.of_instrAt? hi) (.of_instrAt? hi') (Option.some.inj slot.symm)

/-- What an open web covers hangs together with the instruction to come. -/
theorem Progress.reached (hb : a.blocks[n]? = some b) {entry : OrdMap SymbolId Nat} {j : Nat}
    {i : Instr} (hi : b.instrs[j]? = some i) (h : Progress l f uses a n b entry st₀ j st)
    {s : SymbolId} {w : Nat} (hw : st.live.get? s = some w) :
    ∃ y, st.forest.Covers s y w ∧ Relation.EqvGen (a.Continues s) y i.id := by
  cases j with
  | zero => exact ⟨i.id, h.linked i hi s w hw, .refl _⟩
  | succ m =>
    have lt : m < b.instrs.length := Nat.lt_of_succ_lt (List.getElem?_eq_some_iff.1 hi).1
    have hm : b.instrs[m]? = some b.instrs[m] := List.getElem?_eq_getElem lt
    have place {m i} (hi : b.instrs[m]? = some i) : instrAt? a.blocks n m = some i :=
      instrAt?_eq_some.2 ⟨b, hb, hi⟩
    have live : s ∈ a.setAt n (m + 1) := ((h.opened s).1 ⟨w, hw⟩).2
    exact ⟨_, h.linked _ hm s w hw, .rel _ _ ⟨n, m, n, m + 1, _, i, place hm, rfl, place hi, rfl,
      .inside (place hi), live⟩⟩

theorem Progress.step (rules : LiveRules uses a) (hb : a.blocks[n]? = some b)
    {entry : OrdMap SymbolId Nat} {j : Nat} {i : Instr} (hi : b.instrs[j]? = some i)
    (h : Progress l f uses a n b entry st₀ j st) :
    ∃ st', scanInstr l f uses a.live st i = .ok st' ∧
      Progress l f uses a n b entry st₀ (j + 1) st' := by
  have place {m i} (hi : b.instrs[m]? = some i) : instrAt? a.blocks n m = some i :=
    instrAt?_eq_some.2 ⟨b, hb, hi⟩
  have other {m i'} (ne : m ≠ j) (hi' : b.instrs[m]? = some i') : ¬ i'.id = i.id := fun e =>
    ne (rules.position_eq (place hi') (place hi) e).2
  obtain ⟨st', hscan, visits⟩ :=
    scanInstr_ok (l := l) (f := f) (rules.laid.before?_eq (place hi))
      (rules.laid.after?_eq (place hi))
      (fun s hs => rules.pass (place hi) hs) (fun s hs => rules.used (place hi) hs)
      ⟨h.valid, fun s w hw => (h.coming j i (Nat.le_refl _) hi s w hw).2, fun _ hw => by cases hw⟩
      h.opened
  have keeps := visits.keeps
  refine ⟨st', hscan, visits.valid, h.keeps.trans (keeps.weaken fun x hx => ?_), visits.opened,
    ?_, ?_, ?_, ?_, ?_, ?_, ?_⟩
  · exact ⟨i, List.mem_of_getElem? hi, hx.symm⟩
  · intro m i' le hi' s w hw
    have late := (h.coming m i' (by omega) hi' s w (keeps.away (other (by omega) hi') hw)).1
    omega
  · exact fun s w hw => keeps.mono (h.entry s w hw)
  · intro i' hi' s w hw
    cases hi.symm.trans hi'
    exact visits.leaving hw
  · intro m i' lt hi'
    by_cases e : m = j
    · subst e
      cases hi.symm.trans hi'
      exact visits.webs
    · exact (h.instr m i' (by omega) hi').keep keeps (other e hi')
  · intro m i₁ i₂ lt h₁ h₂ s w loc hs hw
    have hw := keeps.away (other (by omega) h₁) hw
    by_cases e : m + 1 = j
    · subst e
      cases hi.symm.trans h₂
      -- The web is the one open between the two instructions.
      obtain ⟨v, hv⟩ := (h.opened s).2 ⟨loc, hs⟩
      have := (h.instr m i₁ (by omega) h₁).unique hw (h.linked i₁ h₁ s v hv)
      exact this ▸ visits.arriving hv
    · exact keeps.mono (h.next m i₁ i₂ (by omega) h₁ h₂ s w loc hs hw)
  · refine h.justified.extend keeps (fun {s w} hw lt => ?_) fun c hc => ?_
    · exact h.reached hb hi (visits.extended hw lt)
    · exact (visits.clusters c hc).imp_right fun all => ⟨n, j, i, place hi, all⟩
  · rw [List.take_add_one, hi]
    refine h.paid.trans visits.paid fun i' hi' s w => ⟨keeps.away ?_, keeps.mono⟩
    obtain ⟨m, hm⟩ := List.mem_iff_getElem?.1 hi'
    rw [List.getElem?_take] at hm
    split at hm
    · next lt => exact other (Nat.ne_of_lt lt) hm
    · cases hm

theorem Progress.run (rules : LiveRules uses a) (hb : a.blocks[n]? = some b)
    {entry : OrdMap SymbolId Nat} {is : List Instr} {j : Nat} (his : is = b.instrs.drop j)
    (h : Progress l f uses a n b entry st₀ j st) :
    ∃ st', is.foldlM (scanInstr l f uses a.live) st = .ok st' ∧
      Progress l f uses a n b entry st₀ (j + is.length) st' := by
  induction is generalizing j st with
  | nil => exact ⟨st, rfl, h⟩
  | cons i is ih =>
    have hi : b.instrs[j]? = some i := by
      have := congrArg (·[0]?) his
      simpa using this.symm
    obtain ⟨st₁, hstep, h₁⟩ := h.step rules hb hi
    have rest : is = b.instrs.drop (j + 1) := by
      have := congrArg List.tail his
      rwa [List.tail_cons, List.tail_drop] at this
    obtain ⟨st', hrest, h'⟩ := ih rest h₁
    refine ⟨st', ?_, ?_⟩
    · rw [List.foldlM_cons, hstep]
      exact hrest
    · rwa [List.length_cons, Nat.add_comm is.length, ← Nat.add_assoc]

/-- The webs of a block: those at its instructions, those open on entry and on exit, and those
closed inside. A web stays the same from one instruction to the next. -/
structure BlockFacts (l : Listing) (f : Function) (a : Annotation) (n : Nat) (b : Block)
    (d : Forest) (clusters : List (List Nat)) (webs : BlockWebs) : Prop where
  instr : ∀ m i, b.instrs[m]? = some i →
    InstrWebs l f (a.setAt n m) (a.setAt n (m + 1)) i d clusters
  next : ∀ m i i', b.instrs[m]? = some i → b.instrs[m + 1]? = some i' → ∀ s w,
    l.isLocal f s = true → s ∈ a.setAt n (m + 1) → d.Covers s i.id w → d.Covers s i'.id w
  entered : ∀ s, (∃ w, webs.entry.get? s = some w) ↔ l.isLocal f s = true ∧ s ∈ a.setAt n 0
  left : ∀ s, (∃ w, webs.exit.get? s = some w) ↔
    l.isLocal f s = true ∧ s ∈ a.setAt n b.instrs.length
  entry : ∀ s w, webs.entry.get? s = some w → d.Covers s b.leader.id w
  exit : ∀ s w, webs.exit.get? s = some w → d.Covers s b.last.id w
  closed : ∀ w ∈ webs.closed, w < d.size

theorem BlockFacts.keep {webs : BlockWebs} (h : BlockFacts l f a n b st.forest st.clusters webs)
    (keeps : Scan.Keeps here st st') (away : ∀ i ∈ b.instrs, ¬ here i.id) :
    BlockFacts l f a n b st'.forest st'.clusters webs where
  instr m i hi := (h.instr m i hi).keep keeps (away i (List.mem_of_getElem? hi))
  next m i i' hi hi' s w loc hs hw :=
    keeps.mono (h.next m i i' hi hi' s w loc hs
      (keeps.away (away i (List.mem_of_getElem? hi)) hw))
  entered := h.entered
  left := h.left
  entry s w hw := keeps.mono (h.entry s w hw)
  exit s w hw := keeps.mono (h.exit s w hw)
  closed w hw := Nat.lt_of_lt_of_le (h.closed w hw) keeps.size

/-- Scanning a block none of whose instructions is covered yet. -/
theorem scanBlock_ok (rules : LiveRules uses a) (hb : a.blocks[n]? = some b) {d : Forest}
    {clusters : List (List Nat)} (valid : Scan.Valid { forest := d, clusters })
    (justified : Justified a d clusters) (fresh : ∀ i ∈ b.instrs, ∀ s w, ¬ d.Covers s i.id w) :
    ∃ st webs, scanBlock l f uses a.live d clusters n b = .ok (st, webs) ∧ st.Valid ∧
      Scan.Keeps (fun x => ∃ i ∈ b.instrs, i.id = x) { forest := d, clusters } st ∧
      Justified a st.forest st.clusters ∧ BlockFacts l f a n b st.forest st.clusters webs ∧
      Forest.Paid uses b.instrs d st.forest := by
  have leader : b.leader ∈ b.instrs := List.mem_cons_self ..
  have entrySet := rules.laid.entryOf?_eq hb
  generalize hst : (a.setAt n 0).toList.foldl (openEntry l f b.leader)
    { forest := d, clusters } = st₁
  obtain ⟨at₁, keeps₁, opening₁, opened, covers, charged⟩ := openEntries_ok (OrdSet.nodup_toList _)
    ⟨valid, fun s w hw => absurd hw (fresh _ leader s w), fun _ hw => by cases hw⟩
    (fun _ _ => OrdMap.get?_empty _) hst
  have entry (s : SymbolId) (w : Nat) (hw : st₁.live.get? s = some w) :
      st₁.forest.Covers s b.leader.id w :=
    (covers s w hw).resolve_left fun h => by cases h
  have start : Progress l f uses a n b st₁.live { forest := d, clusters } 0 st₁ := by
    refine ⟨at₁.valid, keeps₁.weaken fun x hx => ⟨b.leader, leader, hx.symm⟩, fun s => ?_, ?_,
      entry, ?_, (fun m i lt => by cases lt), (fun m i i' lt => by cases lt), ?_, charged⟩
    · rw [opened s]
      exact or_iff_right fun ⟨w, hw⟩ => by cases hw
    · intro m i _ hi s w hw
      by_cases e : i.id = b.leader.id
      · have first : instrAt? a.blocks n 0 = some b.leader := instrAt?_eq_some.2 ⟨b, hb, rfl⟩
        obtain ⟨-, rfl⟩ := rules.position_eq (instrAt?_eq_some.2 ⟨b, hb, hi⟩) first e
        exact ⟨rfl, at₁.current s w (e ▸ hw)⟩
      · exact absurd (keeps₁.away e hw) (fresh i (List.mem_of_getElem? hi) s w)
    · intro i hi s w hw
      cases hi
      exact entry s w hw
    · refine justified.extend keeps₁ (fun {s w} hw lt => ?_) fun c hc =>
        .inl (opening₁.clusters ▸ hc)
      -- A web that is open on entry is new.
      rcases opening₁.fresh (at₁.current s w hw) with none | ge
      · cases none
      · exact absurd lt (Nat.not_lt.2 ge)
  obtain ⟨st, hrun, final⟩ := start.run rules hb List.drop_zero.symm
  rw [Nat.zero_add] at final
  have inside {m i} (hi : b.instrs[m]? = some i) : m < b.instrs.length :=
    (List.getElem?_eq_some_iff.1 hi).1
  refine ⟨st, { entry := st₁.live, exit := st.live, closed := st.closed }, ?_, final.valid,
    final.keeps, final.justified, ⟨fun m i hi => final.instr m i (inside hi) hi,
    fun m i i' hi hi' => final.next m i i' (inside hi') hi hi', start.opened, final.opened,
    final.entry, fun s w hw => ?_, final.valid.closed⟩, b.instrs.take_length ▸ final.paid⟩
  · unfold Annotation.entryOf? at entrySet
    simp [scanBlock, entrySet, hst, hrun, bind, Except.bind]
  · exact final.linked b.last b.getElem?_instrs_last s w hw

/-- An instruction stands in block `k` or in a later one. -/
def StandsFrom (a : Annotation) (k : Nat) (x : InstrId) : Prop :=
  ∃ n j i, k ≤ n ∧ instrAt? a.blocks n j = some i ∧ i.id = x

theorem StandsFrom.earlier {k : Nat} {x : InstrId} (h : StandsFrom a (k + 1) x) :
    StandsFrom a k x := by
  rcases h with ⟨n, j, i, le, hi, e⟩
  exact ⟨n, j, i, by omega, hi, e⟩

theorem standsFrom_of_mem {i : Instr} (hb : a.blocks[n]? = some b) (hi : i ∈ b.instrs) :
    StandsFrom a n i.id := by
  obtain ⟨m, hm⟩ := List.mem_iff_getElem?.1 hi
  exact ⟨n, m, i, Nat.le_refl _, instrAt?_eq_some.2 ⟨b, hb, hm⟩, rfl⟩

/-- No instruction stands in two blocks. -/
theorem LiveRules.not_standsFrom (rules : LiveRules uses a) {i : Instr} (hb : a.blocks[n]? = some b)
    (hi : i ∈ b.instrs) : ¬ StandsFrom a (n + 1) i.id := by
  intro later
  rcases later with ⟨n', j, i', le, hi', e⟩
  obtain ⟨m, hm⟩ := List.mem_iff_getElem?.1 hi
  have := (rules.position_eq (instrAt?_eq_some.2 ⟨b, hb, hm⟩) hi' e.symm).1
  omega

/-- Scanning all blocks from block `k` on. -/
theorem scanBlocks_ok (rules : LiveRules uses a) {bs : List Block} {k : Nat}
    (hbs : ∀ m, bs[m]? = a.blocks[k + m]?) {d : Forest} {clusters : List (List Nat)}
    (valid : Scan.Valid { forest := d, clusters }) (justified : Justified a d clusters)
    (fresh : ∀ x, StandsFrom a k x → ∀ s w, ¬ d.Covers s x w) :
    ∃ d' clusters' webs, scanBlocks l f uses a.live d clusters k bs = .ok (d', clusters', webs) ∧
      Scan.Valid { forest := d', clusters := clusters' } ∧
      Scan.Keeps (StandsFrom a k) { forest := d, clusters }
        { forest := d', clusters := clusters' } ∧ Justified a d' clusters' ∧
      webs.length = bs.length ∧ (∀ m b w, bs[m]? = some b → webs[m]? = some w →
        BlockFacts l f a (k + m) b d' clusters' w) ∧
      Forest.Paid uses (bs.flatMap Block.instrs) d d' := by
  induction bs generalizing k d clusters with
  | nil =>
    exact ⟨d, clusters, [], rfl, valid, .refl _ _, justified, rfl, (fun m b w hb => by cases hb),
      fun _ => rfl⟩
  | cons b bs ih =>
    have hb : a.blocks[k]? = some b := (hbs 0).symm
    obtain ⟨st, webs, hscan, valid₁, keeps₁, justified₁, facts, paid₁⟩ := scanBlock_ok (l := l) (f := f)
      rules hb valid justified fun i hi => fresh i.id (standsFrom_of_mem hb hi)
    have valid₂ : Scan.Valid { forest := st.forest, clusters := st.clusters } :=
      ⟨valid₁.flat, valid₁.id, (fun s w hw => by cases hw), valid₁.clusters,
        fun w hw => by cases hw⟩
    have fresh₂ : ∀ x, StandsFrom a (k + 1) x → ∀ s w, ¬ st.forest.Covers s x w := by
      intro x later s w hw
      refine fresh x later.earlier s w (keeps₁.away ?_ hw)
      intro given
      rcases given with ⟨i, hi, e⟩
      exact rules.not_standsFrom hb hi (e ▸ later)
    obtain ⟨d', clusters', more, hrest, valid', keeps, justified', length, others, paid⟩ :=
      ih (k := k + 1) (fun m => by rw [Nat.add_assoc, Nat.add_comm 1 m]; exact hbs (m + 1)) valid₂
        justified₁ fresh₂
    refine ⟨d', clusters', webs :: more, ?_, valid', ?_, justified', by simp [length],
      fun m b' w hb' hw => ?_, ?_⟩
    · simp [scanBlocks, hscan, hrest, bind, Except.bind]
    · have first : Scan.Keeps (StandsFrom a k) { forest := d, clusters } st := by
        refine keeps₁.weaken fun x hx => ?_
        rcases hx with ⟨i, hi, e⟩
        exact e ▸ standsFrom_of_mem hb hi
      exact first.forget.trans (keeps.weaken fun x => StandsFrom.earlier)
    · cases m with
      | zero =>
        cases hb'
        cases hw
        let st₂ : Scan := { forest := st.forest, clusters := st.clusters }
        have whole : BlockFacts l f a k b st₂.forest st₂.clusters webs := facts
        exact whole.keep keeps fun i hi => rules.not_standsFrom hb hi
      | succ m =>
        have := others m b' w hb' hw
        rwa [Nat.add_assoc, Nat.add_comm 1 m] at this
    · rw [List.flatMap_cons]
      refine paid₁.trans paid fun i hi s w => ⟨keeps.away ?_, keeps.mono⟩
      exact rules.not_standsFrom hb hi

end Blocks

end Webs

end RegColor
