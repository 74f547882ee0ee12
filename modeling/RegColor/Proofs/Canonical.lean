import RegColor.Proofs.Interference

/-!
# Block maps name webs of the result

The maps of a block and the clusters are collected before webs are united, and name webs that may
be gone afterwards. Each name is replaced by the root of its set:

* every name is the number of a web of the result (`Assembled.mem_roots_of_mem_named`);
* the maps still say which variables are live at the ends of a block, and name the webs that the
  variables have there (`Assembled.openAt_map`).

A variable that is live on entry to a block is live on exit from each predecessor, and the webs that
meet on the edge have been united. Hence the maps agree along every edge, also along one that leads
back to an earlier block (`Assembled.exit_of_entry`).
-/

namespace RegColor

open Block

namespace OrdMap

variable {κ ν : Type} [Ord κ]

theorem values_map {μ : Type} {g : ν → μ} {m : OrdMap κ ν} :
    (m.map g).values = m.values.map g := by
  simp [values, map]

theorem exists_get?_of_mem_values [DecidableEq κ] [Std.LawfulEqOrd κ] {m : OrdMap κ ν} {v : ν}
    (h : v ∈ m.values) : ∃ k, m.get? k = some v := by
  obtain ⟨e, mem, rfl⟩ := List.mem_map.1 h
  exact ⟨e.1, get?_eq_some_iff.2 mem⟩

end OrdMap

/-- The webs that a block names. -/
def BlockWebs.named (b : BlockWebs) : List Nat := b.entry.values ++ b.exit.values ++ b.closed

namespace Webs

/-- The webs that blocks and clusters name. -/
def named (r : Webs) : List Nat := r.blocks.flatMap BlockWebs.named ++ r.clusters.flatten

/-- A map gives exactly the locals of a set, each with the number of the web that it has at an
instruction. -/
structure OpenAt (r : Webs) (l : Listing) (f : Function) (live : Set SymbolId) (i : Instr)
    (m : OrdMap SymbolId Nat) : Prop where
  keys : ∀ s, s ∈ m.keys ↔ l.isLocal f s = true ∧ s ∈ live
  web : ∀ s id, m.get? s = some id → ∃ w, r.lookup? s i.id = some w ∧ w.id = id

/-- Numbers that differ tell webs apart, so that each is found by its own. -/
theorem web?_id {r : Webs} {w : Web} (distinct : (r.webs.map Web.id).Nodup) (hw : w ∈ r.webs) :
    r.web? w.id = some w := by
  have found : (r.web? w.id).isSome := List.find?_isSome.2 ⟨w, hw, decide_eq_true rfl⟩
  obtain ⟨v, hv⟩ := Option.isSome_iff_exists.1 found
  have same : v.id = w.id := by simpa [Int.natCast_inj] using List.find?_some hv
  rw [hv, List.inj_on_of_nodup_map distinct (List.mem_of_find?_eq_some hv) hw same]

namespace Assembled

variable {l : Listing} {f : Function} {a : Annotation} {g : Digraph} {d₀ d : Forest}
  {clusters : List (List Nat)} {blocks : List BlockWebs} {r : Webs} {n t id : Nat} {s : SymbolId}

theorem pairwise_id (h : Assembled l f a g d₀ clusters blocks d r) :
    r.webs.Pairwise fun v w => v.id < w.id := by
  rw [← List.pairwise_map (f := Web.id) (R := (· < ·)), h.map_id_webs]
  exact List.pairwise_lt_range.filter _

/-- What the scan of a block names are webs of the scan. -/
theorem lt_of_mem_named (h : Assembled l f a g d₀ clusters blocks d r)
    {webs : BlockWebs} (mem : webs ∈ blocks) (named : id ∈ webs.named) : id < d₀.size := by
  obtain ⟨n, lt, rfl⟩ := List.mem_iff_getElem.1 mem
  have facts := h.scan.facts (List.getElem?_eq_getElem (h.scan.length ▸ lt))
  rw [List.getD_eq_getElem _ default lt] at facts
  rcases List.mem_append.1 named with ends | closed
  · rcases List.mem_append.1 ends with entry | exit
    · obtain ⟨s, hs⟩ := OrdMap.exists_get?_of_mem_values entry
      exact (facts.entry s id hs).lt
    · obtain ⟨s, hs⟩ := OrdMap.exists_get?_of_mem_values exit
      exact (facts.exit s id hs).lt
  · exact facts.closed id closed

/-- What blocks and clusters name are roots. -/
theorem mem_roots_of_mem_named (h : Assembled l f a g d₀ clusters blocks d r)
    (mem : id ∈ r.named) : id ∈ d.roots := by
  rcases List.mem_append.1 mem with inBlock | inCluster
  · obtain ⟨webs, hwebs, named⟩ := List.mem_flatMap.1 inBlock
    rw [h.blockWebs] at hwebs
    obtain ⟨old, hold, rfl⟩ := List.mem_map.1 hwebs
    suffices ∃ v ∈ old.named, d.root v = id by
      obtain ⟨v, hv, rfl⟩ := this
      exact h.root_mem_roots (h.lt_of_mem_named hold hv)
    simp only [BlockWebs.named, OrdMap.values_map, List.mem_append, List.mem_map,
      mem_canonical] at named ⊢
    rcases named with (⟨v, hv, e⟩ | ⟨v, hv, e⟩) | ⟨v, hv, e⟩
    · exact ⟨v, .inl (.inl hv), e⟩
    · exact ⟨v, .inl (.inr hv), e⟩
    · exact ⟨v, .inr hv, e⟩
  · obtain ⟨c, hc, inside⟩ := List.mem_flatten.1 inCluster
    exact h.mem_roots_of_mem_cluster (h.clustered ▸ hc) inside

/-- What blocks and clusters name are webs of the result. -/
theorem exists_web_of_mem_named (h : Assembled l f a g d₀ clusters blocks d r)
    (mem : id ∈ r.named) : ∃ w ∈ r.webs, w.id = id ∧ r.web? id = some w := by
  have root := h.mem_roots_of_mem_named mem
  rw [← h.map_id_webs] at root
  obtain ⟨w, hw, rfl⟩ := List.mem_map.1 root
  exact ⟨w, hw, rfl, web?_id h.nodup_ids hw⟩

/-! ## The maps of a block -/

/-- The maps of a block are those of its scan, renamed. -/
theorem exists_block (h : Assembled l f a g d₀ clusters blocks d r) (hn : n < a.blocks.length) :
    ∃ webs, r.blocks[n]? = some webs ∧
      webs.entry = (blocks.getD n default).entry.map d.root ∧
      webs.exit = (blocks.getD n default).exit.map d.root := by
  have lt : n < blocks.length := h.scan.length ▸ hn
  rw [h.blockWebs, List.getElem?_map, List.getElem?_eq_getElem lt, List.getD_eq_getElem _ _ lt]
  exact ⟨_, rfl, rfl, rfl⟩

/-- Renaming keeps the keys of a map, and takes the web that covers an instruction to the one that
is looked up there. -/
theorem openAt_map (h : Assembled l f a g d₀ clusters blocks d r) {m : OrdMap SymbolId Nat}
    {live : Set SymbolId} {i : Instr}
    (keys : ∀ s, (∃ w, m.get? s = some w) ↔ l.isLocal f s = true ∧ s ∈ live)
    (covers : ∀ s w, m.get? s = some w → d₀.Covers s i.id w) :
    r.OpenAt l f live i (m.map d.root) where
  keys s := by
    rw [OrdMap.mem_keys_iff, OrdMap.get?_map, Option.isSome_map, Option.isSome_iff_exists, keys]
  web s id hs := by
    rw [OrdMap.get?_map] at hs
    obtain ⟨w, hw, rfl⟩ := Option.map_eq_some_iff.1 hs
    have covered := covers s w hw
    exact ⟨_, h.lookup?_of_covers covered, h.id_eq (h.root_lt covered.lt)⟩

/-- What a block takes in is what each of its predecessors gives out. -/
theorem exit_of_entry (h : Assembled l f a g d₀ clusters blocks d r) (edges : EdgeRules a g)
    (hg : a.flow = some g) (hn : n < a.blocks.length) (ht : t ∈ g.successors n)
    (hs : ((blocks.getD t default).entry.map d.root).get? s = some id) :
    ((blocks.getD n default).exit.map d.root).get? s = some id := by
  rw [OrdMap.get?_map] at hs ⊢
  obtain ⟨w, hw, rfl⟩ := Option.map_eq_some_iff.1 hs
  obtain ⟨out, hout, -⟩ := exists_exit h.scan edges hg hn ht hw
  rw [hout, h.met n hn t ht s w out hw hout]
  rfl

end Assembled

/-- The webs of a function stand in the order of their numbers, and every number that a block or a
cluster names is that of one of them. A block takes in the locals that are live before its leader
and gives out those that are live after its last instruction, each in the web that it has there.
Along an edge of the control flow, what the target takes in is given out in the same web. -/
theorem build_canonical {l : Listing} {as as' : List Annotation} {k : Nat} {f : Function}
    (solved : Liveness.Solved l as as') (hf : l.functions[k]? = some f) (serial : Nat) :
    ∃ g r, (as'.getD k default).flow = some g ∧ build l as' k serial = .ok r ∧
      (r.webs.Pairwise fun v w => v.id < w.id) ∧
      (∀ id ∈ r.named, ∃ w ∈ r.webs, w.id = id ∧ r.web? id = some w) ∧
      r.blocks.length = (as'.getD k default).blocks.length ∧
      ∀ n b, (as'.getD k default).blocks[n]? = some b → ∃ webs, r.blocks[n]? = some webs ∧
        r.OpenAt l f ((LiveAssignment.ofAnnotations as').before k b.leader.id) b.leader webs.entry ∧
        r.OpenAt l f ((LiveAssignment.ofAnnotations as').after k b.last.id) b.last webs.exit ∧
        ∀ t ∈ g.successors n, ∃ next, r.blocks[t]? = some next ∧
          ∀ s id, next.entry.get? s = some id → webs.exit.get? s = some id := by
  obtain ⟨g, hg, edges, r, d₀, clusters, blocks, d, hbuild, h⟩ :=
    exists_assembled_of_solved solved hf serial
  refine ⟨g, r, hg, hbuild, h.pairwise_id, fun id => h.exists_web_of_mem_named, ?_,
    fun n b hb => ?_⟩
  · rw [h.blockWebs, List.length_map, h.scan.length]
  have hn := (List.getElem?_eq_some_iff.1 hb).1
  have facts := h.scan.facts hb
  obtain ⟨webs, hwebs, entry, exit⟩ := h.exists_block hn
  have first : instrAt? (as'.getD k default).blocks n 0 = some b.leader :=
    instrAt?_eq_some.2 ⟨b, hb, b.getElem?_instrs_zero⟩
  have last : instrAt? (as'.getD k default).blocks n (b.instrs.length - 1) = some b.last :=
    instrAt?_eq_some.2 ⟨b, hb, b.getElem?_instrs_last⟩
  have pos := b.length_instrs_pos
  refine ⟨webs, hwebs, entry ▸ h.openAt_map (fun s => ?_) facts.entry,
    exit ▸ h.openAt_map (fun s => ?_) facts.exit, fun t ht => ?_⟩
  · rw [facts.entered, Liveness.mem_before_iff solved.ready first]
  · rw [facts.left, Liveness.mem_after_iff solved.ready last,
      show b.instrs.length - 1 + 1 = b.instrs.length by omega]
  · obtain ⟨next, hnext, enters, -⟩ := h.exists_block (edges.lt ht)
    refine ⟨next, hnext, fun s id hs => ?_⟩
    rw [exit]
    exact h.exit_of_entry edges hg hn ht (enters ▸ hs)

open Listing in
/-- The loop of `countdown` takes in `b`, and the block that leads back to the loop gives `b` out in
the same web. -/
theorem build_canonical_countdown :
    ∃ g r loop back, (countdown.analyzed.2.getD 0 default).flow = some g ∧
      build countdown countdown.analyzed.2 0 0 = .ok r ∧ 1 ∈ g.successors 2 ∧
      r.blocks[1]? = some loop ∧ r.blocks[2]? = some back ∧
      ∃ id, loop.entry.get? 6 = some id ∧ back.exit.get? 6 = some id := by
  obtain ⟨g, r, hg, hbuild, -, -, -, all⟩ := build_canonical (k := 0)
    (f := countdown.functions.getD 0 default) (solved_analyzed (l := countdown) (by decide)) rfl 0
  have edge : (countdown.analyzed.2.getD 0 default).flow.map (·.successors 2) = some [1] := by
    decide +kernel
  have live : ((countdown.analyzed.2.getD 0 default).blocks[1]?.bind fun b =>
      ((countdown.analyzed.2.getD 0 default).live.before? b.leader.id).map OrdSet.toList) =
        some [5, 6] := by decide +kernel
  have third : (countdown.analyzed.2.getD 0 default).blocks[2]?.isSome = true := by decide +kernel
  have leads : g.successors 2 = [1] := by
    rw [hg] at edge
    exact Option.some.inj edge
  obtain ⟨b, hb, entry⟩ := Option.bind_eq_some_iff.1 live
  obtain ⟨set, hset, elements⟩ := Option.map_eq_some_iff.1 entry
  obtain ⟨b', hb'⟩ := Option.isSome_iff_exists.1 third
  obtain ⟨loop, hloop, opened, -, -⟩ := all 1 b hb
  obtain ⟨back, hback, -, -, agree⟩ := all 2 b' hb'
  have mem : 6 ∈ set.toList := by rw [elements]; decide
  have key : 6 ∈ loop.entry.keys := (opened.keys 6).2 ⟨by decide, set, hset, mem⟩
  obtain ⟨id, hid⟩ := Option.isSome_iff_exists.1 (OrdMap.mem_keys_iff.1 key)
  have edgeBack : 1 ∈ g.successors 2 := by rw [leads]; decide
  obtain ⟨next, hnext, same⟩ := agree 1 edgeBack
  cases hnext.symm.trans hloop
  exact ⟨g, r, loop, back, hg, hbuild, edgeBack, hloop, hback, id, hid, same 6 id hid⟩

end Webs

end RegColor
