import RegColor.Proofs.Multigraph
import RegColor.Proofs.Points

/-!
# What control flow graphs cover

`Listing.Follows l f i j` says that control can pass from instruction `i` of `f` to `j`: to the next
instruction where `i` falls through, or to the branch target of `i`. `Annotation.Passes` is the same
between positions of blocks: to the next position of a block, or from the end of a block to the
leader of a successor.

* `buildFlow_inv`: what a successful build leaves behind, as `HasFlow`;
* `HasFlow.passes_of_follows`: every step of control is covered by the blocks and their edges;
* `buildFlow_ok`: when a build succeeds.
-/

namespace RegColor

namespace Function

theorem code_inj {f : Function} {i j : Instr} (hi : i ∈ f.code) (hj : j ∈ f.code)
    (e : i.id = j.id) : i = j := by
  obtain ⟨p, hp⟩ := List.mem_iff_getElem?.1 hi
  obtain ⟨q, hq⟩ := List.mem_iff_getElem?.1 hj
  have : p = q := by rw [← f.indexed p i hp, ← f.indexed q j hq, e]
  subst this
  exact Option.some.inj (hp.symm.trans hq)

theorem map_index_code (f : Function) :
    (f.code.map Instr.id).map InstrId.index = List.range f.code.length := by
  refine List.ext_getElem? ?_
  intro p
  rw [List.map_map, List.getElem?_map]
  by_cases h : p < f.code.length
  · rw [List.getElem?_eq_getElem h, List.getElem?_range h]
    exact congrArg some (f.indexed p _ (List.getElem?_eq_getElem h))
  · rw [List.getElem?_eq_none (by omega), List.getElem?_eq_none (by simp; omega)]
    rfl

theorem nodup_ids (f : Function) : (f.code.map Instr.id).Nodup :=
  .of_map InstrId.index (f.map_index_code ▸ List.nodup_range)

end Function

namespace Block

variable {isLeader : Instr → Bool} {code : List Instr} {b : Block} {blocks : List Block}
  {i j : Instr}

theorem split_eq_nil_iff : split isLeader code = [] ↔ code = [] := by
  cases code with
  | nil => simp [split]
  | cons i is =>
    unfold split
    split
    · simp
    · split <;> simp

/-- Inside a block no instruction but the first is a leader. -/
theorem not_leader_of_mem_others (hb : b ∈ split isLeader code) (hi : i ∈ b.others) :
    isLeader i = false := by
  induction code generalizing b with
  | nil => cases hb
  | cons i' is ih =>
    unfold split at hb
    split at hb
    · rw [List.mem_singleton] at hb
      subst hb
      cases hi
    · next b' bs e =>
      rw [e] at ih
      split at hb
      · rcases List.mem_cons.1 hb with rfl | hb
        · cases hi
        · exact ih hb hi
      · next here =>
        rcases List.mem_cons.1 hb with rfl | hb
        · rcases List.mem_cons.1 hi with rfl | hi
          · simpa using here
          · exact ih (List.mem_cons_self ..) hi
        · exact ih (List.mem_cons_of_mem _ hb) hi

/-- Every leader leads a block. -/
theorem exists_leader_eq (isLeader : Instr → Bool) (hi : i ∈ code) (leads : isLeader i = true) :
    ∃ b ∈ split isLeader code, b.leader = i := by
  rw [← flatMap_instrs_split isLeader code, List.mem_flatMap] at hi
  rcases hi with ⟨b, hb, hi⟩
  rcases List.mem_cons.1 hi with rfl | hi
  · exact ⟨b, hb, rfl⟩
  · rw [not_leader_of_mem_others hb hi] at leads
    cases leads

/-- Two instructions in a row stand in one block, or at the end of a block and the start of the
next. -/
theorem instrAt?_of_consecutive {p : Nat} (hi : (blocks.flatMap instrs)[p]? = some i)
    (hj : (blocks.flatMap instrs)[p + 1]? = some j) :
    ∃ n m, instrAt? blocks n m = some i ∧ (instrAt? blocks n (m + 1) = some j ∨
      (∃ b, blocks[n]? = some b ∧ m + 1 = b.instrs.length) ∧
        instrAt? blocks (n + 1) 0 = some j) := by
  induction blocks generalizing p with
  | nil => cases hi
  | cons b bs ih =>
    rw [List.flatMap_cons] at hi hj
    rcases Nat.lt_or_ge p b.instrs.length with lt | ge
    · rw [List.getElem?_append_left lt] at hi
      refine ⟨0, p, hi, ?_⟩
      rcases Nat.lt_or_eq_of_le (Nat.succ_le_of_lt lt) with lt' | eq
      · rw [List.getElem?_append_left lt'] at hj
        exact .inl hj
      · refine .inr ⟨⟨b, rfl, eq⟩, ?_⟩
        rw [List.getElem?_append_right (by omega), show p + 1 - b.instrs.length = 0 by omega] at hj
        cases bs with
        | nil => cases hj
        | cons c cs => exact hj
    · rw [List.getElem?_append_right ge] at hi
      rw [List.getElem?_append_right (by omega),
        show p + 1 - b.instrs.length = p - b.instrs.length + 1 by omega] at hj
      obtain ⟨n, m, hi', h⟩ := ih hi hj
      exact ⟨n + 1, m, hi', h⟩

/-- The code after a position of a block that is not its last. -/
theorem consecutive_of_instrAt? {n m : Nat} (hi : instrAt? blocks n m = some i)
    (hj : instrAt? blocks n (m + 1) = some j) :
    ∃ p, (blocks.flatMap instrs)[p]? = some i ∧ (blocks.flatMap instrs)[p + 1]? = some j := by
  induction blocks generalizing n with
  | nil => cases hi
  | cons b bs ih =>
    cases n with
    | zero =>
      refine ⟨m, ?_, ?_⟩
      · rw [List.flatMap_cons, List.getElem?_append_left (List.getElem?_eq_some_iff.1 hi).1]
        exact hi
      · rw [List.flatMap_cons, List.getElem?_append_left (List.getElem?_eq_some_iff.1 hj).1]
        exact hj
    | succ n =>
      obtain ⟨p, hp, hp'⟩ := ih (n := n) hi hj
      refine ⟨b.instrs.length + p, ?_, ?_⟩
      · rw [List.flatMap_cons, List.getElem?_append_right (Nat.le_add_right ..),
          Nat.add_sub_cancel_left]
        exact hp
      · rw [List.flatMap_cons, Nat.add_assoc, List.getElem?_append_right (Nat.le_add_right ..),
          Nat.add_sub_cancel_left]
        exact hp'

theorem ledBy?_eq_some {x : InstrId} {t : Nat} (h : ledBy? blocks x = some t) :
    ∃ b, blocks[t]? = some b ∧ b.leader.id = x := by
  obtain ⟨lt, found, -⟩ := List.findIdx?_eq_some_iff_getElem.1 h
  exact ⟨blocks[t], List.getElem?_eq_getElem lt, by simpa using found⟩

theorem exists_ledBy? (hb : b ∈ blocks) : ∃ t, ledBy? blocks b.leader.id = some t := by
  rw [← Option.isSome_iff_exists, ledBy?, List.findIdx?_isSome, List.any_eq_true]
  exact ⟨b, hb, by simp⟩

end Block

namespace Listing

variable {l : Listing} {f : Function}

/-! ## Leaders -/

/-- The targets of branches and the instructions after branches are marked. -/
theorem markLeaders_inv {next : Bool} {code : List Instr} {leaders : List InstrId}
    (h : l.markLeaders f next code = (leaders, none)) :
    (∀ i ∈ code, ∃ t, l.branchTarget f i = .ok t) ∧
      (∀ i ∈ code, ∀ t, l.branchTarget f i = .ok (some t) → t.id ∈ leaders) ∧
      (∀ i ∈ code.head?, next = true → i.id ∈ leaders) ∧
      ∀ p i j t, code[p]? = some i → code[p + 1]? = some j →
        l.branchTarget f i = .ok (some t) → j.id ∈ leaders := by
  induction code generalizing next leaders with
  | nil => simp
  | cons i is ih =>
    rw [markLeaders] at h
    cases ht : l.branchTarget f i with
    | error e => simp [ht] at h
    | ok target =>
      rw [ht] at h
      rcases hm : l.markLeaders f target.isSome is with ⟨more, fault⟩
      simp only [hm, Prod.mk.injEq] at h
      rcases h with ⟨rfl, rfl⟩
      obtain ⟨total, marked, first, after⟩ := ih hm
      refine ⟨?_, ?_, ?_, ?_⟩
      · intro j hj
        rcases List.mem_cons.1 hj with rfl | hj
        · exact ⟨target, ht⟩
        · exact total j hj
      · intro j hj t htj
        rcases List.mem_cons.1 hj with rfl | hj
        · rw [ht] at htj
          cases htj
          simp
        · exact List.mem_append_right _ (marked j hj t htj)
      · intro j hj hnext
        cases hj
        simp [hnext]
      · intro p j j' t hj hj' htj
        cases p with
        | zero =>
          cases hj
          rw [ht] at htj
          cases htj
          refine List.mem_append_right _ (first j' ?_ rfl)
          rw [List.head?_eq_getElem?]
          exact hj'
        | succ p => exact List.mem_append_right _ (after p j j' t hj hj' htj)

theorem markLeaders_ok (next : Bool) {code : List Instr}
    (h : ∀ i ∈ code, ∃ t, l.branchTarget f i = .ok t) : (l.markLeaders f next code).2 = none := by
  induction code generalizing next with
  | nil => rfl
  | cons i is ih =>
    obtain ⟨t, ht⟩ := h i (List.mem_cons_self ..)
    rw [markLeaders, ht]
    exact ih t.isSome fun j hj => h j (List.mem_cons_of_mem _ hj)

/-! ## Edges -/

theorem mem_edgesFrom {blocks : List Block} {k : Nat} {b : Block} {es : List (Nat × Nat)}
    (h : l.edgesFrom f blocks k b = .ok es) {e : Nat × Nat} :
    e ∈ es ↔ (k + 1 < blocks.length ∧ b.last.fallsThrough = true ∧ e = (k, k + 1)) ∨
      ∃ target t, l.branchTarget f b.last = .ok (some target) ∧
        Block.ledBy? blocks target.id = some t ∧ e = (k, t) := by
  have next : e ∈ (if k + 1 < blocks.length ∧ b.last.fallsThrough then [(k, k + 1)] else []) ↔
      k + 1 < blocks.length ∧ b.last.fallsThrough = true ∧ e = (k, k + 1) := by
    split
    · next c => simp [c]
    · next c =>
      simp only [List.not_mem_nil, false_iff]
      exact fun ⟨h₁, h₂, _⟩ => c ⟨h₁, h₂⟩
  rw [edgesFrom] at h
  cases ht : l.branchTarget f b.last with
  | error e => simp [ht] at h
  | ok target =>
    cases target with
    | none =>
      simp only [ht, Except.ok.injEq] at h
      subst h
      simp [next]
    | some target =>
      simp only [ht, blockLedBy] at h
      cases hl : Block.ledBy? blocks target.id with
      | none => simp [hl] at h
      | some t =>
        simp only [hl, Except.ok.injEq] at h
        subst h
        simp [next, hl]

theorem mem_allEdges {blocks bs : List Block} {k : Nat} {es : List (Nat × Nat)}
    (h : l.allEdges f blocks k bs = .ok es) {e : Nat × Nat} :
    e ∈ es ↔ ∃ m b es', bs[m]? = some b ∧ l.edgesFrom f blocks (k + m) b = .ok es' ∧ e ∈ es' := by
  induction bs generalizing k es with
  | nil =>
    cases h
    simp
  | cons b bs ih =>
    rw [allEdges] at h
    cases hb : l.edgesFrom f blocks k b with
    | error e => simp [hb] at h
    | ok here =>
      simp only [hb] at h
      cases hm : l.allEdges f blocks (k + 1) bs with
      | error e => simp [hm, Except.map] at h
      | ok more =>
        simp only [hm, Except.map, Except.ok.injEq] at h
        subst h
        rw [List.mem_append, ih hm]
        constructor
        · intro given
          rcases given with he | ⟨m, b', es', hm', he', he⟩
          · exact ⟨0, b, here, rfl, hb, he⟩
          · exact ⟨m + 1, b', es', hm', by rwa [Nat.add_assoc, Nat.add_comm 1 m] at he', he⟩
        · intro given
          rcases given with ⟨m, b', es', hm', he', he⟩
          cases m with
          | zero =>
            cases hm'
            rw [Nat.add_zero, hb] at he'
            cases he'
            exact .inl he
          | succ m =>
            rw [Nat.add_comm m 1, ← Nat.add_assoc] at he'
            exact .inr ⟨m, b', es', hm', he', he⟩

theorem edgesFrom_of_allEdges {blocks bs : List Block} {k m : Nat} {es : List (Nat × Nat)}
    {b : Block} (h : l.allEdges f blocks k bs = .ok es) (hb : bs[m]? = some b) :
    ∃ es', l.edgesFrom f blocks (k + m) b = .ok es' := by
  induction bs generalizing k m es with
  | nil => cases hb
  | cons b' bs ih =>
    rw [allEdges] at h
    cases hb' : l.edgesFrom f blocks k b' with
    | error e => simp [hb'] at h
    | ok here =>
      simp only [hb'] at h
      cases hm : l.allEdges f blocks (k + 1) bs with
      | error e => simp [hm, Except.map] at h
      | ok more =>
        cases m with
        | zero =>
          cases hb
          exact ⟨here, hb'⟩
        | succ m =>
          obtain ⟨es', he⟩ := ih hm hb
          exact ⟨es', by rwa [Nat.add_assoc, Nat.add_comm 1 m] at he⟩

theorem allEdges_ok (blocks : List Block) {bs : List Block} {k : Nat}
    (h : ∀ m b, bs[m]? = some b → ∃ es, l.edgesFrom f blocks (k + m) b = .ok es) :
    ∃ es, l.allEdges f blocks k bs = .ok es := by
  induction bs generalizing k with
  | nil => exact ⟨[], rfl⟩
  | cons b bs ih =>
    obtain ⟨here, hh⟩ := h 0 b rfl
    obtain ⟨more, hm⟩ := ih (k := k + 1) fun m b' hb' => by
      obtain ⟨es, he⟩ := h (m + 1) b' hb'
      exact ⟨es, by rwa [Nat.add_assoc, Nat.add_comm 1 m]⟩
    rw [Nat.add_zero] at hh
    exact ⟨here ++ more, by rw [allEdges, hh, hm]; rfl⟩

theorem lt_of_mem_allEdges {blocks : List Block} {es : List (Nat × Nat)}
    (h : l.allEdges f blocks 0 blocks = .ok es) {e : Nat × Nat} (he : e ∈ es) :
    e.1 < blocks.length ∧ e.2 < blocks.length := by
  obtain ⟨m, b, es', hb, hes', hmem⟩ := (mem_allEdges h).1 he
  rw [Nat.zero_add] at hes'
  have source : m < blocks.length := (List.getElem?_eq_some_iff.1 hb).1
  rcases (mem_edgesFrom hes').1 hmem with ⟨lt, -, rfl⟩ | ⟨target, t, -, hl, rfl⟩
  · exact ⟨source, lt⟩
  · obtain ⟨c, hc, -⟩ := Block.ledBy?_eq_some hl
    exact ⟨source, (List.getElem?_eq_some_iff.1 hc).1⟩

/-- Edges lead from blocks to blocks, so the graph takes them all. -/
theorem exists_connect {blocks : List Block} {es : List (Nat × Nat)}
    (h : l.allEdges f blocks 0 blocks = .ok es) :
    ∃ g, l.connect f blocks = .ok g ∧ ∀ u v, v ∈ g.successors u ↔ (u, v) ∈ es := by
  obtain ⟨g, made, successors⟩ := Digraph.exists_addEdges fun e he => lt_of_mem_allEdges h he
  refine ⟨g, ?_, successors⟩
  rw [connect, h]
  exact made

/-- Connecting fails only where an edge has no place to go. -/
theorem allEdges_of_connect_error {blocks : List Block} {e : Fault}
    (h : l.connect f blocks = .error e) : l.allEdges f blocks 0 blocks = .error e := by
  cases he : l.allEdges f blocks 0 blocks with
  | error e' =>
    rw [connect, he] at h
    cases h
    rfl
  | ok es =>
    obtain ⟨g, connected, -⟩ := exists_connect he
    cases connected.symm.trans h

theorem allEdges_of_connect {blocks : List Block} {g : Digraph} (h : l.connect f blocks = .ok g) :
    ∃ es, l.allEdges f blocks 0 blocks = .ok es ∧ ∀ u v, v ∈ g.successors u ↔ (u, v) ∈ es := by
  cases he : l.allEdges f blocks 0 blocks with
  | error e =>
    rw [connect, he] at h
    cases h
  | ok es =>
    obtain ⟨g', connected, successors⟩ := exists_connect he
    cases connected.symm.trans h
    exact ⟨es, rfl, successors⟩

/-! ## What a build leaves behind -/

/-- An annotation holds the control flow of a function. -/
structure HasFlow (l : Listing) (f : Function) (a : Annotation) : Prop where
  code_ne : f.code ≠ []
  leaders : l.markLeaders f true f.code = (a.leaders, none)
  blocks : a.blocks = Block.split (fun i => i.id ∈ a.leaders) f.code
  flow : ∃ g, a.flow = some g ∧ l.connect f a.blocks = .ok g

theorem buildFlow_inv {a a' : Annotation} (h : l.buildFlow f a = (a', none)) :
    l.HasFlow f a' := by
  unfold buildFlow at h
  split at h
  · cases h
  · next ne =>
    split at h
    · cases h
    · rcases hm : l.markLeaders f true f.code with ⟨leaders, fault⟩
      simp only [hm] at h
      cases fault with
      | some e => cases h
      | none =>
        simp only at h
        split at h
        · cases h
        · next g hg =>
          cases h
          exact ⟨by simpa using ne, hm, rfl, g, rfl, hg⟩

namespace HasFlow

variable {a : Annotation} {n t : Nat}

theorem blocks_ne (h : l.HasFlow f a) : a.blocks ≠ [] := by
  rw [h.blocks]
  exact fun e => h.code_ne (Block.split_eq_nil_iff.1 e)

theorem flatMap_instrs (h : l.HasFlow f a) : a.blocks.flatMap Block.instrs = f.code := by
  rw [h.blocks, Block.flatMap_instrs_split]

theorem nodup_ids (h : l.HasFlow f a) :
    ((a.blocks.flatMap Block.instrs).map Instr.id).Nodup := by
  rw [h.flatMap_instrs]
  exact f.nodup_ids

theorem mem_code (h : l.HasFlow f a) {i : Instr} :
    i ∈ f.code ↔ ∃ n j, Block.instrAt? a.blocks n j = some i := by
  rw [← h.flatMap_instrs, Block.mem_flatMap_instrs]

/-- The edges of the graph: from a block that falls through to the next one, and from a block that
branches to the block of its target. -/
theorem mem_successors (h : l.HasFlow f a) {g : Digraph} (hg : a.flow = some g) :
    t ∈ g.successors n ↔ ∃ b, a.blocks[n]? = some b ∧
      ((n + 1 < a.blocks.length ∧ b.last.fallsThrough = true ∧ t = n + 1) ∨
        ∃ target, l.branchTarget f b.last = .ok (some target) ∧
          Block.ledBy? a.blocks target.id = some t) := by
  rcases h.flow with ⟨g', hg', hc⟩
  cases hg'.symm.trans hg
  obtain ⟨es, he, successors⟩ := allEdges_of_connect hc
  rw [successors, mem_allEdges he]
  constructor
  · intro given
    rcases given with ⟨m, b, es', hb, hes', hmem⟩
    rw [Nat.zero_add] at hes'
    rcases (mem_edgesFrom hes').1 hmem with ⟨lt, falls, e⟩ | ⟨target, t', ht, hl, e⟩
    · cases e
      exact ⟨b, hb, .inl ⟨lt, falls, rfl⟩⟩
    · cases e
      exact ⟨b, hb, .inr ⟨target, ht, hl⟩⟩
  · intro given
    rcases given with ⟨b, hb, cases⟩
    obtain ⟨es', hes'⟩ := edgesFrom_of_allEdges he hb
    refine ⟨n, b, es', hb, hes', ?_⟩
    rw [Nat.zero_add] at hes'
    refine (mem_edgesFrom hes').2 ?_
    rcases cases with ⟨lt, falls, rfl⟩ | ⟨target, ht, hl⟩
    · exact .inl ⟨lt, falls, rfl⟩
    · exact .inr ⟨target, t, ht, hl, rfl⟩

theorem successor_lt (h : l.HasFlow f a) {g : Digraph} (hg : a.flow = some g)
    (ht : t ∈ g.successors n) : t < a.blocks.length := by
  obtain ⟨b, hb, ⟨lt, -, rfl⟩ | ⟨target, -, hl⟩⟩ := (h.mem_successors hg).1 ht
  · exact lt
  · obtain ⟨c, hc, -⟩ := Block.ledBy?_eq_some hl
    exact (List.getElem?_eq_some_iff.1 hc).1

end HasFlow

/-! ## Coverage -/

/-- Control can pass from one instruction of a function to another: to the next one, or to the
target of a branch. -/
def Follows (l : Listing) (f : Function) (i j : Instr) : Prop :=
  (i.fallsThrough = true ∧ ∃ p, f.code[p]? = some i ∧ f.code[p + 1]? = some j) ∨
    (i ∈ f.code ∧ l.branchTarget f i = .ok (some j))

end Listing

/-- Control passes from the instruction at position `j` of block `n` to another position: to the
next one of the block, or from the last one to the leader of a successor. -/
inductive Annotation.Passes (a : Annotation) : Nat → Nat → Nat → Nat → Prop
  | inside {n j : Nat} {i : Instr} : Block.instrAt? a.blocks n (j + 1) = some i →
    a.Passes n j n (j + 1)
  | edge {n j t : Nat} {b : Block} {g : Digraph} : a.blocks[n]? = some b →
    j + 1 = b.instrs.length → a.flow = some g → t ∈ g.successors n → a.Passes n j t 0

/-- Control passes from one instruction to another along the blocks. -/
def Annotation.Connects (a : Annotation) (i j : Instr) : Prop :=
  ∃ n m n' m', Block.instrAt? a.blocks n m = some i ∧ Block.instrAt? a.blocks n' m' = some j ∧
    a.Passes n m n' m'

namespace Listing.HasFlow

open Block

variable {l : Listing} {f : Function} {a : Annotation} {i j : Instr}

/-- A branch stands at the end of its block. -/
theorem last_of_branch (h : l.HasFlow f a) {n m : Nat} {b : Block} {target : Instr}
    (hb : a.blocks[n]? = some b) (hi : b.instrs[m]? = some i)
    (ht : l.branchTarget f i = .ok (some target)) : m + 1 = b.instrs.length := by
  have lt := (List.getElem?_eq_some_iff.1 hi).1
  by_contra ne
  have hj : b.instrs[m + 1]? = some (b.instrs[m + 1]) := List.getElem?_eq_getElem (by omega)
  obtain ⟨p, hp, hp'⟩ := consecutive_of_instrAt?
    (instrAt?_eq_some.2 ⟨b, hb, hi⟩) (instrAt?_eq_some.2 ⟨b, hb, hj⟩)
  rw [h.flatMap_instrs] at hp hp'
  have marked := (markLeaders_inv h.leaders).2.2.2 p _ _ target hp hp' ht
  have others : b.instrs[m + 1] ∈ b.others := List.mem_of_getElem? (i := m) hj
  have mem : b ∈ split (fun i => i.id ∈ a.leaders) f.code := h.blocks ▸ List.mem_of_getElem? hb
  have := not_leader_of_mem_others mem others
  simp [marked] at this

/-- Every step of control is covered by the blocks and their edges. -/
theorem passes_of_follows (h : l.HasFlow f a) (step : l.Follows f i j) (hj : j ∈ f.code) :
    ∃ n m n' m', instrAt? a.blocks n m = some i ∧ instrAt? a.blocks n' m' = some j ∧
      a.Passes n m n' m' := by
  rcases h.flow with ⟨g, hg, -⟩
  rcases step with ⟨falls, p, hp, hp'⟩ | ⟨hi, ht⟩
  · rw [← h.flatMap_instrs] at hp hp'
    obtain ⟨n, m, hn, next | ⟨⟨b, hb, last⟩, next⟩⟩ := instrAt?_of_consecutive hp hp'
    · exact ⟨n, m, n, m + 1, hn, next, .inside next⟩
    · obtain ⟨c, hc, -⟩ := instrAt?_eq_some.1 next
      have ends : b.last = i := by
        rw [instrAt?_of_block hb, show m = b.instrs.length - 1 by omega] at hn
        exact Option.some.inj (b.getElem?_instrs_last.symm.trans hn)
      refine ⟨n, m, n + 1, 0, hn, next, .edge hb last hg ((h.mem_successors hg).2 ⟨b, hb, .inl ?_⟩)⟩
      exact ⟨(List.getElem?_eq_some_iff.1 hc).1, ends ▸ falls, rfl⟩
  · obtain ⟨n, m, hn⟩ := h.mem_code.1 hi
    obtain ⟨b, hb, hi'⟩ := instrAt?_eq_some.1 hn
    have last := h.last_of_branch hb hi' ht
    have ends : b.last = i := by
      rw [show m = b.instrs.length - 1 by omega] at hi'
      exact Option.some.inj (b.getElem?_instrs_last.symm.trans hi')
    -- The target is marked, so it leads a block, and that block is a successor.
    have marked : decide (j.id ∈ a.leaders) = true :=
      decide_eq_true ((markLeaders_inv h.leaders).2.1 i hi j ht)
    obtain ⟨c, hc, rfl⟩ := exists_leader_eq (fun i => i.id ∈ a.leaders) hj marked
    rw [← h.blocks] at hc
    obtain ⟨t, hl⟩ := exists_ledBy? hc
    obtain ⟨c', hc', e⟩ := ledBy?_eq_some hl
    have leader : c'.leader ∈ f.code := by
      rw [h.mem_code]
      exact ⟨t, 0, instrAt?_eq_some.2 ⟨c', hc', rfl⟩⟩
    have same : c'.leader = c.leader := Function.code_inj leader hj e
    refine ⟨n, m, t, 0, hn, instrAt?_eq_some.2 ⟨c', hc', same ▸ rfl⟩, .edge hb last hg ?_⟩
    exact (h.mem_successors hg).2 ⟨b, hb, .inr ⟨_, ends ▸ ht, hl⟩⟩

end Listing.HasFlow

namespace Listing

variable {l : Listing} {f : Function}

/-! ## When a build succeeds -/

theorem malformed?_eq_none_iff :
    l.malformed? f = none ↔ ∀ i ∈ f.code, l.checkOperands f i = .ok () := by
  rw [malformed?, List.findSome?_eq_none_iff]
  refine forall₂_congr fun i _ => ?_
  cases l.checkOperands f i with
  | error e => exact iff_of_false (fun h => by cases h) fun h => by cases h
  | ok u => exact iff_of_true rfl rfl

/-- A function with code whose instructions have the right number of operands, and whose branches
lead to labels in it, can be cut and connected. -/
theorem buildFlow_ok (code_ne : f.code ≠ []) (operands : ∀ i ∈ f.code, l.checkOperands f i = .ok ())
    (targets : ∀ i ∈ f.code, ∃ t, l.branchTarget f i = .ok t ∧ ∀ j ∈ t, j ∈ f.code)
    (a : Annotation) : ∃ a', l.buildFlow f a = (a', none) := by
  have total : ∀ i ∈ f.code, ∃ t, l.branchTarget f i = .ok t := fun i hi =>
    (targets i hi).imp fun t ht => ht.1
  rcases hm : l.markLeaders f true f.code with ⟨leaders, fault⟩
  have fine : fault = none := by
    have := markLeaders_ok true total
    rwa [hm] at this
  subst fine
  have marked := (markLeaders_inv hm).2.1
  -- Every edge has a place to go: the target of a branch is marked and so leads a block.
  obtain ⟨es, hes⟩ := allEdges_ok (l := l) (f := f) (k := 0)
    (Block.split (fun i => i.id ∈ leaders) f.code) fun m b hb => by
    have last : b.last ∈ f.code := by
      rw [← Block.flatMap_instrs_split (fun i => i.id ∈ leaders) f.code]
      exact List.mem_flatMap.2 ⟨b, List.mem_of_getElem? hb,
        List.mem_of_getElem? b.getElem?_instrs_last⟩
    obtain ⟨t, ht, inside⟩ := targets _ last
    rw [edgesFrom, ht]
    cases t with
    | none => exact ⟨_, rfl⟩
    | some target =>
      have lead : decide (target.id ∈ leaders) = true := decide_eq_true (marked _ last target ht)
      obtain ⟨c, hc, e⟩ := Block.exists_leader_eq (fun i => i.id ∈ leaders) (inside target rfl) lead
      obtain ⟨t', ht'⟩ := Block.exists_ledBy? hc
      rw [e] at ht'
      simp only [blockLedBy, ht']
      exact ⟨_, rfl⟩
  obtain ⟨g, connected, -⟩ := exists_connect hes
  unfold buildFlow
  rw [if_neg (by simpa using code_ne), malformed?_eq_none_iff.2 operands]
  simp only [hm, connected]
  exact ⟨_, rfl⟩

end Listing

end RegColor
