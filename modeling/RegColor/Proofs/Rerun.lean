import RegColor.Proofs.Allocation

/-!
# Earlier runs do not matter

The analyses of a listing write to its annotations, and each of them rewrites its own part only: a
build of control flow leaves old live sets alone, and live sets are cleared for the blocks that are
there. `Listing.Analyzed` says what such runs can leave behind, also when they fail or stop half
way. An allocation builds the control flow of every function anew (`buildFlows_agree`) and clears
the live sets (`start_eq`), so what it starts from is all the same to it.

What is left to tell two runs apart is the number that a result of webs carries. It shows in no
answer (`Webs.unnumbered`).
-/

namespace RegColor

/-! ## What analyses leave behind -/

namespace Listing

variable (l : Listing)

/-- The annotations that analyses of a listing can leave behind. A sweep that fails stops after some
of its steps, a transfer or a join each. -/
inductive Analyzed : List Annotation → Prop
  | fresh : Analyzed l.freshAnnotations
  | reset {as : List Annotation} (k : Nat) : Analyzed as → Analyzed (as.modify k Annotation.reset)
  | flow {as : List Annotation} (k : Nat) : Analyzed as →
    Analyzed (as.modify k fun a => (l.buildFlow (l.functions.getD k default) a).1)
  | flows {as : List Annotation} : Analyzed as → Analyzed (l.buildFlows l.functions as).1
  | start {as : List Annotation} : Analyzed as → Analyzed (Liveness.start as)
  | transfer {as as' : List Annotation} (k : Nat) (i : Instr) : Analyzed as →
    Liveness.transfer l k as i = .ok as' → Analyzed as'
  | join {as as' : List Annotation} (k : Nat) (b : Block) (n : Nat) : Analyzed as →
    Liveness.join k b as n = .ok as' → Analyzed as'
  | sweep {as as' : List Annotation} : Analyzed as → Liveness.sweep l as = .ok as' → Analyzed as'
  | run {as as' : List Annotation} {n : Nat} : Analyzed as →
    Liveness.run l as = .ok (as', n) → Analyzed as'
  | allocate {as : List Annotation} (o : Options) (serial : Nat) : Analyzed as →
    Analyzed (l.allocate o as serial).annotations

end Listing

namespace Liveness

variable {l : Listing} {as as' : List Annotation} {s s' : List Annotation × Bool} {k n : Nat}

theorem length_of_transfer {i : Instr} (h : transfer l k as i = .ok as') :
    as'.length = as.length := by
  unfold transfer at h
  split at h
  · cases h
    exact List.length_modify ..
  · cases h

theorem length_of_join {b : Block} (h : join k b as n = .ok as') : as'.length = as.length := by
  unfold join at h
  dsimp only at h
  split at h
  · cases h
  · cases h
    exact List.length_modify ..

theorem length_of_noting {α : Type} {step : List Annotation → α → Except Fault (List Annotation)}
    {set : List Annotation → α → Option SymbolSet} {x : α}
    (keeps : ∀ as as', step as x = .ok as' → as'.length = as.length)
    (h : noting step set s x = .ok s') : s'.1.length = s.1.length := by
  obtain ⟨as', ok, rfl⟩ := map_eq_ok h
  exact keeps _ _ ok

theorem length_of_passEdges {block : Block × Nat} (h : passEdges k s block = .ok s') :
    s'.1.length = s.1.length := by
  unfold passEdges at h
  split at h
  · cases h
  · exact foldlM_keeps (·.1.length = s.1.length)
      (fun _ _ _ step e => (length_of_noting (fun _ _ => length_of_join) step).trans e) h rfl

theorem length_of_passFunction (h : passFunction l s k = .ok s') :
    s'.1.length = s.1.length := by
  obtain ⟨mid, transfers, joins⟩ := bind_eq_ok.1 h
  have first : mid.1.length = s.1.length := foldlM_keeps (·.1.length = s.1.length)
    (fun _ _ _ step e => (length_of_noting (fun _ _ => length_of_transfer) step).trans e)
    transfers rfl
  exact foldlM_keeps (·.1.length = s.1.length)
    (fun _ _ _ step e => (length_of_passEdges step).trans e) joins first

theorem length_of_pass {grown : Bool} (h : pass l as = .ok (as', grown)) :
    as'.length = as.length :=
  foldlM_keeps (·.1.length = as.length)
    (fun _ _ _ step e => (length_of_passFunction step).trans e) h rfl

theorem length_of_sweep (h : sweep l as = .ok as') : as'.length = as.length := by
  obtain ⟨⟨as', grown⟩, ok, rfl⟩ := map_eq_ok h
  exact length_of_pass ok

theorem length_of_sweeps {fuel : Nat} (h : sweeps l fuel as = .ok (as', n)) :
    as'.length = as.length := by
  induction fuel generalizing as n with
  | zero => cases h; rfl
  | succ fuel ih =>
    obtain ⟨⟨mid, grown⟩, step, rest⟩ := bind_eq_ok.1 h
    dsimp only at rest
    split at rest
    · obtain ⟨⟨last, m⟩, more, e⟩ := bind_eq_ok.1 rest
      cases e
      exact (ih more).trans (length_of_pass step)
    · cases rest
      exact length_of_pass step

end Liveness

namespace Listing

variable {l : Listing} {f : Function} {o : Options} {as as' : List Annotation}

theorem length_buildFlows (fs : List Function) (as : List Annotation) :
    (l.buildFlows fs as).1.length = as.length := by
  induction fs generalizing as with
  | nil => rfl
  | cons f fs ih =>
    cases as with
    | nil => rfl
    | cons a as =>
      unfold buildFlows
      split
      · rfl
      · exact congrArg (· + 1) (ih as)

theorem length_annotations_allocate {serial : Nat} :
    (l.allocate o as serial).annotations.length = as.length := by
  unfold allocate
  dsimp only
  split
  · rfl
  · split
    · rfl
    · have flows := length_buildFlows (l := l) l.functions as
      split
      · next e => rw [e] at flows; exact flows
      · next bs e =>
        rw [e] at flows
        split
        · exact (List.length_map ..).trans flows
        · next run =>
          have swept := (Liveness.length_of_sweeps run).trans ((List.length_map ..).trans flows)
          split
          · exact swept
          · split <;> exact swept

/-- There is one annotation for each function. -/
theorem Analyzed.length_eq (h : l.Analyzed as) : as.length = l.functions.length := by
  induction h with
  | fresh => exact List.length_map ..
  | reset k _ ih => exact (List.length_modify ..).trans ih
  | flow k _ ih => exact (List.length_modify ..).trans ih
  | flows _ ih => exact (length_buildFlows ..).trans ih
  | start _ ih => exact (List.length_map ..).trans ih
  | transfer k i _ step ih => exact (Liveness.length_of_transfer step).trans ih
  | join k b n _ step ih => exact (Liveness.length_of_join step).trans ih
  | sweep _ step ih => exact (Liveness.length_of_sweep step).trans ih
  | run _ step ih => exact (Liveness.length_of_sweeps step).trans ih
  | allocate o serial _ ih => exact length_annotations_allocate.trans ih

end Listing

/-! ## A new build -/

/-- Two annotations hold the same control flow, whatever their live sets are. -/
def Annotation.SameFlow (a b : Annotation) : Prop := { a with live := b.live } = b

namespace Listing

variable {l : Listing} {f : Function} {as as' : List Annotation}

/-- What was there decides neither whether a build fails nor what it builds. -/
theorem buildFlow_agree (a b : Annotation) :
    (l.buildFlow f a).2 = (l.buildFlow f b).2 ∧
      ((l.buildFlow f a).2 = none → (l.buildFlow f a).1.SameFlow (l.buildFlow f b).1) := by
  unfold buildFlow
  dsimp only
  split
  · exact ⟨rfl, nofun⟩
  split
  · exact ⟨rfl, nofun⟩
  split
  · exact ⟨rfl, nofun⟩
  split
  · exact ⟨rfl, nofun⟩
  · exact ⟨rfl, fun _ => rfl⟩

theorem buildFlows_agree {fs : List Function} (h : as.length = fs.length)
    (h' : as'.length = fs.length) :
    (l.buildFlows fs as).2 = (l.buildFlows fs as').2 ∧
      ((l.buildFlows fs as).2 = none →
        List.Forall₂ Annotation.SameFlow (l.buildFlows fs as).1 (l.buildFlows fs as').1) := by
  induction fs generalizing as as' with
  | nil =>
    cases List.length_eq_zero_iff.1 h
    cases List.length_eq_zero_iff.1 h'
    exact ⟨rfl, fun _ => .nil⟩
  | cons f fs ih =>
    obtain ⟨a, as, rfl⟩ := List.exists_cons_of_length_eq_add_one h
    obtain ⟨a', as', rfl⟩ := List.exists_cons_of_length_eq_add_one h'
    obtain ⟨fault, flow⟩ := buildFlow_agree (l := l) (f := f) a a'
    obtain ⟨faults, rest⟩ := ih (Nat.succ.inj h) (Nat.succ.inj h')
    unfold buildFlows
    rcases hb : l.buildFlow f a with ⟨b, e⟩
    rcases hb' : l.buildFlow f a' with ⟨b', e'⟩
    rw [hb, hb'] at fault flow
    cases fault
    cases e with
    | some e => exact ⟨rfl, fun done => by cases done⟩
    | none => exact ⟨faults, fun done => .cons (flow rfl) (rest done)⟩

end Listing

/-- Once they are cleared, live sets depend on the blocks only. -/
theorem Liveness.start_eq {as as' : List Annotation} (h : List.Forall₂ Annotation.SameFlow as as') :
    start as = start as' := by
  induction h with
  | nil => rfl
  | cons same _ ih =>
    have head : ∀ {a b : Annotation}, a.SameFlow b → { a with live := .ofBlocks a.blocks } =
        { b with live := LiveSets.ofBlocks b.blocks } := by
      intro a b e
      rw [← e]
    exact congrArg₂ List.cons (head same) ih

/-! ## Results without their numbers -/

/-- Two computations fail alike, or their results are related. -/
inductive Alike {ε α : Type} (R : α → α → Prop) : Except ε α → Except ε α → Prop
  | error (e : ε) : Alike R (.error e) (.error e)
  | ok {a b : α} : R a b → Alike R (.ok a) (.ok b)

namespace Alike

variable {ε α β : Type} {R : α → α → Prop} {S : β → β → Prop} {x y : Except ε α}

theorem bind {f g : α → Except ε β} (h : Alike R x y) (step : ∀ a b, R a b → Alike S (f a) (g b)) :
    Alike S (x >>= f) (y >>= g) := by
  cases h with
  | error e => exact .error e
  | ok related => exact step _ _ related

theorem refl (h : ∀ a, R a a) : Alike R x x := by
  cases x with
  | error e => exact .error e
  | ok a => exact .ok (h a)

end Alike

/-- A result of webs without the number that tells when it was built. -/
def Webs.unnumbered (r : Webs) : Webs := { r with serial := 0 }

/-- Two palettes answer alike. -/
structure Palette.Same (p q : Palette) : Prop where
  target : p.target = q.target
  webs : ∀ k, (p.webs? k).map Webs.unnumbered = (q.webs? k).map Webs.unnumbered

/-- Two allocators answer alike. -/
inductive Allocator.Same : Allocator → Allocator → Prop
  | coloring {p q : Palette} : p.Same q → Same (.coloring p) (.coloring q)
  | naive (t : Target) : Same (.naive t) (.naive t)

/-- Two allocations of a listing tell the same: what the check found, the number of sweeps, the
reports, the webs of every function with their graph and their places, where every symbol is at
every point, and the text. -/
structure Allocation.Same (l : Listing) (a b : Allocation) : Prop where
  target : a.target = b.target
  diagnostics : a.diagnostics = b.diagnostics
  sweeps : a.sweeps = b.sweeps
  reports : a.reports = b.reports
  webs : ∀ k, (a.palette.webs? k).map Webs.unnumbered = (b.palette.webs? k).map Webs.unnumbered
  registers : ∀ s point, a.allocator.resolve l s point = b.allocator.resolve l s point
  text : a.allocator.listingText l = b.allocator.listingText l

variable {l : Listing} {as : List Annotation} {p q : Palette}

theorem Webs.build_alike (k serial serial' : Nat) :
    Alike (fun r r' => r' = { r with serial := serial' }) (build l as k serial)
      (build l as k serial') := by
  unfold build
  refine .bind (.refl fun _ => rfl) fun scan _ e => ?_
  cases e
  refine .bind (.refl fun _ => rfl) fun d _ e => ?_
  cases e
  exact .ok rfl

namespace Palette

theorem Same.record (h : p.Same q) (r : Webs) (n : Nat) :
    (p.record r).Same (q.record { r with serial := n }) := by
  refine ⟨h.target, fun k => ?_⟩
  have rest := h.webs k
  unfold webs? at rest ⊢
  unfold Palette.record
  rw [OrdMap.get?_insert, OrdMap.get?_insert]
  split
  · rfl
  · exact rest

/-- Allocating a function gives the same webs, places and colors, whatever their numbers are. -/
theorem Same.allocate (h : p.Same q) (l : Listing) (as : List Annotation)
    (k serial serial' : Nat) :
    Alike (fun x y => x.1.Same y.1 ∧ y.2.1 = { x.2.1 with serial := serial' } ∧ x.2.2 = y.2.2)
      (p.allocate l as k serial) (q.allocate l as k serial') := by
  refine .bind (Webs.build_alike k serial serial') fun r r' e => ?_
  cases e
  have cost : Webs.cost { r with serial := serial' } = r.cost := rfl
  unfold assign
  dsimp only
  rw [← h.target, cost]
  rcases placeAll p.target l (l.functions.getD r.function default)
    (Coloring.color r.graph r.cost p.target.size).color r.webs with ⟨webs, fault⟩
  cases fault with
  | some e => exact .error e
  | none => exact .ok ⟨h.record _ _, rfl, rfl⟩

end Palette

namespace Allocator

theorem Same.refl (a : Allocator) : a.Same a := by
  cases a with
  | coloring p => exact .coloring ⟨rfl, fun _ => rfl⟩
  | naive t => exact .naive t

theorem Same.resolve {a b : Allocator} (h : a.Same b) (s : SymbolId)
    (point : Option (Nat × InstrId)) : a.resolve l s point = b.resolve l s point := by
  cases h with
  | naive t => rfl
  | @coloring p q same =>
    unfold Allocator.resolve
    dsimp only
    rw [same.target]
    split
    · rfl
    · cases point with
      | none => rfl
      | some point =>
        -- What is asked of the webs does not depend on their number.
        have forget (x : Option Webs) (ask : Webs → Option String)
            (same : ∀ r, ask r.unnumbered = ask r) :
            x.bind ask = (x.map Webs.unnumbered).bind ask := by
          cases x with
          | none => rfl
          | some r => exact (same r).symm
        refine (forget (p.webs? point.1) _ fun _ => rfl).trans ?_
        rw [same.webs point.1]
        exact (forget (q.webs? point.1) _ fun _ => rfl).symm

theorem Same.listingText {a b : Allocator} (h : a.Same b) :
    a.listingText l = b.listingText l := by
  have operand : a.operandText l = b.operandText l := by
    funext point s
    unfold operandText
    rw [h.resolve]
  unfold Allocator.listingText functionText
  rw [operand]

end Allocator

namespace Listing

/-- Allocating functions in order leaves the same webs and reports, or fails alike. -/
theorem allocateFunctions_agree (l : Listing) (as : List Annotation) (same : p.Same q)
    (serial serial' : Nat) (ks : List Nat) :
    (l.allocateFunctions as serial p ks).1.Same (l.allocateFunctions as serial' q ks).1 ∧
      (l.allocateFunctions as serial p ks).2 = (l.allocateFunctions as serial' q ks).2 := by
  induction ks generalizing p q with
  | nil => exact ⟨same, rfl⟩
  | cons k ks ih =>
    unfold allocateFunctions
    dsimp only
    generalize hx : p.allocate l as k (serial + k) = x
    generalize hy : q.allocate l as k (serial' + k) = y
    have step := same.allocate l as k (serial + k) (serial' + k)
    rw [hx, hy] at step
    cases step with
    | error e => exact ⟨same, rfl⟩
    | @ok x y related =>
      rcases x with ⟨p₁, r, coloring⟩
      rcases y with ⟨q₁, r', coloring'⟩
      dsimp only at related
      obtain ⟨same₁, rfl, rfl⟩ := related
      obtain ⟨rest, tail⟩ := ih same₁
      refine ⟨rest, ?_⟩
      dsimp only
      rw [congrArg Prod.fst tail, congrArg Prod.snd tail, same₁.target]
      rfl

theorem chooseAllocator_alike (same : p.Same q) (name : String) :
    Alike Allocator.Same (chooseAllocator name p) (chooseAllocator name q) := by
  unfold chooseAllocator
  rw [same.target]
  split
  · exact .ok (.coloring same)
  · exact .refl Allocator.Same.refl

variable {o : Options} {as' : List Annotation}

/-- Two runs over a listing go alike from whatever annotations there are. -/
theorem allocate_alike (h : as.length = l.functions.length) (h' : as'.length = l.functions.length)
    (serial serial' : Nat) :
    Alike (Allocation.Same l) (l.allocate o as serial).outcome (l.allocate o as' serial').outcome ∧
      (l.allocate o as serial).events = (l.allocate o as' serial').events := by
  unfold allocate
  dsimp only
  split
  · exact ⟨.error _, rfl⟩
  split
  · exact ⟨.error _, rfl⟩
  obtain ⟨faults, flows⟩ := buildFlows_agree (l := l) h h'
  rcases hb : l.buildFlows l.functions as with ⟨as₁, fault⟩
  rcases hb' : l.buildFlows l.functions as' with ⟨as₂, fault'⟩
  rw [hb, hb'] at faults flows
  cases faults
  cases fault with
  | some e => exact ⟨.error _, rfl⟩
  | none =>
    simp only [Liveness.start_eq (flows rfl)]
    cases Liveness.run l (Liveness.start as₂) with
    | error e => exact ⟨.error _, rfl⟩
    | ok found =>
      let fresh : Palette := { target := o.target.getD .mips }
      obtain ⟨same, rest⟩ := allocateFunctions_agree l found.1 (p := fresh) (q := fresh)
        ⟨rfl, fun _ => rfl⟩ serial serial' (List.range l.functions.length)
      dsimp only
      generalize l.allocateFunctions found.1 serial { target := o.target.getD .mips }
        (List.range l.functions.length) = x at same rest ⊢
      generalize l.allocateFunctions found.1 serial' { target := o.target.getD .mips }
        (List.range l.functions.length) = y at same rest ⊢
      rcases x with ⟨p, reports, fault⟩
      rcases y with ⟨q, _, _⟩
      cases rest
      cases fault with
      | some e => exact ⟨.error _, rfl⟩
      | none =>
        have chosen := chooseAllocator_alike same o.allocator
        dsimp only
        generalize chooseAllocator o.allocator p = a at chosen ⊢
        generalize chooseAllocator o.allocator q = b at chosen ⊢
        cases chosen with
        | error e => exact ⟨.error _, rfl⟩
        | ok answers =>
          exact ⟨.ok ⟨rfl, rfl, rfl, rfl, same.webs, answers.resolve, answers.listingText⟩, rfl⟩

/-! ## Runs come to an end -/

section Faults

variable {f : Function} {i : Instr} {e : Fault}

theorem kind_of_branchTarget (h : l.branchTarget f i = .error e) : e.kind = .internal := by
  unfold branchTarget at h
  split at h
  · cases h
  split at h
  · cases h
    rfl
  · have label := map_eq_error.1 h
    unfold labelInstr at label
    split at label
    · split at label
      · cases label
      · cases label
        rfl
    · cases label
      rfl

theorem kind_of_markLeaders {next : Bool} {code : List Instr}
    (h : (l.markLeaders f next code).2 = some e) : e.kind = .internal := by
  induction code generalizing next with
  | nil => cases h
  | cons i code ih =>
    unfold markLeaders at h
    dsimp only at h
    split at h
    · next target =>
      cases h
      exact kind_of_branchTarget target
    · exact ih h

theorem kind_of_edgesFrom {blocks : List Block} {k : Nat} {b : Block}
    (h : l.edgesFrom f blocks k b = .error e) : e.kind = .internal := by
  unfold edgesFrom blockLedBy at h
  dsimp only at h
  split at h
  · next target =>
    cases h
    exact kind_of_branchTarget target
  · cases h
  · split at h
    · next led =>
      split at led
      · cases led
      · cases led
        cases h
        rfl
    · cases h

theorem kind_of_allEdges {blocks bs : List Block} {k : Nat}
    (h : l.allEdges f blocks k bs = .error e) : e.kind = .internal := by
  induction bs generalizing k with
  | nil => cases h
  | cons b bs ih =>
    unfold allEdges at h
    split at h
    · next edges =>
      cases h
      exact kind_of_edgesFrom edges
    · exact ih (map_eq_error.1 h)

theorem kind_of_malformed? (h : l.malformed? f = some e) : e.kind = .internal := by
  obtain ⟨i, -, here⟩ := List.exists_of_findSome?_eq_some h
  unfold checkOperands at here
  dsimp only at here
  split at here
  · next wrong =>
    cases here
    split at wrong
    · cases wrong
      rfl
    · split at wrong
      · cases wrong
      · cases wrong
        rfl
  · cases here

/-- A build of control flow that fails has met a malformed function. -/
theorem kind_of_buildFlow {a : Annotation} (h : (l.buildFlow f a).2 = some e) :
    e.kind = .internal := by
  unfold buildFlow at h
  dsimp only at h
  split at h
  · cases h
    rfl
  split at h
  · next malformed =>
    cases h
    exact kind_of_malformed? malformed
  split at h
  · next marked =>
    cases h
    exact kind_of_markLeaders marked
  split at h
  · next edges =>
    cases h
    exact kind_of_allEdges (allEdges_of_connect_error edges)
  · cases h

theorem kind_of_buildFlows {fs : List Function} (h : (l.buildFlows fs as).2 = some e) :
    e.kind = .internal := by
  induction fs generalizing as with
  | nil => cases h
  | cons f fs ih =>
    cases as with
    | nil => cases h
    | cons a as =>
      unfold buildFlows at h
      split at h
      · next flow =>
        cases h
        exact kind_of_buildFlow (congrArg Prod.snd flow)
      · exact ih h

theorem kind_of_chooseAllocator {name : String} (h : chooseAllocator name p = .error e) :
    e.kind = .invalidArgument := by
  unfold chooseAllocator Allocator.ofName at h
  split at h
  · cases h
  · split at h
    · cases h
    · cases h
    · cases h
    · cases h
      rfl

end Faults

/-- A run over a listing of operations with mnemonics has an outcome: no stage meets something that
it has no answer for. -/
theorem allocate_defined (named : l.Named) (length : as.length = l.functions.length) {serial : Nat}
    {e : Fault} (h : (l.allocate o as serial).outcome = .error (.fault e)) :
    e.kind ≠ .undefined := by
  obtain ⟨ds, hcheck⟩ : ∃ ds, l.check = .ok ds := checkFunctions_ok [] named
  unfold allocate at h
  simp only [hcheck] at h
  split at h
  · cases h
  split at h
  · next flows =>
    cases h
    rw [kind_of_buildFlows (congrArg Prod.snd flows)]
    rintro ⟨⟩
  · next as₁ flows =>
    have built : l.FlowsBuilt as₁ := buildFlows_inv length flows
    obtain ⟨as₂, n, hrun, reached, settled⟩ :=
      Liveness.run_ok (Liveness.ready_start built) Liveness.reached_start
    have solved : Liveness.Solved l as₁ as₂ := ⟨built, reached, settled⟩
    have inRange : ∀ k ∈ List.range l.functions.length, k < as₂.length := fun k hk =>
      solved.ready.length ▸ List.mem_range.1 hk
    obtain ⟨p, reports, hfunctions, -⟩ :=
      allocateFunctions_ok solved serial inRange { target := o.target.getD .mips }
    simp only [hrun, hfunctions] at h
    split at h
    · next chosen =>
      cases h
      rw [kind_of_chooseAllocator chosen]
      rintro ⟨⟩
    · cases h

/-- Allocation does not depend on what earlier runs have left: from any two states that analyses of
a listing can leave behind it goes the same way, and fails alike or tells the same. -/
theorem allocate_independent (named : l.Named) (h : l.Analyzed as) (h' : l.Analyzed as')
    (o : Options) (serial serial' : Nat) :
    Alike (Allocation.Same l) (l.allocate o as serial).outcome (l.allocate o as' serial').outcome ∧
      (l.allocate o as serial).events = (l.allocate o as' serial').events ∧
      ∀ e, (l.allocate o as serial).outcome = .error (.fault e) → e.kind ≠ .undefined := by
  obtain ⟨alike, events⟩ := allocate_alike (o := o) h.length_eq h'.length_eq serial serial'
  exact ⟨alike, events, fun e => allocate_defined named h.length_eq⟩

/-- For `pow` it is all the same whether earlier runs have left live sets and marks of leaders for
blocks that were dropped since. -/
theorem allocate_independent_pow :
    let as := pow.freshAnnotations
    let as' := (Liveness.start (pow.buildFlows pow.functions as).1).modify 0 Annotation.reset
    as ≠ as' ∧ Alike (Allocation.Same pow) (pow.allocate {} as 0).outcome
      (pow.allocate {} as' 5).outcome := by
  intro as as'
  have named : pow.Named := by decide
  have left : pow.Analyzed as' := .reset 0 (.start (.flows .fresh))
  exact ⟨by decide, (allocate_independent named .fresh left {} 0 5).1⟩

end Listing

end RegColor
