import Mathlib.Order.Basic
import RegColor.Proofs.Allocation

/-!
# Registers keep values

What the registers of an allocated listing guarantee:

* `registers_apart`: two variables of a function that are live after an instruction, or written by
  it, are never in the same register there;
* `registers_keep`: from an instruction that writes a variable to one that uses the value, whatever
  path control takes, the variable stays where it is and no other variable is written to its
  register.

Locals have the registers of their webs (`Allocated.Answers.exists_place`). Arguments have the
registers that bring them, which are told apart by their position (`Colorable.exists_position`).
-/

namespace RegColor

open Block LiveAssignment

/-! ## Live sets along control -/

namespace Liveness.Solved

variable {l : Listing} {as as' : List Annotation} {k : Nat} {f : Function} {i j : Instr}
  {s : SymbolId}

theorem hasFlow (h : Solved l as as') (hf : l.functions[k]? = some f) :
    l.HasFlow f (as'.getD k default) := by
  have flow := h.built.get hf
  have leaders : (as'.getD k default).leaders = (as.getD k default).leaders := by
    have lt : k < as.length := h.built.length_eq ▸ (List.getElem?_eq_some_iff.1 hf).1
    rw [(h.reached.grows.get k).leaders, getD_start lt]
  refine ⟨flow.code_ne, leaders ▸ flow.leaders, ?_, ?_⟩
  · rw [h.blocks_eq, leaders, flow.blocks]
  · rw [h.flow_eq, h.blocks_eq]
    exact flow.flow

theorem lt_length (h : Solved l as as') (hf : l.functions[k]? = some f) : k < as'.length := by
  rw [h.ready.length]
  exact (List.getElem?_eq_some_iff.1 hf).1

/-- What an instruction uses is live before it. -/
theorem mem_before_of_uses (h : Solved l as as') (hf : l.functions[k]? = some f) (hi : i ∈ f.code)
    (hs : s ∈ l.uses (entries as') i) : s ∈ (ofAnnotations as').before k i.id := by
  obtain ⟨n, m, hi⟩ := (h.hasFlow hf).mem_code.1 hi
  exact (mem_before_iff h.ready hi).2 ((h.liveRules (h.lt_length hf)).used hi hs)

/-- What is live after an instruction and not written by it is live before it. -/
theorem mem_before_of_after (h : Solved l as as') (hf : l.functions[k]? = some f)
    (hi : i ∈ f.code) (hs : s ∈ (ofAnnotations as').after k i.id) (hd : s ∉ i.defs) :
    s ∈ (ofAnnotations as').before k i.id := by
  obtain ⟨n, m, hi⟩ := (h.hasFlow hf).mem_code.1 hi
  rw [mem_after_iff h.ready hi] at hs
  exact (mem_before_iff h.ready hi).2
    (((h.liveRules (h.lt_length hf)).pass hi hs).resolve_right hd)

/-- What is live where control arrives is live where it comes from. -/
theorem mem_setAt_of_passes (h : Solved l as as') (hf : l.functions[k]? = some f)
    {n m n' m' : Nat} (pass : (as'.getD k default).Passes n m n' m')
    (hs : s ∈ (as'.getD k default).setAt n' m') : s ∈ (as'.getD k default).setAt n (m + 1) := by
  obtain ⟨g, hg, edges⟩ := h.edgeRules (h.lt_length hf)
  cases pass with
  | inside _ => exact hs
  | edge hb last hg' ht =>
    cases hg.symm.trans hg'
    rw [last]
    exact edges.sub hb ht hs

theorem mem_after_of_follows (h : Solved l as as') (hf : l.functions[k]? = some f)
    (step : l.Follows f i j) (hj : j ∈ f.code) (hs : s ∈ (ofAnnotations as').before k j.id) :
    s ∈ (ofAnnotations as').after k i.id := by
  obtain ⟨n, m, n', m', hi, hj, pass⟩ := (h.hasFlow hf).passes_of_follows step hj
  rw [mem_before_iff h.ready hj] at hs
  exact (mem_after_iff h.ready hi).2 (h.mem_setAt_of_passes hf pass hs)

end Liveness.Solved

/-! ## Answers for arguments -/

namespace Listing

/-- A listing and a target that coloring serves: the listing was built for the word size of the
target, the check accepts it, its frames are not too large, and no register has two uses. -/
structure Colorable (l : Listing) (t : Target) : Prop where
  origin : l.Built (· = t.wordSize) (fun _ => True) ∨ ∃ source, parse t.wordSize source = .ok l
  accepted : l.Accepted
  positive : 0 < t.wordSize
  bounded : ∀ f ∈ l.functions, f.params.length * t.wordSize < Word.bound
  distinct : (t.argRegs ++ t.gpRegs).Nodup

variable {l : Listing} {f : Function} {s u : SymbolId} {t : Target} {r : String}

namespace Colorable

theorem built (h : l.Colorable t) : l.Built (· = t.wordSize) (fun _ => True) := by
  rcases h.origin with built | ⟨source, parsed⟩
  · exact built
  · exact (built_of_parse parsed).mono (fun _ e => e) fun _ _ => trivial

/-- An argument of a function is brought by the register at its position among the parameters. -/
theorem exists_position (h : l.Colorable t) (hf : f ∈ l.functions) (owns : l.Owns f s)
    (hr : Allocator.argument? t (l.symbol s) = some r) :
    ∃ p : Nat, f.params[p]? = some s ∧ t.argRegs[p]? = some r := by
  obtain ⟨slot, hslot, hr⟩ := Option.bind_eq_some_iff.1 hr
  obtain ⟨k, f', p, size, hf', hp, hsize, offset, owner⟩ := h.built.coherent.argument s slot hslot
  have same : f' = f := h.accepted.eq_of_symbol_eq (List.mem_of_getElem? hf') hf
    (Option.some.inj (owner.symm.trans owns.2))
  subst same hsize
  have pos := h.positive
  -- The offset is below the size of the frame, so it did not wrap around.
  have inside : (p : Int) * t.wordSize < Word.bound := by
    refine Int.lt_of_le_of_lt (Int.mul_le_mul_of_nonneg_right ?_ pos.le) (h.bounded f' hf)
    exact Int.ofNat_le.2 (List.getElem?_eq_some_iff.1 hp).1.le
  have nonneg : 0 ≤ (p : Int) * t.wordSize := Int.mul_nonneg (Int.natCast_nonneg p) pos.le
  have fits : Word.fits (p * t.wordSize) = true :=
    Word.fits_iff.2 ⟨Int.le_trans (by decide) nonneg, inside⟩
  rw [Word.wrap_of_fits fits] at offset
  refine ⟨p, hp, ?_⟩
  rw [Target.argReg?, offset, if_pos ⟨pos, nonneg⟩, Int.mul_ediv_cancel _ pos.ne'] at hr
  exact hr

theorem eq_of_argument_eq (h : l.Colorable t) (hf : f ∈ l.functions) (hs : l.Owns f s)
    (hu : l.Owns f u) (hr : Allocator.argument? t (l.symbol s) = some r)
    (hr' : Allocator.argument? t (l.symbol u) = some r) : s = u := by
  obtain ⟨p, hp, hreg⟩ := h.exists_position hf hs hr
  obtain ⟨q, hq, hreg'⟩ := h.exists_position hf hu hr'
  have nodup := (List.nodup_append.1 h.distinct).1
  have same : p = q :=
    (List.getElem?_inj (List.getElem?_eq_some_iff.1 hreg).1 nodup).1 (hreg.trans hreg'.symm)
  subst same
  exact Option.some.inj (hp.symm.trans hq)

end Colorable

/-! ## Answers of a run -/

/-- The coloring allocator that a run chose, with the webs of one function. -/
structure Allocated.Answers (l : Listing) (t : Target) (as : List Annotation) (a : Allocation)
    (k : Nat) (f : Function) (r : Webs) : Prop where
  allocator : a.allocator = .coloring a.palette
  target : a.palette.target = t
  webs : a.palette.webs? k = some r
  settled : Palette.Settled l f (as.getD k default) t r

theorem Allocated.allocator_eq {o : Options} {as as₁ : List Annotation} {serial : Nat}
    {a : Allocation} (h : l.Allocated o as as₁ serial a) (coloring : o.allocator ∈ ["", "briggs"]) :
    a.allocator = .coloring a.palette := by
  have chosen := h.chosen
  simp only [List.mem_cons, List.not_mem_nil, or_false] at coloring
  rcases coloring with e | e <;> rw [e] at chosen <;> exact (Except.ok.inj chosen).symm

theorem Allocated.answers {o : Options} {as as₁ : List Annotation} {serial k : Nat}
    {a : Allocation} (h : l.Allocated o as as₁ serial a) (coloring : o.allocator ∈ ["", "briggs"])
    (hf : l.functions[k]? = some f) :
    ∃ r, Answers l (o.target.getD .mips) (l.allocate o as serial).annotations a k f r := by
  obtain ⟨lt, rfl⟩ := List.getElem?_eq_some_iff.1 hf
  obtain ⟨r, hr, settled⟩ := h.holds k lt
  rw [List.getD_eq_getElem _ _ lt, h.target] at settled
  exact ⟨r, h.allocator_eq coloring, h.target, hr, settled⟩

namespace Allocated.Answers

variable {as as₁ : List Annotation} {a : Allocation} {k : Nat} {webs : Webs} {i j : Instr}
  {r' : String}

theorem resolve_argument (h : Answers l t as a k f webs) {point : Option (Nat × InstrId)}
    (arg : (l.symbol s).isArgument = true) :
    a.allocator.resolve l s point = Allocator.argument? t (l.symbol s) := by
  rw [h.allocator, ← h.target]
  exact if_pos arg

theorem resolve_local (h : Answers l t as a k f webs) (arg : (l.symbol s).isArgument = false)
    {id : InstrId} : a.allocator.resolve l s (some (k, id)) =
      (webs.lookup? s id).bind fun w => w.place.map Place.register := by
  have answer : (Allocator.coloring a.palette).resolve l s (some (k, id)) =
      (a.palette.webs? k).bind fun r => (r.lookup? s id).bind fun w =>
        w.place.bind fun place => some place.register := if_neg (by rw [arg]; nofun)
  rw [h.allocator, answer, h.webs, Option.bind_some]
  exact congrArg _ (funext fun w => Option.map_eq_bind.symm)

/-- A local is in a general purpose register, or in memory. -/
theorem exists_place (h : Answers l t as a k f webs) (arg : (l.symbol s).isArgument = false)
    {id : InstrId} (hr : a.allocator.resolve l s (some (k, id)) = some r) :
    ∃ w place, webs.lookup? s id = some w ∧ w.place = some place ∧
      t.gpRegs[place.color]? = some r := by
  rw [h.resolve_local arg] at hr
  obtain ⟨w, hw, hr⟩ := Option.bind_eq_some_iff.1 hr
  obtain ⟨place, hp, rfl⟩ := Option.map_eq_some_iff.1 hr
  exact ⟨w, place, hw, hp, h.settled.register hw hp⟩

/-- Where control passes on, a variable that is live stays where it is. -/
theorem resolve_of_follows (h : Answers l t as a k f webs) (solved : Liveness.Solved l as₁ as)
    (hf : l.functions[k]? = some f) (owns : l.Owns f s) (step : l.Follows f i j) (hj : j ∈ f.code)
    (hs : s ∈ (ofAnnotations as).before k j.id) :
    a.allocator.resolve l s (some (k, j.id)) = a.allocator.resolve l s (some (k, i.id)) := by
  cases arg : (l.symbol s).isArgument with
  | true => rw [h.resolve_argument arg, h.resolve_argument arg]
  | false =>
    obtain ⟨n, m, n', m', hi, hj, pass⟩ := (solved.hasFlow hf).passes_of_follows step hj
    rw [Liveness.mem_before_iff solved.ready hj] at hs
    have after := solved.mem_setAt_of_passes hf pass hs
    rw [h.resolve_local arg, h.resolve_local arg,
      h.settled.carried hi hj pass (owns.isLocal arg) after hs]

/-- Variables that are live after an instruction or written by it are in different registers. -/
theorem register_ne (h : Answers l t as a k f webs) (solved : Liveness.Solved l as₁ as)
    (colorable : l.Colorable t) (hf : l.functions[k]? = some f) (hi : i ∈ f.code) (ne : s ≠ u)
    (hs : l.Owns f s) (hu : l.Owns f u)
    (here : s ∈ i.defs ∨ s ∈ (ofAnnotations as).after k i.id)
    (here' : u ∈ i.defs ∨ u ∈ (ofAnnotations as).after k i.id)
    (hr : a.allocator.resolve l s (some (k, i.id)) = some r)
    (hr' : a.allocator.resolve l u (some (k, i.id)) = some r') : r ≠ r' := by
  have mem := List.mem_of_getElem? hf
  obtain ⟨-, gpNodup, apart⟩ := List.nodup_append.1 colorable.distinct
  cases arg : (l.symbol s).isArgument with
  | true =>
    rw [h.resolve_argument arg] at hr
    cases arg' : (l.symbol u).isArgument with
    | true =>
      rw [h.resolve_argument arg'] at hr'
      intro same
      subst same
      exact ne (colorable.eq_of_argument_eq mem hs hu hr hr')
    | false =>
      obtain ⟨p, -, hp⟩ := colorable.exists_position mem hs hr
      obtain ⟨-, place, -, -, hq⟩ := h.exists_place arg' hr'
      exact apart r (List.mem_of_getElem? hp) r' (List.mem_of_getElem? hq)
  | false =>
    obtain ⟨w, place, hw, hplace, hp⟩ := h.exists_place arg hr
    cases arg' : (l.symbol u).isArgument with
    | true =>
      rw [h.resolve_argument arg'] at hr'
      obtain ⟨q, -, hq⟩ := colorable.exists_position mem hu hr'
      exact (apart r' (List.mem_of_getElem? hq) r (List.mem_of_getElem? hp)).symm
    | false =>
      obtain ⟨w', place', hw', hplace', hq⟩ := h.exists_place arg' hr'
      obtain ⟨n, m, hi⟩ := (solved.hasFlow hf).mem_code.1 hi
      rw [Liveness.mem_after_iff solved.ready hi] at here here'
      have colors := h.settled.apart hi ne here.symm here'.symm hw hw' hplace hplace'
      intro same
      subst same
      exact colors ((List.getElem?_inj (List.getElem?_eq_some_iff.1 hp).1 gpNodup).1
        (hp.trans hq.symm))

end Allocated.Answers

/-! ## Live together -/

section Runs

variable {o : Options} {as : List Annotation}

theorem Colorable.allocated (h : l.Colorable t) (coloring : o.allocator ∈ ["", "briggs"])
    (length : as.length = l.functions.length) (serial : Nat) :
    ∃ as₁ a, l.Allocated o as as₁ serial a := by
  refine allocate_ok h.built h.accepted ?_ length serial
  simp only [List.mem_cons, List.not_mem_nil, or_false] at coloring ⊢
  exact coloring.imp_right .inl

/-- Variables that are live together never share a register. The coloring allocator is there, and
wherever it has registers for two variables of a function that an instruction writes or that are
live after it, these are different registers. -/
theorem registers_apart (colorable : l.Colorable (o.target.getD .mips))
    (coloring : o.allocator ∈ ["", "briggs"]) (length : as.length = l.functions.length)
    (serial : Nat) :
    ∃ a, (l.allocate o as serial).outcome = .ok a ∧ a.allocator = .coloring a.palette ∧
      ∀ k f i s u r r', l.functions[k]? = some f → i ∈ f.code → s ≠ u → l.Owns f s → l.Owns f u →
        let live := (ofAnnotations (l.allocate o as serial).annotations).after k i.id
        (s ∈ i.defs ∨ s ∈ live) → (u ∈ i.defs ∨ u ∈ live) →
        a.allocator.resolve l s (some (k, i.id)) = some r →
        a.allocator.resolve l u (some (k, i.id)) = some r' → r ≠ r' := by
  obtain ⟨as₁, a, h⟩ := colorable.allocated coloring length serial
  refine ⟨a, h.outcome, h.allocator_eq coloring, fun k f i s u r r' hf hi ne hs hu => ?_⟩
  obtain ⟨webs, answers⟩ := h.answers coloring hf
  exact answers.register_ne h.solved colorable hf hi ne hs hu

/-- A function `sum(n)` with three variables: `a := 1; b := n; a := a + b; a := a + n; return a`. -/
def sum : Listing :=
  let l : Listing := ({} : Listing)
  let l := (l.addSymbol { name := "sum", kind := .function, type := none }).1
  let l := (l.addSymbol { name := "1", kind := .int 1, type := none }).1
  let l := { l with functions := [{ symbol := 0 }] }
  let l := (l.addParam 0 "n" none 4).1
  let l := ((l.addLocal 0 "a" none).1.addLocal 0 "b" none).1
  let code : List Action :=
    [.apply .assign [3, 1], .apply .assign [4, 2], .apply (.arith .add) [3, 3, 4],
      .apply (.arith .add) [3, 3, 2], .apply .ret [3]]
  code.foldl (fun l a => (l.push 0 a 0).1) l

theorem sum_built : sum.Built (· = 4) (fun _ => True) := by
  let l₀ : Listing := { symbols := sum.symbols.take 2 }
  have symbols : l₀.Built (· = 4) (fun _ => True) := by
    refine .symbol (.symbol .empty ?_ ?_) ?_ ?_ <;> decide
  have function : l₀.addFunction 0 = .ok { l₀ with functions := [{ symbol := 0 }] } := by decide
  have param : (addParam _ 0 "n" none 4).1.Built (· = 4) (fun _ => True) :=
    .param "n" none (.function symbols function) (by decide) rfl
  refine Built.pushAll (k := 0) (.localVar "b" none (.localVar "a" none param ?_) ?_) ?_ 0
  all_goals decide

/-- At the second instruction of `sum` all three variables are in registers. -/
theorem registers_apart_sum :
    ∃ a, (sum.allocate {} sum.freshAnnotations 0).outcome = .ok a ∧
      let register (s : SymbolId) := a.allocator.resolve sum s (some (0, ⟨1, 0⟩))
      ∃ n a b, register 2 = some n ∧ register 3 = some a ∧ register 4 = some b ∧
        n ≠ a ∧ n ≠ b ∧ a ≠ b := by
  have colorable : sum.Colorable .mips :=
    ⟨.inl sum_built, ⟨[], rfl, fun _ hd => (nomatch hd)⟩, by decide, by decide, by decide⟩
  have fresh : sum.freshAnnotations.length = sum.functions.length := rfl
  obtain ⟨a, outcome, -, apart⟩ := registers_apart (o := {}) colorable (by decide) fresh 0
  have live : (((sum.allocate {} sum.freshAnnotations 0).annotations.getD 0 default).live.after?
      ⟨1, 0⟩) = some (.ofList [2, 3, 4]) := by decide +kernel
  have registers : (sum.allocate {} sum.freshAnnotations 0).outcome.toOption.map (fun a =>
      [2, 3, 4].map fun s => a.allocator.resolve sum s (some (0, ⟨1, 0⟩))) =
        some [some "$a0", some "$t1", some "$t0"] := by decide +kernel
  have here : ∀ s ∈ [2, 3, 4],
      s ∈ (ofAnnotations (sum.allocate {} sum.freshAnnotations 0).annotations).after 0 ⟨1, 0⟩ :=
    fun s hs => ⟨_, live, OrdSet.mem_ofList.2 hs⟩
  simp only [outcome, Except.toOption, Option.map_some, List.map_cons, List.map_nil,
    Option.some.injEq, List.cons.injEq, and_true] at registers
  rcases registers with ⟨n, a', b⟩
  have ne {s u : SymbolId} {r r' : String} := apart 0 (sum.functions.getD 0 default)
    ⟨⟨1, 0⟩, .apply .assign [4, 2], 0⟩ s u r r' rfl (by decide)
  refine ⟨a, outcome, _, _, _, n, a', b, ?_, ?_, ?_⟩
  · exact ne (by decide) ⟨rfl, rfl⟩ ⟨rfl, rfl⟩ (.inr (here 2 (by decide)))
      (.inr (here 3 (by decide))) n a'
  · exact ne (by decide) ⟨rfl, rfl⟩ ⟨rfl, rfl⟩ (.inr (here 2 (by decide)))
      (.inr (here 4 (by decide))) n b
  · exact ne (by decide) ⟨rfl, rfl⟩ ⟨rfl, rfl⟩ (.inr (here 3 (by decide))) (.inl (by decide)) a' b

/-! ## Values on their way -/

/-- A path of control of `n` steps in a function, from an instruction that writes a variable to one
that uses it, without another write of it on the way. -/
structure Carries (l : Listing) (f : Function) (uses : Instr → List SymbolId) (s : SymbolId)
    (path : Nat → Instr) (n : Nat) : Prop where
  pos : 0 < n
  step : ∀ j < n, l.Follows f (path j) (path (j + 1))
  written : s ∈ (path 0).defs
  used : s ∈ uses (path n)
  kept : ∀ j, 0 < j → j < n → s ∉ (path j).defs

namespace Carries

variable {uses : Instr → List SymbolId} {path : Nat → Instr} {n j k : Nat}
  {as₁ as₂ : List Annotation}

theorem mem_code (h : l.Carries f uses s path n) (sane : l.Sane f)
    (labels : ∀ s, f.labels.lookup s = definition? f.code s) (hj : j ≤ n) : path j ∈ f.code := by
  cases j with
  | zero => exact (sane.mem_code_of_follows labels (h.step 0 h.pos)).1
  | succ j => exact (sane.mem_code_of_follows labels (h.step j hj)).2

/-- The variable is live before every instruction that follows the write. -/
theorem mem_before (h : l.Carries f (l.uses (Liveness.entries as₂)) s path n)
    (solved : Liveness.Solved l as₁ as₂) (hf : l.functions[k]? = some f)
    (code : ∀ j ≤ n, path j ∈ f.code) (pos : 0 < j) (hj : j ≤ n) :
    s ∈ (ofAnnotations as₂).before k (path j).id := by
  -- From the use backwards: control arrives with the variable live, and no write ends that.
  induction hj using Nat.decreasingInduction with
  | self => exact solved.mem_before_of_uses hf (code n le_rfl) h.used
  | of_succ j lt ih =>
    have after := solved.mem_after_of_follows hf (h.step j lt) (code _ lt) (ih (Nat.succ_pos j))
    exact solved.mem_before_of_after hf (code j lt.le) after (h.kept j pos lt)

end Carries

/-- No value is overwritten on its way to a use. Along a path of control from a write of a variable
to a use of it, the coloring allocator gives one answer for the variable; where that is a register,
no instruction in between writes another variable of the function to it. -/
theorem registers_keep (colorable : l.Colorable (o.target.getD .mips))
    (coloring : o.allocator ∈ ["", "briggs"]) (length : as.length = l.functions.length)
    (serial : Nat) :
    ∃ a, (l.allocate o as serial).outcome = .ok a ∧ a.allocator = .coloring a.palette ∧
      ∀ k f s path n, l.functions[k]? = some f → l.Owns f s →
        l.Carries f (l.uses (Liveness.entries (l.allocate o as serial).annotations)) s path n →
        let register (s : SymbolId) (j : Nat) := a.allocator.resolve l s (some (k, (path j).id))
        (∀ j ≤ n, register s j = register s 0) ∧
          ∀ r, register s 0 = some r → ∀ j, 0 < j → j < n → ∀ u ∈ (path j).defs, u ≠ s →
            l.Owns f u → register u j ≠ some r := by
  obtain ⟨as₁, a, h⟩ := colorable.allocated coloring length serial
  refine ⟨a, h.outcome, h.allocator_eq coloring, fun k f s path n hf owns carries => ?_⟩
  obtain ⟨webs, answers⟩ := h.answers coloring hf
  have mem := List.mem_of_getElem? hf
  have code {j} (hj : j ≤ n) : path j ∈ f.code :=
    carries.mem_code (colorable.accepted.sane mem) (colorable.built.coherent.labels f mem) hj
  have before {j} (pos : 0 < j) (hj : j ≤ n) :=
    carries.mem_before h.solved hf (fun _ => code) pos hj
  have same : ∀ j ≤ n, a.allocator.resolve l s (some (k, (path j).id)) =
      a.allocator.resolve l s (some (k, (path 0).id)) := by
    intro j hj
    induction j with
    | zero => rfl
    | succ j ih =>
      have live := before (Nat.succ_pos j) hj
      rw [answers.resolve_of_follows h.solved hf owns (carries.step j hj) (code hj) live]
      exact ih (Nat.le_of_succ_le hj)
  refine ⟨same, fun r hr j pos lt u hu ne hu' hr' => ?_⟩
  have live := h.solved.mem_after_of_follows hf (carries.step j lt) (code lt)
    (before (Nat.succ_pos j) lt)
  exact answers.register_ne h.solved colorable hf (code lt.le) ne.symm owns hu' (.inr live)
    (.inl hu) ((same j lt.le).trans hr) hr' rfl

/-- In `pow` the product that an iteration leaves reaches the sum behind the loop: over the jump
back, the branch out of the loop and the call. -/
theorem registers_keep_pow :
    ∃ a, (pow.allocate {} pow.freshAnnotations 0).outcome = .ok a ∧
      let register (s : SymbolId) (p : Nat) := a.allocator.resolve pow s (some (0, ⟨p, 0⟩))
      register 5 9 = register 5 4 ∧ ∀ r, register 5 4 = some r →
        register 4 5 ≠ some r ∧ register 6 8 ≠ some r := by
  have colorable : pow.Colorable .mips :=
    ⟨.inl (pow_built.mono (fun _ e => e) fun _ _ => trivial), pow_accepted, by decide, by decide,
      by decide⟩
  have fresh : pow.freshAnnotations.length = pow.functions.length := rfl
  obtain ⟨a, outcome, -, keep⟩ := registers_keep (o := {}) colorable (by decide) fresh 0
  let f := pow.functions.getD 0 default
  let path (j : Nat) : Instr := f.code.getD ([4, 5, 6, 2, 3, 7, 8, 9].getD j 0) default
  let final := (pow.allocate {} pow.freshAnnotations 0).annotations
  have carries : pow.Carries f (pow.uses (Liveness.entries final)) 5 path 7 := by
    have kept : ∀ j < 7, 0 < j → 5 ∉ (path j).defs := by decide
    refine ⟨by decide, fun j hj => ?_, by decide, ?_, fun j pos lt => kept j lt pos⟩
    · have next {p : Nat} {i i' : Instr} (falls : i.fallsThrough = true) (hi : f.code[p]? = some i)
          (hi' : f.code[p + 1]? = some i') : pow.Follows f i i' := .inl ⟨falls, p, hi, hi'⟩
      match j, hj with
      | 0, _ => exact next (p := 4) rfl rfl rfl
      | 1, _ => exact next (p := 5) rfl rfl rfl
      | 2, _ => exact .inr ⟨by decide, rfl⟩
      | 3, _ => exact next (p := 2) rfl rfl rfl
      | 4, _ => exact .inr ⟨by decide, rfl⟩
      | 5, _ => exact next (p := 7) rfl rfl rfl
      | 6, _ => exact next (p := 8) rfl rfl rfl
    · exact mem_uses.2 ⟨.inl (by decide), rfl⟩
  obtain ⟨same, free⟩ := keep 0 f 5 path 7 rfl ⟨rfl, rfl⟩ carries
  refine ⟨a, outcome, same 7 le_rfl, fun r hr => ⟨?_, ?_⟩⟩
  · exact free r hr 1 (by decide) (by decide) 4 (by decide) (by decide) ⟨rfl, rfl⟩
  · exact free r hr 6 (by decide) (by decide) 6 (by decide) (by decide) ⟨rfl, rfl⟩

end Runs

end Listing

end RegColor
