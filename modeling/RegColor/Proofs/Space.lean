import Mathlib.Algebra.Order.Ring.Int
import RegColor.Proofs.Assignment
import RegColor.Proofs.Progress

/-!
# Space for spilled variables

A report gives the bytes that the spilled variables of a function take, counted in 64-bit integers.
`Symbol.space` and `Listing.space` count without a bound.

* `Listing.sized_of_parse`: arrays of a source text have positive lengths, so the space of variables
  is at least a word for each;
* `Report.spillBytes_ofWebs`: what is reported is the space up to wrapping, however often it wrapped
  on the way;
* `Listing.forall₂_reports`: the reports of a run are those of the functions, in their order, and
  are made from the webs that the palette answers by.

Hence a report is exact as long as the space can be counted in 64 bits (`allocate_spillBytes`), and
only as long: the length of a single array is bounded by 64 bits, its size in bytes is not.
-/

namespace RegColor

/-! ## Lengths of arrays -/

/-- The arrays among the symbols have positive lengths. -/
def Listing.Sized (l : Listing) : Prop := ∀ s, ∀ t ∈ (l.symbol s).type, t.isSized = true

namespace Builder

variable {b b' : Builder} {r : Ref} {y : Symbol} {g : Function → Function} {ts : List Token}

theorem Entry.isSized (h : Entry (Reader.terms ts) b r y g) :
    ∀ t ∈ y.type, t.isSized = true := by
  intro t ht
  cases h with
  | localVar _ given | param _ given =>
    cases ht
    exact given
  | label => cases ht
  | _ =>
    cases ht
    rfl

theorem type_setResult {type t : DataType} {s : SymbolId}
    (h : t ∈ ((b.setResult type).listing.symbol s).type) :
    t = type ∨ t ∈ (b.listing.symbol s).type := by
  simp only [setResult, Listing.symbol, Array.getD_eq_getD_getElem?, Array.getElem?_modify] at h ⊢
  split at h
  · cases here : b.listing.symbols[s]? with
    | none =>
      rw [here] at h
      exact .inr h
    | some y =>
      rw [here] at h
      exact .inl (Option.some.inj h).symm
  · exact .inr h

/-- Changes with sized types keep a listing sized. -/
theorem Change.isSized (h : Change (Reader.terms ts) b b') (sized : b.listing.Sized) :
    b'.listing.Sized := by
  cases h with
  | enter entry _ =>
    intro s
    rw [Listing.symbol_push (symbols_enter ..)]
    split
    · exact entry.isSized
    · exact sized s
  | retype given =>
    intro s t ht
    rcases type_setResult ht with rfl | old
    · exact given
    · exact sized s t old
  | push line _ => exact sized
  | start _ _ => exact sized
  | report e => exact sized

theorem Changes.isSized (h : Changes (Reader.terms ts) b b') (sized : b.listing.Sized) :
    b'.listing.Sized := by
  induction h with
  | refl => exact sized
  | tail _ step ih => exact step.isSized ih

end Builder

namespace Listing

/-- Whatever the tokens, the arrays that they declare have positive lengths. -/
theorem sized_ofTokens (w : Int) (tokens : List Token) : (ofTokens w tokens).1.Sized := by
  refine (Builder.changes_ofTokens w tokens).isSized fun s t ht => ?_
  cases ht

theorem sized_of_parse {w : Int} {source : List Char} {l : Listing}
    (h : parse w source = .ok l) : l.Sized := by
  have sized := sized_ofTokens w (tokenize source).tokens
  rwa [(parse_eq_ok_iff.1 h).2] at sized

end Listing

/-! ## Space -/

/-- The bytes that a symbol takes in a frame whose words have the given size, however many. -/
def Symbol.space (y : Symbol) (wordSize : Int) : Int :=
  match y.type with
  | some (.array _ n) => n * wordSize
  | _ => wordSize

/-- The bytes that symbols take together. -/
def Listing.space (l : Listing) (wordSize : Int) (ss : List SymbolId) : Int :=
  (ss.map fun s => (l.symbol s).space wordSize).sum

theorem Word.wrap_eq_self_iff {n : Int} (h : 0 ≤ n) : wrap n = n ↔ n < bound := by
  constructor
  · intro same
    exact same ▸ (fits_iff.1 (fits_wrap n)).2
  · intro lt
    exact wrap_of_fits (fits_iff.2 ⟨Int.le_trans (by decide) h, lt⟩)

theorem Symbol.wrap_add_memorySize (y : Symbol) (size m : Int) :
    Word.wrap (m + y.memorySize size) = Word.wrap (m + y.space size) := by
  unfold memorySize space
  rcases y.type with _ | t | ⟨t, n⟩
  · rfl
  · rfl
  · exact Word.wrap_add_wrap ..

theorem Symbol.foldl_memorySize (ys : List Symbol) (size m : Int) :
    ys.foldl (fun n y => Word.wrap (n + y.memorySize size)) (Word.wrap m) =
      Word.wrap (m + (ys.map (·.space size)).sum) := by
  induction ys generalizing m with
  | nil => rw [List.foldl_nil, List.map_nil, List.sum_nil, Int.add_zero]
  | cons y ys ih =>
    rw [List.foldl_cons, wrap_add_memorySize, Word.wrap_wrap_add, ih, List.map_cons,
      List.sum_cons, Int.add_assoc]

/-- The space of sized symbols is at least a word for each. -/
theorem Listing.Sized.le_space {l : Listing} {size : Int} (h : l.Sized) (pos : 0 < size)
    (ss : List SymbolId) : size * ss.length ≤ l.space size ss := by
  have word (s : SymbolId) : size ≤ (l.symbol s).space size := by
    unfold Symbol.space
    split
    · next elem n array =>
      have length : 0 < n := of_decide_eq_true (h s _ array)
      exact le_mul_of_one_le_left (Int.le_of_lt pos) length
    · exact Int.le_refl _
  unfold Listing.space
  induction ss with
  | nil => simp
  | cons s ss ih =>
    have := word s
    rw [List.length_cons, List.map_cons, List.sum_cons, Int.natCast_succ, Int.mul_add, Int.mul_one]
    omega

/-- A report counts the space of the spilled variables up to wrapping. -/
theorem Report.spillBytes_ofWebs (l : Listing) (f : Function) (blocks attempts : Nat) (size : Int)
    (r : Webs) :
    (ofWebs l f blocks attempts size r).spillBytes = Word.wrap (l.space size r.spilled.toList) := by
  have total := Symbol.foldl_memorySize (r.spilled.toList.map l.symbol) size 0
  rw [List.map_map, Int.zero_add] at total
  exact total

/-! ## Reports -/

theorem Webs.mem_spilled {r : Webs} {s : SymbolId} :
    s ∈ r.spilled.toList ↔ ∃ w ∈ r.websOf s, w.spilled = true := by
  rw [← OrdSet.mem_def, spilled, OrdSet.mem_ofList, List.mem_map]
  refine exists_congr fun w => ?_
  rw [List.mem_filter, mem_websOf]
  tauto

theorem Webs.function_of_build {l : Listing} {as : List Annotation} {k serial : Nat} {r : Webs}
    (h : build l as k serial = .ok r) : r.function = k := by
  obtain ⟨scan, -, h⟩ := bind_eq_ok.1 h
  obtain ⟨d, -, h⟩ := bind_eq_ok.1 h
  cases h
  rfl

namespace Listing

variable {l : Listing} {as : List Annotation} {serial : Nat} {p p' : Palette} {ks : List Nat}
  {reports : List Report}

/-- The report on a function was made from webs: those that were built for it, in their places. -/
def Reported (l : Listing) (as : List Annotation) (serial : Nat) (p : Palette) (k : Nat)
    (report : Report) : Prop :=
  ∃ r, p.webs? k = some r ∧
    (∃ r₀, Webs.build l as k (serial + k) = .ok r₀ ∧
      r.webs.map Web.symbol = r₀.webs.map Web.symbol) ∧
    ∃ attempts, report = Report.ofWebs l (l.functions.getD k default)
      (as.getD k default).blocks.length attempts p.target.wordSize r

/-- The reports of a run are those on its functions, in their order, and made from the webs that the
palette ends with. -/
theorem forall₂_reports (h : l.allocateFunctions as serial p ks = (p', reports, none))
    (distinct : ks.Nodup) : p'.target = p.target ∧ (∀ k ∉ ks, p'.webs? k = p.webs? k) ∧
      List.Forall₂ (l.Reported as serial p') ks reports := by
  induction ks generalizing p reports with
  | nil =>
    cases h
    exact ⟨rfl, fun _ _ => rfl, .nil⟩
  | cons k ks ih =>
    obtain ⟨new, distinct⟩ := List.nodup_cons.1 distinct
    rw [allocateFunctions] at h
    dsimp only at h
    split at h
    · cases h
    next p₁ r res made =>
    rcases rest : l.allocateFunctions as serial p₁ ks with ⟨p₂, more, fault⟩
    rw [rest] at h
    cases h
    obtain ⟨rfl, r₀, hbuild, function, symbols⟩ := Palette.allocate_inv made
    have here : r.function = k := function.trans (Webs.function_of_build hbuild)
    obtain ⟨target, others, reported⟩ := ih rest distinct
    refine ⟨target, fun k' away => ?_, .cons ?_ reported⟩
    · have ne : k' ≠ r.function := by
        rintro rfl
        exact away (here ▸ List.mem_cons_self ..)
      rw [others k' fun mem => away (List.mem_cons_of_mem _ mem), Palette.webs?_record, if_neg ne]
    · refine ⟨r, ?_, ⟨r₀, hbuild, symbols⟩, res.attempts, by rw [target]⟩
      rw [others k new, Palette.webs?_record, if_pos here.symm]

/-- The variables of a web that is built over final live sets are locals. -/
theorem isLocal_of_build {as' : List Annotation} {k : Nat} {f : Function} {r : Webs} {s : SymbolId}
    (solved : Liveness.Solved l as as') (hf : l.functions[k]? = some f)
    (h : Webs.build l as' k serial = .ok r) (mem : s ∈ r.webs.map Web.symbol) :
    l.isLocal f s = true := by
  obtain ⟨w, hw, rfl⟩ := List.mem_map.1 mem
  obtain ⟨g, -, -, r', d₀, clusters, blocks, d, hbuild, assembled⟩ :=
    Webs.exists_assembled_of_solved solved hf serial
  cases hbuild.symm.trans h
  obtain ⟨x, hx⟩ := assembled.exists_mem_range hw
  have found := assembled.lookup?_eq_some_iff.2 ⟨Webs.mem_websOf.2 ⟨hw, rfl⟩, hx⟩
  exact (assembled.covered_of_lookup? found).1

/-- A run over a listing that is read from a text, and that the check reports no error for, reports
on every function. The variables that are named in a report are those with a web left in memory,
each once. The bytes in it are the space of these variables up to wrapping: they are right exactly
if the space can be counted in 64 bits. The space itself is at least a word for each variable. -/
theorem allocate_spillBytes {w : Int} {source : List Char} {o : Options}
    (parsed : parse w source = .ok l)
    (checked : ∀ ds, l.check = .ok ds → ∀ d ∈ ds, d.isError = false)
    (known : o.allocator ∈ ["", "briggs", "naive"]) (length : as.length = l.functions.length)
    (serial : Nat) (positive : 0 < (o.target.getD .mips).wordSize) :
    ∃ a, (l.allocate o as serial).outcome = .ok a ∧ a.reports.length = l.functions.length ∧
      ∀ k f report, l.functions[k]? = some f → a.reports[k]? = some report →
        ∃ r, a.palette.webs? k = some r ∧
          let size := (o.target.getD .mips).wordSize
          let spilled := a.palette.spilled k
          let space := l.space size spilled
          spilled.Nodup ∧ (∀ s, s ∈ spilled ↔ ∃ w ∈ r.websOf s, w.spilled = true) ∧
          (∀ s ∈ spilled, l.isLocal f s = true) ∧
          report.spilled = spilled.map (fun s => (l.symbol s).name) ∧
          report.spillBytes = Word.wrap space ∧ size * report.spilled.length ≤ space ∧
          (report.spillBytes = space ↔ space < Word.bound) := by
  have built : l.Built (fun _ => True) (· ∈ Opcode.named) :=
    (built_of_parse parsed).mono (fun _ _ => trivial) fun _ h => (List.mem_filter.1 h).1
  obtain ⟨ds, hds⟩ := check_ok built
  obtain ⟨as₁, a, h⟩ := allocate_ok built ⟨ds, hds, checked ds hds⟩ known length serial
  obtain ⟨target, -, reported⟩ := forall₂_reports h.functions List.nodup_range
  refine ⟨a, h.outcome, ?_, fun k f report hf here => ?_⟩
  · rw [← reported.length_eq, List.length_range]
  have rel := forall₂_getElem? reported k
  rw [List.getElem?_range (List.getElem?_eq_some_iff.1 hf).1, here] at rel
  cases rel with
  | some made =>
    obtain ⟨r, recorded, ⟨r₀, hbuild, symbols⟩, attempts, rfl⟩ := made
    have answer : a.palette.spilled k = r.spilled.toList := by rw [Palette.spilled, recorded]
    have size : a.palette.target.wordSize = (o.target.getD .mips).wordSize :=
      congrArg Target.wordSize target
    refine ⟨r, recorded, ?_⟩
    dsimp only
    rw [answer, Report.spillBytes_ofWebs, size]
    have space := (sized_of_parse parsed).le_space positive r.spilled.toList
    have names : (r.spilled.toList.map l.symbol).map Symbol.name =
        r.spilled.toList.map fun s => (l.symbol s).name := List.map_map
    refine ⟨OrdSet.nodup_toList _, fun s => Webs.mem_spilled, fun s mem => ?_, names, rfl, ?_, ?_⟩
    · obtain ⟨w, hw, -⟩ := Webs.mem_spilled.1 mem
      obtain ⟨inside, rfl⟩ := Webs.mem_websOf.1 hw
      refine isLocal_of_build h.solved hf hbuild ?_
      rw [← symbols]
      exact List.mem_map_of_mem inside
    · show _ * (((r.spilled.toList.map l.symbol).map Symbol.name).length : Int) ≤ _
      rw [names, List.length_map]
      exact space
    · refine Word.wrap_eq_self_iff (Int.le_trans ?_ space)
      exact Int.mul_nonneg (Int.le_of_lt positive) (Int.natCast_nonneg _)

/-- A function with an array of a given length and a variable that is live together with it. -/
def arrayText (length : String) : List Char :=
  ("func f() \x7b\n  var a: int[" ++ length ++ "]\n  assign b, 0\n  store a, 1, b\n" ++
    "  return b\n\x7d\n").toList

/-- Words of four bytes, and one register. -/
def oneRegister : Options := { target := some (Target.mips.limit 1) }

/-- The largest array whose size can be counted is reported with its size. -/
theorem allocate_spillBytes_largest :
    ∃ l a report, parse 4 (arrayText "2305843009213693951") = .ok l ∧
      (l.allocate oneRegister l.freshAnnotations 0).outcome = .ok a ∧ a.reports = [report] ∧
      report.spilled.length = 1 ∧ report.spillBytes = 9223372036854775804 := by
  have computed : (parse 4 (arrayText "2305843009213693951")).toOption.map (fun l =>
      (l.functions.length, l.check.toOption,
        (l.allocate oneRegister l.freshAnnotations 0).outcome.toOption.map (·.palette.spilled 0),
        l.space 4 [1])) = some (1, some [], some [1], 9223372036854775804) := by decide +kernel
  obtain ⟨l, parsed, facts⟩ := Option.map_eq_some_iff.1 computed
  simp only [Prod.mk.injEq] at facts
  obtain ⟨count, clean, spilled, space⟩ := facts
  obtain ⟨f, one⟩ := List.length_eq_one_iff.1 count
  have parsed := eq_ok_of_toOption parsed
  have checked : ∀ ds, l.check = .ok ds → ∀ d ∈ ds, d.isError = false := by
    intro ds hds
    cases hds.symm.trans (eq_ok_of_toOption clean)
    exact List.forall_mem_nil _
  have fresh : l.freshAnnotations.length = l.functions.length := List.length_map ..
  obtain ⟨a, outcome, length, reports⟩ := allocate_spillBytes (o := oneRegister) parsed checked
    (by decide) fresh 0 (by decide)
  obtain ⟨report, single⟩ := List.length_eq_one_iff.1 (length.trans count)
  obtain ⟨r, -, -, -, -, names, -, -, right⟩ := reports 0 f report (by rw [one]; rfl)
    (by rw [single]; rfl)
  rw [outcome] at spilled
  have answer : a.palette.spilled 0 = [1] := Option.some.inj spilled
  rw [answer] at names right
  have size : l.space (oneRegister.target.getD .mips).wordSize [1] = 9223372036854775804 := space
  rw [size] at right
  exact ⟨l, a, report, parsed, outcome, single, by rw [names]; rfl, right.2 (by decide)⟩

/-- An array that is longer by one element takes more bytes than can be counted, and is reported
with a negative size. -/
theorem spillBytes_negative :
    ∃ l a report, parse 4 (arrayText "2305843009213693952") = .ok l ∧
      (l.allocate oneRegister l.freshAnnotations 0).outcome = .ok a ∧ a.reports = [report] ∧
      report.spilled = ["a"] ∧ l.space 4 (a.palette.spilled 0) = 9223372036854775808 ∧
      report.spillBytes = -9223372036854775808 := by
  have computed : ((parse 4 (arrayText "2305843009213693952")).toOption.bind fun l =>
      (l.allocate oneRegister l.freshAnnotations 0).outcome.toOption.map fun a =>
        (a.reports.map fun report => (report.spilled, report.spillBytes),
          l.space 4 (a.palette.spilled 0))) =
      some ([(["a"], -9223372036854775808)], 9223372036854775808) := by decide +kernel
  obtain ⟨l, parsed, ran⟩ := Option.bind_eq_some_iff.1 computed
  obtain ⟨a, outcome, facts⟩ := Option.map_eq_some_iff.1 ran
  simp only [Prod.mk.injEq] at facts
  obtain ⟨reports, space⟩ := facts
  obtain ⟨report, single, told⟩ := List.map_eq_singleton_iff.1 reports
  simp only [Prod.mk.injEq] at told
  exact ⟨l, a, report, eq_ok_of_toOption parsed, eq_ok_of_toOption outcome, single, told.1, space,
    told.2⟩

end Listing

end RegColor
