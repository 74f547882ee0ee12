import RegColor.Analysis.Liveness
import RegColor.Graph
import RegColor.Web.Forest

/-!
# Building webs

`Webs.build` finds the webs of a function. Each block is scanned by itself: a web is open for every
local that is live on entry, a write opens a web where none is open, and a web is closed after the
last instruction at which its variable is live. Then the webs of a variable that meet on an edge of
the control flow are united. Webs interfere when they are kept or written at the same instruction;
each instruction's *cluster* lists them.
-/

namespace RegColor

/-- The webs of a block: those open on entry and on exit by variable, and those closed inside. -/
structure BlockWebs where
  entry : OrdMap SymbolId Nat := ∅
  exit : OrdMap SymbolId Nat := ∅
  closed : List Nat := []
deriving DecidableEq, Inhabited

/-- The webs of a function, given by the position of the function. `webs` holds one web per set,
by number; all other parts name webs by these numbers. `serial` tells apart results built at different
times. -/
structure Webs where
  function : Nat
  webs : List Web
  blocks : List BlockWebs
  clusters : List (List Nat)
  graph : Graph
  serial : Nat

namespace Webs

instance : Inhabited Webs := ⟨⟨0, [], [], [], .empty, 0⟩⟩

/-! ## Questions -/

/-- The web with a number. -/
def web? (r : Webs) (id : Int) : Option Web := r.webs.find? (fun w => (w.id : Int) = id)

/-- The cost of a web, zero for a number that is not used. -/
def cost (r : Webs) (id : Int) : Int := ((r.web? id).map Web.cost).getD 0

/-- The webs of a variable. -/
def websOf (r : Webs) (s : SymbolId) : List Web := r.webs.filter (·.symbol = s)

/-- The web of a variable at an instruction of this function. -/
def lookup? (r : Webs) (s : SymbolId) (i : InstrId) : Option Web :=
  r.webs.find? (fun w => w.symbol = s && i ∈ w.range)

/-- The variables with a web left in memory. -/
def spilled (r : Webs) : SymbolSet := .ofList ((r.webs.filter Web.spilled).map Web.symbol)

/-- A list of webs in the text of a block. -/
def namesText (l : Listing) (r : Webs) (ids : List Nat) : String :=
  let name (id : Nat) : String :=
    s!"{l.textOf (((r.web? id).getD default).symbol)}#{id}"
  "[" ++ " ".intercalate (ids.map name) ++ "]"

/-- The webs of every block as text. -/
def text (l : Listing) (r : Webs) : String :=
  String.join <| r.blocks.zipIdx.map fun (b, k) =>
    s!"B{k} in={namesText l r b.entry.values} closed={namesText l r b.closed} " ++
      s!"out={namesText l r b.exit.values}\n"

/-! ## Scanning a block -/

/-- The state of a scan: the webs so far, the open web of each live variable, the webs closed in the
block and the clusters so far. -/
structure Scan where
  forest : Forest := {}
  live : OrdMap SymbolId Nat := ∅
  closed : List Nat := []
  clusters : List (List Nat) := []

/-- A cluster with one more web. -/
def joinCluster (cluster : List Nat) (w : Nat) : List Nat :=
  if w ∈ cluster then cluster else cluster ++ [w]

section

variable (l : Listing) (f : Function) (uses : Instr → List SymbolId) (live : LiveSets)

/-- Whether a symbol is live after an instruction. -/
def isLiveAfter (i : Instr) (s : SymbolId) : Except Fault Bool :=
  match live.after? i.id with
  | some set => .ok (s ∈ set)
  | none => .error (.undefined .noLiveSets)

/-- The open web of a symbol at an instruction. -/
def openWeb (st : Scan) (i : Instr) (s : SymbolId) : Except Fault Nat :=
  match st.live.get? s with
  | some w => .ok w
  | none => .error (.noOpenWeb (l.nameOf f) (l.textOf s) (l.instrText i))

/-- Opens a web for a variable. -/
def openNew (st : Scan) (s : SymbolId) : Scan × Nat :=
  let (forest, w) := st.forest.add { id := 0, symbol := s }
  ({ st with forest, live := st.live.insert s w }, w)

/-- Changes a web of a scan. -/
def modifyWeb (st : Scan) (w : Nat) (g : Web → Web) : Scan :=
  { st with forest := st.forest.modifyWeb w g }

/-- Opens a web for each local that is live on entry to the block. -/
def openEntry (i : Instr) (st : Scan) (s : SymbolId) : Scan :=
  if l.isLocal f s then
    let (st, w) := openNew st s
    modifyWeb st w (·.extend i.id)
  else st

/-- A local live before an instruction: its web covers the instruction, and belongs to the cluster
if the local stays live. -/
def passLive (i : Instr) (st : Scan × List Nat) (s : SymbolId) :
    Except Fault (Scan × List Nat) :=
  if l.isLocal f s then do
    let w ← openWeb l f st.1 i s
    let keeps ← isLiveAfter live i s
    .ok (modifyWeb st.1 w (·.extend i.id), if keeps then joinCluster st.2 w else st.2)
  else .ok st

/-- A local written by an instruction: its web, opened if need be, covers the instruction, pays for
the access and belongs to the cluster. -/
def passDef (i : Instr) (st : Scan × List Nat) (s : SymbolId) : Scan × List Nat :=
  if l.isLocal f s then
    let (sc, w) :=
      match st.1.live.get? s with
      | some w => (st.1, w)
      | none => openNew st.1 s
    (modifyWeb sc w (fun w => (w.extend i.id).charge), joinCluster st.2 w)
  else st

/-- A local read by an instruction: its web pays for the access. -/
def passUse (i : Instr) (st : Scan) (s : SymbolId) : Except Fault Scan :=
  if l.isLocal f s then do
    let w ← openWeb l f st i s
    .ok (modifyWeb st w Web.charge)
  else .ok st

/-- Closes the web of a variable that is not live after an instruction. -/
def closeDead (i : Instr) (st : Scan) (s : SymbolId) : Except Fault Scan := do
  if ← isLiveAfter live i s then .ok st
  else
    .ok { st with
      closed := st.closed ++ (st.live.get? s).toList
      live := st.live.filterKeys (· ≠ s) }

/-- Scans an instruction. -/
def scanInstr (st : Scan) (i : Instr) : Except Fault Scan := do
  let before := ((live.before? i.id).map OrdSet.toList).getD []
  let (st, cluster) ← before.foldlM (passLive l f live i) (st, [])
  let (st, cluster) := i.defs.foldl (passDef l f i) (st, cluster)
  let st ← (uses i).foldlM (passUse l f i) st
  let st ← st.live.keys.foldlM (closeDead live i) st
  .ok { st with clusters := if cluster.isEmpty then st.clusters else st.clusters ++ [cluster] }

/-- Scans block `k`: the webs so far go in, and those of the block come out with them. -/
def scanBlock (forest : Forest) (clusters : List (List Nat)) (k : Nat) (b : Block) :
    Except Fault (Scan × BlockWebs) :=
  match live.before? b.leader.id with
  | none => .error (.noLiveSets (l.nameOf f) k)
  | some entry => do
    let st := entry.toList.foldl (openEntry l f b.leader) { forest, clusters }
    let final ← b.instrs.foldlM (scanInstr l f uses live) st
    .ok (final, { entry := st.live, exit := final.live, closed := final.closed })

/-- Scans blocks, the first of which is block `k`. -/
def scanBlocks (forest : Forest) (clusters : List (List Nat)) (k : Nat) :
    List Block → Except Fault (Forest × List (List Nat) × List BlockWebs)
  | [] => .ok (forest, clusters, [])
  | b :: bs => do
    let (st, here) ← scanBlock l f uses live forest clusters k b
    let (forest, clusters, more) ← scanBlocks st.forest st.clusters (k + 1) bs
    .ok (forest, clusters, here :: more)

/-! ## Joining blocks -/

/-- Unites the web of a variable on entry to block `t` with its web on exit from block `k`. -/
def joinSymbol (blocks : List BlockWebs) (k t : Nat) (d : Forest) (entry : SymbolId × Nat) :
    Except Fault Forest :=
  match (blocks.getD k default).exit.get? entry.1 with
  | none => .error (.noWebLeaves (l.nameOf f) (l.textOf entry.1) t k)
  | some out => .ok (d.union entry.2 out).1

/-- Unites the webs that meet on the edge from block `k` to block `t`. -/
def joinEdge (blocks : List BlockWebs) (k : Nat) (d : Forest) (t : Nat) : Except Fault Forest :=
  (blocks.getD t default).entry.toList.foldlM (joinSymbol l f blocks k t) d

/-- Unites the webs that meet on the edges from block `k`. -/
def joinEdges (flow : Option Digraph) (blocks : List BlockWebs) (d : Forest) (k : Nat) :
    Except Fault Forest :=
  match flow with
  | none => .error (.undefined .noFlowGraph)
  | some g => (g.successors k).foldlM (joinEdge l f blocks k) d

end

/-! ## The result -/

/-- The representatives of webs, each once. -/
def canonical (d : Forest) (ids : List Nat) : List Nat := (ids.map d.root).eraseDups

/-- The graph of webs that interfere: each cluster is a clique. -/
def interference (webs : List Nat) (clusters : List (List Nat)) : Graph :=
  clusters.foldl (fun g c => g.addClique (c.map Int.ofNat))
    (webs.foldl (fun g (w : Nat) => g.addVertex w) .empty)

/-- The webs of the function at position `k`. The live sets must be final. -/
def build (l : Listing) (as : List Annotation) (k serial : Nat) : Except Fault Webs := do
  let f := l.functions.getD k default
  let a := as.getD k default
  let uses := l.uses (Liveness.entries as)
  let (forest, clusters, blocks) ← scanBlocks l f uses a.live {} [] 0 a.blocks
  let d ← (List.range a.blocks.length).foldlM (joinEdges l f a.flow blocks) forest
  let clusters := clusters.map (canonical d)
  .ok
    { function := k
      webs := d.roots.map d.web
      blocks := blocks.map fun b =>
        { entry := b.entry.map d.root, exit := b.exit.map d.root, closed := canonical d b.closed }
      clusters
      graph := interference d.roots clusters
      serial }

end Webs

end RegColor
