import RegColor.Web.Basic

/-!
# Disjoint sets of webs

Webs are numbered in the order in which they are added, each a set of its own. Uniting two sets
merges their webs: the one that represents the united set takes over the range and the cost of the
other. Which one does is decided by rank, and among equal ranks the second argument wins. Looking up
a representative shortens the way to it.
-/

namespace RegColor

/-- A web in the forest, the number of its parent (its own number at a root) and its rank. -/
structure Forest.Node where
  web : Web
  parent : Nat
  rank : Nat := 0
deriving DecidableEq, Inhabited

/-- Disjoint sets of webs. -/
structure Forest where
  nodes : Array Forest.Node := #[]
deriving DecidableEq, Inhabited

namespace Forest

/-- The number of webs. -/
def size (d : Forest) : Nat := d.nodes.size

/-- The number of a web, if there is such a web. -/
def index (d : Forest) (v : Int) : Except Fault Nat :=
  if 0 ≤ v ∧ v < d.size then .ok v.toNat else .error (.undefined .outOfRange)

/-- The parent of a web. -/
def parent (d : Forest) (k : Nat) : Nat := (d.nodes.getD k default).parent

/-- The rank of a web. -/
def rank (d : Forest) (k : Nat) : Nat := (d.nodes.getD k default).rank

/-- The web with a number, as stored. -/
def web (d : Forest) (k : Nat) : Web := (d.nodes.getD k default).web

/-- Adds a web as a set of its own and numbers it. -/
def add (d : Forest) (w : Web) : Forest × Nat :=
  ({ nodes := d.nodes.push { web := { w with id := d.size }, parent := d.size } }, d.size)

/-- Changes a web. -/
def modifyWeb (d : Forest) (k : Nat) (f : Web → Web) : Forest :=
  { nodes := d.nodes.modify k (fun n => { n with web := f n.web }) }

/-- Makes a web the parent of another. -/
def setParent (d : Forest) (k parent : Nat) : Forest :=
  { nodes := d.nodes.modify k (fun n => { n with parent }) }

/-- Raises the rank of a web by one. -/
def raiseRank (d : Forest) (k : Nat) : Forest :=
  { nodes := d.nodes.modify k (fun n => { n with rank := n.rank + 1 }) }

/-- Follows parents to the root, at most `fuel` times, and makes it the parent of every web on the
way. -/
def climb (d : Forest) (k : Nat) : Nat → Forest × Nat
  | 0 => (d, k)
  | fuel + 1 =>
    if d.parent k = k then (d, k)
    else
      let (d', root) := d.climb (d.parent k) fuel
      (d'.setParent k root, root)

/-- The representative of a web's set. No way to a root is longer than the number of webs. -/
def find (d : Forest) (k : Nat) : Forest × Nat := d.climb k d.size

/-- The representative of a web's set, for a forest that stays as it is. -/
def root (d : Forest) (k : Nat) : Nat := (d.find k).2

/-- Makes the root `x` a child of the root `y`, whose web takes over. -/
def attach (d : Forest) (x y : Nat) : Forest :=
  (d.setParent x y).modifyWeb y (·.absorb (d.web x))

/-- Unites the sets of two webs and gives the representative. -/
def union (d : Forest) (a b : Nat) : Forest × Nat :=
  let (d, x) := d.find a
  let (d, y) := d.find b
  if x = y then (d, x)
  else if d.rank y < d.rank x then (d.attach y x, x)
  else if d.rank x = d.rank y then ((d.raiseRank y).attach x y, y)
  else (d.attach x y, y)

/-- The webs that represent their sets, by number. -/
def roots (d : Forest) : List Nat := (List.range d.size).filter (fun k => d.root k = k)

end Forest

end RegColor
