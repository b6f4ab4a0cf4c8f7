import Mathlib.Data.Nat.Factorial.Basic
import TaquinSolver.Java.PriorityQueue
import TaquinSolver.Solve.Utils

/-! The class `Graph` of `spring.taquin.solve`, with `Node`, `Triple` and `TripleComparator`: the
boards that moves reach from the goal, numbered in breadth-first order, the edges by which they were
found, and the parents that Dijkstra's algorithm computes on these edges.  Numbers of boards are
unbounded here, as is memory.  The priority queue is a parameter: any implementation for
`TripleComparator`. -/

namespace TaquinSolver

open Java

structure Node where
  taquinBS : BitSet
  iPuzzle : Int
  jPuzzle : Int
  deriving DecidableEq, Repr

structure Triple where
  first : Int
  second : Int
  third : Int
  deriving DecidableEq, Repr

/-- `TripleComparator.compare`.  The second test repeats the first one, as in the source, so its
branch is dead and the second components are never compared. -/
def TripleComparator.compare (o1 o2 : Triple) : Int :=
  if o1.first ≠ o2.first then o1.first - o2.first
  else if o1.first ≠ o2.first then o1.second - o2.second
  else o1.third - o2.third

structure Graph where
  ids : HashMap BitSet Int
  reverseIds : List Node
  graph : List (List Int)
  taquin : Taquin
  n : Int
  parents : List Int
  farthestNode : Int

namespace Graph

/-! ### The store of boards and edges -/

/-- `addNode`, whose `BitSet` may be `null`. -/
def addNode (g : Graph) (bs : Option BitSet) (iPuzzle jPuzzle : Int) : Graph × Bool :=
  match bs with
  | none => (g, false)
  | some bs =>
    if bs ∈ g.ids then (g, false)
    else
      ({ g with
          ids := g.ids.insert bs g.reverseIds.length
          reverseIds := g.reverseIds ++ [⟨bs, iPuzzle, jPuzzle⟩]
          graph := g.graph ++ [[]] }, true)

/-- `addEdge`.  When the second index is out of range the first list has already been extended. -/
def addEdge (g : Graph) (id1 id2 : Int) : Graph × Result Bool :=
  match listGet g.graph id1 with
  | .error e => (g, .error e)
  | .ok l1 =>
    let g := { g with graph := g.graph.set id1.toNat (l1 ++ [id2]) }
    match listGet g.graph id2 with
    | .error e => (g, .error e)
    | .ok l2 => ({ g with graph := g.graph.set id2.toNat (l2 ++ [id1]) }, .ok true)

/-- `getId`: unboxing `null` throws. -/
def getId (g : Graph) (bs : BitSet) : Result Int :=
  match g.ids.lookup bs with
  | some id => .ok id
  | none => .error .nullPointer

def getBitSet (g : Graph) (id : Int) : Result Node := listGet g.reverseIds id

def getParent (g : Graph) (i : Int) : Result Int := listGet g.parents i

def getNbits (g : Graph) : Int := g.taquin.nbits

def getSizeBS (g : Graph) : Int := g.taquin.sizeBS

/-! ### `creatGraph` -/

def validationPos (i lowerLimits upperLimits : Int) : Bool :=
  decide (i ≥ lowerLimits) && decide (i ≤ upperLimits)

/-- The local variables of `creatGraph` that survive an iteration, with the object. -/
structure Build where
  graph : Graph
  queue : List Triple

/-- The arrays `x` and `y`, index by index. -/
def directions : List (Int × Int) := [1, 0, -1, 0].zip [0, 1, 0, -1]

/-- The body of the `for` loop of `creatGraph`. -/
def tryMove (currID currI currJ : Int) (s : Build) (d : Int × Int) : Result Build := do
  let g := s.graph
  if validationPos (currI + d.1) 0 (g.n - 1) && validationPos (currJ + d.2) 0 (g.n - 1) then
    let nd ← listGet g.reverseIds currID
    let tem := nd.taquinBS
    let i := currI + d.1
    let j := currJ + d.2
    let move ← Utils.getValueBSAt i j g.n g.taquin.nbits g.taquin.sizeBS tem
    let tem ← Utils.setValueBSAt currI currJ g.n g.taquin.nbits g.taquin.sizeBS tem move
    let tem ← Utils.setValueBSAt i j g.n g.taquin.nbits g.taquin.sizeBS tem 0
    if tem ∉ g.ids then
      let g := (g.addNode (some tem) i j).1
      let id ← g.getId tem
      let (g, added) := g.addEdge id currID
      let _ ← added
      return { graph := g, queue := s.queue ++ [⟨id, i, j⟩] }
    else return s
  else return s

/-- The body of the `while` loop of `creatGraph`. -/
def expandNode (s : Build) : Result Build :=
  match s.queue with
  | [] => .error .nullPointer
  | triple :: queue =>
    directions.foldlM (tryMove triple.first triple.second triple.third) { s with queue }

/-- The condition of the `while` loop of `creatGraph`. -/
def nonempty (s : Build) : Bool := !s.queue.isEmpty

/-- The state before the `while` loop of `creatGraph`. -/
def startBuild (g : Graph) : Result Build := do
  let g := (g.addNode (some g.taquin.taquinBS) g.taquin.iPuzzle g.taquin.jPuzzle).1
  let id ← g.getId g.taquin.taquinBS
  return { graph := g, queue := [⟨id, g.taquin.iPuzzle, g.taquin.jPuzzle⟩] }

/-- `creatGraph`.  The boards are permutations of the cells, so there are at most `(n * n)!`. -/
def creatGraph (g : Graph) : Result Graph := do
  let s ← startBuild g
  let s ← whileLoop nonempty expandNode (g.n * g.n).toNat.factorial s
  return s.graph

/-! ### `dijkstra` -/

/-- The local variables of `dijkstra` that survive an iteration, with the fields that it sets. -/
structure Search (Heap : Type) where
  pq : Heap
  marks : List Bool
  parents : List Int
  farthestDistance : Int
  farthestNode : Int

variable (pq : PriorityQueue TripleComparator.compare)

/-- The body of the `while` loop of `dijkstra`. -/
def settle (graph : List (List Int)) (s : Search pq.Heap) : Result (Search pq.Heap) :=
  match pq.poll s.pq with
  | none => .error .nullPointer
  | some (aux, heap) => do
    let cost := aux.first
    let id := aux.second
    let parent := aux.third
    let mark ← listGet s.marks id
    if mark then
      let marks ← listSet s.marks id false
      let parents ← listSet s.parents id parent
      let (farthestDistance, farthestNode) :=
        if cost > s.farthestDistance then (cost, id) else (s.farthestDistance, s.farthestNode)
      let next ← listGet graph id
      return {
        pq := pq.addAll heap (next.map fun v => ⟨cost + 1, v, id⟩)
        marks, parents, farthestDistance, farthestNode }
    else return { s with pq := heap }

/-- The state before the `while` loop of `dijkstra`. -/
def startSearch (graph : List (List Int)) : Search pq.Heap where
  pq := pq.add pq.empty ⟨0, 0, 0⟩
  marks := List.replicate graph.length true
  parents := (List.range graph.length).map fun i : ℕ => (i : Int)
  farthestDistance := 0
  farthestNode := 0

/-- The condition of the `while` loop of `dijkstra`. -/
def unfinished (s : Search pq.Heap) : Bool := !pq.isEmpty s.pq

/-- `dijkstra`.  Each list of the graph is queued at most once, after the triple of the start. -/
def dijkstra (g : Graph) : Result Graph := do
  let s ← whileLoop (unfinished pq) (settle pq g.graph) (1 + (g.graph.map List.length).sum)
    (startSearch pq g.graph)
  return { g with parents := s.parents, farthestNode := s.farthestNode }

/-- The object before the constructor's calls: no board is known. -/
def empty (n : Int) (taquin : Taquin) : Graph where
  ids := ∅
  reverseIds := []
  graph := []
  taquin := taquin
  n := n
  parents := []
  farthestNode := 0

/-- The constructor `Graph(int n)`. -/
def new (n : Int) : Result Graph := do
  let taquin ← Taquin.new n
  let g ← (empty n taquin).creatGraph
  g.dijkstra pq

end Graph

end TaquinSolver
