import TaquinSolver.Solve.Graph

/-! The classes `ConnectionServerSocketIO` and `TaquinClient` of `spring.taquin`: a client that
answers the events of a server.  A method gives the client that it leaves and the text that it
returns, so that what it assigned before an exception stays assigned.  The step counter is
unbounded, like the numbers of boards. -/

namespace TaquinSolver

open Java

/-- A `JSONObject`, as the texts that `getString` finds in it. -/
abbrev JSONObject := List (Text × Text)

/-- `JSONObject.getString`, which throws a `JSONException` when there is no such member. -/
def JSONObject.getString (obj : JSONObject) (key : Text) : Option Text := obj.lookup key

structure ConnectionServerSocketIO where
  username : Text
  id : Option Text
  deriving DecidableEq

/-- A client.  Its own `id`, the number of a board, hides the one of `connection`. -/
structure TaquinClient where
  connection : ConnectionServerSocketIO
  step : Int
  graphs : List Graph
  size : Int
  id : Int

/-- What the server sends. -/
inductive Event
  | connect
  | login (obj : JSONObject)
  | start
  | getMatriz (obj : JSONObject)
  | solve (obj : JSONObject)
  | ackSolve
  | errorSolve
  | disconnect
  deriving DecidableEq

/-- What the client sends. -/
inductive Emission
  | addUser (username : Text)
  | startRequest (id : Option Text)
  | getMatrizReply (matriz : Text)
  | step (reply : Text)
  deriving DecidableEq

namespace TaquinClient

/-- The constructor, which builds the graphs of sizes 2 and 3. -/
def new (pq : PriorityQueue TripleComparator.compare) (username : Text) : Result TaquinClient := do
  let graphs ← [2, 3].mapM (Graph.new pq)
  return { connection := ⟨username, none⟩, step := 0, graphs, size := 0, id := 0 }

/-! ### `TaquinClient` -/

def getTaquin (c : TaquinClient) (size_ : Int) : TaquinClient × Result Text :=
  let size_ := toInt (size_ - 2)
  let c := { c with size := size_ }
  (c, do
    let g ← listGet c.graphs size_
    let nd ← g.getBitSet g.farthestNode
    Utils.bitSetToString g.n g.getNbits g.getSizeBS nd.taquinBS)

/-- The text that the three solving methods return. -/
def stepReply (c : TaquinClient) : Result Text := do
  let g ← listGet c.graphs c.size
  let nd ← g.getBitSet c.id
  return intToText c.step ++ ' ' :: intToText nd.iPuzzle ++ ' ' :: intToText nd.jPuzzle

/-- The number that `solveTaquin` finds for a text. -/
def findId (c : TaquinClient) (matriz : Text) : Result Int := do
  let g ← listGet c.graphs c.size
  let bs ← Utils.convertToStringtTBitset g.n g.getNbits g.getSizeBS matriz
  g.getId bs

/-- The parent of the current board. -/
def parentId (c : TaquinClient) : Result Int := do
  let g ← listGet c.graphs c.size
  g.getParent c.id

def solveTaquin (c : TaquinClient) (matriz : Text) : TaquinClient × Result Text :=
  let c := { c with step := 1 }
  match c.findId matriz with
  | .error e => (c, .error e)
  | .ok id =>
    let c := { c with id }
    match c.parentId with
    | .error e => (c, .error e)
    | .ok id =>
      let c := { c with id }
      (c, c.stepReply)

def solveNextStep (c : TaquinClient) : TaquinClient × Result Text :=
  match c.parentId with
  | .error e => (c, .error e)
  | .ok id =>
    let c := { c with id, step := c.step + 1 }
    (c, c.stepReply)

def errorStep (c : TaquinClient) : TaquinClient × Result Text := (c, c.stepReply)

/-! ### `ConnectionServerSocketIO` -/

/-- `socket.emit`, whose argument may throw: then nothing is sent. -/
def emit (event : Text → Emission) (r : TaquinClient × Result Text) :
    TaquinClient × List Emission :=
  match r.2 with
  | .ok s => (r.1, [event s])
  | .error _ => (r.1, [])

/-- The handlers that `startServerConnection` registers.  A missing member is logged. -/
def handle (c : TaquinClient) : Event → TaquinClient × List Emission
  | .connect => (c, [.addUser c.connection.username])
  | .login obj =>
    match obj.getString ['i', 'd'] with
    | some id => ({ c with connection := { c.connection with id := some id } }, [])
    | none => (c, [])
  | .start => (c, [.startRequest c.connection.id])
  | .getMatriz obj =>
    match obj.getString ['n', '_', 's', 'i', 'z', 'e'] with
    | some s =>
      match parseInt s with
      | .ok size => emit .getMatrizReply (c.getTaquin size)
      | .error _ => (c, [])
    | none => (c, [])
  | .solve obj =>
    match obj.getString ['i', 'd'] with
    | some id =>
      if c.connection.id = some id then
        match obj.getString ['m', 'a', 't', 'r', 'i', 'z'] with
        | some matriz => emit .step (c.solveTaquin matriz)
        | none => (c, [])
      else (c, [])
    | none => (c, [])
  | .ackSolve => emit .step c.solveNextStep
  | .errorSolve => emit .step c.errorStep
  | .disconnect => (c, [])

/-! ### Runs -/

/-- The client after a list of events. -/
def after (c : TaquinClient) (es : List Event) : TaquinClient :=
  es.foldl (fun c e => (c.handle e).1) c

/-- What the client sends in answer to each event of a list. -/
def answers (c : TaquinClient) : List Event → List (List Emission)
  | [] => []
  | e :: es => (c.handle e).2 :: answers (c.handle e).1 es

theorem answers_append (c : TaquinClient) (es es' : List Event) :
    c.answers (es ++ es') = c.answers es ++ (c.after es).answers es' := by
  induction es generalizing c with
  | nil => rfl
  | cons e es ih => simp [answers, after, ih]

theorem length_answers (c : TaquinClient) (es : List Event) :
    (c.answers es).length = es.length := by
  induction es generalizing c with
  | nil => rfl
  | cons e es ih => simp [answers, ih]

theorem solveTaquin_graphs (c : TaquinClient) (matriz : Text) :
    (c.solveTaquin matriz).1.graphs = c.graphs := by
  unfold solveTaquin
  dsimp only
  split
  · rfl
  · split <;> rfl

/-- No event changes the graphs. -/
theorem handle_graphs (c : TaquinClient) (e : Event) : (c.handle e).1.graphs = c.graphs := by
  have hEmit : ∀ (event : Text → Emission) (r : TaquinClient × Result Text),
      (emit event r).1 = r.1 := by
    intro event r
    unfold emit
    split <;> rfl
  cases e with
  | login obj =>
    simp only [handle]
    split <;> rfl
  | getMatriz obj =>
    simp only [handle]
    split
    · split
      · rw [hEmit]
        rfl
      · rfl
    · rfl
  | solve obj =>
    simp only [handle]
    split
    · split
      · split
        · rw [hEmit, solveTaquin_graphs]
        · rfl
      · rfl
    · rfl
  | ackSolve =>
    simp only [handle]
    rw [hEmit]
    unfold solveNextStep
    split <;> rfl
  | errorSolve =>
    simp only [handle]
    rw [hEmit]
    rfl
  | connect => rfl
  | start => rfl
  | disconnect => rfl

theorem after_graphs (c : TaquinClient) (es : List Event) : (c.after es).graphs = c.graphs := by
  induction es generalizing c with
  | nil => rfl
  | cons e es ih => exact (ih _).trans (c.handle_graphs e)

end TaquinClient

end TaquinSolver
