import TaquinSolver.Java.Loop
import TaquinSolver.Java.PriorityQueue
import TaquinSolver.Search.Bfs
import TaquinSolver.Sliding.Walk
import TaquinSolver.Sliding.Grid
import TaquinSolver.Java.Text
import TaquinSolver.Solve.Utils
import TaquinSolver.Solve.Graph
import TaquinSolver.Packed
import TaquinSolver.Exploration
import TaquinSolver.Search.Frontier
import TaquinSolver.ShortestPaths
import TaquinSolver.Solver
import TaquinSolver.Rendering
import TaquinSolver.Client
import TaquinSolver.Session
import TaquinSolver.Legality
import TaquinSolver.Interference
import TaquinSolver.Parsing
import TaquinSolver.Search.Spanning
import TaquinSolver.SpanningTree
import TaquinSolver.Work
import TaquinSolver.Width
import TaquinSolver.Mutators
import TaquinSolver.FailedRequests
import TaquinSolver.SettlingOrder
import TaquinSolver.TieBreaking
import TaquinSolver.Json.Format
import TaquinSolver.Sio.Message
import TaquinSolver.Sio.Packet
import TaquinSolver.Sio.RoundTrip
import TaquinSolver.Concurrent.Interleave
import TaquinSolver.Sio.Stream
import TaquinSolver.Sio.Socket
import TaquinSolver.Sio.Delivery
import TaquinSolver.Sio.Threads
import TaquinSolver.Floats.Rounding
import TaquinSolver.Sio.Connection
import TaquinSolver.Sio.Utf8
import TaquinSolver.Sio.Client
import TaquinSolver.Concurrent.Runs
import TaquinSolver.Sio.Phases
import TaquinSolver.Sio.Reconnect
import TaquinSolver.Sio.Payloads
import TaquinSolver.Sio.Program
import TaquinSolver.Console.Listeners
import TaquinSolver.Console.Replay
import TaquinSolver.Console.Runs
import TaquinSolver.Console.Games
