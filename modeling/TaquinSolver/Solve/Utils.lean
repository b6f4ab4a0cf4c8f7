import TaquinSolver.Java.Loop
import TaquinSolver.Java.Text

/-! The classes `Utils` and `Taquin` of `spring.taquin.solve`: boards packed into a bit set, `nbits`
bits for each cell with the first cell in the highest bits, and their texts.  `Int` stands for
`int`.  Only the width computation of `nBits` truncates, and it does so here.  The squares of the
sides have to be in the range of `int`, and so do the products of positions and `nbits`. -/

namespace TaquinSolver

open Java

/-! ### `Utils` -/

namespace Utils

def getPosition (i j n : Int) : Int := i * n + j

/-- The loop of `getValueBS`, with `k` one below its first argument. -/
def readBits (taquinBS : BitSet) : ℕ → Int → ℕ → Result ℕ
  | 0, _, value => .ok value
  | k + 1, q, value => do
    let bit ← taquinBS.get q
    readBits taquinBS k (q - 1) (value ||| ((if bit then 1 else 0) <<< k))

def getValueBS (pos nbits sizeBS : Int) (taquinBS : BitSet) : Result Int := do
  let value ← readBits taquinBS nbits.toNat (sizeBS - pos * nbits - 1) 0
  return (value : Int)

/-- `getValueBS` at a row and a column. -/
def getValueBSAt (i j n nbits sizeBS : Int) (taquinBS : BitSet) : Result Int :=
  getValueBS (getPosition i j n) nbits sizeBS taquinBS

/-- The loop of `setValueBS`, with `k` one below its first argument. -/
def writeBits (value : Int) : ℕ → Int → BitSet → Result BitSet
  | 0, _, taquinBS => .ok taquinBS
  | k + 1, q, taquinBS =>
    if 0 ≤ q then do
      let taquinBS ← taquinBS.set q ((value >>> k) % 2 == 1)
      writeBits value k (q - 1) taquinBS
    else .ok taquinBS

/-- `setValueBS`, for a `pos * nbits` that does not wrap: `-2 ^ 31 ≤ pos * nbits < 2 ^ 31`. -/
def setValueBS (pos nbits sizeBS : Int) (taquinBS : BitSet) (value : Int) : Result BitSet :=
  writeBits value nbits.toNat (sizeBS - pos * nbits - 1) taquinBS

/-- `setValueBS` at a row and a column. -/
def setValueBSAt (i j n nbits sizeBS : Int) (taquinBS : BitSet) (value : Int) : Result BitSet :=
  setValueBS (getPosition i j n) nbits sizeBS taquinBS value

/-- The inner loop of `bitSetToString`: `row` and `k` after `count` more cells. -/
def appendCells (nbits sizeBS : Int) (taquinBS : BitSet) : ℕ → Text × Int → Result (Text × Int)
  | 0, s => .ok s
  | count + 1, (row, k) => do
    let value ← getValueBS k nbits sizeBS taquinBS
    appendCells nbits sizeBS taquinBS count (row ++ ' ' :: intToText value, k + 1)

/-- The outer loop of `bitSetToString`: `m` and `k` after `count` more rows. -/
def appendRows (n nbits sizeBS : Int) (taquinBS : BitSet) : ℕ → Text × Int → Result (Text × Int)
  | 0, s => .ok s
  | count + 1, (m, k) => do
    let (row, k) ← appendCells nbits sizeBS taquinBS n.toNat ([], k)
    appendRows n nbits sizeBS taquinBS count (m ++ row, k)

def bitSetToString (n nbits sizeBS : Int) (taquinBS : BitSet) : Result Text := do
  let (m, _) ← appendRows n nbits sizeBS taquinBS n.toNat ([], 0)
  return trim m

/-- The loop of `convertToStringtTBitset` over the remaining tokens.  No position wraps in a text of
fewer than `2 ^ 31 / nbits` tokens. -/
def storeTokens (nbits sizeBS : Int) : List Text → Int → BitSet → Result BitSet
  | [], _, bs => .ok bs
  | c :: s, i, bs => do
    let value ← parseInt c
    let bs ← setValueBS i nbits sizeBS bs value
    storeTokens nbits sizeBS s (i + 1) bs

/-- `convertToStringtTBitset`, whose parameter `n` is not used. -/
def convertToStringtTBitset (_n nbits sizeBS : Int) (taquin : Text) : Result BitSet :=
  storeTokens nbits sizeBS (split ' ' taquin) 0 .empty

end Utils

/-! ### `Taquin` -/

structure Taquin where
  taquinBS : BitSet
  maskBits : Int
  nbits : Int
  sizeBS : Int
  n : Int
  iPuzzle : Int
  jPuzzle : Int
  deriving DecidableEq, Repr

namespace Taquin

/-- `(char)((1 << nbits) - 1)`. -/
def maskOf (nbits : Int) : Int := toChar (toInt (shiftLeft 1 nbits - 1))

/-- The loop of `nBits`, which returns `nbits` and `maskBits`, for an `n * n` that is an `int`.  The
masks repeat after 32 rounds. -/
def nBits (n : Int) : Result (Int × Int) :=
  whileLoop (fun s => decide (s.2 < n * n - 1)) (fun s => .ok (s.1 + 1, maskOf (s.1 + 1))) 32
    (0, maskOf 0)

/-- The condition of the loop of `nBits`, in `int` arithmetic for any `n`. -/
def tooNarrow (n : Int) (s : Int × Int) : Bool := decide (s.2 < toInt (toInt (n * n) - 1))

/-- The body of the loop of `nBits`, in `int` arithmetic for any number of rounds. -/
def widen (s : Int × Int) : Result (Int × Int) := .ok (toInt (s.1 + 1), maskOf (toInt (s.1 + 1)))

/-- The loop of `setValueBS`, with `k` one below its first argument. -/
def writeBits (value : Int) : ℕ → Int → BitSet → Result BitSet
  | 0, _, taquinBS => .ok taquinBS
  | k + 1, q, taquinBS => do
    let taquinBS ← taquinBS.set q ((value >>> k) % 2 == 1)
    writeBits value k (q - 1) taquinBS

def getPosition (t : Taquin) (i j : Int) : Int := i * t.n + j

/-- The method `getValueBS`, with the loop of the one of `Utils`. -/
def getValueBS (t : Taquin) (pos : Int) : Result Int := do
  let value ← Utils.readBits t.taquinBS t.nbits.toNat (t.sizeBS - pos * t.nbits - 1) 0
  return (value : Int)

/-- `getValueBS` at a row and a column. -/
def getValueBSAt (t : Taquin) (i j : Int) : Result Int := t.getValueBS (t.getPosition i j)

/-- The method `setValueBS`, which unlike the one of `Utils` does not test the index. -/
def setValueBS (t : Taquin) (pos value : Int) : Result Taquin := do
  let taquinBS ← writeBits value t.nbits.toNat (t.sizeBS - pos * t.nbits - 1) t.taquinBS
  return { t with taquinBS }

/-- `setValueBS` at a row and a column. -/
def setValueBSAt (t : Taquin) (i j value : Int) : Result Taquin :=
  t.setValueBS (t.getPosition i j) value

/-- The loop of the constructor, for `count` values from `i` on. -/
def setValues : ℕ → Int → Taquin → Result Taquin
  | 0, _, t => .ok t
  | count + 1, i, t => do
    let t ← t.setValueBS (i - 1) i
    setValues count (i + 1) t

/-- The constructor `Taquin(int n)`, for an `n * n` that is an `int`. -/
def new (n : Int) : Result Taquin := do
  let (nbits, maskBits) ← nBits n
  let sizeBS := nbits * n * n
  let t := { taquinBS := .empty, maskBits, nbits, sizeBS, n, iPuzzle := 0, jPuzzle := 0 }
  let t ← setValues (n * n - 1).toNat 1 t
  return { t with iPuzzle := n - 1, jPuzzle := n - 1 }

end Taquin

end TaquinSolver
