-- One array that holds many: a greedy search joins the two arrays that overlap most
-- until one is left, and remembers where in it each of the given arrays begins. Empty
-- arrays take no part and begin at zero.
namespace ModularSynth.SuperArray

variable {α : Type} [DecidableEq α]

/-! ## Overlaps -/

/-- Do two arrays agree as far as the shorter one goes? -/
def agree : List α → List α → Bool
  | x :: xs, y :: ys => x == y && agree xs ys
  | _, _ => true

/-- The first position of `a` from which on it agrees with `b`; its length if there is
none before that. -/
def shift : List α → List α → Nat
  | [], _ => 0
  | x :: xs, b => if agree (x :: xs) b then 0 else shift xs b + 1

/-- How much of `b` lies in `a` if it is put at their shift. -/
def overlap (a b : List α) : Nat :=
  min (a.length - shift a b) b.length

/-! ## Pieces -/

/-- Arrays joined so far: what they make together, and where in it each of them begins,
by its number. -/
structure Piece (α : Type) where
  content : List α
  starts : List (Nat × Nat)
  deriving DecidableEq, Repr

namespace Piece

def single (number : Nat) (content : List α) : Piece α :=
  ⟨content, [(number, 0)]⟩

/-- Two pieces joined where they overlap. -/
def join (a b : Piece α) : Piece α :=
  ⟨a.content ++ b.content.drop (overlap a.content b.content),
    a.starts ++ b.starts.map fun (n, start) => (n, start + shift a.content b.content)⟩

end Piece

/-! ## The search -/

/-- Up to this many pieces the best pair is looked for; with more, the first two are
joined. -/
def searchLimit : Nat := 1000

/-- Two different places of a list of pieces and how much the pieces there overlap. -/
structure Candidate where
  left : Nat
  right : Nat
  amount : Nat
  deriving DecidableEq, Repr

/-- Every ordered pair of places, in order. -/
def candidates (pieces : List (Piece α)) : List Candidate :=
  let placed := pieces.zipIdx
  placed.flatMap fun (a, i) => placed.filterMap fun (b, j) =>
    if i = j then none else some ⟨i, j, overlap a.content b.content⟩

/-- The first of those candidates that overlap most. -/
def best (first : Candidate) : List Candidate → Candidate
  | [] => first
  | c :: rest => best (if c.amount > first.amount then c else first) rest

/-- The places of the two pieces to join next. -/
def choose (pieces : List (Piece α)) : Nat × Nat :=
  if pieces.length < searchLimit then
    match candidates pieces with
    | [] => (0, 1)
    | c :: rest => let c := best c rest; (c.left, c.right)
  else (0, 1)

/-- Join the pieces at two places. The result stands where the left one was. -/
def joinAt (pieces : List (Piece α)) (left right : Nat) : List (Piece α) :=
  match pieces[left]?, pieces[right]? with
  | some a, some b => (pieces.set left (a.join b)).eraseIdx right
  | _, _ => pieces

def joinMany : Nat → List (Piece α) → List (Piece α)
  | 0, pieces => pieces
  | n + 1, pieces => let (left, right) := choose pieces; joinMany n (joinAt pieces left right)

/-- The arrays that take part, as pieces. -/
def pieces (arrays : List (List α)) : List (Piece α) :=
  arrays.zipIdx.filterMap fun (array, number) =>
    if array.isEmpty then none else some (.single number array)

def joined (arrays : List (List α)) : Piece α :=
  let start := pieces arrays
  (joinMany (start.length - 1) start).head?.getD ⟨[], []⟩

/-- The array that holds all the given ones, and where each of them begins. -/
def find (arrays : List (List α)) : List α × List Nat :=
  let whole := joined arrays
  (whole.content, (List.range arrays.length).map fun n => (whole.starts.lookup n).getD 0)

end ModularSynth.SuperArray
