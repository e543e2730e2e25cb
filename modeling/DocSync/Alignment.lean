/-!
The alignment of two sequences. The longest run of equal elements is kept, the earliest one of
several, and what lies on either side of it is aligned the same way.
-/

namespace DocSync.Alignment

variable {α κ : Type} [DecidableEq α] [DecidableEq κ]

/-- For each position of a sequence, the length of the common run that starts there and at `x`;
`below` holds those lengths for the element after `x`. -/
def runsAt (x : α) : List α → List Nat → List Nat
  | [], _ => []
  | y :: rest, below =>
    (if x = y then below.tail.headD 0 + 1 else 0) :: runsAt x rest below.tail

/-- The greatest of several lengths, and the first place where it stands. -/
def greatest : List Nat → Nat × Nat
  | [] => (0, 0)
  | n :: rest =>
    let (best, place) := greatest rest
    if best ≤ n then (n, 0) else (best, place + 1)

/-- A run of equal elements: where it starts in either sequence, and its length. -/
structure Block where
  old : Nat := 0
  new : Nat := 0
  size : Nat := 0
  deriving DecidableEq, Repr, Inhabited

/-- The longest common run, and the lengths of the runs that start at the first old element. -/
def search (new : List α) : List α → List Nat × Block
  | [] => ([], {})
  | x :: rest =>
    -- The blocks of the rest are known first; a block that starts here wins over an equal one.
    let (below, later) := search new rest
    let runs := runsAt x new below
    let (size, place) := greatest runs
    (runs, if later.size ≤ size then ⟨0, place, size⟩ else { later with old := later.old + 1 })

/-- The longest common run of two sequences; of several the one that starts first in the old
sequence, and then in the new one. -/
def longestBlock (old new : List α) : Block := (search new old).2

/-- A stretch of an alignment. -/
inductive Segment where
  /-- So many elements that are the same on both sides. -/
  | same (size : Nat)
  /-- So many old elements in whose place there are so many new ones. -/
  | differ (old new : Nat)
  deriving DecidableEq, Repr, Inhabited

/-- The alignment of two sequences; `fuel` bounds the number of blocks. -/
def segmentsFrom : Nat → List α → List α → List Segment
  | 0, old, new => [.differ old.length new.length]
  | fuel + 1, old, new =>
    let block := longestBlock old new
    if block.size = 0 then [.differ old.length new.length]
    else
      segmentsFrom fuel (old.take block.old) (new.take block.new) ++
        .same block.size ::
          segmentsFrom fuel (old.drop (block.old + block.size))
            (new.drop (block.new + block.size))

/-- The alignment of two sequences. -/
def segments (old new : List α) : List Segment := segmentsFrom (old.length + 1) old new

/-- Elements of two stretches paired by class, first to first; each comes with its position. -/
def pairByClass : List (κ × Nat) → List (κ × Nat) → List (Nat × Nat)
  | [], _ => []
  | (k, i) :: old, new =>
    match new.find? (·.1 = k) with
    | some (_, j) => (i, j) :: pairByClass old (new.eraseP (·.1 = k))
    | none => pairByClass old new

/-- The elements of a stretch with their positions, counted from `start`. -/
def numbered (start : Nat) : List κ → List (κ × Nat)
  | [] => []
  | k :: rest => (k, start) :: numbered (start + 1) rest

/-- The pairs of an alignment, given the classes of the elements on either side from the positions
`i` and `j` on. -/
def pairsFrom (i j : Nat) (old new : List κ) : List Segment → List (Nat × Nat)
  | [] => []
  | .same n :: rest =>
    (List.range n).map (fun k => (i + k, j + k)) ++
      pairsFrom (i + n) (j + n) (old.drop n) (new.drop n) rest
  | .differ m n :: rest =>
    pairByClass (numbered i (old.take m)) (numbered j (new.take n)) ++
      pairsFrom (i + m) (j + n) (old.drop m) (new.drop n) rest

/-- The positions of two sequences that belong together: equal elements of an alignment, and
between these the elements of one class in order. -/
def pairs (classOf : α → κ) (old new : List α) : List (Nat × Nat) :=
  pairsFrom 0 0 (old.map classOf) (new.map classOf) (segments old new)

/-- A position of the old sequence moved along with the stretch it lies in, where the stretches
start at the positions `i` and `j`; a position in none of them stays. -/
def shiftFrom (i j : Nat) (position : Int) : List Segment → Int
  | [] => position
  | segment :: rest =>
    let (m, n) := match segment with
      | .same n => (n, n)
      | .differ m n => (m, n)
    if (i : Int) ≤ position && position < (i + m : Nat) then position + ((j : Int) - (i : Int))
    else shiftFrom (i + m) (j + n) position rest

/-- A position of the old sequence moved along with the stretch it lies in. -/
def shift (alignment : List Segment) (position : Int) : Int := shiftFrom 0 0 position alignment

end DocSync.Alignment
