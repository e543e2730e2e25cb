/-! Slices of a text by positions counted in characters. -/

namespace DocSync.Text

/-- A position counted from the end when negative, held inside a text of the given length. -/
def clamp (length : Nat) (i : Int) : Nat :=
  if i < 0 then (i + length).toNat else min i.toNat length

/-- The characters from `start` up to `stop`; none when the two cross. -/
def slice (text : List Char) (start stop : Int) : List Char :=
  let first := clamp text.length start
  (text.drop first).take (clamp text.length stop - first)

/-- The characters from `start` on. -/
def sliceFrom (text : List Char) (start : Int) : List Char :=
  text.drop (clamp text.length start)

/-- The characters before `stop`. -/
def sliceTo (text : List Char) (stop : Int) : List Char :=
  text.take (clamp text.length stop)

theorem clamp_le (length : Nat) (i : Int) : clamp length i ≤ length := by
  unfold clamp; split <;> omega

/-- Inside the text, a position that is not negative stands for itself. -/
theorem clamp_ofNat {length n : Nat} (inside : n ≤ length) : clamp length n = n := by
  unfold clamp; split <;> omega

/-- What comes before a position and what comes from it on make up the text. -/
theorem sliceTo_append_sliceFrom (text : List Char) (i : Int) :
    sliceTo text i ++ sliceFrom text i = text :=
  List.take_append_drop _ _

/-- Between ordered positions inside the text a slice is the usual one. -/
theorem slice_ofNat {text : List Char} {start stop : Nat} (ordered : start ≤ stop)
    (inside : stop ≤ text.length) :
    slice text start stop = (text.drop start).take (stop - start) := by
  simp only [slice, clamp_ofNat inside, clamp_ofNat (Nat.le_trans ordered inside)]

end DocSync.Text
