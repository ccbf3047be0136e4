import Synopsis.Text.Slice

/-!
# Byte ranges

A range is a pair of byte offsets. Trees come from outside, so a range may be inverted or point
past the text; `Range.ofBounds` is the checked way to make one, and `clampTo` brings any range into
a text of a given length so that it can be shown.
-/

namespace Synopsis

/-- A pair of byte offsets, the second of them exclusive. -/
structure Range where
  start : Nat
  stop : Nat
deriving DecidableEq, Inhabited, Repr

namespace Range

/-- What is wrong with a range that ends before it starts. -/
inductive Fault where
  | inverted (start stop : Nat)
  | negativeLength
deriving DecidableEq, Repr

/-- The wording of a range's fault. -/
def Fault.message : Fault → String
  | .inverted start stop => s!"inverted range {start}..{stop}"
  | .negativeLength => "attempt to subtract with overflow"

/-- The empty range at an offset. -/
def point (offset : Nat) : Range := ⟨offset, offset⟩

/-- The range between two offsets. That they are in order is an assertion, which only a debugging build makes:
it is all that keeps the ranges of a built tree in order. -/
def ofBounds (start stop : Nat) : Except Fault Range :=
  if start ≤ stop then .ok ⟨start, stop⟩ else .error (.inverted start stop)

/-- The number of bytes that a range covers. -/
def length (range : Range) : Except Fault Nat :=
  if range.start ≤ range.stop then .ok (range.stop - range.start) else .error .negativeLength

/-- Whether a range starts where it stops. -/
def isEmpty (range : Range) : Bool := range.start = range.stop

/-- Whether `inner` neither starts before `outer` nor stops after it. -/
def contains (outer inner : Range) : Bool :=
  outer.start ≤ inner.start ∧ inner.stop ≤ outer.stop

/-- The part of a range, read in ascending order, that lies in a text of a given length. -/
def clampTo (range : Range) (length : Nat) : Range :=
  ⟨min (min range.start range.stop) length, min (max range.stop range.start) length⟩

/-- The text that a range covers, if its ends are boundaries of the text and in order. -/
def slice? (range : Range) (text : String) : Option String :=
  Text.slice? text range.start range.stop

instance : ToString Range := ⟨fun range => s!"{range.start}..{range.stop}"⟩

end Range

end Synopsis
