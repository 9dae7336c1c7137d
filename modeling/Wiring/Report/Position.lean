import Wiring.Declaration.Basic

/-!
# Positions in source text

The part of a source that a span marks, and the line and column of a byte offset. Offsets past the
end are drawn in, a reversed span starts where its start says, and a mark is at least one byte wide
unless it stands at the end of the source. The offsets at which lines start are kept in a table of
numbers of 32 bits, and the line of an offset is found in it by halving. Lines and columns are
numbers of 32 bits as well, and wrap around.
-/

namespace Wiring

/-- The bytes of a source of `length` bytes that a span marks: the first, and the one after the
last. -/
def Span.range (s : Span) (length : Nat) : Nat × Nat :=
  let start := min s.start.toNat length
  let stop := max (min s.stop.toNat length) start
  if start = stop then (start, min (stop + 1) length) else (start, stop)

namespace Position

/-- The byte that ends a line. -/
def lineFeed : UInt8 := 10

/-- The bytes of a source. -/
def bytes (source : String) : List UInt8 := source.toUTF8.data.toList

/-- The offset after a byte, if the byte ends a line. -/
def startAfter? : UInt8 × Nat → Option Nat
  | (b, i) => if b = lineFeed then some (i + 1) else none

/-- The offsets at which the lines of a source start: its beginning, and wherever a byte that ends a
line comes before. -/
def lineOffsets (source : String) : List Nat :=
  0 :: (bytes source).zipIdx.filterMap startAfter?

/-- The table of the offsets at which lines start, as far as 32 bits can tell them. -/
def lineStarts (source : String) : Array UInt32 :=
  ((lineOffsets source).map (·.toUInt32)).toArray

/-- The first number from `lo` to `hi` that does not have a property, or `hi`; all numbers before it
have the property and none after it has. -/
def partitionPoint (p : Nat → Bool) (lo hi : Nat) : Nat :=
  if lo < hi then
    let middle := lo + (hi - lo) / 2
    if p middle then partitionPoint p (middle + 1) hi else partitionPoint p lo middle
  else lo
termination_by hi - lo

/-- The place in a table of line starts of the last one that is not past an offset. -/
def lineIndex (starts : Array UInt32) (offset : UInt32) : Nat :=
  partitionPoint (fun i => starts[i]?.any (· ≤ offset)) 0 starts.size - 1

/-- The line and the column of a byte offset in a table of line starts, both counted from one,
columns in bytes. There are none where the table has no entry for the line. -/
def locate? (starts : Array UInt32) (offset : UInt32) : Option (UInt32 × UInt32) :=
  let line := lineIndex starts offset
  starts[line]?.map fun start => (line.toUInt32 + 1, offset - start + 1)

/-- The line and the column of a byte offset of a source. The table of a source has them for every
offset. -/
def lineColumn (source : String) (offset : Nat) : Nat × Nat :=
  let (line, column) := (locate? (lineStarts source) offset.toUInt32).getD (1, 1)
  (line.toNat, column.toNat)

end Position

end Wiring
