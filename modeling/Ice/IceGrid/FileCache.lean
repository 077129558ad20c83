import Mathlib
import Ice.Lib.TextFile

/-!
# Remote access to log files

`FileCache::read` returns the lines of a file from an offset on, as many as fit in a request, and
`FileCache::getOffsetFromEnd` finds where the last lines begin. Offsets are positions in the file,
the `int` computations wrap around.
-/

namespace Ice.IceGrid.FileCache

open Ice.Lib

/-- A computed `int` -/
def toInt (x : Int) : Int := x.bmod (2 ^ 32)

/-- `static_cast<size_t>` -/
def toSize (x : Int) : Nat := (x.emod (2 ^ 64)).toNat

/-- `FileNotAvailableException` -/
structure FileNotAvailable where
  reason : String
  deriving DecidableEq, Repr

/-- The results of `read` -/
structure ReadResult where
  endOfFile : Bool
  newOffset : Nat
  lines : List (List UInt8)
  deriving DecidableEq, Repr

/-- 5 bytes are for the encoding of the size of the string. -/
def lineSize (line : List UInt8) : Int := toInt (toInt line.length + 5)

/-- Whether a line does not fit any more -/
def exceeds (size totalSize : Int) (line : List UInt8) : Bool :=
  size < toInt (lineSize line + totalSize)

/-- What `read` returns at a line that does not fit any more: if there is some room left, a part of
the line -/
def readPart (size totalSize : Int) (newOffset : Nat) (lines : List (List UInt8))
    (line : List UInt8) : ReadResult :=
  if toInt (totalSize + 5) < size then
    let line := line.take (toSize (toInt (toInt (size - totalSize) - 5)))
    { endOfFile := false, newOffset := newOffset + line.length, lines := lines ++ [line] }
  else { endOfFile := false, newOffset, lines := lines ++ [[]] }

/-- The offset behind a line that was read: if it was a partial read, the size of the line tells. -/
def offsetBehind (is : Ifstream) (newOffset : Nat) (line : List UInt8) : Nat :=
  if is.good then is.tellg.toNat else newOffset + line.length

/-- The loop of `read` -/
def readLoop (size : Int) (is : Ifstream) (totalSize : Int) (newOffset : Nat)
    (lines : List (List UInt8)) : ReadResult :=
  if _hgood : is.good then
    let line := is.getline.1
    if exceeds size totalSize line then readPart size totalSize newOffset lines line
    else
      readLoop size is.getline.2 (toInt (totalSize + lineSize line))
        (offsetBehind is.getline.2 newOffset line)
        (lines ++ [line])
  else { endOfFile := is.eof, newOffset, lines }
termination_by is.content.length - is.pos + (if is.good then 1 else 0)
decreasing_by exact Ifstream.getline_lt _hgood

/-- `FileCache::read`; `none` for a file that cannot be opened. -/
def read (messageSizeMax : Int) (file : Option (List UInt8)) (offset : Nat) (size : Int) :
    Except FileNotAvailable ReadResult :=
  let size := if messageSizeMax < size then messageSizeMax else size
  if size ≤ 5 then .error ⟨"maximum bytes per read request is too low"⟩
  else
    match file with
    | none => .error ⟨"failed to open file"⟩
    | some content =>
      let is : Ifstream := { content }
      let is := is.seekEnd
      if is.tellg ≤ offset then
        .ok { endOfFile := true, newOffset := is.tellg.toNat, lines := [] }
      else .ok (readLoop size (is.seekg offset) 0 offset [])

/-- The inner loop of `getOffsetFromEnd`: the lines of a block, with where they begin -/
def readBlock (lastBlockOffset : Nat) (count : Int) (is : Ifstream) (totalCount : Int)
    (lines : List (Int × List UInt8)) : Int × List (Int × List UInt8) :=
  if _hgood : is.good ∧ is.tellg ≤ lastBlockOffset then
    let line := is.getline.1
    if is.getline.2.eof ∧ line = [] then
      readBlock lastBlockOffset count is.getline.2 totalCount lines
    else
      let lines' := lines ++ [(is.tellg, line)]
      if lines'.length = count + 1 then
        readBlock lastBlockOffset count is.getline.2 totalCount lines'.tail
      else readBlock lastBlockOffset count is.getline.2 (totalCount + 1) lines'
  else (totalCount, lines)
termination_by is.content.length - is.pos + (if is.good then 1 else 0)
decreasing_by all_goals exact Ifstream.getline_lt _hgood.1

/-- Where a block begins; the first line from there on is ignored, as it is most likely not
complete. -/
def seekBlock (is : Ifstream) (lastBlockOffset blockSize : Nat) : Ifstream :=
  if blockSize < lastBlockOffset then
    (is.clear.seekg (lastBlockOffset - blockSize)).getline.2
  else is.clear.seekg 0

/-- `lines[0].first` -/
def firstOffset (lines : List (Int × List UInt8)) : Int :=
  match lines with
  | [] => 0
  | (beg, _) :: _ => beg

/-- The outer loop of `getOffsetFromEnd` -/
def blockLoop (originalCount : Int) (is : Ifstream) (lastBlockOffset blockSize : Nat)
    (hpos : 0 < blockSize) (totalCount : Int) : Int :=
  let (totalCount, lines) := readBlock lastBlockOffset (originalCount - totalCount)
    (seekBlock is lastBlockOffset blockSize) totalCount []
  if _hbeg : lastBlockOffset < blockSize then firstOffset lines
  else if totalCount < originalCount then
    blockLoop originalCount is (lastBlockOffset - blockSize) (blockSize * 2) (by omega) totalCount
  else firstOffset lines
termination_by lastBlockOffset

/-- `FileCache::getOffsetFromEnd` -/
def getOffsetFromEnd (file : Option (List UInt8)) (originalCount : Int) :
    Except FileNotAvailable Int :=
  match file with
  | none => .error ⟨"failed to open file"⟩
  | some content =>
    if originalCount < 0 then .ok 0
    else
      let is : Ifstream := { content }
      let is := is.seekEnd
      if originalCount = 0 then .ok is.tellg
      else .ok (blockLoop originalCount is is.tellg.toNat (16 * 1024) (by omega) 0)

end Ice.IceGrid.FileCache
