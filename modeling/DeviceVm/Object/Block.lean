import DeviceVm.Object.Header

/-!
Blocks: the storage of an object from its header on, and free storage between objects. A free
block starts with the byte distance to the next free one and, unless it is a single word, with
its size behind that.
-/

namespace DeviceVm.Block

open Word

def headerSize (block : UInt32) : Read UInt32 :=
  return if HeaderTag.ofWord (← Memory.wordAt block) == .arrayLength then 8 else 4

def toObject (block : UInt32) : Read UInt32 := do
  plus block (← headerSize block)

def ofObject (oop : UInt32) : Read UInt32 := do
  minus oop (← Header.size oop)

def after (oop : UInt32) : Read UInt32 := do
  plus oop (← Header.bodySize oop)

def isFree (block : UInt32) : Read Bool :=
  return HeaderTag.ofWord (← Memory.wordAt block) == .freeBlock

def initFree (block size distance : UInt32) : Edit Unit := do
  require (size ≥ 4 && size % 4 == 0)
  let head := distance <<< 3 ||| 3
  if size > 4 then
    Memory.setWordAt (← plus block 4) size
    Memory.setWordAt block (head ||| 4)
  else
    Memory.setWordAt block head

def freeSize (block : UInt32) : Read UInt32 := do
  let head ← Memory.wordAt block
  require (HeaderTag.ofWord head == .freeBlock)
  if head &&& 4 != 0 then Memory.wordAt (← plus block 4) else return 4

def freeDistance (block : UInt32) : Read UInt32 :=
  return (← Memory.wordAt block) >>> 3

def setFreeDistance (block distance : UInt32) : Edit Unit := do
  let head ← Memory.wordAt block
  Memory.setWordAt block (distance <<< 3 ||| head &&& 7)

def objectFrom (stop : UInt32) : (fuel : Nat) → (block : UInt32) → Read UInt32
  | 0, _ => throw .endless
  | fuel + 1, block => do
    if block ≥ stop then return 0
    if ← isFree block then
      objectFrom stop fuel (← plus block (← freeSize block))
    else toObject block

def firstObject (start stop : UInt32) : Read UInt32 := do
  objectFrom stop (← Memory.walkBound) start

def nextObject (oop stop : UInt32) : Read UInt32 := do
  firstObject (← after oop) stop

end DeviceVm.Block
