import DeviceVm.Store.ClassTable

/-!
Free persistent memory: a list of blocks in address order, each with the distance to the next.
A root holds the first block. It has a value of its own for the empty list, and is zero while a
collection rebuilds the list.
-/

namespace DeviceVm

namespace Persistent

open Store Word

def noFreeMemory : UInt32 := 0xffffffff

def range : Query (UInt32 × UInt32) := do
  let start ← record .eeprom SegmentRecord.partitionStart
  return (start, ← record .eeprom SegmentRecord.partitionEnd)

def freeList : Query UInt32 := root .eeprom Root.freeList

def setFreeList (block : UInt32) : Run Unit :=
  setRecord .eeprom (SegmentRecord.roots + Root.freeList) block

def attach : Run Unit := do
  let region := (← get).eeprom
  let start ← region.heapStart
  let stop ← region.stop
  if stop ≤ start then fatal (.noPersistentRoom region.size)
  setRecord .eeprom SegmentRecord.objectStart start
  setRecord .eeprom SegmentRecord.objectSize (stop - start)
  setRecord .eeprom SegmentRecord.partitionStart start
  setRecord .eeprom SegmentRecord.partitionFree start
  setRecord .eeprom SegmentRecord.partitionEnd stop
  Memory.zeroBytes start (stop - start)
  Block.initFree start (stop - start) 0
  setFreeList start
  say .debug .persistent fun _ =>
    "free space [" ++ Hex.word start ++ ", " ++ Hex.word stop ++ ")"

def nextFree (block : UInt32) : Read (Option UInt32) := do
  let distance ← Block.freeDistance block
  if distance == 0 then return none else return some (← plus block distance)

def carve (previous : Option UInt32) (block blockSize : UInt32) (next : Option UInt32)
    (size : UInt32) : Run Unit := do
  let replacement ← if size == blockSize then pure next else do
    let rest ← plus block size
    let distance ← match next with
      | none => pure 0
      | some next => minus next rest
    Block.initFree rest (blockSize - size) distance
    pure (some rest)
  match previous with
  | none => setFreeList (replacement.getD noFreeMemory)
  | some previous =>
    let distance ← match replacement with
      | none => pure 0
      | some replacement => minus replacement previous
    Block.setFreeDistance previous distance

def takeFrom (size : UInt32) (clear : Bool) :
    (fuel : Nat) → (previous : Option UInt32) → (block : UInt32) → Run UInt32
  | 0, _, _ => throw .endless
  | fuel + 1, previous, block => do
    let blockSize ← Block.freeSize block
    let next ← nextFree block
    if size ≤ blockSize then
      carve previous block blockSize next size
      if clear then Memory.zeroBytes block size
      say .trace .persistent fun _ => s!"{size} bytes at " ++ Hex.word block
      return block
    match next with
    | none => return 0
    | some next => takeFrom size clear fuel (some block) next

def take (bytes : UInt32) (clear : Bool) : Run UInt32 := do
  let size ← roundUp4 bytes
  let block ← freeList
  if block == 0 || block == noFreeMemory then return 0
  takeFrom size clear (← Memory.walkBound) none block

def newByteArray (count : UInt32) : Run UInt32 := do
  let k ← classNumbered ClassNumber.byteArray
  let header := Header.sizeForCount count
  let body := max (← roundUp4 count) 4
  let block ← take (← plus header body) true
  if block == 0 then return 0
  let oop ← plus block header
  Header.setClassAndCount oop k count
  return oop

def sumFree : (fuel : Nat) → (block total : UInt32) → Read UInt32
  | 0, _, _ => throw .endless
  | fuel + 1, block, total => do
    let total ← plus total (← Block.freeSize block)
    match ← nextFree block with
    | none => return total
    | some next => sumFree fuel next total

def freeMemory : Query UInt32 := do
  let block ← freeList
  if block == 0 || block == noFreeMemory then return 0
  sumFree (← Memory.walkBound) block 0

def totalMemory : Query UInt32 := do
  let (start, stop) ← range
  minus stop start

def wasInterrupted : Query Bool := return (← freeList) == 0

end Persistent

end DeviceVm
