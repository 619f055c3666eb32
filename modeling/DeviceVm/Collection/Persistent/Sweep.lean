import DeviceVm.Collection.Persistent.FreeList
import DeviceVm.Collection.Tracing

/-!
Collection of persistent memory. The guest lends an array for the mark bits and one for the mark
stack. Everything that a root or any object in RAM refers to is live; what lies between live
objects becomes free.
-/

namespace DeviceVm

namespace Persistent

open Store Word

def markObject (space : Space) (trace : UInt32 → Run Unit) (oop : UInt32) : Run Unit := do
  if space.has oop then
    if !(← testAndSetBit oop) then trace oop

def marker (space : Space) : Tracer := fun trace base index => do
  let oop ← Memory.word base index
  if oop != 0 then
    if ← inEeprom oop then markObject space trace oop
    else if ← inRam oop then
      if ← Header.isForwarded oop then
        markObject space trace (← Header.forwardTarget oop)

def markFromRam (space : Space) (stop : UInt32) : (fuel : Nat) → (block : UInt32) → Run Unit
  | 0, _ => throw .endless
  | fuel + 1, block => do
    if block < stop then
      let oop ← Block.toObject block
      if ← Header.isForwarded oop then
        let copy ← Header.forwardTarget oop
        markObject space (marker space).trace copy
        markFromRam space stop fuel (← plus oop (← Header.bodySize copy))
      else
        let k ← Header.classOf oop
        (marker space).scan (marker space).trace oop
        markFromRam space stop fuel (← plus oop (← Header.bodySizeAs oop k))

def mark (space ram : Space) (stack stackSize : UInt32) : Run Unit := do
  let stackEnd ← plus stack stackSize
  updateMarks (·.setup stack stackEnd)
  let eeprom := (← get).eeprom.start
  Root.all.forM fun index => do
    if index != Root.freeList then
      (marker space).visit eeprom (SegmentRecord.roots + index)
  let ramStart := (← get).ram.start
  Root.all.forM fun index =>
    (marker space).visit ramStart (SegmentRecord.roots + index)
  markFromRam space ram.stop (← Memory.walkBound) ram.start
  (marker space).recover space.start space.stop (pure ())
  updateMarks MarkStack.finish

def gaps (space : Space) : Run (List (UInt32 × UInt32) × UInt32) :=
  foldBits space.start space.stop ([], space.start) fun (gaps, cursor) oop => do
    let block ← Block.ofObject oop
    let gaps := if block > cursor then (cursor, block - cursor) :: gaps else gaps
    return (gaps, ← Block.after oop)

def linkFree : List (UInt32 × UInt32) → (free : UInt32) → Run UInt32
  | [], free => return free
  | (block, size) :: rest, free => do
    let distance ← match rest with
      | [] => pure 0
      | (next, _) :: _ => minus next block
    Memory.zeroBytes block size
    Block.initFree block size distance
    linkFree rest (← plus free size)

def sweep (space : Space) : Run (UInt32 × UInt32) := do
  let (before, cursor) ← gaps space
  let before :=
    if cursor < space.stop then (cursor, space.stop - cursor) :: before else before
  let stretches := before.reverse
  let free ← linkFree stretches 0
  setFreeList (stretches.head?.map (·.1) |>.getD noFreeMemory)
  return (← minus (← minus space.stop space.start) free, free)

def collect (ram : Space) (bitVector markStack : UInt32) : Run Unit := do
  let (start, stop) ← range
  let space : Space := { start, stop }
  let bitmapSize ← times (← Header.elementCount bitVector) 4
  let needed ← BitRange.bitmapSize start stop
  if bitmapSize < needed then fatal (.bitVectorTooSmall bitmapSize needed)
  let stackSize ← times (← Header.elementCount markStack) 4
  setFreeList 0
  let saved := (← get).bits.range
  bindBits start stop bitVector bitmapSize
  clearAllBits
  mark space ram markStack stackSize
  let (live, free) ← sweep space
  setBitRange saved
  modify fun s => { s with persistent :=
    { s.persistent with collections := s.persistent.collections + 1 } }
  let count := (← get).persistent.collections
  say .debug .persistent fun _ =>
    s!"collection {count}: {live} bytes live, {free} bytes free"

end Persistent

end DeviceVm
