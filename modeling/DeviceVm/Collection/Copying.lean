import DeviceVm.Collection.Liveness

/-!
The copying collector. Object memory has two halves and objects are allocated in one of them. A
collection copies what the roots of RAM lead to into the other half, breadth first, and forwards
the old objects to their copies; then the halves change roles.
-/

namespace DeviceVm

namespace Copying

open Store Word

def evacuatedWord : UInt32 := 0xdead1dea

def half : Query UInt32 := do
  return (← memorySize) / 2 &&& 0xfffffffc

/-- Prepares RAM. Unless `fresh`, the layout of memory is taken as it is. -/
def attach (fresh : Bool) : Run Unit := do
  let ram := (← get).ram
  if fresh then
    let start ← ram.heapStart
    setRecord .ram SegmentRecord.objectStart start
    setRecord .ram SegmentRecord.objectSize (← minus (← ram.stop) start)
    setPartition start start (← plus start (← half))
  let half ← half
  if half < 64 then fatal (.ramTooSmallForHalves ram.size)
  sayOf .debug .collection do
    return s!"semi-spaces of {half} bytes at " ++ Hex.word (← memoryStart)

def freeMemory : Query UInt32 := do
  let stop ← partitionEnd
  minus stop (← partitionFree)

def totalMemory : Query UInt32 := half

def usedMemory : Query UInt32 := do
  let total ← totalMemory
  minus total (← freeMemory)

def targetHalf : Query Space := do
  let start ← memoryStart
  let half ← half
  if (← partitionStart) == start then
    return { start := ← plus start half, stop := ← plus start (← times 2 half) }
  else return { start, stop := ← plus start half }

@[inline] def update (f : CopyingState → CopyingState) : Run Unit :=
  modify fun s => { s with copying := f s.copying }

/-- The address of an object in the target half. It is copied there unless it was before. An
object that has a persistent copy is replaced by that. -/
def copyObject (target : Space) (oop : UInt32) : Run UInt32 := do
  if oop == 0 || target.has oop then return oop
  if ← Header.isForwarded oop then return ← Header.forwardTarget oop
  if (← Header.classOf oop) == (← classNumbered ClassNumber.localArray) then
    require ((← Chunk.lastFrame oop) != 0)
  let block ← Block.ofObject oop
  let header ← minus oop block
  let length ← plus header (← Header.bodySize oop)
  let free := (← get).copying.free
  let behind ← plus free length
  require (behind ≤ target.stop)
  let copy ← plus free header
  Memory.copyBytes block free length
  update fun c => { c with free := behind, bytesCopied := c.bytesCopied + length.toNat }
  Header.forwardTo oop copy
  say .trace .collection fun _ =>
    "copied " ++ Hex.word oop ++ " to " ++ Hex.word copy ++ s!" ({length} bytes)"
  return copy

def copyWord (target : Space) (base : UInt32) (index : Int32) : Run Unit := do
  let oop ← Memory.word base index
  if oop != 0 then
    if ← inRam oop then
      Memory.setWord base index (← copyObject target oop)

def copyChunk (target : Space) (chunk : UInt32) : Run Unit := do
  let old ← Chunk.self chunk
  Traversal.frames chunk old chunk (copyWord target)
  let next ← Chunk.next chunk
  if next != 0 then
    let current ← Header.resolve next
    if (← Chunk.lastFrame current) == 0 then Chunk.setNext chunk 0
    else copyWord target chunk 1
  copyWord target chunk 2
  Chunk.setSelf chunk chunk

def copyRoots (target : Space) : Run Unit :=
  Root.all.forM fun index => do
    if index != Root.associations then
      let oop ← root .ram index
      if ← inRam oop then
        setRamRoot index (← copyObject target oop)

def scanFrom (target : Space) : (fuel : Nat) → Run Unit
  | 0 => throw .endless
  | fuel + 1 => do
    let c := (← get).copying
    if c.scan < c.free then
      let oop ← Block.toObject c.scan
      let k ← Header.classOf oop
      require (!(← inRam k))
      Traversal.object { word := copyWord target, chunk := copyChunk target } oop k
      let behind ← Block.after oop
      update fun c => { c with scan := behind }
      scanFrom target fuel

def scan (target : Space) : Run Unit := do
  scanFrom target (← Memory.walkBound)

/-- All objects in the half that was in use, copied or not, count as dead. -/
def liveness (target : Space) : Liveness Run where
  alive oop := do
    if oop > (← partitionStart) then return oop > (← partitionEnd) else return true
  keep oop := do
    if ← inRam oop then copyObject target oop else return oop

def evacuate : Run Unit := do
  let target ← targetHalf
  update fun c => { c with free := target.start, scan := target.start }
  sayOf .debug .collection do
    return "copying [" ++ Hex.word (← partitionStart) ++ ", " ++ Hex.word (← partitionFree) ++
      ") into [" ++ Hex.word target.start ++ ", " ++ Hex.word target.stop ++ ")"
  copyRoots target
  scan target
  (liveness target).processQueues
  scan target
  (liveness target).checkQueues
  update fun c => { c with collections := c.collections + 1 }
  setPartition target.start (← get).copying.free target.stop

def collect : Run Bool := do
  let (start, stop) ← insideCollector do
    let start ← partitionStart
    let stop ← partitionEnd
    evacuate
    return (start, stop)
  Memory.fillWords start (← minus stop start) evacuatedWord
  let free ← freeMemory
  let fits := free ≥ (← failedSize)
  if (← get).trace.contains TraceFlags.collection then
    sayOf .debug .collection do
      let count := (← read).copying.collections
      let used ← usedMemory
      return s!"collection {count} done: {used} bytes live, " ++
        if fits then "allocation fits" else "allocation still fails"
  return fits

def sayStats : Run Unit := do
  let c := (← get).copying
  say .info .collection fun _ =>
    s!"copying collector: {c.collections} collections, {c.bytesCopied} bytes copied"

end Copying

end DeviceVm
