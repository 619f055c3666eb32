import DeviceVm.Collection.Sliding.Compaction
import DeviceVm.Collection.Sliding.Verification

/-!
The sliding collector: objects keep their order and move towards the start of object memory.
Object memory is followed by a reserve for the mark stack and by the bitmap.

A partial collection covers the young generation, the objects allocated since the last
collection; they are old afterwards. A full collection covers all of object memory.
-/

namespace DeviceVm

namespace Sliding

open Store Word

def sizeWithOverhead (start size : UInt32) : Except Fault UInt32 := do
  let bitmap ← BitRange.bitmapSize start (← plus start size)
  plus size (← plus stackReserve bitmap)

def shrinkToFit (start available : UInt32) : (fuel : Nat) → (size : UInt32) → Except Fault UInt32
  | 0, _ => throw .endless
  | fuel + 1, size => do
    if size == 0 then return size
    if (← sizeWithOverhead start size) ≤ available then return size
    shrinkToFit start available fuel (← minus size 4)

def growToFit (start available : UInt32) : (fuel : Nat) → (size : UInt32) → Except Fault UInt32
  | 0, _ => throw .endless
  | fuel + 1, size => do
    let larger ← plus size 4
    if (← sizeWithOverhead start larger) ≤ available then growToFit start available fuel larger
    else return size

def objectMemorySize (start available : UInt32) : Except Fault UInt32 := do
  let fuel := available.toNat / 4 + 2
  let guess := minusSaturating available stackReserve / 33 * 32 &&& 0xfffffffc
  growToFit start available fuel (← shrinkToFit start available fuel guess)

def setIdealYoung : Run Unit := do
  let s := (← get).sliding
  let idealYoung ← if s.minimumHeap then pure 16 else do
    let size ← memorySize
    times (size / 100) s.youngPercent
  modify fun s => { s with sliding := { s.sliding with idealYoung } }

def attach (fresh : Bool) : Run Unit := do
  let ram := (← get).ram
  if fresh then
    let start ← ram.heapStart
    let available ← minus (← ram.stop) start
    let size ← objectMemorySize start available
    setRecord .ram SegmentRecord.objectStart start
    setRecord .ram SegmentRecord.objectSize size
  let start ← memoryStart
  let stop ← memoryEnd
  let bitmap ← bitmapAddress
  let bitmapSize ← BitRange.bitmapSize start stop
  if stop ≤ (← plus start 64) then fatal (.ramTooSmallForSliding ram.size)
  if (← plus bitmap bitmapSize) > (← ram.stop) then fatal (.ramTooSmallForSliding ram.size)
  bindBits start stop bitmap bitmapSize
  clearAllBits
  enableBarrier
  setIdealYoung
  let young := (← get).sliding.idealYoung
  if fresh then
    let youngEnd ← plus start (← roundUp4 young)
    setPartition start start (min youngEnd stop)
  say .debug .collection fun _ =>
    "object memory [" ++ Hex.word start ++ ", " ++ Hex.word stop ++ "), bitmap " ++
      Hex.word bitmap ++ s!"+{bitmapSize}, young {young} bytes"

def freeMemory : Query UInt32 := do
  let stop ← memoryEnd
  minus stop (← partitionFree)

def totalMemory : Query UInt32 := memorySize

def usedMemory : Query UInt32 := do
  let total ← totalMemory
  minus total (← freeMemory)

def highWaterMark : Query UInt32 := do
  return minusSaturating (← read).sliding.highWater (← memoryStart)

structure Outcome where
  fits : Bool
  full : Bool

def collectPartition (f : Forwarding) : Run Outcome := do
  let space : Space := { start := ← partitionStart, stop := ← partitionFree }
  let full := space.start == (← memoryStart)
  modify fun s => { s with sliding :=
    if full then { s.sliding with fullCollections := s.sliding.fullCollections + 1 }
    else { s.sliding with partialCollections := s.sliding.partialCollections + 1 } }
  say .debug .collection fun _ =>
    (if full then "full" else "partial") ++ " collection of [" ++ Hex.word space.start ++ ", " ++
      Hex.word space.stop ++ ")"
  insideCollector do
    compact f space
    let free ← partitionFree
    setPartitionStart free
    let start ← memoryStart
    clearBits start (max space.stop free)
    verify
  let free ← freeMemory
  return { fits := free ≥ (← failedSize), full }

def collectOnce (f : Forwarding) : Run Outcome := do
  if !(← get).sliding.alwaysFull then
    let outcome ← collectPartition f
    if outcome.full then return outcome
    let failed ← failedSize
    let wanted := plusSaturating failed (← roundUp4 (← get).sliding.idealYoung)
    if outcome.fits then
      if (← freeMemory) ≥ wanted then return outcome
  setPartitionStart (← memoryStart)
  collectPartition f

/-- Unlists stack chunks without frames, and unhooks them from the chunks that kept them. Gives
the number of chunks it unlisted. -/
def unlistFrom : (fuel : Nat) → (previous chunk : UInt32) → (removed : Nat) → Run Nat
  | 0, _, _, _ => throw .endless
  | fuel + 1, previous, chunk, removed => do
    if chunk == 0 then return removed
    let following ← Chunk.listed chunk
    if (← Chunk.lastFrame chunk) == 0 then
      if previous == 0 then setRamRoot Root.chunkList following
      else Chunk.setListed previous following
      unlistFrom fuel previous following (removed + 1)
    else
      let spare ← Chunk.next chunk
      if spare != 0 then
        if (← Chunk.lastFrame spare) == 0 then Chunk.setNext chunk 0
      unlistFrom fuel chunk following removed

def unlistDeadChunks : Run Unit := do
  let first ← root .ram Root.chunkList
  let removed ← unlistFrom ((← Memory.walkBound) + 1) 0 first 0
  if removed > 0 then
    say .trace .collection fun _ => s!"{removed} dead stack chunks unlisted"

def collect (forceFull : Bool) : Run Bool := do
  let f ← Forwarding.ofClasses
  unlistDeadChunks
  let needFull := forceFull || (← get).eager
  let mut outcome ← collectOnce f
  if !outcome.full && needFull then
    setPartitionStart (← memoryStart)
    outcome ← collectOnce f
  modify fun s => { s with sliding := { s.sliding with collections := s.sliding.collections + 1 } }
  if (← get).trace.contains TraceFlags.collection then
    sayOf .debug .collection do
      let count := (← read).sliding.collections
      let used ← usedMemory
      let free ← freeMemory
      return s!"collection {count} done: {used} bytes used, {free} free"
  return outcome.fits

/-- In minimum heap mode memory grows no more than it must. -/
def setMinimumHeap (on : Bool) : Run Unit := do
  modify fun s => { s with sliding := { s.sliding with alwaysFull := on, minimumHeap := on } }
  let free ← partitionFree
  setPartitionEnd free
  modify fun s => { s with sliding := { s.sliding with highWater := free } }
  setIdealYoung
  say .debug .collection fun _ => "minimum heap mode " ++ if on then "on" else "off"

def limitDelta (limit : UInt32) : Run Unit := do
  require (limit ≥ 4 && limit % 4 == 0)
  modify fun s => { s with sliding := { s.sliding with deltaLimit := some limit } }

def sayStats : Run Unit := do
  let s := (← get).sliding
  say .info .collection fun _ =>
    s!"mark-compact collector: {s.collections} collections ({s.fullCollections} full, " ++
      s!"{s.partialCollections} partial), {s.passes} compaction passes"

end Sliding

end DeviceVm
