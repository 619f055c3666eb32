import DeviceVm.Collection.Liveness
import DeviceVm.Collection.Tracing

/-!
Marking for the sliding collector. An object of the collected space is marked if it can be
reached from a root, from a recorded store into an older object, or from a stack chunk. A
reference to an object that has been moved to persistent memory is redirected to the copy.
-/

namespace DeviceVm

namespace Sliding

open Store Word

def stackReserve : UInt32 := 20

def bitmapAddress : Query UInt32 := do
  plus (← memoryEnd) stackReserve

def followChunks (visit : UInt32 → Run UInt32) : (fuel : Nat) → (chunk : UInt32) → Run Unit
  | 0, _ => throw .endless
  | fuel + 1, chunk => do
    if chunk == 0 then return
    followChunks visit fuel (← visit chunk)

def forEachChunk (visit : UInt32 → Run UInt32) : Run Unit := do
  followChunks visit ((← Memory.walkBound) + 1) (← root .ram Root.chunkList)

def markObject (space : Space) (trace : UInt32 → Run Unit) (oop : UInt32) : Run Unit := do
  if space.has oop then
    if !(← testAndSetBit oop) then trace oop

def isMigrated (oop : UInt32) : Query Bool := do
  if ← inRam oop then Header.isForwarded oop else return false

def marker (space : Space) : Tracer := fun trace base index => do
  let oop ← Memory.word base index
  if oop != 0 then
    if ← isMigrated oop then
      Memory.setWord base index (← Header.forwardTarget oop)
    else markObject space trace oop

def liveness (space : Space) : Liveness Run where
  alive oop := if space.has oop then testBit oop else pure true
  keep oop := do
    if space.has oop then markObject space (marker space).trace oop
    else if oop != 0 then
      if ← inRam oop then (marker space).scan (marker space).trace oop
    return oop

def markRecorded (space : Space) (field : UInt32) : Run Unit := do
  let value ← Memory.wordAt field
  if value != 0 then
    if ← isMigrated value then clearBit field
    (marker space).visit field 0

def markChunk (space : Space) (chunk : UInt32) : Run UInt32 := do
  if space.has chunk then markObject space (marker space).trace chunk
  else Traversal.chunkInPlace (marker space).visit chunk
  Chunk.listed chunk

def announceRescan : Run Unit :=
  say .debug .collection fun _ => "mark stack overflow, rescanning"

def recover (space : Space) : Run Unit :=
  (marker space).recover space.start space.stop announceRescan

def markReachable (space : Space) : Run Unit := do
  let stop ← bitmapAddress
  updateMarks (·.setup space.stop stop)
  clearBits space.start space.stop
  let ram := (← get).ram.start
  Root.all.forM fun index => do
    if index != Root.associations then
      (marker space).visit ram (SegmentRecord.roots + index)
  forEachBit (← memoryStart) space.start (markRecorded space)
  forEachChunk (markChunk space)
  recover space

def mark (space : Space) : Run Unit := do
  markReachable space
  (liveness space).processQueues
  recover space
  (liveness space).checkQueues
  updateMarks MarkStack.finish

end Sliding

end DeviceVm
