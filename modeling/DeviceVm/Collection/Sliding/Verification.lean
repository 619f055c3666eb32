import DeviceVm.Collection.Sliding.Marking

/-!
A walk over everything that the roots of RAM lead to. It stops at a reference that leaves memory
or leads behind the last object.
-/

namespace DeviceVm

namespace Sliding

open Store

def verifier : Tracer := fun trace base index => do
  let oop ← Memory.word base index
  if oop != 0 then
    require (← segmentOf oop).isSome
    if ← inRam oop then
      require (oop ≤ (← partitionFree))
      if oop > (← memoryStart) then
        if !(← testAndSetBit oop) then trace oop

def verify : Run Unit := do
  clearAllBits
  let stop ← bitmapAddress
  let free ← partitionFree
  updateMarks (·.setup free stop)
  let ram := (← get).ram.start
  Root.all.forM fun index => verifier.visit ram (SegmentRecord.roots + index)
  verifier.recover (← memoryStart) (← partitionFree) announceRescan
  updateMarks MarkStack.finish
  clearAllBits

end Sliding

end DeviceVm
