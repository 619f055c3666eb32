import DeviceVm.Interpreter.Native.Basic
import DeviceVm.Interpreter.Native.Console
import DeviceVm.Interpreter.Native.Control
import DeviceVm.Interpreter.Native.Objects

/-!
Calls of natives by number. A native takes its arguments from the operand stack, the last one
first, and leaves its result there.
-/

namespace DeviceVm

open Exec

/-- What a native does. References are addresses, and floats travel as their bits, so some
natives do nothing. -/
def Native.perform : Native → Exec Step
  | exit => Exec.exit
  | gc => collectHere
  | fatalVMError => Store.fatal .requested
  | freeMemory => pushMemory Store.freeRam Persistent.freeMemory
  | totalMemory => pushMemory Store.totalRam Persistent.totalMemory
  | getTime => pushTime
  | getInstructionCount => pushInstructions
  | getStackFrameDepth => pushDepth
  | enableExcessiveGC => do
    Store.setEager true
    return .proceed
  | setMinimumHeapMode => setMinimumHeap
  | getHeapHighWaterMark => pushHighWater
  | putch => printChar .standard
  | puterrch => printChar .error
  | print => printString
  | printInt => Exec.printInt
  | getClass => pushClassOf
  | getArrayLength => pushLength
  | getAddress => return .proceed
  | inRam => pushInRam
  | arraycopy0 => copyArray
  | stringcopy0 => copyString
  | makeEightBitString => retype ClassNumber.byteString
  | makeSixteenBitString => retype ClassNumber.string
  | primNewObject => newConstructed
  | primNewArray => newArray
  | primAstoreOop => storeUnchecked
  | getClassState => pushClassState
  | createClassState => Exec.createClassState
  | setClassState => addClassState
  | primGetStatic => getStatic .word
  | primGetStaticLong => getStatic .long
  | primPutStatic => putStatic .word
  | primPutStaticLong => putStatic .long
  | primPutStaticObj => putStatic .ref
  | getNewExecutionContext => pushNewContext
  | setExecutionContext => switchThread
  | setFastLockStack => setRoot Root.fastLocks
  | setOutOfMemoryError => setRoot Root.outOfMemory
  | setAssociationHashtable => setRoot Root.associations
  | getAssociationQueue => pushAssociationQueue
  | setAssociationQueue => Exec.setAssociationQueue
  | getAssociation => pushAssociation
  | getFinalizer => pushFinalizer
  | getPersistentMemoryTable => pushPersistentTable
  | setPersistentMemoryTable => setPersistentTable
  | makePersistent => migrate
  | makePersistentCopy => copyToPersistent
  | gcPersistentMemory => collectPersistent
  | wasPersistentMemoryGCInterrupted => pushInterrupted
  | getPersistentMemorySize => pushPersistentSize
  | newPersistentByteArray => newPersistentArray
  | floatToIntBits | doubleToLongBits | intBitsToFloat | longBitsToDouble => return .proceed
  | math => applyMath

def Exec.invokeNative (number : UInt8) : Exec Step := do
  match Native.ofNumber? number.toNat with
  | none => Store.fatal (.unknownNative number)
  | some found =>
    if ← traces TraceFlags.methods then
      Store.say .debug .interpreter fun _ => "native " ++ found.name
    found.perform

end DeviceVm
