import DeviceVm.Collection.Policy
import DeviceVm.Interpreter.Frames
import DeviceVm.Number.Floating

/-!
Natives that control the machine: memory and its collectors, threads, roots, associations and
persistent memory, and mathematical functions.
-/

namespace DeviceVm

namespace Exec

open Word

def exit : Exec Step := do
  let code ← popInt
  return .suspend (.exit code)

def time (s : Machine) : Nat := s.startTime + s.instructions / 1000

def pushTime : Exec Step := do
  pushLong (time (← get)).toUInt64
  return .proceed

def pushInstructions : Exec Step := do
  pushLong (← get).instructions.toUInt64
  return .proceed

def pushDepth : Exec Step := do
  push (← Frame.depth (← get).lp)
  return .proceed

def pushMemory (ofRam ofPersistent : Query UInt32) : Exec Step := do
  let ram ← pop
  let size ← if ram != 0 then ofRam else ofPersistent
  pushLong size.toUInt64
  return .proceed

def setMinimumHeap : Exec Step := do
  let mode ← pop
  Store.setMinimumHeap (mode == 1)
  return .proceed

def pushHighWater : Exec Step := do
  pushLong (← Store.highWaterMark).toUInt64
  return .proceed

def setRoot (index : Int32) : Exec Step := do
  let v ← pop
  Store.setRamRoot index v
  return .proceed

/-! ### Threads -/

def pushNewContext : Exec Step := do
  let thread ← pop
  push (← newContext .callrun thread)
  return .proceed

def leaveThread (thread : UInt32) (dead : Bool) : Exec Unit := do
  if dead then
    let chunk ← Chunk.ofFrame (← get).lp
    Chunk.setLastFrame chunk 0
    Store.setReferenceInRam thread 0 0
  else
    let chunk ← saveContext (← get).ip
    Store.setReferenceInRam thread 0 chunk

def switchThread : Exec Step := do
  let id ← pop
  let next ← pop
  let dead ← pop
  let old ← pop
  if old != 0 then leaveThread old (dead != 0)
  let chunk ← Memory.word next 0
  if chunk == 0 then Store.fatal (.noContext next)
  loadContext chunk
  Store.setReferenceInRam next 0 0
  Store.say .debug .interpreter fun _ =>
    s!"switched to thread {id} in chunk " ++ Hex.word chunk
  return .proceed

/-! ### Associations -/

def pushAssociationQueue : Exec Step := do
  let obj ← pop
  push (← Store.associationQueue obj)
  return .proceed

def setAssociationQueue : Exec Step := do
  let association ← pop
  let obj ← pop
  Store.setAssociationQueue obj association
  return .proceed

def pushAssociation : Exec Step := do
  let obj ← pop
  push (← Store.getAssociation obj)
  return .proceed

def pushFinalizer : Exec Step := do
  push (← Store.takeFinalizer)
  return .proceed

/-! ### Persistent memory -/

def pushPersistentTable : Exec Step := do
  push (← Store.root .eeprom Root.persistentTable)
  return .proceed

def setPersistentTable : Exec Step := do
  let table ← pop
  Store.setRoot .eeprom Root.persistentTable table
  return .proceed

def migrate : Exec Step := do
  let obj ← pop
  let moved ← Persistent.makePersistent obj true
  push moved
  if moved == 0 then return .proceed else collectHere

def copyToPersistent : Exec Step := do
  let obj ← pop
  push (← Persistent.makePersistent obj false)
  return .proceed

/-- Collects persistent memory. The context is saved meanwhile, so that its frames are known. -/
def collectPersistent : Exec Step := do
  let markStack ← pop
  let bitVector ← pop
  let lp := (← get).lp
  let offset ← Frame.stackOffset lp
  let chunk ← saveContext (← get).ip
  let outcome ← Store.attempt (Store.collectPersistent bitVector markStack)
  Chunk.setLastFrame chunk 0
  Frame.setStackOffset lp offset
  outcome
  return .proceed

def pushInterrupted : Exec Step := do
  pushBool (← Persistent.wasInterrupted)
  return .proceed

def pushPersistentSize : Exec Step := do
  push (← Persistent.totalMemory)
  return .proceed

def newPersistentArray : Exec Step := do
  let count ← pop
  push (← Persistent.newByteArray count)
  return .proceed

/-! ### Mathematical functions -/

def applyMath : Exec Step := do
  let b ← popLong
  let a ← popLong
  let selector ← pop
  match Number.mathFunction? selector (Float.ofBits a) (Float.ofBits b) with
  | none => Store.fatal (.badMathOperation selector)
  | some result =>
    pushLong result.toBits
    return .proceed

end Exec

end DeviceVm
