import DeviceVm.Interpreter.Frames

/-!
Throwing. The frames are searched from the innermost outwards for a handler that covers the
instruction and catches the class of the exception.
-/

namespace DeviceVm

namespace Exec

open Word

def handlerFrom (mp first k offset : UInt32) : (rows : Nat) → (i : UInt32) → Read (Option Handler)
  | 0, _ => return none
  | rows + 1, i => do
    let handler ← Method.handler mp first i
    if handler.covers offset then
      if ← Class.inherits k handler.classNumber then return some handler
    handlerFrom mp first k offset rows (i + 1)

def findHandler (mp k offset : UInt32) : Read (Option Handler) := do
  let rows ← Method.handlerRows mp
  handlerFrom mp rows.first k offset rows.count.toNat 0

def isBottomFrame : Exec Bool := do
  let lp := (← get).lp
  if (← Frame.previous lp) != 0 then return false
  return (← Chunk.prev (← Chunk.ofFrame lp)) == 0

def unwind (exception k : UInt32) : (fuel : Nat) → Exec Step
  | 0 => throw .endless
  | fuel + 1 => do
    let mp ← Frame.method (← get).lp
    let offset := (← get).ip - mp - 1
    match ← findHandler mp k offset with
    | some handler =>
      let ip ← plus mp handler.target
      modify fun s => { s with ip }
      clearOperands
      push exception
      Store.say .trace .interpreter fun _ =>
        "exception " ++ Hex.word exception ++ " caught at " ++ Hex.word ip
      return .proceed
    | none =>
      if ← isBottomFrame then Store.fatal (.uncaught (← Class.number k))
      popFrame
      unwind exception k fuel

def throwObject (exception : UInt32) : Exec Step := do
  let k ← Header.classOf exception
  unwind exception k (← Memory.walkBound)

/-- Throws the operand. After a collection that made no room, the out-of-memory error is thrown
from the instruction that was to be executed again. -/
def throwOperand : Exec Step := do
  let exception ← if (← get).collectionWorked then pop else do
    let ip ← Frame.ip (← get).lp
    modify fun s => { s with ip, collectionWorked := true }
    let oop ← Store.root .ram Root.outOfMemory
    if oop == 0 then Store.fatal .noOutOfMemoryObject
    Store.say .debug .interpreter fun _ => "throwing OutOfMemoryError"
    pure oop
  if exception == 0 then raise .nullPointerException else throwObject exception

end Exec

end DeviceVm
