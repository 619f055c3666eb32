import DeviceVm.Memory.Access
import DeviceVm.Opcode.Basic

/-!
Method objects: a header of bytes with the frame shape, the map of the locals that hold
references and the exception table, and the code behind it.
-/

namespace DeviceVm

namespace Method

open Word

def mapOffset : UInt32 := 5

def handlerSize : UInt32 := 8

def headerSize (mp : UInt32) : Read UInt32 :=
  return (← Memory.byte mp 0).toUInt32

def parameterCount (mp : UInt32) : Read UInt32 :=
  return (← Memory.byte mp 3).toUInt32

def localCount (mp : UInt32) : Read UInt32 :=
  return (← Memory.byte mp 4).toUInt32

def referenceMap (mp : UInt32) : Except Fault UInt32 := plus mp mapOffset

def entry (mp : UInt32) : Read UInt32 := do
  plus mp (← headerSize mp)

def operandWords (mp : UInt32) : Read UInt32 := do
  let start ← entry mp
  match Opcode.ofByte? (← Memory.code8 start) with
  | some (.extend n) => return UInt32.ofNat n
  | some .extendBy => return (← Memory.code8 (← plus start 1)).toUInt32
  | _ => return 0

def handlersOffset (locals : UInt32) : Except Fault UInt32 :=
  plus mapOffset (locals / 8 + if locals % 8 == 0 then 0 else 1)

end Method

structure Handler where
  start : UInt32
  stop : UInt32
  target : UInt32
  classNumber : UInt32
  deriving DecidableEq, Repr

namespace Handler

def covers (h : Handler) (offset : UInt32) : Bool :=
  h.start ≤ offset && offset < h.stop

def readAt (addr : UInt32) : Read Handler := do
  let start ← Memory.code16 addr
  let stop ← Memory.code16 (← Word.plus addr 2)
  let target ← Memory.code16 (← Word.plus addr 4)
  let classNumber ← Memory.code16 (← Word.plus addr 6)
  return ⟨start.toUInt32, stop.toUInt32, target.toUInt32, classNumber.toUInt32⟩

end Handler

structure HandlerRows where
  first : UInt32
  count : UInt32

namespace Method

open Word

def handlerRows (mp : UInt32) : Read HandlerRows := do
  let first ← handlersOffset (← localCount mp)
  return { first, count := minusSaturating (← headerSize mp) first / handlerSize }

def handler (mp first i : UInt32) : Read Handler := do
  Handler.readAt (← plus (← plus mp first) (← times i handlerSize))

def handlersFrom (mp first : UInt32) : (n : Nat) → (i : UInt32) → Read (List Handler)
  | 0, _ => return []
  | n + 1, i => do
    let h ← handler mp first i
    return h :: (← handlersFrom mp first n (i + 1))

def handlers (mp : UInt32) : Read (List Handler) := do
  let rows ← handlerRows mp
  handlersFrom mp rows.first rows.count.toNat 0

end Method

end DeviceVm
