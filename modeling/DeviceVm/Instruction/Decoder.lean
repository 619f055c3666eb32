import DeviceVm.Instruction.Basic
import DeviceVm.Fault

/-!
Decoding of a byte sequence into instructions. A byte that is no opcode and an operand that is
cut off end the sequence; a switch whose upper bound lies below its lower one is a fault.
-/

namespace DeviceVm

inductive DecodeStop where
  | ended
  | broken
  deriving DecidableEq, Repr

abbrev Cursor := ReaderT ByteArray (StateT Nat (Except DecodeStop))

namespace Cursor

def skip (n : Nat) : Cursor Unit := fun code pos =>
  if pos + n ≤ code.size then .ok ((), pos + n) else .error .ended

def byte : Cursor UInt8 := fun code pos =>
  if h : pos < code.size then .ok (code[pos], pos + 1) else .error .ended

def number : (n : Nat) → (acc : UInt64) → Cursor UInt64
  | 0, acc => pure acc
  | n + 1, acc => do
    let b ← byte
    number n (acc <<< 8 ||| b.toUInt64)

def int8 : Cursor Int32 := do
  return (← byte).toInt8.toInt32

def int16 : Cursor Int32 := do
  return (← number 2 0).toUInt16.toInt16.toInt32

def char16 : Cursor Int32 := do
  return (← number 2 0).toUInt16.toUInt32.toInt32

def int32 : Cursor Int32 := do
  return (← number 4 0).toUInt32.toInt32

def int64 : Cursor Int64 := do
  return (← number 8 0).toInt64

def opcode : Cursor Opcode := do
  match Opcode.ofByte? (← byte) with
  | some op => return op
  | none => throw .ended

/-- Skips the arms of a switch over `low` to `high`. A distance that no word can hold ends the
sequence. -/
def skipArms (armSize : Nat) (low high : Int32) : Cursor Unit :=
  let distance := high.toInt - low.toInt
  if distance < -2147483648 || distance > 2147483647 then throw .ended
  else if distance < 0 then throw .broken
  else skip (armSize * (distance.toNat + 1))

def twelveBits (high : Fin 16) (low : UInt8) : Int32 :=
  let v := high.val * 256 + low.toNat
  if v < 2048 then Int32.ofNat v else Int32.ofInt (v - 4096)

def operand (op : Opcode) : Cursor Operand :=
  match op.operandShape with
  | .nothing => return .nothing
  | .byte => return .byte (← byte)
  | .int8 => return .int (← int8)
  | .int16 => return .int (← int16)
  | .char16 => return .int (← char16)
  | .int32 => return .int (← int32)
  | .int64 => return .long (← int64)
  | .halfSwitch padded => do
    if padded then skip 1
    let default ← int16
    let low ← int32
    let high ← int32
    skipArms 2 low high
    return .switch default low high
  | .wordSwitch => do
    let default ← int32
    let low ← int32
    let high ← int32
    skipArms 4 low high
    return .switch default low high

def parts : Cursor (Opcode × Option Opcode × Operand) := do
  let op ← opcode
  match op with
  | .wideHalf =>
    let next ← opcode
    return (next, some op, .int (← int16))
  | .wideFull =>
    let next ← opcode
    return (next, some op, .int (← int32))
  | .wide high =>
    let next ← opcode
    return (next, some op, .int (twelveBits high (← byte)))
  | _ => return (op, none, ← operand op)

end Cursor

structure Decoder where
  code : ByteArray
  pos : Nat := 0

namespace Decoder

def atEnd (d : Decoder) : Bool :=
  d.code.size ≤ d.pos

def next (d : Decoder) : Except Fault (Option Instruction × Decoder) :=
  match Cursor.parts d.code d.pos with
  | .ok ((op, widened, operand), pos) =>
    .ok (some { offset := d.pos, length := pos - d.pos, op, widened, operand }, { d with pos })
  | .error .ended => .ok (none, { d with pos := d.code.size })
  | .error .broken => .error .broken

/-- The instructions from the position on, each with the position after it, and the end of the
decoding. Each instruction takes a byte, so `fuel` bytes suffice. -/
def allFrom (d : Decoder) : (fuel : Nat) → Except Fault (List (Instruction × Nat) × Decoder)
  | 0 => .ok ([], d)
  | fuel + 1 => do
    match ← d.next with
    | (none, d) => return ([], d)
    | (some i, d) =>
      let (rest, last) ← d.allFrom fuel
      return ((i, d.pos) :: rest, last)

def all (code : ByteArray) : Except Fault (List (Instruction × Nat) × Decoder) :=
  allFrom { code } (code.size + 1)

end Decoder

end DeviceVm
