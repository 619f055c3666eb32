import DeviceVm.Opcode.Basic

/-!
Integer arithmetic of the guest. It wraps around, shift distances are taken modulo the width, and
division truncates. Only a division by zero has no result.
-/

namespace DeviceVm

def IntOp.result? : IntOp → Int32 → Int32 → Option Int32
  | .add, l, r => some (l + r)
  | .sub, l, r => some (l - r)
  | .and, l, r => some (l &&& r)
  | .or, l, r => some (l ||| r)
  | .xor, l, r => some (l ^^^ r)
  | .shl, l, r => some (l <<< (r &&& 31))
  | .shr, l, r => some (l >>> (r &&& 31))
  | .ushr, l, r => some (l.toUInt32 >>> (r.toUInt32 &&& 31)).toInt32
  | .mul, l, r => some (l * r)
  | .div, l, r => if r == 0 then none else some (l / r)
  | .rem, l, r => if r == 0 then none else some (l % r)

def NarrowTo.apply : NarrowTo → UInt32 → UInt32
  | .byte, v => v.toInt32.toInt8.toInt32.toUInt32
  | .short, v => v.toInt32.toInt16.toInt32.toUInt32
  | .char, v => v.toUInt16.toUInt32

def LongOp.result? : LongOp → Int64 → Int64 → Option Int64
  | .add, l, r => some (l + r)
  | .sub, l, r => some (l - r)
  | .mul, l, r => some (l * r)
  | .div, l, r => if r == 0 then none else some (l / r)
  | .rem, l, r => if r == 0 then none else some (l % r)
  | .and, l, r => some (l &&& r)
  | .or, l, r => some (l ||| r)
  | .xor, l, r => some (l ^^^ r)
  | _, _, _ => none

def LongOp.shift (op : LongOp) (l : Int64) (distance : UInt32) : Int64 :=
  let n := (distance &&& 63).toUInt64
  match op with
  | .shl => (l.toUInt64 <<< n).toInt64
  | .shr => l >>> n.toInt64
  | _ => (l.toUInt64 >>> n).toInt64

def compareLongs (l r : Int64) : Int32 :=
  if l < r then -1 else if l == r then 0 else 1

end DeviceVm
