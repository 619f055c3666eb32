import DeviceVm.Opcode.Basic

/-!
Floating point operations beyond the basic ones. The remainder of a division that truncates is
always representable, so it is computed exactly on mantissas; the remainder of a division that
rounds is computed in floating point.
-/

namespace DeviceVm.Number

def hiddenBit : Nat := 0x10000000000000

def split (x : Float) : Nat × Int :=
  let bits := x.toBits.toNat
  let fraction := bits % hiddenBit
  let field := bits / hiddenBit % 0x800
  if field == 0 then (fraction, -1074) else (fraction + hiddenBit, (field : Int) - 1075)

def join (m : Nat) (e : Int) : Float :=
  if m == 0 then 0
  else
    let low := max (e + m.log2 - 52) (-1074)
    let m := if low ≤ e then m <<< (e - low).toNat else m >>> (low - e).toNat
    let bits :=
      if m ≥ hiddenBit then (low + 1075).toNat * hiddenBit + (m - hiddenBit) else m
    Float.ofBits bits.toUInt64

def isNegative (x : Float) : Bool := x.toBits >>> 63 == 1

def withSign (size sign : Float) : Float :=
  if isNegative sign then -size else size

def notANumber : Float := 0.0 / 0.0

def truncatedRemainder (a b : Float) : Float :=
  if a.isNaN || b.isNaN || a.isInf || b == 0.0 then notANumber
  else if b.isInf then a
  else
    let (ma, ea) := split a
    let (mb, eb) := split b
    let e := min ea eb
    let rest := (ma <<< (ea - e).toNat) % (mb <<< (eb - e).toNat)
    withSign (join rest e) a

def roundHalfEven (x : Float) : Float :=
  if x.isNaN || x.abs ≥ 4503599627370496.0 then x
  else
    let below := x.floor
    let rest := x - below
    if rest < 0.5 then below
    else if rest > 0.5 then below + 1.0
    else if (below / 2.0).floor * 2.0 == below then below
    else below + 1.0

def roundedRemainder (a b : Float) : Float :=
  if a.isNaN || b.isNaN || a.isInf || b == 0.0 then notANumber
  else if b.isInf then a
  else
    let rest := a - b * roundHalfEven (a / b)
    if rest == 0.0 then withSign 0.0 a else rest

def mathFunction? (selector : UInt32) (a b : Float) : Option Float :=
  match selector.toNat with
  | 0 => some a.sin
  | 1 => some a.cos
  | 2 => some a.tan
  | 3 => some a.asin
  | 4 => some a.acos
  | 5 => some a.atan
  | 6 => some a.exp
  | 7 => some a.log
  | 8 => some a.sqrt
  | 9 => some a.ceil
  | 10 => some a.floor
  | 11 => some (a.atan2 b)
  | 12 => some (a.pow b)
  | 13 => some (roundedRemainder a b)
  | _ => none

end DeviceVm.Number

namespace DeviceVm

open Number

def FloatArith.double : FloatArith → Float → Float → Float
  | .add, a, b => a + b
  | .sub, a, b => a - b
  | .mul, a, b => a * b
  | .div, a, b => a / b
  | .rem, a, b => truncatedRemainder a b

def FloatArith.single : FloatArith → Float32 → Float32 → Float32
  | .add, a, b => a + b
  | .sub, a, b => a - b
  | .mul, a, b => a * b
  | .div, a, b => a / b
  | .rem, a, b => (truncatedRemainder a.toFloat b.toFloat).toFloat32

def Unordered.compare (nan : Unordered) (a b : Float) : Int32 :=
  if a < b then -1
  else if a == b then 0
  else if a > b then 1
  else match nan with
    | .greater => 1
    | .less => -1

end DeviceVm
