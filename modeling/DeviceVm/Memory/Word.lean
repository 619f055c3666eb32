import DeviceVm.Fault

/-!
Arithmetic on words that must not overflow. An address, a size or a count that would leave the
32 bit range is a fault.
-/

namespace DeviceVm.Word

@[inline] def plus (a b : UInt32) : Except Fault UInt32 :=
  if a.toNat + b.toNat < 4294967296 then .ok (a + b) else .error .broken

@[inline] def minus (a b : UInt32) : Except Fault UInt32 :=
  if b ≤ a then .ok (a - b) else .error .broken

@[inline] def times (a b : UInt32) : Except Fault UInt32 :=
  if a.toNat * b.toNat < 4294967296 then .ok (a * b) else .error .broken

@[inline] def roundUp4 (n : UInt32) : Except Fault UInt32 := do
  return (← plus n 3) &&& 0xfffffffc

def roundUp8 (n : UInt32) : Except Fault UInt32 := do
  return (← plus n 7) &&& 0xfffffff8

/-- The larger word range value in place of an overflow. -/
def plusSaturating (a b : UInt32) : UInt32 :=
  if a.toNat + b.toNat < 4294967296 then a + b else 0xffffffff

def minusSaturating (a b : UInt32) : UInt32 :=
  if b ≤ a then a - b else 0

/-- The byte distance of `index` items of `size` bytes, which must fit a signed word. -/
@[inline] def scaled (index : Int32) (size : Int) : Except Fault UInt32 :=
  let distance := index.toInt * size
  if -2147483648 ≤ distance ∧ distance ≤ 2147483647 then .ok (Int32.ofInt distance).toUInt32
  else .error .broken

end DeviceVm.Word
