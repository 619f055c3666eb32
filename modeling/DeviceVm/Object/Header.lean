import DeviceVm.Object.Class

/-!
Object headers. The word in front of an object holds its class in the low 24 bits and the
element count of a short array in the high eight. A count of 255 or more is in a second word in
front of the first, and the high bits are all set. The two lowest bits tell a class word from a
length word, from the address of a moved object and from the head of a free block.
-/

namespace DeviceVm

inductive HeaderTag where
  | classWord | arrayLength | forward | freeBlock
  deriving DecidableEq, Repr

namespace HeaderTag

def ofWord (w : UInt32) : HeaderTag :=
  match (w &&& 3).toNat with
  | 0 => classWord
  | 1 => arrayLength
  | 2 => forward
  | _ => freeBlock

def name : HeaderTag → String
  | classWord => "ClassWord"
  | arrayLength => "ArrayLength"
  | forward => "Forward"
  | freeBlock => "FreeBlock"

end HeaderTag

namespace Header

open Word

def classMask : UInt32 := 0x00ffffff

def longCount : UInt32 := 255

def maxCount : UInt32 := 0x3fffffff

def classWord (oop : UInt32) : Read UInt32 := Memory.word oop (-1)

def setClassWord (oop w : UInt32) : Edit Unit := Memory.setWord oop (-1) w

def classOf (oop : UInt32) : Read UInt32 := do
  let w ← classWord oop
  require (HeaderTag.ofWord w == .classWord)
  let k := w &&& classMask
  require (k != 0)
  return k

def setLowBits (oop bits : UInt32) : Edit Unit := do
  require (bits ≤ classMask)
  let w ← classWord oop
  setClassWord oop ((w &&& ~~~classMask) ||| bits)

def setClass (oop k : UInt32) : Edit Unit := setLowBits oop k

def lowBits (oop : UInt32) : Read UInt32 :=
  return (← classWord oop) &&& classMask

def sizeForCount (count : UInt32) : UInt32 :=
  if count < longCount then 4 else 8

def setClassAndCount (oop k count : UInt32) : Edit Unit := do
  require (k &&& ~~~classMask == 0 && k &&& 3 == 0)
  require (count ≤ maxCount)
  if count < longCount then
    setClassWord oop (count <<< 24 ||| k)
  else
    Memory.setWord oop (-2) (count <<< 2 ||| 1)
    setClassWord oop (longCount <<< 24 ||| k)

def elementCount (oop : UInt32) : Read UInt32 := do
  let count := (← classWord oop) >>> 24
  if count < longCount then return count
  let length ← Memory.word oop (-2)
  require (HeaderTag.ofWord length == .arrayLength)
  return length >>> 2

def size (oop : UInt32) : Read UInt32 :=
  return if (← classWord oop) >>> 24 == longCount then 8 else 4

def isArray (oop : UInt32) : Read Bool := do
  Class.isArray (← classOf oop)

def bodySizeAs (oop k : UInt32) : Read UInt32 := do
  if ← Class.isArray k then
    let count ← elementCount oop
    roundUp4 (← times count (← Class.arrayElementSize k))
  else
    times (← Class.instanceWords k) 4

def bodySize (oop : UInt32) : Read UInt32 := do
  bodySizeAs oop (← classOf oop)

def forwardTo (oop target : UInt32) : Edit Unit := do
  require (target &&& 3 == 0 && target ≤ classMask)
  setClass oop (target ||| 2)

def isForwarded (oop : UInt32) : Read Bool :=
  return HeaderTag.ofWord (← classWord oop) == .forward

def forwardTarget (oop : UInt32) : Read UInt32 := do
  let w ← classWord oop
  require (HeaderTag.ofWord w == .forward)
  return w &&& classMask &&& ~~~3

def resolve (oop : UInt32) : Read UInt32 := do
  if oop == 0 then return oop
  if ← isForwarded oop then forwardTarget oop else return oop

end Header

end DeviceVm
