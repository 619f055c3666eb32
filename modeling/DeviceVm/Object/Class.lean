import DeviceVm.Memory.Access
import DeviceVm.Object.ClassNumber

/-!
Class objects: sixteen words that describe the instances of a class, its statics, its methods
and the literals of its code.
-/

namespace DeviceVm.Class

def fieldCount : UInt32 := 16

/-- The class must be initialised before its statics are used. -/
def mustInitialise : UInt32 := 0x4000

def hasFinalizerFlag : UInt32 := 0x8000

def number (k : UInt32) : Read UInt32 := Memory.word k 0
def access (k : UInt32) : Read UInt32 := Memory.word k 1
def superClass (k : UInt32) : Read UInt32 := Memory.word k 2
def elementNumber (k : UInt32) : Read UInt32 := Memory.word k 3
def instanceWords (k : UInt32) : Read UInt32 := Memory.word k 4
def staticWords (k : UInt32) : Read UInt32 := Memory.word k 5
/-- The first statics hold references; this is their number. -/
def staticReferences (k : UInt32) : Read UInt32 := Memory.word k 6
def firstVirtual (k : UInt32) : Read UInt32 := Memory.word k 7
def virtualTable (k : UInt32) : Read UInt32 := Memory.word k 8
def staticTable (k : UInt32) : Read UInt32 := Memory.word k 9
def interfaceNumbers (k : UInt32) : Read UInt32 := Memory.word k 10
def interfaceTables (k : UInt32) : Read UInt32 := Memory.word k 11
def referenceMap (k : UInt32) : Read UInt32 := Memory.word k 12
def objectTable (k : UInt32) : Read UInt32 := Memory.word k 13
def classTable (k : UInt32) : Read UInt32 := Memory.word k 14

def hasFinalizer (k : UInt32) : Read Bool :=
  return (← access k) &&& hasFinalizerFlag != 0

def needsInitialiser (k : UInt32) : Read Bool :=
  return (← access k) &&& mustInitialise != 0

def isArray (k : UInt32) : Read Bool :=
  return (← elementNumber k) != 0

def elementSize (element : UInt32) : UInt32 :=
  if element == ClassNumber.long || element == ClassNumber.double then 8
  else if element == ClassNumber.char || element == ClassNumber.short then 2
  else if element == ClassNumber.byte || element == ClassNumber.boolean then 1
  else 4

def arrayElementSize (k : UInt32) : Read UInt32 :=
  return elementSize (← elementNumber k)

/-- Arrays whose every element is a reference. Stack chunks and class states are not. -/
def isReferenceArray (k : UInt32) : Read Bool := do
  let n ← number k
  let element ← elementNumber k
  return element > ClassNumber.lastPrimitive && n != ClassNumber.localArray &&
    n != ClassNumber.globalArray

def mapBit (map index : UInt32) : Read Bool := do
  let b ← Memory.byte map (index / 8).toInt32
  return b &&& (1 <<< (index % 8).toUInt8) != 0

def isReferenceField (k index : UInt32) : Read Bool := do
  let map ← referenceMap k
  if map == 0 then return false
  mapBit map index

def inheritsWithin (target : UInt32) : (fuel : Nat) → (k : UInt32) → Read Bool
  | 0, _ => throw .endless
  | fuel + 1, k => do
    if k == 0 then return false
    if (← number k) == target then return true
    inheritsWithin target fuel (← superClass k)

def inherits (k target : UInt32) : Read Bool := do
  inheritsWithin target (← Memory.walkBound) k

end DeviceVm.Class
