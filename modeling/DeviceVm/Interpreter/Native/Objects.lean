import DeviceVm.Interpreter.Access

/-!
Natives that make, copy and inspect objects.
-/

namespace DeviceVm

namespace Exec

open Word

def pushClassOf : Exec Step := do
  let obj ← pop
  push (← Header.classOf obj)
  return .proceed

/-- Unlike the instruction, the native does not expect null. -/
def pushLength : Exec Step := do
  let array ← pop
  push (← Header.elementCount array)
  return .proceed

def pushInRam : Exec Step := do
  let obj ← pop
  pushBool (← Store.inRam obj)
  return .proceed

def offsetIndex (index i : Int32) : Except Fault Int32 :=
  let sum := index.toInt + i.toInt
  if -2147483648 ≤ sum ∧ sum ≤ 2147483647 then .ok (Int32.ofInt sum) else .error .broken

def elementAddress (array : UInt32) (index : Int32) (size : UInt32) : Except Fault UInt32 := do
  plus array (← times index.toUInt32 size)

structure Stretches where
  source : UInt32
  sourceStart : Int32
  target : UInt32
  targetStart : Int32
  length : Int32

def popStretches : Exec Stretches := do
  let length ← popInt
  let targetStart ← popInt
  let target ← pop
  let sourceStart ← popInt
  let source ← pop
  return { source, sourceStart, target, targetStart, length }

def copyReferences (c : Stretches) (backwards : Bool) : (n : Nat) → Run Bool
  | 0 => return true
  | n + 1 => do
    let left : Int32 := Int32.ofNat (n + 1)
    let i := if backwards then left - 1 else c.length - left
    let v ← Memory.word c.source (← offsetIndex c.sourceStart i)
    if ← Store.setReference c.target (← offsetIndex c.targetStart i) v then
      copyReferences c backwards n
    else return false

def copyElements (c : Stretches) (size : UInt32) (length : Int32) : Edit Unit := do
  let source ← elementAddress c.source c.sourceStart size
  let target ← elementAddress c.target c.targetStart size
  Memory.copyBytes source target (← times length.toUInt32 size)

def copyArray : Exec Step := do
  let c ← popStretches
  if c.length ≤ 0 then return .proceed
  if ← Store.inRom c.target then return ← raise .illegalStoreException
  let k ← Header.classOf c.source
  if ← Class.isReferenceArray k then
    let backwards := c.source == c.target && c.sourceStart < c.targetStart
    if ← copyReferences c backwards c.length.toInt.toNat then return .proceed
    else raise .illegalStoreException
  else
    copyElements c (← Class.arrayElementSize k) c.length
    return .proceed

def widenCharacters (c : Stretches) : (n : Nat) → (i : Int32) → Edit Unit
  | 0, _ => return
  | n + 1, i => do
    let ch ← Memory.byte c.source (← offsetIndex c.sourceStart i)
    Memory.setHalf c.target (← offsetIndex c.targetStart i) ch.toUInt16
    widenCharacters c n (i + 1)

def narrowCharacters (c : Stretches) : (n : Nat) → (i : Int32) → Edit Unit
  | 0, _ => return
  | n + 1, i => do
    let ch ← Memory.half c.source (← offsetIndex c.sourceStart i)
    Memory.setByte c.target (← offsetIndex c.targetStart i) ch.toUInt8
    narrowCharacters c n (i + 1)

def copyString : Exec Step := do
  let c ← popStretches
  let sourceSize ← Class.arrayElementSize (← Header.classOf c.source)
  let targetSize ← Class.arrayElementSize (← Header.classOf c.target)
  let count := c.length.toInt.toNat
  if sourceSize == targetSize then copyElements c sourceSize (max c.length 0)
  else if sourceSize == 1 && targetSize == 2 then widenCharacters c count 0
  else if sourceSize == 2 && targetSize == 1 then narrowCharacters c count 0
  else Store.fatal (.stringSizes sourceSize targetSize)
  return .proceed

def retype (number : UInt32) : Exec Step := do
  let obj ← pop
  Header.setClass obj (← Store.classNumbered number)
  push obj
  return .proceed

def newConstructed : Exec Step := do
  let slot ← popInt
  let k ← pop
  let obj ← Store.newInstance k
  push obj
  if obj != 0 then
    pushFrame
    modify fun s => { s with cp := k }
    let mp ← Memory.word (← Class.staticTable k) slot
    if mp == 0 then Store.fatal (.missingConstructor slot.toInt (← Class.number k))
    enterMethod mp
  return .proceed

def newArray : Exec Step := do
  let count ← pop
  let k ← pop
  push (← Store.newArray k count)
  return .proceed

def storeUnchecked : Exec Step := do
  let v ← pop
  let index ← popInt
  let array ← pop
  if let some fault ← elementFault array index then return ← raise fault
  if ← Store.setReference array index v then return .proceed
  else raise .illegalStoreException

/-! ### Class states -/

def pushClassState : Exec Step := do
  let k ← pop
  push (← Store.findClassState k)
  return .proceed

def createClassState : Exec Step := do
  let k ← pop
  let state ← Store.newClassState k
  if state != 0 then Store.setReferenceInRam state 0 k
  push state
  return .proceed

def addClassState : Exec Step := do
  let state ← pop
  let k ← pop
  Store.addClassState k state
  return .proceed

def getStatic (width : StaticWidth) : Exec Step := do
  let index ← popInt
  let state ← pop
  match width with
  | .long => pushLong (← Memory.longAtWord state index)
  | .word | .ref => push (← Memory.word state index)
  return .proceed

def putStatic : StaticWidth → Exec Step
  | .long => do
    let v ← popLong
    let index ← popInt
    let state ← pop
    Memory.setLongAtWord state index v
    return .proceed
  | .word => do
    let v ← pop
    let index ← popInt
    let state ← pop
    Memory.setWord state index v
    return .proceed
  | .ref => do
    let v ← pop
    let index ← popInt
    let state ← pop
    Store.setReferenceInRam state index v
    return .proceed

end Exec

end DeviceVm
