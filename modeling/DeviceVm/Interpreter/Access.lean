import DeviceVm.Interpreter.Frames
import DeviceVm.Store.ClassState

/-!
Access to arrays, fields, statics and literals. Null, an index out of bounds and a store that the
segments do not allow are thrown by support methods, and so is a class state first made by one.
-/

namespace DeviceVm

namespace Exec

def loadValue (width : LoadWidth) (base : UInt32) (index : Int32) : Read UInt32 :=
  match width with
  | .byte => return (← Memory.byte base index).toInt8.toInt32.toUInt32
  | .short => return (← Memory.half base index).toInt16.toInt32.toUInt32
  | .char => return (← Memory.half base index).toUInt32
  | .word | .long => Memory.word base index

def storeValue (width : StoreWidth) (base : UInt32) (index : Int32) (v : UInt32) : Edit Unit :=
  match width with
  | .byte => Memory.setByte base index v.toUInt8
  | .short => Memory.setHalf base index v.toUInt16
  | .word | .ref | .long => Memory.setWord base index v

def elementFault (array : UInt32) (index : Int32) : Read (Option SupportCall) := do
  if array == 0 then return some .nullPointerException
  if index < 0 then return some .arrayBoundsException
  if index.toUInt32 ≥ (← Header.elementCount array) then return some .arrayBoundsException
  return none

def loadElement (width : LoadWidth) : Exec Step := do
  let index ← popInt
  let array ← pop
  if let some fault ← elementFault array index then return ← raise fault
  match width with
  | .long => pushLong (← Memory.long array index)
  | _ => push (← loadValue width array index)
  return .proceed

def storeReference : Exec Step := do
  let v ← pop
  let index ← popInt
  let array ← pop
  if let some fault ← elementFault array index then return ← raise fault
  if v != 0 then
    let element ← Class.elementNumber (← Header.classOf array)
    if !(← Store.isInstanceOfNumber v element) then
      push array
      pushInt index
      push v
      return .call .astoreOop
  if ← Store.setReference array index v then return .proceed
  else raise .illegalStoreException

def storeElementBy (write : (array : UInt32) → (index : Int32) → Edit Unit) : Exec Step := do
  let index ← popInt
  let array ← pop
  if let some fault ← elementFault array index then return ← raise fault
  if !(← Store.writable array) then return ← raise .illegalStoreException
  write array index
  return .proceed

def storeElement : StoreWidth → Exec Step
  | .ref => storeReference
  | .long => do
    let v ← popLong
    storeElementBy fun array index => Memory.setLong array index v
  | width => do
    let v ← pop
    storeElementBy fun array index => storeValue width array index v

def fieldOwner : Subject → Exec UInt32
  | .operand => pop
  | .current => do Memory.word (← get).lp 0

def loadField (subject : Subject) (width : LoadWidth) : Exec Step := do
  let obj ← fieldOwner subject
  let index ← codeIndex
  if obj == 0 then return ← raise .nullPointerException
  match width with
  | .long => pushLong (← Memory.longAtWord obj index)
  | _ => push (← loadValue width obj index)
  return .proceed

def storeFieldBy (subject : Subject) (write : (obj : UInt32) → (index : Int32) → Run Bool) :
    Exec Step := do
  let obj ← fieldOwner subject
  let index ← codeIndex
  if obj == 0 then return ← raise .nullPointerException
  if ← write obj index then return .proceed else raise .illegalStoreException

def writeTo (obj : UInt32) (write : Edit Unit) : Run Bool := do
  if ← Store.writable obj then
    write
    return true
  else return false

def storeField (subject : Subject) : StoreWidth → Exec Step
  | .ref => do
    let v ← pop
    storeFieldBy subject fun obj index => Store.setReference obj index v
  | .long => do
    let v ← popLong
    storeFieldBy subject fun obj index => writeTo obj (Memory.setLongAtWord obj index v)
  | width => do
    let v ← pop
    storeFieldBy subject fun obj index => writeTo obj (storeValue width obj index v)

def staticOwner : Subject → Exec UInt32
  | .operand => pop
  | .current => return (← get).cp

def loadStatic (subject : Subject) (width : StaticWidth) : Exec Step := do
  let index ← codeIndex
  let k ← staticOwner subject
  let state ← Store.findClassState k
  if state != 0 then
    match width with
    | .long => pushLong (← Memory.longAtWord state index)
    | .word | .ref => push (← Memory.word state index)
    return .proceed
  pushInt index
  push k
  return .call (if width == .long then .getStaticLong else .getStatic)

def storeStatic (subject : Subject) (width : StaticWidth) : Exec Step := do
  let index ← codeIndex
  let k ← staticOwner subject
  match width with
  | .long =>
    let v ← popLong
    let state ← Store.findClassState k
    if state != 0 then
      Memory.setLongAtWord state index v
      return .proceed
    pushLong v
    pushInt index
    push k
    return .call .putStaticLong
  | .word | .ref =>
    let v ← pop
    let state ← Store.findClassState k
    if state != 0 then
      if width == .ref then Store.setReferenceInRam state index v
      else Memory.setWord state index v
      return .proceed
    push v
    pushInt index
    push k
    return .call (if width == .ref then .putStaticObj else .putStatic)

def pushObject (index : Int32) : Exec Unit := do
  let table ← Class.objectTable (← get).cp
  push (← Memory.word table index)

def pushClass (index : Int32) : Exec Unit := do
  let table ← Class.classTable (← get).cp
  let number ← Memory.half table index
  push (← Store.classNumbered number.toUInt32)

def arrayLength : Exec Step := do
  let array ← pop
  if array == 0 then return ← raise .nullPointerException
  push (← Header.elementCount array)
  return .proceed

def searchValue (width : SearchWidth) (array : UInt32) (i : Int32) : Read Int32 :=
  match width with
  | .word => return (← Memory.word array i).toInt32
  | .byte => return (← Memory.byte array i).toInt8.toInt32
  | .short => return (← Memory.half array i).toInt16.toInt32
  | .char => return (← Memory.half array i).toUInt32.toInt32

def searchFrom (width : SearchWidth) (array : UInt32) (key : Int32) :
    (n : Nat) → (i : Int32) → Read Int32
  | 0, _ => return -1
  | n + 1, i => do
    if (← searchValue width array i) == key then return i
    searchFrom width array key n (i + 1)

def search (width : SearchWidth) : Exec Step := do
  let array ← pop
  let key ← popInt
  if array == 0 then return ← raise .nullPointerException
  let count ← Header.elementCount array
  pushInt (← searchFrom width array key count.toNat 0)
  return .proceed

end Exec

end DeviceVm
