import DeviceVm.Interpreter.SupportCall
import DeviceVm.Object.Class
import DeviceVm.Program.Method

/-!
Programs: suites of class descriptions, methods for the support calls, and the method to start
with. A class is numbered by its suite in the high bits and its place there in the low eight.
`Describe` is a computation that adds to a program.
-/

namespace DeviceVm

/-- An interface that a class implements. Entry `i` of the slots is the virtual slot of method `i`
of the interface. -/
structure InterfaceEntry where
  number : UInt32
  slots : ByteArray

structure ClassDescription where
  name : String
  number : UInt32
  access : UInt32 := 0
  superNumber : UInt32
  element : UInt32 := 0
  fields : UInt32 := 0
  /-- Bit `i` is set where field `i` holds a reference. -/
  referenceMap : UInt32 := 0
  statics : UInt32 := 0
  staticReferences : UInt32 := 0
  staticMethods : Array (Option MethodBody) := #[]
  virtualMethods : List (UInt32 × MethodBody) := []
  interfaces : Array InterfaceEntry := #[]
  classReferences : Array UInt32 := #[]
  strings : Array String := #[]

namespace ClassDescription

def setStatic (d : ClassDescription) (slot : UInt8) (m : MethodBody) : ClassDescription :=
  let missing := slot.toNat + 1 - d.staticMethods.size
  let methods := d.staticMethods ++ Array.replicate missing none
  { d with staticMethods := methods.setIfInBounds slot.toNat (some m) }

def insertSlot (slot : UInt32) (m : MethodBody) :
    List (UInt32 × MethodBody) → List (UInt32 × MethodBody)
  | [] => [(slot, m)]
  | (s, other) :: rest =>
    if slot < s then (slot, m) :: (s, other) :: rest
    else if slot == s then (slot, m) :: rest
    else (s, other) :: insertSlot slot m rest

def setVirtual (d : ClassDescription) (slot : UInt32) (m : MethodBody) : ClassDescription :=
  { d with virtualMethods := insertSlot slot m d.virtualMethods }

def refer (d : ClassDescription) (target : UInt32) : UInt16 × ClassDescription :=
  match d.classReferences.findIdx? (· == target) with
  | some i => (i.toUInt16, d)
  | none =>
    (d.classReferences.size.toUInt16, { d with classReferences := d.classReferences.push target })

def initialiserSlot : UInt8 := 1

def mustInitialise (d : ClassDescription) : Bool :=
  d.access &&& Class.mustInitialise != 0

end ClassDescription

structure Program where
  suites : Array (Array (Option ClassDescription))
  support : Array (Option MethodBody) := Array.replicate SupportCall.all.size none
  start : Option (UInt32 × UInt8) := none

abbrev Describe := StateT Program (Except Fault)

namespace Program

def runSlot : UInt32 := 0

def knownClasses : Array (Option ClassDescription) :=
  let plain (name : String) (superNumber number : UInt32) : ClassDescription :=
    { name, number, superNumber }
  let array (name : String) (element number : UInt32) : ClassDescription :=
    { name, number, element, superNumber := ClassNumber.object }
  let record (name : String) (fields referenceMap number : UInt32) : ClassDescription :=
    { name, number, fields, referenceMap, superNumber := ClassNumber.object }
  let classes : List (UInt32 → ClassDescription) :=
    [plain "boolean" 0, plain "byte" 0, plain "char" 0, plain "short" 0, plain "int" 0,
      plain "long" 0, plain "float" 0, plain "double" 0,
      plain "java.lang.Object" 0,
      record "java.lang.Class" Class.fieldCount 0xff04,
      array "java.lang.String" ClassNumber.char,
      array "java.lang.StringOfBytes" ClassNumber.byte,
      array "[boolean" ClassNumber.boolean, array "[byte" ClassNumber.byte,
      array "[char" ClassNumber.char, array "[short" ClassNumber.short,
      array "[int" ClassNumber.int, array "[long" ClassNumber.long,
      array "[float" ClassNumber.float, array "[double" ClassNumber.double,
      array "[java.lang.Object" ClassNumber.object,
      array "[java.lang.String" ClassNumber.string,
      array "[local" ClassNumber.int, array "[global" ClassNumber.int,
      plain "java.lang.VMExtension" ClassNumber.object,
      record "java.lang.ObjectAssociation" 5 0b111,
      record "java.lang.Suite" 1 0b1,
      record "java.lang.Thread" 1 0b1,
      record "java.lang.Monitor" 5 0b1101,
      plain "java.lang.Throwable" ClassNumber.object,
      plain "java.lang.OutOfMemoryError" ClassNumber.throwable,
      plain "java.lang.NullPointerException" ClassNumber.throwable,
      plain "java.lang.ArrayIndexOutOfBoundsException" ClassNumber.throwable,
      plain "java.lang.ArithmeticException" ClassNumber.throwable,
      plain "java.lang.ArrayStoreException" ClassNumber.throwable,
      plain "java.lang.ClassCastException" ClassNumber.throwable]
  #[none] ++ (classes.mapIdx fun i make => some (make (i + 1).toUInt32)).toArray

def empty : Program := { suites := #[knownClasses] }

def classes (p : Program) : List ClassDescription :=
  p.suites.toList.flatMap fun suite => suite.toList.filterMap id

def find? (p : Program) (number : UInt32) : Option ClassDescription := do
  let suite ← p.suites[(number >>> 8).toNat]?
  let entry ← suite[(number &&& 0xff).toNat]?
  entry

def set (p : Program) (number : UInt32) (d : ClassDescription) : Program :=
  let place := (number &&& 0xff).toNat
  let suites := p.suites.modify (number >>> 8).toNat (·.setIfInBounds place (some d))
  { p with suites }

end Program

namespace Describe

def find (number : UInt32) : Describe ClassDescription := do
  match (← get).find? number with
  | some d => return d
  | none => throw .broken

def update (number : UInt32) (f : ClassDescription → ClassDescription) : Describe Unit := do
  let d ← find number
  modify (·.set number (f d))

def addSuite : Describe UInt32 := do
  let count := (← get).suites.size
  require (count < 256)
  modify fun p => { p with suites := p.suites.push #[] }
  return count.toUInt32

def addClass (suite : UInt32) (name : String) (superNumber fields referenceMap : UInt32) :
    Describe UInt32 := do
  let p ← get
  match p.suites[suite.toNat]? with
  | none => throw .broken
  | some classes =>
    require (classes.size < 256)
    let number := suite <<< 8 ||| classes.size.toUInt32
    let d : ClassDescription := { name, number, superNumber, fields, referenceMap }
    set { p with suites := p.suites.setIfInBounds suite.toNat (classes.push (some d)) }
    return number

def addArrayClass (suite : UInt32) (name : String) (element : UInt32) : Describe UInt32 := do
  let number ← addClass suite name ClassNumber.object 0 0
  update number fun d => { d with element }
  return number

def setAccess (number flags : UInt32) : Describe Unit :=
  update number fun d => { d with access := flags }

def setStatics (number total references : UInt32) : Describe Unit := do
  require (references ≤ total)
  update number fun d => { d with statics := total, staticReferences := references }

def setStaticMethod (number : UInt32) (slot : UInt8) (m : MethodBody) : Describe Unit :=
  update number (·.setStatic slot m)

def addStaticMethod (number : UInt32) (m : MethodBody) : Describe UInt8 := do
  let slot := (← find number).staticMethods.size
  require (slot < 256)
  setStaticMethod number slot.toUInt8 m
  return slot.toUInt8

def setVirtualMethod (number slot : UInt32) (m : MethodBody) : Describe Unit :=
  update number (·.setVirtual slot m)

def addInterface (number interface : UInt32) (slots : ByteArray) : Describe Unit :=
  update number fun d =>
    { d with interfaces := d.interfaces.push { number := interface, slots } }

def setInitialiser (number : UInt32) (m : MethodBody) : Describe Unit :=
  update number fun d =>
    { d with access := d.access ||| Class.mustInitialise }.setStatic
      ClassDescription.initialiserSlot m

def referClass (number target : UInt32) : Describe UInt16 := do
  let (index, d) := (← find number).refer target
  modify (·.set number d)
  return index

def referString (number : UInt32) (text : String) : Describe UInt16 := do
  let d ← find number
  modify (·.set number { d with strings := d.strings.push text })
  return d.strings.size.toUInt16

def setStart (number : UInt32) (slot : UInt8) : Describe Unit :=
  modify fun p => { p with start := some (number, slot) }

def setSupport (call : SupportCall) (m : MethodBody) : Describe Unit :=
  modify fun p => { p with support := p.support.setIfInBounds call.slot (some m) }

end Describe

end DeviceVm
