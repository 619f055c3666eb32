import DeviceVm.Program.Support
import DeviceVm.Store.Basic

/-!
Laying out a program in memory. Read-only memory holds the classes, their tables and the code of
their methods; persistent memory and RAM follow it and are empty.

The objects of read-only memory are placed one behind the other, the class objects first, so that
each later header can name its class.
-/

namespace DeviceVm

namespace Layout

open Word

def romStart : UInt32 := 0x100

def maxRomSize : Nat := 1048576

structure Rom where
  mem : Memory
  classes : Array (Array UInt32) := #[]

abbrev Place := EStateM Fault Rom

@[always_inline, inline]
instance : MonadLift Edit Place where
  monadLift e := fun s =>
    match e s.mem with
    | .ok a m => .ok a { s with mem := m }
    | .error f m => .error f { s with mem := m }

namespace Place

def classAt (number : UInt32) : Place UInt32 := do
  let suite := (← get).classes.getD (number >>> 8).toNat #[]
  let k := suite.getD (number &&& 0xff).toNat 0
  require (k != 0)
  return k

def reserve (bytes : UInt32) : Place UInt32 := do
  let size := (← get).mem.size
  let taken ← roundUp4 bytes
  require (size + taken.toNat ≤ romStart.toNat + maxRomSize)
  modify fun s => { s with mem.bytes := s.mem.bytes ++ Memory.zeros taken.toNat }
  return size.toUInt32

def record (k fields : UInt32) : Place UInt32 := do
  let oop ← plus (← reserve (← plus 4 (← times fields 4))) 4
  if k != 0 then Header.setClass oop k
  return oop

def array (arrayNumber count : UInt32) : Place UInt32 := do
  let k ← classAt arrayNumber
  let element ← Class.elementNumber k
  let header := Header.sizeForCount count
  let block ← reserve (← plus header (← times count (Class.elementSize element)))
  let oop ← plus block header
  Header.setClassAndCount oop k count
  return oop

def fillWords (oop : UInt32) : List UInt32 → (i : UInt32) → Place Unit
  | [], _ => return
  | v :: rest, i => do
    Memory.setWord oop i.toInt32 v
    fillWords oop rest (i + 1)

def references (values : List UInt32) : Place UInt32 := do
  let oop ← array ClassNumber.objectArray values.length.toUInt32
  fillWords oop values 0
  return oop

def bytes (arrayNumber : UInt32) (values : ByteArray) : Place UInt32 := do
  let oop ← array arrayNumber values.size.toUInt32
  Memory.setSlice oop values
  return oop

def fillHalves (oop : UInt32) : List UInt16 → (i : UInt32) → Place Unit
  | [], _ => return
  | v :: rest, i => do
    Memory.setHalf oop i.toInt32 v
    fillHalves oop rest (i + 1)

def halves (values : List UInt16) : Place UInt32 := do
  let oop ← array ClassNumber.charArray values.length.toUInt32
  fillHalves oop values 0
  return oop

def method (m : MethodBody) (number : UInt32) : Place UInt32 := do
  bytes ClassNumber.byteArray (← m.encode number)

def optionalMethod (number : UInt32) : Option MethodBody → Place UInt32
  | none => return 0
  | some m => method m number

def classObjects (p : Program) : Place Unit := do
  let classes ← p.suites.mapM fun suite => suite.mapM fun
    | none => pure 0
    | some _ => record 0 Class.fieldCount
  modify fun s => { s with classes }

def identify (d : ClassDescription) : Place Unit := do
  let k ← classAt d.number
  Header.setClass k (← classAt ClassNumber.classObject)
  Memory.setWord k 0 d.number
  Memory.setWord k 1 d.access
  Memory.setWord k 3 d.element

def inheritedMap (p : Program) : (fuel : Nat) → (map ancestor : UInt32) → Except Fault UInt32
  | 0, _, _ => throw .endless
  | fuel + 1, map, ancestor => do
    if ancestor == 0 then return map
    match p.find? ancestor with
    | none => throw .broken
    | some d => inheritedMap p fuel (map ||| d.referenceMap) d.superNumber

def virtualTable (k : UInt32) (d : ClassDescription) : Place Unit := do
  match d.virtualMethods.head?, d.virtualMethods.getLast? with
  | some (first, _), some (last, _) =>
    let methods ← d.virtualMethods.mapM fun (slot, m) => do
      return (slot, ← method m d.number)
    let table ← array ClassNumber.objectArray (← plus (← minus last first) 1)
    methods.forM fun (slot, oop) => Memory.setWord table (slot - first).toInt32 oop
    Memory.setWord k 7 first
    Memory.setWord k 8 table
  | _, _ => pure ()

def staticTable (k : UInt32) (d : ClassDescription) : Place Unit := do
  if !d.staticMethods.isEmpty then
    let methods ← d.staticMethods.toList.mapM (optionalMethod d.number)
    Memory.setWord k 9 (← references methods)

def interfaceTables (k : UInt32) (d : ClassDescription) : Place Unit := do
  if !d.interfaces.isEmpty then
    let numbers ← halves (d.interfaces.toList.map (·.number.toUInt16))
    let tables ← d.interfaces.toList.mapM fun i => bytes ClassNumber.byteArray i.slots
    let tables ← references tables
    Memory.setWord k 10 numbers
    Memory.setWord k 11 tables

def referenceMap (k : UInt32) (d : ClassDescription) (map : UInt32) : Place Unit := do
  if map != 0 then
    require (d.fields ≤ 32)
    let oop ← bytes ClassNumber.byteArray (MethodBody.mapBytes map d.fields.toNat).toByteArray
    Memory.setWord k 12 oop

def stringTable (k : UInt32) (d : ClassDescription) : Place Unit := do
  if !d.strings.isEmpty then
    let strings ← d.strings.toList.mapM fun s => bytes ClassNumber.byteString s.toUTF8
    Memory.setWord k 13 (← references strings)

def classTable (k : UInt32) (d : ClassDescription) : Place Unit := do
  if !d.classReferences.isEmpty then
    Memory.setWord k 14 (← halves (d.classReferences.toList.map (·.toUInt16)))

def describe (p : Program) (ancestors : Nat) (d : ClassDescription) : Place Unit := do
  let k ← classAt d.number
  let superClass ← if d.superNumber == 0 then pure 0 else classAt d.superNumber
  let map ← inheritedMap p ancestors d.referenceMap d.superNumber
  Memory.setWord k 2 superClass
  Memory.setWord k 4 d.fields
  Memory.setWord k 5 d.statics
  Memory.setWord k 6 d.staticReferences
  virtualTable k d
  staticTable k d
  interfaceTables k d
  referenceMap k d map
  stringTable k d
  classTable k d

def suite (classes : Array UInt32) : Place UInt32 := do
  let table ← references classes.toList
  let suite ← record (← classAt ClassNumber.suite) 1
  Memory.setWord suite 0 table
  return suite

structure Anchors where
  suiteTable : UInt32
  support : UInt32
  outOfMemory : UInt32

def program (p : Program) : Place Anchors := do
  classObjects p
  let classes := p.classes
  classes.forM identify
  classes.forM (describe p (classes.length + 2))
  let suites ← (← get).classes.toList.mapM suite
  let suiteTable ← references suites
  let outOfMemory ← record (← classAt ClassNumber.outOfMemory) 0
  return { suiteTable, support := ← classAt ClassNumber.support, outOfMemory }

end Place

def romRecord (rom : Region) (free : UInt32) (anchors : Place.Anchors) : Edit Unit := do
  let start ← rom.heapStart
  let stop ← rom.stop
  Memory.setWord rom.start SegmentRecord.objectStart start
  Memory.setWord rom.start SegmentRecord.objectSize (← minus stop start)
  Memory.setWord rom.start SegmentRecord.partitionStart start
  Memory.setWord rom.start SegmentRecord.partitionFree free
  Memory.setWord rom.start SegmentRecord.partitionEnd stop
  Memory.setWord rom.start (SegmentRecord.roots + Root.support) anchors.support
  Memory.setWord rom.start (SegmentRecord.roots + Root.suites) anchors.suiteTable

def ramRecord (ram : Region) (anchors : Place.Anchors) : Edit Unit := do
  Memory.setByte ram.start (SegmentRecord.throwCode * 4) Opcode.throwTop.toByte
  Memory.setWord ram.start (SegmentRecord.roots + Root.outOfMemory) anchors.outOfMemory

def edited (edit : Edit Unit) (mem : Memory) : Except Fault Memory :=
  match edit mem with
  | .ok _ mem => .ok mem
  | .error fault _ => .error fault

end Layout

namespace Program

open Layout Word

def layOut (p : Program) (order : ByteOrder) (eepromSize ramSize : UInt32) (settings : Settings) :
    Except Fault Store := do
  let (_, p) ← Describe.complete.run p
  let blank : Rom := { mem := Memory.blank (romStart + SegmentRecord.bytes).toNat order }
  match (Place.program p) blank with
  | .error fault _ => throw fault
  | .ok anchors filled =>
    let free := filled.mem.size.toUInt32
    let rom : Region := { start := romStart, size := ← roundUp8 (free - romStart) }
    let eeprom : Region :=
      { start := ← rom.stop, size := ← roundUp8 (max eepromSize SegmentRecord.bytes) }
    let ram : Region :=
      { start := ← eeprom.stop, size := ← roundUp8 (max ramSize SegmentRecord.bytes) }
    let stop ← ram.stop
    require (stop ≤ Header.classMask)
    let rest := Memory.zeros (stop - free).toNat
    let mem : Memory := { bytes := filled.mem.bytes ++ rest, order }
    let mem ← edited (romRecord rom free anchors) mem
    let mem ← edited (ramRecord ram anchors) mem
    return Store.ofMemory mem rom eeprom ram settings {}

end Program

end DeviceVm
