import DeviceVm.Opcode.Basic
import DeviceVm.Fault

/-!
Assembling of bytecode. Every operand is big-endian, whatever the byte order of the image. A
constant, a literal and a backward branch take their shortest form; a forward branch has a
half-word offset that is filled in when its target is known.
-/

namespace DeviceVm

structure Code where
  bytes : ByteArray := .empty

structure Label where
  offsetPos : Nat
  base : Nat
  deriving DecidableEq, Repr

structure SwitchTable where
  defaultPos : Nat
  tablePos : Nat
  low : Int32
  high : Int32
  deriving DecidableEq, Repr

def SwitchTable.armPos (t : SwitchTable) (key : Int32) : Nat :=
  t.tablePos + 2 * (key.toInt - t.low.toInt).toNat

namespace Code

def size (c : Code) : Nat := c.bytes.size

def push (c : Code) (b : UInt8) : Code := { bytes := c.bytes.push b }

def pushNumber (c : Code) : (n : Nat) → (v : UInt64) → Code
  | 0, _ => c
  | n + 1, v => (c.push (v >>> (8 * n).toUInt64).toUInt8).pushNumber n v

def patch16 (c : Code) (pos : Nat) (v : UInt16) : Code :=
  { bytes := (c.bytes.set! pos (v >>> 8).toUInt8).set! (pos + 1) v.toUInt8 }

def half (distance : Int) : UInt16 :=
  (Int16.ofInt distance).toUInt16

def patchArms (c : Code) (pos : Nat) (v : UInt16) : (arms : Nat) → Code
  | 0 => c
  | n + 1 => (c.patch16 pos v).patchArms (pos + 2) v n

end Code

abbrev Assemble := StateT Code (Except Fault)

namespace Assemble

def position : Assemble Nat := return (← get).size

def byte (b : UInt8) : Assemble Unit := modify (·.push b)

def number (n : Nat) (v : UInt64) : Assemble Unit := modify (·.pushNumber n v)

def half (v : UInt16) : Assemble Unit := number 2 v.toUInt64

def word (v : UInt32) : Assemble Unit := number 4 v.toUInt64

def long (v : UInt64) : Assemble Unit := number 8 v

def op (o : Opcode) : Assemble Unit := byte o.toByte

def opByte (o : Opcode) (b : UInt8) : Assemble Unit := do
  op o
  byte b

def smallOrByte (small : Fin 16 → Opcode) (large : Opcode) (n : UInt8) : Assemble Unit :=
  if h : n.toNat < 16 then op (small ⟨n.toNat, h⟩) else opByte large n

def constInt (v : Int32) : Assemble Unit :=
  if h : 0 ≤ v.toInt ∧ v.toInt < 16 then op (.const ⟨v.toInt.toNat, by omega⟩)
  else if v == -1 then op .constM1
  else if -128 ≤ v.toInt ∧ v.toInt < 128 then opByte .constByte v.toUInt32.toUInt8
  else if -32768 ≤ v.toInt ∧ v.toInt < 32768 then do
    op .constShort
    half v.toUInt32.toUInt16
  else do
    op .constInt
    word v.toUInt32

def constChar (v : UInt16) : Assemble Unit := do
  op .constChar
  half v

def constLong (v : UInt64) : Assemble Unit := do
  op .constLong
  long v

def constFloat (bits : UInt32) : Assemble Unit := do
  op .constFloat
  word bits

def constDouble (bits : UInt64) : Assemble Unit := do
  op .constDouble
  long bits

def constNull : Assemble Unit := op .constNull

def literal (small : Fin 16 → Opcode) (large : Opcode) (index : UInt16) : Assemble Unit :=
  if index < 256 then smallOrByte small large index.toUInt8
  else do
    op .wideHalf
    op large
    half index

def object (index : UInt16) : Assemble Unit := literal .object .objectAt index

def classRef (index : UInt16) : Assemble Unit := literal .classRef .classAt index

def load (slot : UInt8) : Assemble Unit := smallOrByte .load .loadAt slot

def store (slot : UInt8) : Assemble Unit := smallOrByte .store .storeAt slot

def loadLong (slot : UInt8) : Assemble Unit := opByte .loadLong slot

def storeLong (slot : UInt8) : Assemble Unit := opByte .storeLong slot

def inc (slot : UInt8) : Assemble Unit := opByte .inc slot

def dec (slot : UInt8) : Assemble Unit := opByte .dec slot

def extend (words : UInt8) : Assemble Unit := smallOrByte .extend .extendBy words

def branch (o : Opcode) : Assemble Label := do
  require o.isBranch
  op .wideHalf
  op o
  let offsetPos ← position
  half 0
  return { offsetPos, base := ← position }

def bind (label : Label) : Assemble Unit :=
  modify fun c => c.patch16 label.offsetPos (Code.half (c.size - label.base))

def lowestDistance : Int := -9223372036854775808

/-- A branch to a known position, which may lie before the code. A distance that no word holds is
cut to a word. -/
def branchTo (o : Opcode) (target : Int) : Assemble Unit := do
  require o.isBranch
  let pos ← position
  let near : Int := target - (pos + 2)
  let wide : Int := target - (pos + 4)
  let full : Int := target - (pos + 6)
  if -128 ≤ near ∧ near < 128 then opByte o (Int8.ofInt near).toUInt8
  else if -32768 ≤ wide ∧ wide < 32768 then
    op .wideHalf
    op o
    half (Code.half wide)
  else
    require (lowestDistance ≤ full)
    op .wideFull
    op o
    word (Int32.ofInt full).toUInt32

/-- A switch over `low` to `high` whose arms and default end behind it. The table is kept at an
even position. The distance of a key from `low` is computed in a word. -/
def stableSwitch (low high : Int32) : Assemble SwitchTable := do
  require (low ≤ high && high.toInt - low.toInt ≤ 2147483647)
  if ((← position) + 1) % 2 == 1 then
    op .stableswitchPad
    byte 0
  else
    op .stableswitch
  let defaultPos ← position
  half 0
  word low.toUInt32
  word high.toUInt32
  let tablePos ← position
  let arms := (high.toInt - low.toInt + 1).toNat
  modify fun c => { bytes := c.bytes ++ ⟨Array.replicate (2 * arms) 0⟩ }
  let past := Code.half (2 * arms)
  modify fun c => (c.patch16 defaultPos past).patchArms tablePos past arms
  return { defaultPos, tablePos, low, high }

def bindDefault (t : SwitchTable) : Assemble Unit :=
  modify fun c => c.patch16 t.defaultPos (Code.half (c.size - t.tablePos))

def bindCase (t : SwitchTable) (key : Int32) : Assemble Unit := do
  require (t.low ≤ key && key ≤ t.high)
  modify fun c => c.patch16 (t.armPos key) (Code.half (c.size - t.tablePos))

def invoke (o : Opcode) (slot : UInt8) : Assemble Unit := opByte o slot

def longOp (o : LongOp) : Assemble Unit := opByte .longOp o.toByte

def floatOp (o : FloatOp) : Assemble Unit := opByte .floatOp o.toByte

def methodid (id : UInt32) : Assemble Unit := do
  op .methodid
  word id

def toBytes (steps : Assemble Unit) : Except Fault ByteArray := do
  let ((), code) ← StateT.run steps {}
  return code.bytes

end Assemble

end DeviceVm
