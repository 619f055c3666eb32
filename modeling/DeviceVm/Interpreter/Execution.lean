import DeviceVm.Instruction.Decoder
import DeviceVm.Interpreter.Exceptions
import DeviceVm.Interpreter.Invocation
import DeviceVm.Interpreter.Native.Call
import DeviceVm.Number.Integer

/-!
Execution of one instruction. Its opcode has been read already; operands in the code follow.
-/

namespace DeviceVm

namespace Exec

open Word

/-! ### Constants, locals and switches -/

def indexOperand : Option Int32 → Exec Int32
  | some v => return v
  | none => codeIndex

/-- Branches, and yields at the end of the time slice. The offset counts from the end of the
instruction. -/
def branchIf (taken : Bool) (offset : Int32) : Exec Step := do
  if taken then modify fun s => { s with ip := s.ip + offset.toUInt32 }
  let left := (← get).branchesLeft - 1
  modify fun s => { s with branchesLeft := left }
  return if left > 0 then .proceed else .call .yield

def branchOffset : Option Int32 → Exec Int32
  | some v => return v
  | none => return (← code8).toInt8.toInt32

def branchOn (test : BranchTest) (wide : Option Int32) : Exec Step := do
  let offset ← branchOffset wide
  match test with
  | .always => branchIf true offset
  | .zero r =>
    let v ← popInt
    branchIf (r.holds v 0) offset
  | .pair r =>
    let right ← popInt
    let left ← popInt
    branchIf (r.holds left right) offset

def armIndex (key low : Int32) : Except Fault UInt32 :=
  let distance := key.toInt - low.toInt
  if distance ≤ 2147483647 then .ok distance.toNat.toUInt32 else .error .broken

/-- Goes to the arm of a key, where `arm` reads the offset at an address. Offsets count from the
table. -/
def switchBy (offset : Int32) (armSize : UInt32) (arm : UInt32 → Read Int32) (key : Int32) :
    Exec Step := do
  let low := (← code32).toInt32
  let high := (← code32).toInt32
  let table := (← get).ip
  let offset ← if low ≤ key && key ≤ high then do
      arm (← plus table (← times (← armIndex key low) armSize))
    else pure offset
  modify fun s => { s with ip := table + offset.toUInt32 }
  return .proceed

def halfSwitch : Exec Step := do
  let key ← popInt
  let offset ← code16
  switchBy offset.toInt16.toInt32 2 (fun a => return (← Memory.code16 a).toInt16.toInt32) key

def wordSwitch : Exec Step := do
  let key ← popInt
  let offset ← code32
  switchBy offset.toInt32 4 (fun a => return (← Memory.code32 a).toInt32) key

def loadLocal (n : Int32) : Exec Step := do
  push (← Memory.word (← get).lp n)
  return .proceed

def storeLocal (n : Int32) : Exec Step := do
  let v ← pop
  Memory.setWord (← get).lp n v
  return .proceed

def addToLocal (delta : UInt32) : Exec Step := do
  let n ← codeIndex
  let lp := (← get).lp
  let v ← Memory.word lp n
  Memory.setWord lp n (v + delta)
  return .proceed

/-! ### Arithmetic -/

def pushResult (result : Option Int32) : Exec Step := do
  match result with
  | none => raise .arithmeticException
  | some v =>
    pushInt v
    return .proceed

def pushLongResult (result : Option Int64) : Exec Step := do
  match result with
  | none => raise .arithmeticException
  | some v =>
    pushLong v.toUInt64
    return .proceed

def intArithmetic (op : IntOp) : Exec Step := do
  let r ← popInt
  let l ← popInt
  pushResult (op.result? l r)

def compareInts (relation : Relation) : Exec Step := do
  let r ← popInt
  let l ← popInt
  pushBool (relation.holds l r)
  return .proceed

def popInt64 : Exec Int64 := return (← popLong).toInt64

def longOperation (op : LongOp) : Exec Step := do
  match op with
  | .neg =>
    let v ← popInt64
    pushLong (-v).toUInt64
  | .shl | .shr | .ushr =>
    let distance ← pop
    let l ← popInt64
    pushLong (op.shift l distance).toUInt64
  | .ofInt =>
    let v ← popInt
    pushLong v.toInt64.toUInt64
  | .toInt =>
    let v ← popLong
    push v.toUInt32
  | .cmp =>
    let r ← popInt64
    let l ← popInt64
    pushInt (compareLongs l r)
  | _ =>
    let r ← popInt64
    let l ← popInt64
    return ← pushLongResult (op.result? l r)
  return .proceed

def popSingle : Exec Float32 := return Float32.ofBits (← pop)

def popDouble : Exec Float := return Float.ofBits (← popLong)

def pushSingle (v : Float32) : Exec Unit := push v.toBits

def pushDouble (v : Float) : Exec Unit := pushLong v.toBits

def floatOperation : FloatOp → Exec Unit
  | .single op => do
    let r ← popSingle
    let l ← popSingle
    pushSingle (op.single l r)
  | .singleNeg => do
    let v ← popSingle
    pushSingle (-v)
  | .singleCmp nan => do
    let r ← popSingle
    let l ← popSingle
    pushInt (nan.compare l.toFloat r.toFloat)
  | .double op => do
    let r ← popDouble
    let l ← popDouble
    pushDouble (op.double l r)
  | .doubleNeg => do
    let v ← popDouble
    pushDouble (-v)
  | .doubleCmp nan => do
    let r ← popDouble
    let l ← popDouble
    pushInt (nan.compare l r)
  | .intToSingle => do
    let v ← popInt
    pushSingle v.toFloat32
  | .longToSingle => do
    let v ← popInt64
    pushSingle v.toFloat32
  | .singleToInt => do
    let v ← popSingle
    pushInt v.toInt32
  | .singleToLong => do
    let v ← popSingle
    pushLong v.toInt64.toUInt64
  | .intToDouble => do
    let v ← popInt
    pushDouble v.toFloat
  | .longToDouble => do
    let v ← popInt64
    pushDouble v.toFloat
  | .singleToDouble => do
    let v ← popSingle
    pushDouble v.toFloat
  | .doubleToInt => do
    let v ← popDouble
    pushInt v.toInt32
  | .doubleToLong => do
    let v ← popDouble
    pushLong v.toInt64.toUInt64
  | .doubleToSingle => do
    let v ← popDouble
    pushSingle v.toFloat32

/-! ### Objects and classes -/

def newObject (start : UInt32) : Exec Step := do
  let lp := (← get).lp
  let given ← Memory.word lp 0
  let cp := (← get).cp
  let obj ← if given != 0 then pure given else Store.newInstance cp
  if obj == 0 then return ← collectAndRetry start
  Memory.setWord lp 0 obj
  if ← Class.hasFinalizer cp then
    push obj
    return .call .registerForFinalization
  return .proceed

def initialiseClass (k : UInt32) : Exec Step := do
  if ← Class.needsInitialiser k then
    if (← Store.findClassState k) == 0 then
      push k
      return .call .initializeClass
  return .proceed

def monitorOperation (action : MonitorAction) (subject : Subject) : Exec Step := do
  let obj ← staticOwner subject
  if obj == 0 then return ← raise .nullPointerException
  push obj
  return .call (match action with
    | .enter => .monitorEnter
    | .exit => .monitorExit)

def askSupport (obj k : UInt32) (call : SupportCall) : Exec Step := do
  push obj
  push k
  return .call call

def testInstance : Exec Step := do
  let k ← pop
  let obj ← pop
  if obj != 0 && k != 0 then
    if ← Store.isInstanceOf obj k then
      push 1
      return .proceed
  askSupport obj k .instanceOf

def castObject : Exec Step := do
  let k ← pop
  let obj ← pop
  let fits ← if obj == 0 then pure true else Store.isInstanceOf obj k
  if fits then
    push obj
    return .proceed
  else askSupport obj k .checkcast

def invoke : InvokeKind → Exec Step
  | .virtual => do invokeVirtual (← code8).toUInt32
  | .super => do invokeSuper (← code8).toUInt32
  | .static | .init => do invokeStatic (← codeIndex)
  | .interface => do invokeInterface (← codeIndex)
  | .native => do
    let _ ← pop
    invokeNative (← code8)

/-! ### All instructions -/

/-- Executes an instruction that starts at `start`. A prefix stands in front of an instruction
that takes the wide operand it carries. -/
def execute (start : UInt32) (wide : Option Int32) : Opcode → Exec Step
  | .const n => do
    push (UInt32.ofNat n)
    return .proceed
  | .object n => do
    pushObject (Int32.ofNat n)
    return .proceed
  | .classRef n => do
    pushClass (Int32.ofNat n)
    return .proceed
  | .load n => loadLocal (Int32.ofNat n)
  | .store n => storeLocal (Int32.ofNat n)
  | .extend n => extendFrame start (UInt32.ofNat n)
  | .wide _ | .wideHalf | .wideFull => throw .broken
  | .longOp => do
    let byte ← code8
    match LongOp.ofByte? byte with
    | some op => longOperation op
    | none => Store.fatal (.badLongOpcode byte)
  | .floatOp => do
    let byte ← code8
    match FloatOp.ofByte? byte with
    | some op =>
      floatOperation op
      return .proceed
    | none => Store.fatal (.badFloatOpcode byte)
  | .constM1 => do
    push 0xffffffff
    return .proceed
  | .constNull => do
    push 0
    return .proceed
  | .int op => intArithmetic op
  | .ret size => returnFrom size
  | .throwTop => throwOperand
  | .bpt => return .call .breakpoint
  | .nop => return .proceed
  | .pop => do
    let _ ← pop
    return .proceed
  | .neg => do
    let v ← popInt
    pushInt (-v)
    return .proceed
  | .narrow kind => do
    let v ← pop
    push (kind.apply v)
    return .proceed
  | .lookup width => search width
  | .tableswitch => wordSwitch
  | .stableswitch => halfSwitch
  | .stableswitchPad => do
    skip 1
    halfSwitch
  | .monitor action subject => monitorOperation action subject
  | .arraylength => arrayLength
  | .clinit subject => do initialiseClass (← staticOwner subject)
  | .newobject => newObject start
  | .newarray => return .call .newArray
  | .newdimension => return .call .newDimension
  | .instanceOf => testInstance
  | .checkcast => castObject
  | .compare r => compareInts r
  | .aload width => loadElement width
  | .astore width => storeElement width
  | .constByte => do
    let v ← code8
    pushInt v.toInt8.toInt32
    return .proceed
  | .constShort => do
    let v ← code16
    pushInt v.toInt16.toInt32
    return .proceed
  | .constChar => do
    let v ← code16
    push v.toUInt32
    return .proceed
  | .constInt | .constFloat => do
    let v ← code32
    push v
    return .proceed
  | .constLong | .constDouble => do
    let v ← code64
    pushLong v
    return .proceed
  | .objectAt => do
    pushObject (← indexOperand wide)
    return .proceed
  | .classAt => do
    pushClass (← indexOperand wide)
    return .proceed
  | .loadAt => do loadLocal (← codeIndex)
  | .storeAt => do storeLocal (← codeIndex)
  | .extendBy => do
    let operands ← code8
    extendFrame start operands.toUInt32
  | .inc => addToLocal 1
  | .dec => addToLocal 0xffffffff
  | .loadLong => do
    let n ← codeIndex
    pushLong (← Memory.longAtWord (← get).lp n)
    return .proceed
  | .storeLong => do
    let n ← codeIndex
    let v ← popLong
    Memory.setLongAtWord (← get).lp n v
    return .proceed
  | .invoke kind _ => invoke kind
  | .getstatic subject width => loadStatic subject width
  | .putstatic subject width => storeStatic subject width
  | .getfield subject width => loadField subject width
  | .putfield subject width => storeField subject width
  | .branch test => branchOn test wide
  | .methodid => do
    skip 4
    return .proceed

def widened (start : UInt32) (operand : Exec Int32) : Exec Step := do
  let byte ← code8
  match (Opcode.ofByte? byte).filter (·.acceptsWide) with
  | none => Store.fatal (.badWideOpcode byte start)
  | some op => execute start (some (← operand)) op

def step : Exec Step := do
  let start := (← get).ip
  let byte ← code8
  match Opcode.ofByte? byte with
  | none => Store.fatal (.badOpcode byte start)
  | some (.wide n) => widened start do return Cursor.twelveBits n (← code8)
  | some .wideHalf => widened start do return (← code16).toInt16.toInt32
  | some .wideFull => widened start do return (← code32).toInt32
  | some op => execute start none op

end Exec

end DeviceVm
