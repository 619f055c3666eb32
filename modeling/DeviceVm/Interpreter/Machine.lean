import DeviceVm.Interpreter.SupportCall
import DeviceVm.Stack.Frame
import DeviceVm.Store.Basic

/-!
The state of the interpreter: its registers, the rest of the time slice, and what the guest has
printed. Everything that must outlive a collection is in the store; the registers are loaded from
a stack chunk and saved to it.
-/

namespace DeviceVm

inductive OutputStream where
  | standard | error
  deriving DecidableEq, Repr

structure Machine where
  store : Store
  /-- The next instruction. -/
  ip : UInt32 := 0
  /-- The top of the operand stack. -/
  sp : UInt32 := 0
  /-- The running frame. -/
  lp : UInt32 := 0
  /-- The class of the running method. -/
  cp : UInt32 := 0
  /-- The end of the stack chunk. -/
  sl : UInt32 := 0
  branchesLeft : Nat := 0
  collectionWorked : Bool := true
  noYield : Bool := false
  instructions : Nat := 0
  startTime : Nat := 0
  output : Array (OutputStream × String) := #[]

def Machine.timeSlice : Nat := 10000

inductive Suspension where
  | collect (chunk : UInt32)
  | exit (code : Int32)
  deriving DecidableEq, Repr

inductive Step where
  | proceed
  | call (support : SupportCall)
  | suspend (reason : Suspension)
  deriving DecidableEq, Repr

abbrev Exec := EStateM Fault Machine

@[always_inline, inline]
instance : MonadLift Run Exec where
  monadLift e := fun s =>
    match e s.store with
    | .ok a m => .ok a { s with store := m }
    | .error f m => .error f { s with store := m }

@[always_inline, inline]
instance : MonadLift Read Exec where
  monadLift r := fun s =>
    match r s.store.mem with
    | .ok a => .ok a s
    | .error e => .error e s

namespace Exec

open Word

@[inline] def traces (flag : TraceFlags) : Exec Bool := do
  return (← get).store.trace.contains flag

def print (stream : OutputStream) (text : String) : Exec Unit :=
  modify fun s => { s with output := s.output.push (stream, text) }

/-! ### Operands -/

def push (v : UInt32) : Exec Unit := do
  let sp := (← get).sp + 4
  modify fun s => { s with sp }
  require (sp < (← get).sl)
  Memory.setWordAt sp v

def pop : Exec UInt32 := do
  let sp := (← get).sp
  let v ← Memory.wordAt sp
  modify fun s => { s with sp := sp - 4 }
  return v

def popInt : Exec Int32 := return (← pop).toInt32

def pushInt (v : Int32) : Exec Unit := push v.toUInt32

def pushBool (b : Bool) : Exec Unit := push (if b then 1 else 0)

def pushLong (v : UInt64) : Exec Unit := do
  let sp := (← get).sp + 4
  Memory.setLongAtWord sp 0 v
  modify fun s => { s with sp := sp + 4 }

def popLong : Exec UInt64 := do
  let sp := (← get).sp - 4
  let v ← Memory.longAtWord sp 0
  modify fun s => { s with sp := sp - 4 }
  return v

def clearOperands : Exec Unit := do
  let lp := (← get).lp
  let offset ← Frame.stackOffset lp
  modify fun s => { s with sp := lp + offset }

/-! ### Operands in the code -/

@[inline] def skip (n : UInt32) : Exec Unit := do
  let ip ← plus (← get).ip n
  modify fun s => { s with ip }

def code8 : Exec UInt8 := do
  let v ← Memory.code8 (← get).ip
  skip 1
  return v

def code16 : Exec UInt16 := do
  let v ← Memory.code16 (← get).ip
  skip 2
  return v

def code32 : Exec UInt32 := do
  let v ← Memory.code32 (← get).ip
  skip 4
  return v

def code64 : Exec UInt64 := do
  let v ← Memory.code64 (← get).ip
  skip 8
  return v

def codeIndex : Exec Int32 := return (← code8).toUInt32.toInt32

end Exec

end DeviceVm
