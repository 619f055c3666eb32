import DeviceVm.Interpreter.Native.Basic
import DeviceVm.Program.Basic

/-!
The methods that a program gets unless it brings its own: those of the support calls, the
constructors of the known exceptions, class initialisers and the body of a thread.

A support method that allocates tries again after each collection. A collection that makes no
room ends the loop, because the frame then goes on by throwing.
-/

namespace DeviceVm

namespace Assemble

def native (n : Native) : Assemble Unit := do
  constNull
  invoke (.invoke .native .none) n.number

def untilAllocated (slot : UInt8) (attempt : Assemble Unit) : Assemble Unit := do
  extend 6
  let head ← position
  attempt
  store slot
  load slot
  let done ← branch (.branch (.zero .ne))
  native .gc
  branchTo (.branch .always) head
  bind done

def returnOnly : Assemble Unit := do
  extend 0
  op (.ret .none)

def classStateOf (slot : UInt8) : Assemble Unit := do
  load slot
  op (.clinit .operand)
  load slot
  native .getClassState

end Assemble

namespace Describe

open Assemble

def throwing (exception : UInt32) (parameters : UInt8) : Describe MethodBody := do
  let index ← referClass ClassNumber.support exception
  MethodBody.assemble parameters parameters 0 do
    extend 3
    constNull
    classRef index
    invoke (.invoke .init .one) 0
    op .throwTop

/-- The usual method of a support call. `start` is the method to start with, by the index of its
class. -/
def usualSupport (start : Option (UInt16 × UInt8)) : SupportCall → Describe MethodBody
  | .yield | .breakpoint => MethodBody.assemble 0 0 0 returnOnly
  | .monitorEnter | .monitorExit => MethodBody.assemble 1 1 0b1 returnOnly
  | .nullPointerException => throwing ClassNumber.nullPointer 0
  | .arrayBoundsException => throwing ClassNumber.arrayIndex 0
  | .arithmeticException => throwing ClassNumber.arithmetic 0
  | .illegalStoreException => throwing ClassNumber.arrayStore 0
  | .astoreOop => throwing ClassNumber.arrayStore 3
  | .checkcast => throwing ClassNumber.classCast 2
  | .instanceOf => MethodBody.assemble 2 2 0 do
    extend 1
    constInt 0
    op (.ret .one)
  | .getStatic => MethodBody.assemble 2 3 0b100 do
    untilAllocated 2 (classStateOf 1)
    load 2
    load 0
    native .primGetStatic
    op (.ret .one)
  | .getStaticLong => MethodBody.assemble 2 3 0b100 do
    untilAllocated 2 (classStateOf 1)
    load 2
    load 0
    native .primGetStaticLong
    op (.ret .two)
  | .putStatic => MethodBody.assemble 3 4 0b1000 do
    untilAllocated 3 (classStateOf 2)
    load 3
    load 1
    load 0
    native .primPutStatic
    op (.ret .none)
  | .putStaticObj => MethodBody.assemble 3 4 0b1001 do
    untilAllocated 3 (classStateOf 2)
    load 3
    load 1
    load 0
    native .primPutStaticObj
    op (.ret .none)
  | .putStaticLong => MethodBody.assemble 4 5 0b10000 do
    untilAllocated 4 (classStateOf 3)
    load 4
    load 2
    loadLong 0
    native .primPutStaticLong
    op (.ret .none)
  | .initializeClass => MethodBody.assemble 1 2 0b10 do
    untilAllocated 1 do
      load 0
      native .createClassState
    load 0
    load 1
    native .setClassState
    load 0
    invoke (.invoke .static .none) ClassDescription.initialiserSlot
    op (.ret .none)
  | .newArray => MethodBody.assemble 2 3 0b100 do
    untilAllocated 2 do
      load 1
      load 0
      native .primNewArray
    load 2
    op (.ret .one)
  | .newDimension => MethodBody.assemble 2 2 0b1 do
    extend 1
    load 0
    op (.ret .one)
  | .registerForFinalization => MethodBody.assemble 1 2 0b11 do
    untilAllocated 1 do
      load 0
      native .getAssociation
    load 1
    load 1
    opByte (.getfield .operand .word) 4
    constInt 1
    op (.int .or)
    opByte (.putfield .operand .word) 4
    op (.ret .none)
  | .callrun => MethodBody.assemble 1 1 0b1 do
    extend 3
    load 0
    invoke (.invoke .virtual .none) Program.runSlot.toUInt8
    constInt 0
    native .exit
    op (.ret .none)
  | .vmstart => MethodBody.assemble 0 0 0 do
    extend 3
    if let some (index, slot) := start then
      classRef index
      invoke (.invoke .static .none) slot
    constInt 0
    native .exit
    op (.ret .none)

def usualConstructor : Except Fault MethodBody :=
  MethodBody.assemble 1 1 0b1 do
    extend 1
    op .newobject
    load 0
    op (.ret .one)

def completeSupport : Describe Unit := do
  let start ← match (← get).start with
    | none => pure none
    | some (number, slot) => do
      let index ← referClass ClassNumber.support number
      pure (some (index, slot))
  SupportCall.all.toList.forM fun call => do
    let m ← match (← get).support[call.slot]? with
      | some (some m) => pure m
      | _ => usualSupport start call
    setStaticMethod ClassNumber.support call.slot.toUInt8 m

def completeExceptions : Describe Unit := do
  let count := (ClassNumber.firstFree - ClassNumber.throwable).toNat
  (List.range count).forM fun i => do
    let number := ClassNumber.throwable + i.toUInt32
    if (← find number).staticMethods.isEmpty then
      setStaticMethod number 0 (← usualConstructor)

def completeThread : Describe Unit := do
  let d ← find ClassNumber.thread
  if !d.virtualMethods.any (·.1 == Program.runSlot) then
    setVirtualMethod ClassNumber.thread Program.runSlot (← MethodBody.assemble 1 1 0b1 returnOnly)

def completeInitialisers : Describe Unit := do
  let m ← MethodBody.assemble 0 0 0 returnOnly
  let slot := ClassDescription.initialiserSlot
  let complete (d : ClassDescription) : ClassDescription :=
    match d.mustInitialise, d.staticMethods[slot.toNat]? with
    | false, _ | _, some (some _) => d
    | true, _ => d.setStatic slot m
  modify fun p => { p with suites := p.suites.map (·.map (·.map complete)) }

def complete : Describe Unit := do
  completeSupport
  completeExceptions
  completeThread
  completeInitialisers

end Describe

end DeviceVm
