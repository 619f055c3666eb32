import DeviceVm.Interpreter.Frames

/-!
Invocation of methods. A virtual method is looked for in the class of the receiver and in those
it extends; a method of an interface has its virtual slot in a table of the class that implements
the interface.
-/

namespace DeviceVm

namespace Exec

def ownVirtual (k slot : UInt32) : Read UInt32 := do
  let first ← Class.firstVirtual k
  if slot < first then return 0
  let table ← Class.virtualTable k
  if table == 0 then return 0
  if slot - first ≥ (← Header.elementCount table) then return 0
  Memory.word table (slot - first).toInt32

def findVirtualWithin (slot : UInt32) : (fuel : Nat) → (k : UInt32) → Run (UInt32 × UInt32)
  | 0, _ => throw .endless
  | fuel + 1, k => do
    if k == 0 then Store.fatal (.missingVirtualMethod slot)
    let mp ← ownVirtual k slot
    if mp != 0 then return (k, mp)
    findVirtualWithin slot fuel (← Class.superClass k)

def findVirtual (k slot : UInt32) : Run (UInt32 × UInt32) := do
  findVirtualWithin slot ((← Memory.walkBound) + 1) k

def enterIn (k mp : UInt32) : Exec Unit := do
  modify fun s => { s with cp := k }
  enterMethod mp

def nullReceiver : Exec Step := do
  let lp ← Frame.previous (← get).lp
  modify fun s => { s with lp }
  raise .nullPointerException

def invokeVirtual (slot : UInt32) : Exec Step := do
  pushFrame
  let receiver ← Memory.word (← get).lp 0
  if receiver == 0 then return ← nullReceiver
  let (k, mp) ← findVirtual (← Header.classOf receiver) slot
  enterIn k mp
  return .proceed

def invokeSuper (slot : UInt32) : Exec Step := do
  pushFrame
  let (k, mp) ← findVirtual (← pop) slot
  enterIn k mp
  return .proceed

def invokeStatic (slot : Int32) : Exec Step := do
  pushFrame
  let k ← pop
  modify fun s => { s with cp := k }
  let mp ← Memory.word (← Class.staticTable k) slot
  if mp == 0 then Store.fatal (.missingStaticMethod slot.toInt (← Class.number k))
  enterMethod mp
  return .proceed

def interfaceFrom (types number : UInt32) : (n : Nat) → (i : Int32) → Read (Option Int32)
  | 0, _ => return none
  | n + 1, i => do
    if (← Memory.half types i).toUInt32 == number then return some i
    interfaceFrom types number n (i + 1)

def interfaceSlot (receiver number : UInt32) (slot : Int32) :
    (fuel : Nat) → (k : UInt32) → Run UInt32
  | 0, _ => throw .endless
  | fuel + 1, k => do
    if k == 0 then Store.fatal (.missingInterface receiver number)
    let types ← Class.interfaceNumbers k
    let count ← if types == 0 then pure 0 else Header.elementCount types
    match ← interfaceFrom types number count.toNat 0 with
    | some i =>
      let table ← Memory.word (← Class.interfaceTables k) i
      return (← Memory.byte table slot).toUInt32
    | none => interfaceSlot receiver number slot fuel (← Class.superClass k)

def invokeInterface (slot : Int32) : Exec Step := do
  pushFrame
  let number ← Class.number (← pop)
  let receiver ← Memory.word (← get).lp 0
  if receiver == 0 then return ← nullReceiver
  let k ← Header.classOf receiver
  let virtualSlot ← interfaceSlot receiver number slot ((← Memory.walkBound) + 1) k
  let (k, mp) ← findVirtual (← Header.classOf receiver) virtualSlot
  enterIn k mp
  return .proceed

def returnFrom (size : ResultSize) : Exec Step := do
  let sp := (← get).sp
  popFrame
  match size with
  | .none => pure ()
  | .one => push (← Memory.wordAt sp)
  | .two => pushLong (← Memory.longAtWord sp (-1))
  return .proceed

end Exec

end DeviceVm
