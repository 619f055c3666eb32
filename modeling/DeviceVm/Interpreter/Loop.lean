import DeviceVm.Interpreter.Execution

/-!
The interpreter loop. A context runs until it needs a collection or the guest exits; a budget of
instructions bounds the run.
-/

namespace DeviceVm

namespace Exec

open Word

def instructionText (ip : UInt32) : Read (Option String) := do
  let size := (← read).size.toUInt32
  let code ← Memory.slice ip (min 16 (minusSaturating size ip))
  let (found, _) ← Decoder.next { code, pos := 0 }
  return found.map (·.text)

def traceInstruction : Exec Unit := do
  let ip := (← get).ip
  let sp := (← get).sp
  let lp := (← get).lp
  let text ← instructionText ip
  Store.say .trace .interpreter fun _ =>
    "0x" ++ Hex.padded 6 ip.toNat ++ match text with
      | some text => " sp=" ++ Hex.word sp ++ " lp=" ++ Hex.word lp ++ " " ++ text
      | none => " <undecodable>"

def runFor : (budget : Nat) → Exec Suspension
  | 0 => throw .endless
  | budget + 1 => do
    modify fun s => { s with instructions := s.instructions + 1 }
    if ← traces TraceFlags.instructions then traceInstruction
    match ← step with
    | .proceed => runFor budget
    | .call call => do
      callSupport call
      runFor budget
    | .suspend reason => return reason

def throwAddress : Run UInt32 := do
  let addr ← plus (← get).ram.start 24
  if (← Memory.code8 addr) != Opcode.throwTop.toByte then Store.fatal .noThrowBytecode
  return addr

def resume (budget : Nat) (chunk : UInt32) (collectionWorked : Bool) : Exec Suspension := do
  loadContext chunk
  modify fun s => { s with collectionWorked }
  if !collectionWorked then
    let ip ← throwAddress
    modify fun s => { s with ip }
  runFor budget

end Exec

end DeviceVm
