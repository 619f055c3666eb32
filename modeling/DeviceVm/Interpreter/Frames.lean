import DeviceVm.Interpreter.Machine
import DeviceVm.Store.Allocation

/-!
Entering and leaving frames, and saving and loading of contexts. A context is a list of stack
chunks; its last chunk knows its innermost frame while the context does not run.
-/

namespace DeviceVm

namespace Exec

open Word

def pushFrame : Exec Unit := do
  let lp := (← get).lp
  let next ← Frame.above lp
  Frame.setIp lp (← get).ip
  Frame.setPrevious next lp
  if ← traces TraceFlags.frames then
    Store.say .trace .interpreter fun _ =>
      "push frame lp=" ++ Hex.word next ++ " prev=" ++ Hex.word lp
  modify fun s => { s with lp := next }
  require (next < (← get).sl)

def enterMethod (mp : UInt32) : Exec Unit := do
  let lp := (← get).lp
  let cp := (← get).cp
  Frame.setMethod lp mp
  Frame.setClass lp cp
  let ip ← Method.entry mp
  modify fun s => { s with ip }
  if ← traces TraceFlags.methods then
    Store.sayOf .debug .interpreter do
      let number ← Class.number cp
      let parameters ← Method.parameterCount mp
      let locals ← Method.localCount mp
      return "enter method " ++ Hex.word mp ++
        s!" of class {number} ({parameters} parms, {locals} locals)"

def popFrame : Exec Unit := do
  let lp := (← get).lp
  let previous ← Frame.previous lp
  let caller ← if previous != 0 then do
      let sp ← minus lp 4
      modify fun s => { s with sp }
      pure previous
    else do
      let chunk ← Chunk.ofFrame lp
      let before ← Chunk.prev chunk
      if before == 0 then Store.fatal (.bottomFrame chunk)
      let sl ← Chunk.limit before
      modify fun s => { s with sl }
      let caller ← Chunk.lastFrame before
      Chunk.setLastFrame before 0
      let offset ← Frame.stackOffset caller
      modify fun s => { s with sp := caller + offset }
      if ← traces TraceFlags.frames then
        Store.say .trace .interpreter fun _ =>
          "left chunk " ++ Hex.word chunk ++ " for " ++ Hex.word before
      pure caller
  modify fun s => { s with lp := caller }
  let cp ← Frame.classOf caller
  let ip ← Frame.ip caller
  modify fun s => { s with cp, ip }
  if ← traces TraceFlags.frames then
    let sp := (← get).sp
    Store.say .trace .interpreter fun _ =>
      "pop frame lp=" ++ Hex.word caller ++ " sp=" ++ Hex.word sp

def saveContext (ip : UInt32) : Exec UInt32 := do
  let lp := (← get).lp
  Frame.setIp lp ip
  Frame.setStackOffset lp ((← get).sp - lp)
  let chunk ← Chunk.ofFrame lp
  Chunk.setLastFrame chunk lp
  return chunk

def collectHere : Exec Step := do
  let chunk ← saveContext (← get).ip
  return .suspend (.collect chunk)

/-- Saves the context for a collection after a failed allocation. The instruction at `start` is
executed again. -/
def collectAndRetry (start : UInt32) : Exec Step := do
  let chunk ← saveContext start
  Store.say .debug .interpreter fun _ =>
    "suspended in chunk " ++ Hex.word chunk ++ " for collection"
  return .suspend (.collect chunk)

def loadContext (chunk : UInt32) : Exec Unit := do
  let lp ← Chunk.lastFrame chunk
  if lp == 0 then Store.fatal (.noActiveFrame chunk)
  let ip ← Frame.ip lp
  let cp ← Frame.classOf lp
  let sp := lp + (← Frame.stackOffset lp)
  let sl ← Chunk.limit chunk
  modify fun s => { s with lp, ip, cp, sp, sl, branchesLeft := Machine.timeSlice }
  let mp ← Frame.method lp
  if ip != (← Method.entry mp) then
    -- The method has been entered: a frame it starts lies above its locals.
    let locals ← Method.localCount mp
    Frame.setStackOffset lp (← Frame.enteredOffset locals)
  Chunk.setLastFrame chunk 0
  if ← traces TraceFlags.frames then
    Store.sayOf .debug .interpreter do
      let depth ← Frame.depth lp
      return "resumed chunk " ++ Hex.word chunk ++ " at lp=" ++ Hex.word lp ++ s!", depth {depth}"

/-! ### Support methods -/

def supportMethod (call : SupportCall) : Exec (UInt32 × UInt32) := do
  let k ← Store.root .rom Root.support
  if k == 0 then Store.fatal .noSupportClass
  let table ← Class.staticTable k
  let mp ← Memory.word table (Int32.ofNat call.slot)
  if mp == 0 then Store.fatal (.missingSupportMethod call.name)
  return (k, mp)

/-- A new context that starts with a support method. Its only argument is `argument`, unless that
is zero. Gives the chunk, zero if there is no room. -/
def newContext (call : SupportCall) (argument : UInt32) : Exec UInt32 := do
  let (k, mp) ← supportMethod call
  let locals ← Method.localCount mp
  let operands ← Method.operandWords mp
  let chunk ← Store.newChunk (← Chunk.wordsFor locals operands)
  if chunk == 0 then return 0
  let lp ← Chunk.firstFrame chunk
  let below ← minus lp 4
  let sp ← if argument == 0 then pure below else do
    Memory.setWordAt lp argument
    pure lp
  Frame.setPrevious lp 0
  Frame.setStackOffset lp (sp - lp)
  Frame.setMethod lp mp
  Frame.setClass lp k
  Frame.setIp lp (← Method.entry mp)
  Chunk.setLastFrame chunk lp
  Store.say .debug .interpreter fun _ =>
    "new context " ++ Hex.word chunk ++ " running " ++ call.name
  return chunk

/-- Starts a frame with a support method, whose arguments are on the operand stack. Classes of the
first suite do not give way to others. -/
def callSupport (call : SupportCall) : Exec Unit := do
  if call == .yield then
    let number ← Class.number (← get).cp
    if number &&& 0xff00 == 0 || (← get).noYield then
      modify fun s => { s with branchesLeft := Machine.timeSlice }
      return
  let (k, mp) ← supportMethod call
  pushFrame
  modify fun s => { s with cp := k }
  enterMethod mp
  if call == .yield then
    modify fun s => { s with branchesLeft := Machine.timeSlice }
  Store.say .trace .interpreter fun _ => "support call " ++ call.name

def raise (call : SupportCall) : Exec Step := do
  clearOperands
  return .call call

/-! ### Growing of frames -/

def moveFrame (current chunk mp : UInt32) : Exec Unit := do
  let sl ← Chunk.limit chunk
  modify fun s => { s with sl }
  let old := (← get).lp
  Chunk.setPrev chunk current
  Chunk.setLastFrame chunk 0
  Chunk.setNext current chunk
  Chunk.setLastFrame current (← Frame.previous old)
  let lp ← Chunk.firstFrame chunk
  Frame.setPrevious lp 0
  Frame.setMethod lp mp
  Frame.setIp lp (← Frame.ip old)
  Frame.setClass lp (← Frame.classOf old)
  let arguments ← minus ((← get).sp + 4) old
  Memory.copyBytes old lp arguments
  modify fun s => { s with lp }
  let sp ← minus (← plus lp arguments) 4
  modify fun s => { s with sp }
  if ← traces TraceFlags.frames then
    Store.sayOf .debug .interpreter do
      let words ← Chunk.size chunk
      return "frame moved to chunk " ++ Hex.word chunk ++ s!" ({words} words) after " ++
        Hex.word current

def clearLocals (top : UInt32) : (fuel : Nat) → Exec Unit
  | 0 => throw .endless
  | fuel + 1 => do
    if (← get).sp < top then
      push 0
      clearLocals top fuel

/-- Clears the locals of a frame that was just started and makes room for `operands` words, in
another chunk if need be. -/
def extendFrame (start operands : UInt32) : Exec Step := do
  let lp := (← get).lp
  let mp ← Frame.method lp
  let locals ← Method.localCount mp
  let size ← Frame.enteredOffset locals
  let stop ← plus (← plus lp size) (← times operands 4)
  let isFirst := (← Frame.previous lp) == 0
  let forced := (← get).store.exactChunks && !isFirst
  if stop ≥ (← get).sl || forced then
    if isFirst then Store.fatal (.frameTooLarge locals)
    let words ← Chunk.wordsFor locals operands
    let current ← Chunk.ofFrame lp
    let spare ← Chunk.next current
    Chunk.setNext current 0
    let usable ← if forced || spare == 0 then pure false else do
      let size ← Chunk.size spare
      pure (size ≥ words)
    let chunk ← if usable then pure spare else Store.newChunk words
    if chunk == 0 then
      Frame.setStackOffset lp ((← get).sp - lp)
      return ← collectAndRetry start
    moveFrame current chunk mp
  let lp := (← get).lp
  clearLocals (← plus lp size) (← Memory.walkBound)
  Frame.setStackOffset lp (← minus (← get).sp lp)
  return .proceed

end Exec

end DeviceVm
