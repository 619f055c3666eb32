import DeviceVm.Image
import DeviceVm.Interpreter.Loop

/-!
A device: a machine with its settings and the checkpoints it has saved. Running it means to
resume the context until the guest exits, with a collection and a checkpoint whenever the context
is suspended.
-/

namespace DeviceVm

structure Device where
  machine : Machine
  settings : Settings
  checkpoints : Array ByteArray := #[]
  writable : String → Bool := fun _ => true

abbrev Operate := EStateM Fault Device

@[always_inline, inline]
instance : MonadLift Exec Operate where
  monadLift e := fun s =>
    match e s.machine with
    | .ok a m => .ok a { s with machine := m }
    | .error f m => .error f { s with machine := m }

namespace Device

def check (settings : Settings) : Query Unit := do
  match settings.check with
  | .error cause => throw (.settings cause)
  | .ok _ => pure ()
  if (← Store.root .rom Root.support) == 0 then throw (.image (.layout .noSupportClass))
  if (← Store.root .rom Root.suites) == 0 then throw (.image (.layout .noSuiteTable))

/-- Prepares a store. One without object memory has not run before. -/
def prepare (settings : Settings) : Run Unit := do
  check settings
  let fresh := (← Store.memoryStart) == 0
  Store.attach fresh
  let kind := (← get).kind
  Store.say .info .machine fun _ =>
    "booted " ++ (if fresh then "fresh" else "checkpointed") ++ " image with the " ++ kind.name ++
      " collector"

def boot (store : Store) (settings : Settings) (startTime : Nat) : Except Fault Device :=
  match prepare settings store with
  | .error fault _ => .error fault
  | .ok _ store =>
    .ok {
      machine := {
        store, startTime
        branchesLeft := Machine.timeSlice
        noYield := settings.noYield }
      settings }

def load (path : String) (bytes : ByteArray) (settings : Settings) (log : Log)
    (startTime : Nat) : Except Fault Device := do
  let store ← Image.read bytes settings log
  let log := store.log.add .info .image fun _ => "loaded " ++ path
  boot { store with log } settings startTime

def allocate (what : String) (attempt : Exec UInt32) : Exec UInt32 := do
  let oop ← attempt
  if oop != 0 then return oop
  if ← Store.reclaim then
    let oop ← attempt
    if oop != 0 then return oop
  Store.fatal (.noRoomFor what)

def newClassStateTable : Run UInt32 := do
  let k ← Store.classNumbered ClassNumber.objectArray
  Store.newArray k ClassState.tableSize

def start : Exec UInt32 := do
  if (← Store.classStateTable) == 0 then
    let table ← allocate "class state table" newClassStateTable
    Store.setRamRoot Root.classStates table
  let chunk ← Store.root .ram Root.currentChunk
  if chunk != 0 then return chunk
  allocate "initial context" (Exec.newContext .vmstart 0)

def checkpoint : Operate Unit := do
  match (← get).settings.checkpoint with
  | none => pure ()
  | some base =>
    let path := Image.checkpointPath base (← get).checkpoints.size
    if !(← get).writable path then throw .io
    let image ← Image.write (← get).machine.store
    modify fun d => { d with checkpoints := d.checkpoints.push image }
    let length := image.size - 4 * Image.recordWords
    (Store.say .info .image fun _ => s!"wrote {path} ({length} bytes)" : Exec Unit)

def sayCounters : Exec Unit := do
  let instructions := (← get).instructions
  Store.sayOf .info .machine do
    let collections ← Store.collectionCount
    let migrations := (← read).migrations
    let free ← Store.freeRam
    let total ← Store.totalRam
    return s!"{instructions} instructions, {collections} collections, " ++
      s!"{migrations} migrations, {free} of {total} RAM bytes free"

inductive Round where
  | finished (code : Int32)
  | collected (chunk : UInt32) (worked : Bool)
  deriving DecidableEq, Repr

def collectFor (chunk : UInt32) : Run (UInt32 × Bool) := do
  Store.setRamRoot Root.currentChunk chunk
  let worked ← Store.reclaim
  return (← Store.root .ram Root.currentChunk, worked)

def round (budget : Nat) (chunk : UInt32) (worked : Bool) : Operate Round := do
  match ← Exec.resume budget chunk worked with
  | .exit code =>
    (Store.say .info .machine fun _ => s!"guest exited with code {code.toInt}" : Exec Unit)
    if (← get).settings.stats then
      (do Store.sayStats; sayCounters : Exec Unit)
    return .finished code
  | .collect suspended =>
    let (chunk, worked) ← (collectFor suspended : Exec (UInt32 × Bool))
    checkpoint
    return .collected chunk worked

def runFrom (budget : Nat) : (rounds : Nat) → (chunk : UInt32) → (worked : Bool) → Operate Int32
  | 0, _, _ => throw .endless
  | rounds + 1, chunk, worked => do
    match ← round budget chunk worked with
    | .finished code => return code
    | .collected chunk worked => runFrom budget rounds chunk worked

/-- Runs the guest until it exits. Gives its exit code. The budget bounds the collections, and the
instructions between two of them. -/
def run (budget : Nat) : Operate Int32 := do
  let chunk ← start
  runFrom budget budget chunk true

end Device

namespace Machine

def textOn (m : Machine) (stream : OutputStream) : String :=
  String.join ((m.output.filter (·.1 == stream)).toList.map (·.2))

def text (m : Machine) : String :=
  String.join (m.output.toList.map (·.2))

end Machine

end DeviceVm
