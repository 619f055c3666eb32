import DeviceVm.Demo
import DeviceVm.Device.Basic
import DeviceVm.Program.Layout
import DeviceVm.Text.Decimal

/-!
The command line: options, what they ask for, and what a run of the command comes to.

An option is `--name`, with its value behind `=` or in the next argument, which must not start
with a hyphen. An argument that is no option names the image; so does everything behind `--`.
-/

namespace DeviceVm

structure Command where
  image : Option String := none
  demo : Bool := false
  ram : Option UInt32 := none
  eeprom : Option UInt32 := none
  checkpoint : Option String := none
  collector : Option CollectorKind := none
  young : Option UInt32 := none
  switches : List String := []

structure Files where
  read : String → Option ByteArray
  writable : String → Bool := fun _ => true

inductive Refusal where
  | usage
  | information
  deriving DecidableEq, Repr

namespace Command

def defaultRam : UInt32 := 65536
def defaultEeprom : UInt32 := 16384

def traceSwitches : List (String × TraceFlags) :=
  [("trace-instructions", TraceFlags.instructions),
    ("trace-methods", TraceFlags.methods),
    ("trace-allocation", TraceFlags.allocation),
    ("trace-frames", TraceFlags.frames),
    ("trace-gc", TraceFlags.collection),
    ("trace-gc-verbose", TraceFlags.collection.union TraceFlags.collectionVerbose),
    ("trace-gc-summary", TraceFlags.collectionSummary),
    ("trace-migration", TraceFlags.migration),
    ("trace-migration-verbose", TraceFlags.migration.union TraceFlags.migrationVerbose),
    ("trace-image", TraceFlags.image),
    ("trace-eeprom-gc", TraceFlags.persistent)]

def switchNames : List String :=
  ["full-gc", "no-yield", "excessive-gc", "very-excessive-gc", "stats"] ++
    traceSwitches.map (·.1)

def valueNames : List String := ["ram", "eeprom", "checkpoint", "collector", "young"]

def parseWord (text : String) : Except Refusal UInt32 :=
  match Decimal.integer? text with
  | some n => if 0 ≤ n && n < 4294967296 then .ok n.toNat.toUInt32 else .error .usage
  | none => .error .usage

def parseCollector : String → Except Refusal CollectorKind
  | "cheney" => .ok .copying
  | "lisp2" => .ok .sliding
  | _ => .error .usage

def parsePath (text : String) : Except Refusal String :=
  if text.isEmpty then .error .usage else .ok text

def once {α : Type} (old : Option α) (value : Except Refusal α) : Except Refusal (Option α) := do
  if old.isSome then throw .usage
  return some (← value)

def setValue (c : Command) (name value : String) : Except Refusal Command :=
  match name with
  | "ram" => return { c with ram := ← once c.ram (parseWord value) }
  | "eeprom" => return { c with eeprom := ← once c.eeprom (parseWord value) }
  | "young" => return { c with young := ← once c.young (parseWord value) }
  | "checkpoint" => return { c with checkpoint := ← once c.checkpoint (parsePath value) }
  | "collector" => return { c with collector := ← once c.collector (parseCollector value) }
  | _ => throw .usage

def setSwitch (c : Command) (name : String) : Except Refusal Command := do
  if name == "help" || name == "version" then throw .information
  if name == "demo" then
    if c.demo then throw .usage
    return { c with demo := true }
  if !switchNames.contains name || c.switches.contains name then throw .usage
  return { c with switches := name :: c.switches }

def setImage (c : Command) (path : String) : Except Refusal Command :=
  return { c with image := ← once c.image (parsePath path) }

def splitOption (text : List Char) : String × Option String :=
  let name := text.takeWhile (· != '=')
  match text.dropWhile (· != '=') with
  | [] => (String.ofList name, none)
  | _ :: value => (String.ofList name, some (String.ofList value))

def isValue (arg : String) : Bool :=
  match arg.toList with
  | '-' :: _ :: _ => false
  | _ => true

def shortOption : Char → Refusal
  | 'h' | 'V' => .information
  | _ => .usage

def parseArgs (c : Command) : List String → Except Refusal Command
  | [] => return c
  | arg :: rest =>
    match arg.toList with
    | ['-', '-'] => rest.foldlM setImage c
    | '-' :: '-' :: option =>
      match splitOption option with
      | (name, some value) => do parseArgs (← setValue c name value) rest
      | (name, none) =>
        if valueNames.contains name then
          match rest with
          | value :: rest =>
            if isValue value then do parseArgs (← setValue c name value) rest
            else throw .usage
          | [] => throw .usage
        else do parseArgs (← setSwitch c name) rest
    | '-' :: letter :: _ => throw (shortOption letter)
    | _ => do parseArgs (← setImage c arg) rest

def parse (args : List String) : Except Refusal Command := do
  let c ← parseArgs {} args
  if c.image.isSome == c.demo then throw .usage
  if c.switches.contains "very-excessive-gc" && !c.switches.contains "excessive-gc" then
    throw .usage
  return c

def trace (c : Command) : TraceFlags :=
  (traceSwitches.filter (c.switches.contains ·.1)).foldl (fun t s => t.union s.2)
    TraceFlags.none

def settings (c : Command) : Settings where
  collector := c.collector.getD .sliding
  youngPercent := c.young.getD 10
  fullCollections := c.switches.contains "full-gc"
  noYield := c.switches.contains "no-yield"
  eager := c.switches.contains "excessive-gc"
  exactChunks := c.switches.contains "very-excessive-gc"
  stats := c.switches.contains "stats"
  checkpoint := c.checkpoint
  trace := c.trace

def demoStore (c : Command) : Except Fault Store := do
  let p ← ({} : Demo).program
  let store ← p.layOut .big (c.eeprom.getD defaultEeprom) (c.ram.getD defaultRam) c.settings
  return { store with log := c.settings.log }

def boot (c : Command) (files : Files) (startTime : Nat) : Except Fault Device := do
  let d ← match c.image with
    | some path =>
      match files.read path with
      | some bytes => Device.load path bytes c.settings c.settings.log startTime
      | none => throw .io
    | none => Device.boot (← c.demoStore) c.settings startTime
  return { d with writable := files.writable }

def status (code : Int32) : UInt8 := code.toUInt32.toUInt8

def usageStatus : UInt8 := 2
def faultStatus : UInt8 := 1

structure Outcome where
  status : UInt8
  device : Option Device := none

def execute (args : List String) (files : Files) (startTime budget : Nat) : Outcome :=
  match parse args with
  | .error .usage => { status := usageStatus }
  | .error .information => { status := 0 }
  | .ok c =>
    match c.boot files startTime with
    | .error _ => { status := faultStatus }
    | .ok d =>
      match Device.run budget d with
      | .ok code d => { status := status code, device := some d }
      | .error _ d => { status := faultStatus, device := some d }

end Command

end DeviceVm
