import DeviceVm.Settings

/-!
Log lines. The log keeps the lines of one level and of the more urgent ones, up to a limit.
-/

namespace DeviceVm

inductive LogLevel where
  | error | warn | info | debug | trace
  deriving DecidableEq, Repr

namespace LogLevel

def name : LogLevel → String
  | error => "ERROR"
  | warn => "WARN"
  | info => "INFO"
  | debug => "DEBUG"
  | trace => "TRACE"

def detail : LogLevel → Nat
  | error => 0
  | warn => 1
  | info => 2
  | debug => 3
  | trace => 4

end LogLevel

inductive LogTarget where
  | machine | interpreter | allocation | collection | migration | image | persistent
  deriving DecidableEq, Repr

namespace LogTarget

def name : LogTarget → String
  | machine => "squawk"
  | interpreter => "squawk::interp"
  | allocation => "squawk::alloc"
  | collection => "squawk::gc"
  | migration => "squawk::migration"
  | image => "squawk::image"
  | persistent => "squawk::eeprom"

def switches : List (LogTarget × TraceFlags) :=
  [(interpreter, TraceFlags.instructions.union (TraceFlags.methods.union TraceFlags.frames)),
   (allocation, TraceFlags.allocation),
   (collection, TraceFlags.collection.union
      (TraceFlags.collectionVerbose.union TraceFlags.collectionSummary)),
   (migration, TraceFlags.migration.union TraceFlags.migrationVerbose),
   (image, TraceFlags.image),
   (persistent, TraceFlags.persistent)]

end LogTarget

structure Log where
  levels : LogTarget → Option LogLevel := fun _ => none
  limit : Option Nat := none
  lines : Array String := #[]

namespace Log

def ofLevel (level : Option LogLevel) (limit : Option Nat) : Log :=
  { levels := fun _ => level, limit }

def wants (log : Log) (level : LogLevel) (target : LogTarget) : Bool :=
  match log.levels target with
  | none => false
  | some most => level.detail ≤ most.detail

def hasRoom (log : Log) : Bool :=
  match log.limit with
  | none => true
  | some limit => log.lines.size < limit

/-- The text is only built for a line that is kept. -/
def add (log : Log) (level : LogLevel) (target : LogTarget) (text : Unit → String) : Log :=
  if log.wants level target && log.hasRoom then
    { log with lines := log.lines.push (level.name ++ " " ++ target.name ++ " " ++ text ()) }
  else log

end Log

namespace Settings

/-- The level of a target: warnings, with statistics also information, and the details that its
own switches ask for. -/
def logLevel (s : Settings) (target : LogTarget) : LogLevel :=
  let on := s.trace.inter ((LogTarget.switches.lookup target).getD .none)
  if on == .none then if s.stats then .info else .warn
  else if on.isVerbose then .trace else .debug

def log (s : Settings) : Log :=
  { levels := fun target => some (s.logLevel target) }

end Settings

end DeviceVm
