import DeviceVm.Fault

/-!
What the user can choose: the collector of RAM, its tuning, checkpoints and tracing.
-/

namespace DeviceVm

inductive CollectorKind where
  | copying
  | sliding
  deriving DecidableEq, Repr

def CollectorKind.name : CollectorKind → String
  | copying => "Cheney"
  | sliding => "Lisp2"

structure TraceFlags where
  bits : UInt16
  deriving DecidableEq, Repr

namespace TraceFlags

def none : TraceFlags := ⟨0⟩
def instructions : TraceFlags := ⟨0x001⟩
def methods : TraceFlags := ⟨0x002⟩
def allocation : TraceFlags := ⟨0x004⟩
def frames : TraceFlags := ⟨0x008⟩
def collection : TraceFlags := ⟨0x010⟩
def collectionVerbose : TraceFlags := ⟨0x020⟩
def collectionSummary : TraceFlags := ⟨0x040⟩
def migration : TraceFlags := ⟨0x080⟩
def migrationVerbose : TraceFlags := ⟨0x100⟩
def image : TraceFlags := ⟨0x200⟩
def persistent : TraceFlags := ⟨0x400⟩

def all : TraceFlags := ⟨0x7ff⟩

def union (a b : TraceFlags) : TraceFlags := ⟨a.bits ||| b.bits⟩

def inter (a b : TraceFlags) : TraceFlags := ⟨a.bits &&& b.bits⟩

def ofBits (bits : UInt16) : TraceFlags := inter ⟨bits⟩ all

def intersects (a b : TraceFlags) : Bool := a.bits &&& b.bits != 0

def contains (a b : TraceFlags) : Bool := a.bits &&& b.bits == b.bits

def isVerbose (a : TraceFlags) : Bool :=
  a.intersects (instructions.union (collectionVerbose.union migrationVerbose))

end TraceFlags

structure Settings where
  collector : CollectorKind := .sliding
  youngPercent : UInt32 := 10
  fullCollections : Bool := false
  noYield : Bool := false
  /-- An allocation fails unless a collection came before it. -/
  eager : Bool := false
  exactChunks : Bool := false
  stats : Bool := false
  checkpoint : Option String := none
  trace : TraceFlags := .none
  deriving DecidableEq, Repr

namespace Settings

def check (s : Settings) : Except SettingsError Unit :=
  if s.youngPercent == 0 || s.youngPercent > 100 then .error .youngPercent
  else if s.exactChunks && !s.eager then .error .exactWithoutEager
  else if s.collector == .copying && s.fullCollections then .error .fullWithCopying
  else if s.checkpoint == some "" then .error .emptyCheckpoint
  else .ok ()

def tracing (s : Settings) (flags : TraceFlags) : Bool :=
  s.trace.intersects flags

end Settings

end DeviceVm
