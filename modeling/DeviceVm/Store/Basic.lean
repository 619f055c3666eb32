import DeviceVm.Log
import DeviceVm.Object.Block
import DeviceVm.Store.BitVector
import DeviceVm.Store.MarkStack
import DeviceVm.Store.Segment

/-!
The object store: memory with its segments, the mark bits and the mark stack, the parameters and
counters of the collectors, and the log. `Run` is a computation on a store; one that faults
keeps the store as it was at the fault.
-/

namespace DeviceVm

structure AllocationStats where
  allocations : Nat := 0
  smallArrays : Nat := 0
  largeArrays : Nat := 0
  chunks : Nat := 0
  deriving DecidableEq, Repr

structure Space where
  start : UInt32 := 0
  stop : UInt32 := 0
  deriving DecidableEq, Repr

@[inline] def Space.has (space : Space) (oop : UInt32) : Bool :=
  space.start < oop && oop ≤ space.stop

structure SlidingState where
  youngPercent : UInt32 := 10
  idealYoung : UInt32 := 0
  alwaysFull : Bool := false
  minimumHeap : Bool := false
  /-- The farthest an object may move in one pass, where that is limited. -/
  deltaLimit : Option UInt32 := none
  highWater : UInt32 := 0
  collections : Nat := 0
  fullCollections : Nat := 0
  partialCollections : Nat := 0
  passes : Nat := 0
  deriving DecidableEq, Repr

structure CopyingState where
  free : UInt32 := 0
  scan : UInt32 := 0
  collections : Nat := 0
  bytesCopied : Nat := 0
  deriving DecidableEq, Repr

structure PersistentState where
  bytesCopied : UInt32 := 0
  forwarded : List UInt32 := []
  copies : Nat := 0
  migrations : Nat := 0
  collections : Nat := 0
  fullRequested : Bool := false
  deriving DecidableEq, Repr

structure Store where
  mem : Memory
  rom : Region
  eeprom : Region
  ram : Region
  bits : BitVector := {}
  marks : MarkStack := {}
  kind : CollectorKind
  /-- Stores of references into RAM are recorded in the bit vector. -/
  barrier : Bool := false
  collecting : Bool := false
  justCollected : Bool := false
  eager : Bool
  exactChunks : Bool
  stats : AllocationStats := {}
  sliding : SlidingState := {}
  copying : CopyingState := {}
  persistent : PersistentState := {}
  migrations : Nat := 0
  trace : TraceFlags
  log : Log := {}

abbrev Query := ReaderT Store (Except Fault)

abbrev Run := EStateM Fault Store

@[always_inline, inline]
instance : MonadLift Read Query where
  monadLift r := fun s => r s.mem

@[always_inline, inline]
instance : MonadLift Query Run where
  monadLift q := fun s =>
    match q s with
    | .ok a => .ok a s
    | .error e => .error e s

@[always_inline, inline]
instance : MonadLift Edit Run where
  monadLift e := fun s =>
    match e s.mem with
    | .ok a m => .ok a { s with mem := m }
    | .error f m => .error f { s with mem := m }

@[always_inline, inline]
instance : MonadLift Read Run where
  monadLift r := fun s =>
    match r s.mem with
    | .ok a => .ok a s
    | .error e => .error e s

namespace Store

def ofMemory (mem : Memory) (rom eeprom ram : Region) (settings : Settings) (log : Log) : Store :=
  { mem, rom, eeprom, ram, log
    kind := settings.collector
    eager := settings.eager
    exactChunks := settings.exactChunks
    sliding := { youngPercent := settings.youngPercent, alwaysFull := settings.fullCollections }
    trace := settings.trace }

@[inline] def say (level : LogLevel) (target : LogTarget) (text : Unit → String) : Run Unit :=
  modify fun s => { s with log := s.log.add level target text }

/-- Adds a line whose text is read from the store. It is only read where lines of the level are
asked for. -/
def sayOf (level : LogLevel) (target : LogTarget) (text : Query String) : Run Unit := do
  if (← get).log.wants level target then
    let line ← text
    say level target fun _ => line

def fatal (cause : FatalCause) : Run α := do
  say .error .machine fun _ => cause.message
  throw (.fatal cause)

def region (s : Store) : Segment → Region
  | .rom => s.rom
  | .eeprom => s.eeprom
  | .ram => s.ram

def inRom (addr : UInt32) : Query Bool := do (← read).rom.contains addr

def inEeprom (addr : UInt32) : Query Bool := do (← read).eeprom.contains addr

def inRam (addr : UInt32) : Query Bool := do (← read).ram.contains addr

def segmentOf (addr : UInt32) : Query (Option Segment) := do
  if ← inRom addr then return some .rom
  if ← inEeprom addr then return some .eeprom
  if ← inRam addr then return some .ram
  return none

def record (seg : Segment) (index : Int32) : Query UInt32 := do
  Memory.word ((← read).region seg).start index

def setRecord (seg : Segment) (index : Int32) (v : UInt32) : Run Unit := do
  Memory.setWord ((← get).region seg).start index v

def rootWord (index : Int32) : Except Fault Int32 :=
  let i := index.toInt + 8
  if i ≤ 2147483647 then .ok (Int32.ofInt i) else .error .broken

def root (seg : Segment) (index : Int32) : Query UInt32 := do
  record seg (← rootWord index)

/-- Sets a root. No root of persistent memory may point into RAM, and ROM has fixed roots. -/
def setRoot (seg : Segment) (index : Int32) (v : UInt32) : Run Unit := do
  require (0 ≤ index && index < SegmentRecord.rootCount)
  match seg with
  | .eeprom => if ← inRam v then fatal (.persistentRootIntoRam index.toInt v)
  | .rom => fatal (.readOnlyRoot index.toInt)
  | .ram => pure ()
  setRecord seg (← rootWord index) v

def setRamRoot (index : Int32) (v : UInt32) : Run Unit := do
  setRecord .ram (← rootWord index) v

def memoryStart : Query UInt32 := record .ram SegmentRecord.objectStart
def memorySize : Query UInt32 := record .ram SegmentRecord.objectSize

def memoryEnd : Query UInt32 := do
  Word.plus (← memoryStart) (← memorySize)

def partitionStart : Query UInt32 := record .ram SegmentRecord.partitionStart
def partitionFree : Query UInt32 := record .ram SegmentRecord.partitionFree
def partitionEnd : Query UInt32 := record .ram SegmentRecord.partitionEnd
def failedSize : Query UInt32 := record .ram SegmentRecord.failedSize

def setPartitionStart (v : UInt32) : Run Unit := setRecord .ram SegmentRecord.partitionStart v
def setPartitionFree (v : UInt32) : Run Unit := setRecord .ram SegmentRecord.partitionFree v
def setPartitionEnd (v : UInt32) : Run Unit := setRecord .ram SegmentRecord.partitionEnd v
def setFailedSize (v : UInt32) : Run Unit := setRecord .ram SegmentRecord.failedSize v

def setPartition (start free stop : UInt32) : Run Unit := do
  require (start ≤ free && free ≤ stop)
  setPartitionStart start
  setPartitionFree free
  setPartitionEnd stop

/-- No allocation and no barriered store happens between `enterCollector` and
`leaveCollector`. -/
def enterCollector : Run Unit := do
  require (!(← get).collecting)
  modify fun s => { s with collecting := true }

def leaveCollector : Run Unit := do
  require (← get).collecting
  modify fun s => { s with collecting := false, justCollected := true }

def attempt {α : Type} (work : Run α) : Run (Except Fault α) := fun s =>
  match work s with
  | .ok a s => .ok (.ok a) s
  | .error fault s => if fault.isError then .ok (.error fault) s else .error fault s

/-- Work done inside the collector, which is left also when the work ends in an error. -/
def insideCollector {α : Type} (work : Run α) : Run α := do
  enterCollector
  let outcome ← attempt work
  leaveCollector
  outcome

def enableBarrier : Run Unit := modify fun s => { s with barrier := true }

def setEager (on : Bool) : Run Unit := modify fun s => { s with eager := on }

/-! ### Mark bits -/

def testBit (addr : UInt32) : Query Bool := do (← read).bits.range.test addr

def setBit (addr : UInt32) : Run Unit := do (← get).bits.range.set addr

def clearBit (addr : UInt32) : Run Unit := do (← get).bits.range.clear addr

def testAndSetBit (addr : UInt32) : Run Bool := do (← get).bits.range.testAndSet addr

def clearBits (before last : UInt32) : Run Unit := do (← get).bits.range.clearRange before last

def clearAllBits : Run Unit := do (← get).bits.range.clearAll

def bindBits (first last bitmap size : UInt32) : Run Unit := do
  let range ← BitRange.bind first last bitmap size
  modify fun s => { s with bits := { s.bits with range } }
  say .trace .collection fun _ =>
    "bit vector over [" ++ Hex.word range.first ++ ", " ++ Hex.word range.last ++ "] base " ++
      Hex.word range.base ++ " bitmap " ++ Hex.word bitmap ++ s!"+{size}"

def setBitRange (range : BitRange) : Run Unit :=
  modify fun s => { s with bits := { s.bits with range } }

def startScan (before last : UInt32) : Run Unit := do
  let bits ← (← get).bits.startScan before last
  modify fun s => { s with bits }

def advanceScan : Run Unit := do
  let bits ← (← get).bits.advance
  modify fun s => { s with bits }

def endScan : Run Unit := modify fun s => { s with bits := s.bits.endScan }

def foldFrom {σ : Type} (visit : σ → UInt32 → Run σ) : (fuel : Nat) → σ → Run σ
  | 0, _ => throw .endless
  | fuel + 1, acc => do
    let addr := (← get).bits.scan.current
    if addr == 0 then return acc
    let acc ← visit acc addr
    advanceScan
    foldFrom visit fuel acc

def foldBits {σ : Type} (before last : UInt32) (init : σ) (visit : σ → UInt32 → Run σ) :
    Run σ := do
  startScan before last
  let result ← foldFrom visit (← get).bits.range.scanBound init
  endScan
  return result

def forEachBit (before last : UInt32) (visit : UInt32 → Run Unit) : Run Unit :=
  foldBits before last () fun _ => visit

/-! ### Mark stack -/

@[inline] def updateMarks (f : MarkStack → Except Fault MarkStack) : Run Unit := do
  let marks ← f (← get).marks
  modify fun s => { s with marks }

def pushMark (oop : UInt32) : Run Unit := do
  (← get).marks.pushWord oop
  modify fun s => { s with marks := s.marks.pushed }

def popMark : Run UInt32 := do
  let oop ← (← get).marks.top
  modify fun s => { s with marks := s.marks.popped }
  return oop

end Store

end DeviceVm
