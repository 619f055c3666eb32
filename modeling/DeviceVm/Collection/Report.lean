import DeviceVm.Collection.Policy
import DeviceVm.Memory.Fingerprint

/-!
Reports on a store: its counters and sizes, and the objects in a range one by one.
-/

namespace DeviceVm

structure ObjectReport where
  oop : UInt32
  classNumber : UInt32
  headerSize : UInt32
  bodySize : UInt32
  body : String

namespace ObjectReport

def of (oop : UInt32) : Read ObjectReport := do
  let classNumber ← Class.number (← Header.classOf oop)
  let headerSize ← Header.size oop
  let bodySize ← Header.bodySize oop
  return { oop, classNumber, headerSize, bodySize, body := ← Memory.fingerprint oop bodySize }

def listFrom (stop : UInt32) : (count : Nat) → (oop : UInt32) → Read (List ObjectReport)
  | 0, _ => return []
  | count + 1, oop => do
    if oop == 0 then return []
    let first ← of oop
    return first :: (← listFrom stop count (← Block.nextObject oop stop))

def list (count : Nat) (range : Space) : Read (List ObjectReport) := do
  listFrom range.stop count (← Block.firstObject range.start range.stop)

end ObjectReport

structure HeapReport where
  collections : Nat
  migrations : Nat
  stats : AllocationStats
  freeRam : UInt32
  totalRam : UInt32
  usedRam : UInt32
  freePersistent : UInt32
  totalPersistent : UInt32
  highWater : UInt32
  partition : List UInt32
  roots : List UInt32
  pendingFinalizers : Nat

namespace Store

def partition : Query (List UInt32) := do
  return [← partitionStart, ← partitionFree, ← partitionEnd]

def ramFingerprint : Query String := do
  let live ← ramObjects
  Memory.fingerprint live.start (← Word.minus live.stop live.start)

def report : Query HeapReport := do
  let s ← read
  return {
    collections := ← collectionCount
    migrations := s.migrations
    stats := s.stats
    freeRam := ← freeRam
    totalRam := ← totalRam
    usedRam := ← usedRam
    freePersistent := ← Persistent.freeMemory
    totalPersistent := ← Persistent.totalMemory
    highWater := ← highWaterMark
    partition := ← partition
    roots := ← Root.all.mapM (root .ram)
    pendingFinalizers := ← pendingFinalizers }

end Store

end DeviceVm
