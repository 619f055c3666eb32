import DeviceVm.Collection.Copying
import DeviceVm.Collection.Persistent.Migration
import DeviceVm.Collection.Persistent.Sweep
import DeviceVm.Collection.Sliding.Basic

/-!
The collectors of a store taken together, with the collector of RAM that its settings chose.
`reclaim` is what happens when an allocation fails: RAM is collected, and if that is not enough,
objects that may be migrated are moved to persistent memory and RAM is collected again.
-/

namespace DeviceVm

namespace Store

open Word

@[inline] def byKind {α : Type} (copying sliding : Run α) : Run α := do
  match (← get).kind with
  | .copying => copying
  | .sliding => sliding

@[inline] def readByKind {α : Type} (copying sliding : Query α) : Query α := do
  match (← read).kind with
  | .copying => copying
  | .sliding => sliding

def freeRam : Query UInt32 := readByKind Copying.freeMemory Sliding.freeMemory

def totalRam : Query UInt32 := readByKind Copying.totalMemory Sliding.totalMemory

def usedRam : Query UInt32 := readByKind Copying.usedMemory Sliding.usedMemory

def ramObjects : Query Space := do
  let start ← readByKind partitionStart memoryStart
  return { start, stop := ← partitionFree }

def highWaterMark : Query UInt32 := readByKind (return 0) Sliding.highWaterMark

def collectionCount : Query Nat := do
  readByKind (return (← read).copying.collections) (return (← read).sliding.collections)

def setMinimumHeap (on : Bool) : Run Unit :=
  byKind (fatal .minimumHeapUnsupported) (Sliding.setMinimumHeap on)

def collectRam (forceFull : Bool) : Run Bool :=
  byKind Copying.collect (Sliding.collect forceFull)

def attachRam (fresh : Bool) : Run Unit :=
  byKind (Copying.attach fresh) (Sliding.attach fresh)

/-- Prepares a store for allocation and collection. A store that is not `fresh` was saved by a
run, and since recorded stores are not saved its first collection is a full one. -/
def attach (fresh : Bool) : Run Unit := do
  attachRam fresh
  if fresh then Persistent.attach else Persistent.requestFull
  sayOf .debug .collection do
    let name := (← read).kind.name
    let ram ← totalRam
    let free ← Persistent.freeMemory
    return name ++ s!" heap: {ram} bytes RAM, {free} bytes EEPROM free"

def migrateWithin (needed : UInt32) : (fuel : Nat) → (migrated : UInt32) → Run UInt32
  | 0, _ => throw .endless
  | fuel + 1, migrated => do
    if migrated ≥ needed then return migrated
    let a ← nextMigratable
    if a == 0 then return migrated
    let object ← Association.object a
    if (← Persistent.makePersistent object true) == 0 then
      say .debug .migration fun _ => "EEPROM full, migration stopped"
      return migrated
    let copied := (← get).persistent.bytesCopied
    if copied == 0 then Association.clearMigratable a
    let migrated ← plus migrated copied
    modify fun s => { s with migrations := s.migrations + 1 }
    say .debug .migration fun _ =>
      "migrated " ++ Hex.word object ++ s!" ({copied} bytes, {migrated} of {needed})"
    migrateWithin needed fuel migrated

/-- Moves objects that may be migrated to persistent memory, until `needed` bytes were moved or
none is left. Gives the bytes moved. -/
def migrate (needed : UInt32) : Run UInt32 := do
  migrateWithin needed (← Memory.walkBound) 0

def reclaim : Run Bool := do
  let failed ← failedSize
  let forceFull ← Persistent.takeFullRequest
  let mut fits ← collectRam forceFull
  if !fits then
    if (← migrate failed) > 0 then
      fits ← collectRam true
      let _ ← Persistent.takeFullRequest
  setFailedSize 0
  if (← get).trace.contains TraceFlags.collectionSummary then
    let result := if fits then "ok" else "failed"
    sayOf .info .collection do
      let count ← collectionCount
      let free ← freeRam
      let total ← totalRam
      return s!"gc #{count}: {free} free of {total} bytes, " ++ result
  return fits

def collectPersistent (bitVector markStack : UInt32) : Run Unit := do
  Persistent.collect (← ramObjects) bitVector markStack

def saySharedStats : Run Unit := do
  let stats := (← get).stats
  say .info .allocation fun _ =>
    s!"allocations: {stats.allocations} ({stats.smallArrays} small arrays, " ++
      s!"{stats.largeArrays} large arrays, {stats.chunks} stack chunks)"
  sayOf .info .collection do
    let pending ← pendingFinalizers
    let words := (← read).marks.highWater
    return s!"mark stack high water: {words} words, {pending} finalizers pending"

def sayCollectorStats : Run Unit := do
  byKind Copying.sayStats Sliding.sayStats
  Persistent.sayStats

def sayStats : Run Unit := do
  sayCollectorStats
  saySharedStats

end Store

end DeviceVm
