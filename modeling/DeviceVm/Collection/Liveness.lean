import DeviceVm.Collection.Shape
import DeviceVm.Store.Association

/-!
The fate of associations in a collection. An association stays while its monitor is in use, or
while its object is alive and it carries a hash code, a finalizer or the wish to be migrated. An
association of a dead object with a finalizer goes to the finalization queue and keeps the
object. Any other is dropped.
-/

namespace DeviceVm

structure Liveness (m : Type → Type) where
  alive : (oop : UInt32) → m Bool
  keep : (oop : UInt32) → m UInt32

structure QueueTally where
  heads : Array UInt32 := Array.replicate 16 0
  kept : Nat := 0
  finalized : Nat := 0
  dropped : Nat := 0

namespace Liveness

open Association Store

variable {m : Type → Type} [Monad m] [MonadLiftT Run m]

@[inline] def store {α : Type} (x : Run α) : m α := liftM x

def enqueue (tally : QueueTally) (key kept : UInt32) : Run QueueTally := do
  let queue := (queueOf key).toNat
  setNext kept (tally.heads.getD queue 0)
  return { tally with heads := tally.heads.setIfInBounds queue kept, kept := tally.kept + 1 }

def settle (live : Liveness m) (tally : QueueTally) (a : UInt32) : m (UInt32 × QueueTally) := do
  let current ← store (Header.resolve a)
  let following ← store (next current)
  let object ← store do Header.resolve (← object current)
  let monitor ← store do Header.resolve (← monitor current)
  let inUse ← store (if monitor == 0 then pure false else monitorInUse monitor)
  let flags ← store (flags current)
  store (setNext current 0)
  let informative := (← store (hashCode current)) != 0 ||
    flags &&& (finalizerFlag ||| migratableFlag) != 0
  let stays ← if inUse then pure true else (· && informative) <$> live.alive object
  if stays then
    let kept ← live.keep a
    let key ← if object == 0 then pure 0 else live.keep object
    return (following, ← store (enqueue tally key kept))
  if flags &&& finalizerFlag != 0 then
    let kept ← live.keep a
    store do
      setNext kept (← finalizationQueue)
      setRamRoot Root.finalization kept
    return (following, { tally with finalized := tally.finalized + 1 })
  store <| say .trace .collection fun _ =>
    "association " ++ Hex.word a ++ " of " ++ Hex.word object ++ " lost"
  return (following, { tally with dropped := tally.dropped + 1 })

def settleQueue (live : Liveness m) : (fuel : Nat) → QueueTally → UInt32 → m QueueTally
  | 0, _, _ => store (throw .endless)
  | fuel + 1, tally, a => do
    if a == 0 then return tally
    let (following, tally) ← settle live tally a
    settleQueue live fuel tally following

def settleQueues (live : Liveness m) (table : UInt32) :
    (n : Nat) → (queue : UInt32) → QueueTally → m QueueTally
  | 0, _, tally => return tally
  | n + 1, queue, tally => do
    let a ← store (Memory.word table queue.toInt32)
    store (Memory.setWord table queue.toInt32 0)
    let tally ← settleQueue live (← store Memory.walkBound) tally a
    settleQueues live table n (queue + 1) tally

def writeHeads (table : UInt32) : List UInt32 → (queue : UInt32) → Edit Unit
  | [], _ => return
  | head :: rest, queue => do
    Memory.setWord table queue.toInt32 head
    writeHeads table rest (queue + 1)

def processQueues (live : Liveness m) : m Unit := do
  let table ← store associationTable
  let mut tally : QueueTally := {}
  if table != 0 then
    let now ← store (Header.resolve table)
    tally ← settleQueues live now queueCount.toNat 0 tally
    let kept ← live.keep table
    store do
      setRamRoot Root.associations kept
      writeHeads kept tally.heads.toList 0
  let counts := tally
  store <| say .debug .collection fun _ =>
    s!"associations: {counts.kept} kept, {counts.finalized} queued for finalization, " ++
      s!"{counts.dropped} dropped"

def checkQueue (live : Liveness m) (queue : UInt32) : (fuel : Nat) → (a : UInt32) → m Unit
  | 0, _ => store (throw .endless)
  | fuel + 1, a => do
    if a == 0 then return
    if !(← live.alive a) then store (fatal (.deadAssociation a queue))
    let object ← store (object a)
    if object != 0 then
      if !(← live.alive object) then store (fatal (.deadAssociatedObject object a))
    if queueOf object != queue then
      store (fatal (.misplacedAssociation a (queueOf object) queue))
    checkQueue live queue fuel (← store (next a))

def checkQueuesFrom (live : Liveness m) (table : UInt32) :
    (n : Nat) → (queue : UInt32) → m Unit
  | 0, _ => pure ()
  | n + 1, queue => do
    let a ← store (Memory.word table queue.toInt32)
    checkQueue live queue (← store Memory.walkBound) a
    checkQueuesFrom live table n (queue + 1)

def checkQueues (live : Liveness m) : m Unit := do
  let table ← store associationTable
  if table != 0 then checkQueuesFrom live table queueCount.toNat 0

end Liveness

end DeviceVm
