import DeviceVm.Store.Allocation

/-!
Associations give an object a hash code, a monitor, a finalizer or the wish to be migrated. They
hang in sixteen queues by the address of their object. The queues do not keep anything alive:
each collection decides for every association whether it stays, and rebuilds the queues.
-/

namespace DeviceVm

namespace Association

def object (a : UInt32) : Read UInt32 := Memory.word a 0
def setObject (a v : UInt32) : Edit Unit := Memory.setWord a 0 v

def next (a : UInt32) : Read UInt32 := Memory.word a 1
def setNext (a v : UInt32) : Edit Unit := Memory.setWord a 1 v

def monitor (a : UInt32) : Read UInt32 := Memory.word a 2
def hashCode (a : UInt32) : Read UInt32 := Memory.word a 3

def flags (a : UInt32) : Read UInt32 := Memory.word a 4
def setFlags (a v : UInt32) : Edit Unit := Memory.setWord a 4 v

def fieldCount : UInt32 := 5

def finalizerFlag : UInt32 := 1
def migratableFlag : UInt32 := 2

def queueCount : UInt32 := 16

def queueOf (oop : UInt32) : UInt32 := (oop >>> 2) % queueCount

def isMigratable (a : UInt32) : Read Bool :=
  return (← flags a) &&& migratableFlag != 0

def hasFinalizer (a : UInt32) : Read Bool :=
  return (← flags a) &&& finalizerFlag != 0

def clearMigratable (a : UInt32) : Edit Unit := do
  setFlags a ((← flags a) &&& ~~~migratableFlag)

def linkedFrom : (fuel : Nat) → (a : UInt32) → Read (List UInt32)
  | 0, _ => throw .endless
  | fuel + 1, a => do
    if a == 0 then return []
    return a :: (← linkedFrom fuel (← next a))

def linked (a : UInt32) : Read (List UInt32) := do
  linkedFrom (← Memory.walkBound) a

def monitorInUse (monitor : UInt32) : Read Bool :=
  return (← Memory.word monitor 4) != 0

end Association

namespace Store

open Association

def associationTable : Query UInt32 := root .ram Root.associations

def associationQueue (obj : UInt32) : Query UInt32 := do
  let table ← associationTable
  if table == 0 then return 0
  Memory.word table (queueOf obj).toInt32

def setAssociationQueue (obj a : UInt32) : Run Unit := do
  let table ← associationTable
  require (table != 0)
  Memory.setWord table (queueOf obj).toInt32 a

def associationFrom (obj : UInt32) : (fuel : Nat) → (a : UInt32) → Read UInt32
  | 0, _ => throw .endless
  | fuel + 1, a => do
    if a == 0 then return 0
    if (← object a) == obj then return a
    associationFrom obj fuel (← next a)

def associationOf (obj : UInt32) : Query UInt32 := do
  associationFrom obj (← Memory.walkBound) (← associationQueue obj)

def getAssociation (obj : UInt32) : Run UInt32 := do
  require (obj != 0)
  let existing ← associationOf obj
  if existing != 0 then return existing
  if (← associationTable) == 0 then
    let table ← newArray (← classNumbered ClassNumber.objectArray) queueCount
    if table == 0 then return 0
    setRamRoot Root.associations table
  let a ← newInstance (← classNumbered ClassNumber.association)
  if a == 0 then return 0
  let head ← associationQueue obj
  setObject a obj
  setNext a head
  setAssociationQueue obj a
  say .trace .collection fun _ => "new association " ++ Hex.word a ++ " for " ++ Hex.word obj
  return a

def queuesFrom (table : UInt32) : (n : Nat) → (queue : UInt32) → Read (List UInt32)
  | 0, _ => return []
  | n + 1, queue => do
    let these ← linked (← Memory.word table queue.toInt32)
    return these ++ (← queuesFrom table n (queue + 1))

def queuedAssociations : Query (List UInt32) := do
  let table ← associationTable
  if table == 0 then return []
  queuesFrom table queueCount.toNat 0

def firstMigratable : List UInt32 → Read UInt32
  | [] => return 0
  | a :: rest => do
    if ← isMigratable a then return a
    firstMigratable rest

def nextMigratable : Query UInt32 := do
  firstMigratable (← queuedAssociations)

def rebuildQueues : Run Unit := do
  let table ← associationTable
  if table == 0 then return
  let queued ← queuedAssociations
  for queue in [0:queueCount.toNat] do
    Memory.setWord table (Int32.ofNat queue) 0
  for a in queued do
    let obj ← Header.resolve (← object a)
    let head ← Memory.word table (queueOf obj).toInt32
    setNext a head
    Memory.setWord table (queueOf obj).toInt32 a

def finalizationQueue : Query UInt32 := root .ram Root.finalization

def takeFinalizer : Run UInt32 := do
  let a ← finalizationQueue
  if a != 0 then
    setRamRoot Root.finalization (← next a)
    setNext a 0
  return a

def countFinalizers : (fuel : Nat) → (a : UInt32) → (count : Nat) → Read Nat
  | 0, _, _ => throw .endless
  | fuel + 1, a, count => do
    if a == 0 then return count
    require (← hasFinalizer a)
    countFinalizers fuel (← next a) (count + 1)

def pendingFinalizers : Query Nat := do
  countFinalizers (← Memory.walkBound) (← finalizationQueue) 0

end Store

end DeviceVm
