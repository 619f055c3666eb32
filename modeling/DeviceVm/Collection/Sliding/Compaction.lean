import DeviceVm.Collection.Sliding.Forwarding
import DeviceVm.Collection.Sliding.Marking

/-!
Compaction of a space whose live objects are marked: every object gets its forwarding word,
every reference is changed to where its object goes, and the objects are moved. An object that
cannot move far enough in one step leaves a hole, and marking and compaction are repeated.
-/

namespace DeviceVm

namespace Sliding

open Store Word

/-- Forwards every marked object to the lowest free address it can reach. Gives whether one was
held back. -/
def assignTargets (f : Forwarding) (space : Space) : Run Bool := do
  let (_, hole) ← foldBits space.start space.stop (space.start, false) fun (free, hole) oop => do
    let k ← Header.classOf oop
    let length ← Header.bodySizeAs oop k
    let wanted ← minus oop (← plus free (← Header.size oop))
    let delta := min wanted f.maxDelta
    f.forward oop k delta
    return (← plus (← minus oop delta) length, hole || wanted > f.maxDelta)
  return hole

def targetOf (f : Forwarding) (space : Space) (oop : UInt32) : Read UInt32 :=
  if space.has oop then f.target oop else return oop

def redirect (f : Forwarding) (space : Space) (base : UInt32) (index : Int32) : Run Unit := do
  let oop ← Memory.word base index
  if oop != 0 then
    let target ← targetOf f space oop
    if target != oop then Memory.setWord base index target

/-- Stack chunks are redirected from their list, before any object. -/
def redirector (f : Forwarding) (space : Space) : Visitor Run where
  word := redirect f space
  chunk _ := pure ()

def redirectChunk (f : Forwarding) (space : Space) (chunk : UInt32) : Run UInt32 := do
  let following ← Chunk.listed chunk
  if space.has chunk then require (← testBit chunk)
  let target ← targetOf f space chunk
  Traversal.frames chunk chunk target (redirect f space)
  redirect f space chunk 0
  redirect f space chunk 1
  redirect f space chunk 2
  return following

/-- Stores into associations are not recorded, so those outside of the space are redirected
here. Their recorded stores are dropped, lest they be redirected twice. -/
def redirectOld (f : Forwarding) (space : Space) (oop : UInt32) : Run Unit := do
  if space.has oop then require (← testBit oop)
  else
    let k ← Header.classOf oop
    Traversal.object (redirector f space) oop k
    if ← inRam oop then
      if oop > (← memoryStart) then
        let length ← Header.bodySizeAs oop k
        let first ← minus oop 4
        clearBits first (← minus (← plus oop length) 4)

def redirectAll (f : Forwarding) (space : Space) : Run Unit := do
  let ram := (← get).ram.start
  forEachChunk (redirectChunk f space)
  let table ← associationTable
  if table != 0 then
    (← queuedAssociations).forM (redirectOld f space)
    redirectOld f space table
  forEachBit (← memoryStart) space.start fun field => redirect f space field 0
  Root.all.forM fun index => redirect f space ram (SegmentRecord.roots + index)
  forEachBit space.start space.stop fun oop => do
    let k ← f.classOf oop
    Traversal.object (redirector f space) oop k

def moveObject (f : Forwarding) (oop : UInt32) : Run (UInt32 × Bool) := do
  let target ← f.target oop
  let k ← f.classOf oop
  Header.setClass oop k
  let header ← Header.size oop
  let length ← Header.bodySizeAs oop k
  if target != oop then
    let source ← minus oop header
    Memory.copyBytes source (← minus target header) (← plus header length)
  return (← plus target length, target != oop)

def moveAll (f : Forwarding) (space : Space) : Run UInt32 := do
  let (free, moved) ← foldBits space.start space.stop (space.start, 0) fun (_, moved) oop => do
    let (free, didMove) ← moveObject f oop
    return (free, moved + if didMove then 1 else 0)
  let failed ← failedSize
  let s := (← get).sliding
  let room := plusSaturating (plusSaturating free failed) (← roundUp4 s.idealYoung)
  let stop := min room (← memoryEnd)
  let stop := if s.minimumHeap then max stop s.highWater else stop
  modify fun s => { s with sliding := { s.sliding with highWater := max s.sliding.highWater stop } }
  setPartitionFree free
  setPartitionEnd stop
  if (← associationTable) != 0 then rebuildQueues
  say .trace .collection fun _ =>
    s!"relocated {moved} objects, free " ++ Hex.word free ++ " end " ++ Hex.word stop
  return free

/-- Marks and compacts until no object was held back. `last` is the end of the objects after the
pass before. -/
def compactWithin (f : Forwarding) (start : UInt32) :
    (fuel : Nat) → (stop : UInt32) → (last : Option UInt32) → Run Unit
  | 0, _, _ => throw .endless
  | fuel + 1, stop, last => do
    let space : Space := { start, stop }
    modify fun s => { s with sliding := { s.sliding with passes := s.sliding.passes + 1 } }
    mark space
    let hole ← assignTargets f space
    redirectAll f space
    let free ← moveAll f space
    if hole then
      if last.any (· ≤ free) then fatal (.noCompactionProgress free)
      say .debug .collection fun _ => "hole left at compaction, another pass"
      compactWithin f start fuel free (some free)

def compact (f : Forwarding) (space : Space) : Run Unit := do
  compactWithin f space.start ((← Memory.walkBound) + 1) space.stop none

end Sliding

end DeviceVm
