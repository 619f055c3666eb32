import DeviceVm.Store.ClassTable
import DeviceVm.Stack.Chunk

/-!
Allocation in RAM. Blocks are taken one after another from the partition and are zero. An
allocation that fails gives zero and records its size, so that a collection can make room.
-/

namespace DeviceVm.Store

open Word

/-- Takes `bytes` of zeroed RAM. In eager mode this fails unless a collection came since the
last allocation. -/
def allocate (bytes : UInt32) : Run UInt32 := do
  require (!(← get).collecting)
  require (bytes > 0)
  let size ← roundUp4 bytes
  let current ← partitionFree
  if (← minus (← partitionEnd) current) < size then
    setFailedSize size
    say .trace .allocation fun _ => s!"chunk of {size} bytes failed at " ++ Hex.word current
    return 0
  if (← get).eager then
    if !(← get).justCollected then
      say .trace .allocation fun _ => s!"excessive gc: refusing {size} bytes"
      setFailedSize size
      return 0
    modify fun s => { s with justCollected := false }
  Memory.zeroBytes current size
  setPartitionFree (← plus current size)
  modify fun s => { s with stats := { s.stats with allocations := s.stats.allocations + 1 } }
  return current

def newInstance (k : UInt32) : Run UInt32 := do
  require (!(← Class.isArray k))
  let body ← times (← Class.instanceWords k) 4
  let block ← allocate (← plus body 4)
  if block == 0 then return 0
  let oop ← plus block 4
  Header.setClass oop k
  say .trace .allocation fun _ => "instance of " ++ Hex.word k ++ " at " ++ Hex.word oop
  return oop

def newArray (k count : UInt32) : Run UInt32 := do
  let element ← Class.arrayElementSize k
  let body := count.toNat * element.toNat
  if body > Header.maxCount.toNat then
    setFailedSize 0x7fffffff
    return 0
  let header := Header.sizeForCount count
  let block ← allocate (max (body.toUInt32 + header) 4)
  if block == 0 then return 0
  let oop ← plus block header
  Header.setClassAndCount oop k count
  modify fun s =>
    { s with stats :=
      if header == 4 then { s.stats with smallArrays := s.stats.smallArrays + 1 }
      else { s.stats with largeArrays := s.stats.largeArrays + 1 } }
  say .trace .allocation fun _ =>
    "array of " ++ Hex.word k ++ s!"[{count}] at " ++ Hex.word oop
  return oop

def classStateHeader : UInt32 := 2

def newClassState (k : UInt32) : Run UInt32 := do
  let statics ← Class.staticWords k
  let globals ← classNumbered ClassNumber.globalArray
  newArray globals (← plus classStateHeader statics)

def newChunk (words : UInt32) : Run UInt32 := do
  let size :=
    if !(← get).exactChunks && words < Chunk.regularWords then Chunk.regularWords else words
  let locals ← classNumbered ClassNumber.localArray
  let chunk ← newArray locals size
  if chunk == 0 then return 0
  modify fun s => { s with stats := { s.stats with chunks := s.stats.chunks + 1 } }
  match (← get).kind with
  | .copying => Chunk.setSelf chunk chunk
  | .sliding =>
    Chunk.setListed chunk (← root .ram Root.chunkList)
    setRamRoot Root.chunkList chunk
  Chunk.setSize chunk size
  return chunk

end DeviceVm.Store
