import DeviceVm.Store.Allocation
import DeviceVm.Store.Barrier

/-!
Class states hold the statics of classes. They hang in sixteen lists by class number; a state
that is looked up moves to the front of its list.
-/

namespace DeviceVm

namespace ClassState

def ownerOf (cs : UInt32) : Read UInt32 := Memory.word cs 0
def next (cs : UInt32) : Read UInt32 := Memory.word cs 1

def tableSize : UInt32 := 16

def listOf (k : UInt32) : Read Int32 :=
  return ((← Class.number k) &&& (tableSize - 1)).toInt32

end ClassState

namespace Store

def classStateTable : Query UInt32 := root .ram Root.classStates

def addClassState (k cs : UInt32) : Run Unit := do
  let table ← classStateTable
  let list ← ClassState.listOf k
  let first ← Memory.word table list
  setReferenceInRam cs 0 k
  setReferenceInRam cs 1 first
  setReferenceInRam table list cs

def classStateBehind (k table : UInt32) (list : Int32) (first : UInt32) :
    (fuel : Nat) → (prev cs : UInt32) → Run UInt32
  | 0, _, _ => throw .endless
  | fuel + 1, prev, cs => do
    if cs == 0 then return 0
    let next ← ClassState.next cs
    if (← ClassState.ownerOf cs) == k then
      setReferenceInRam prev 1 next
      setReferenceInRam cs 1 first
      setReferenceInRam table list cs
      return cs
    classStateBehind k table list first fuel cs next

def findClassState (k : UInt32) : Run UInt32 := do
  let table ← classStateTable
  require (table != 0)
  let list ← ClassState.listOf k
  let first ← Memory.word table list
  if first != 0 then
    if (← ClassState.ownerOf first) == k then return first
    let found ← classStateBehind k table list first (← Memory.walkBound) first
      (← ClassState.next first)
    if found != 0 then return found
  if ← Class.needsInitialiser k then return 0
  let cs ← newClassState k
  if cs != 0 then addClassState k cs
  return cs

end Store

end DeviceVm
