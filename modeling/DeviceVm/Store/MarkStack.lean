import DeviceVm.Memory.Access

/-!
The mark stack: a bounded stack of objects in memory. A push onto a full stack is dropped and
raises the overflow flag. It also counts the levels of recursion that marking may still take.
-/

namespace DeviceVm

structure MarkStack where
  inUse : Bool := false
  base : UInt32 := 0
  depth : UInt32 := 0
  capacity : UInt32 := 0
  overflowed : Bool := false
  level : UInt32 := 0
  highWater : UInt32 := 0
  deriving DecidableEq, Repr

namespace MarkStack

open Word

def recursionLevels : UInt32 := 2

def setup (k : MarkStack) (start stop : UInt32) : Except Fault MarkStack := do
  require (!k.inUse)
  require (stop ≥ start)
  return { k with
    inUse := true, base := start, depth := 0, capacity := (stop - start) / 4
    overflowed := false, level := recursionLevels }

def isOverflowed (k : MarkStack) : Except Fault Bool := do
  require k.inUse
  return k.overflowed

def resetOverflow (k : MarkStack) : Except Fault MarkStack := do
  require k.inUse
  return { k with overflowed := false }

def currentLevel (k : MarkStack) : Except Fault UInt32 := do
  require k.inUse
  return k.level

def raiseLevel (k : MarkStack) : Except Fault MarkStack := do
  require k.inUse
  return { k with level := ← plus k.level 1 }

def lowerLevel (k : MarkStack) : Except Fault MarkStack := do
  require (k.inUse && k.level > 0)
  return { k with level := k.level - 1 }

def finish (k : MarkStack) : Except Fault MarkStack := do
  require k.inUse
  return { k with inUse := false }

def pushWord (k : MarkStack) (oop : UInt32) : Edit Unit := do
  require k.inUse
  if k.depth != k.capacity then Memory.setWord k.base k.depth.toInt32 oop

def pushed (k : MarkStack) : MarkStack :=
  if k.depth == k.capacity then { k with overflowed := true }
  else
    let depth := k.depth + 1
    { k with depth, highWater := max k.highWater depth }

def top (k : MarkStack) : Read UInt32 := do
  require k.inUse
  if k.depth == 0 then return 0
  Memory.word k.base (k.depth - 1).toInt32

def popped (k : MarkStack) : MarkStack :=
  if k.depth == 0 then k else { k with depth := k.depth - 1 }

end MarkStack

end DeviceVm
