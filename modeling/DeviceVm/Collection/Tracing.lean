import DeviceVm.Collection.Shape

/-!
Marking with a bounded stack. Marking recurses a few levels deep and then pushes objects; the
objects whose push was dropped are found again by their mark bits.
-/

namespace DeviceVm

/-- What marking does with a reference word. The first argument traces an object that the word
leads to and that was not marked before. -/
abbrev Tracer := (trace : UInt32 → Run Unit) → (base : UInt32) → (index : Int32) → Run Unit

namespace Tracer

open Store

def scan (t : Tracer) (trace : UInt32 → Run Unit) (oop : UInt32) : Run Unit := do
  let k ← Header.classOf oop
  Traversal.object { word := t trace, chunk := Traversal.chunkInPlace (t trace) } oop k

def drain (scan : UInt32 → Run Unit) : (fuel : Nat) → Run Unit
  | 0 => throw .endless
  | fuel + 1 => do
    let oop ← popMark
    if oop == 0 then return
    scan oop
    drain scan fuel

def traceAt (t : Tracer) : (level : Nat) → (oop : UInt32) → Run Unit
  | 0, oop => pushMark oop
  | level + 1, oop => do
    updateMarks MarkStack.lowerLevel
    t.scan (t.traceAt level) oop
    drain (t.scan (t.traceAt level)) (← Memory.walkBound)
    updateMarks MarkStack.raiseLevel

def trace (t : Tracer) (oop : UInt32) : Run Unit := do
  let level ← (← get).marks.currentLevel
  t.traceAt level.toNat oop

def visit (t : Tracer) (base : UInt32) (index : Int32) : Run Unit :=
  t t.trace base index

def recoverWithin (t : Tracer) (before last : UInt32) (announce : Run Unit) :
    (fuel : Nat) → Run Unit
  | 0 => throw .endless
  | fuel + 1 => do
    if ← (← get).marks.isOverflowed then
      updateMarks MarkStack.resetOverflow
      announce
      forEachBit before last t.trace
      recoverWithin t before last announce fuel

def recover (t : Tracer) (before last : UInt32) (announce : Run Unit) : Run Unit := do
  t.recoverWithin before last announce (← Memory.walkBound)

end Tracer

end DeviceVm
