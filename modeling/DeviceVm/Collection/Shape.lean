import DeviceVm.Stack.Frame
import DeviceVm.Store.ClassState

/-!
Where the references of an object are. The shape of an object tells it for all objects but stack
chunks, whose frames are described by the methods that run in them. A traversal visits the
reference words of an object in order; a visit may change the word and anything it leads to.
-/

namespace DeviceVm

inductive Shape where
  | primitive
  | references (count : UInt32)
  | stackChunk
  | classState (count : UInt32)
  | record (map words : UInt32)
  deriving DecidableEq, Repr

namespace Shape

def of (oop k : UInt32) : Read Shape := do
  if !(← Class.isArray k) then
    let map ← Header.resolve (← Class.referenceMap k)
    return .record map (← Class.instanceWords k)
  let number ← Class.number k
  if number == ClassNumber.localArray then return .stackChunk
  if number == ClassNumber.globalArray then
    let owner ← ClassState.ownerOf oop
    let statics ← if owner == 0 then pure 0 else Class.staticReferences owner
    return .classState (← Word.plus Store.classStateHeader statics)
  if ← Class.isReferenceArray k then return .references (← Header.elementCount oop)
  return .primitive

end Shape

structure Visitor (m : Type → Type) where
  word : (base : UInt32) → (index : Int32) → m Unit
  chunk : (chunk : UInt32) → m Unit

namespace Traversal

variable {m : Type → Type} [Monad m] [MonadLiftT Run m]

@[inline] def store {α : Type} (x : Run α) : m α := liftM x

def visitWords (word : UInt32 → Int32 → m Unit) (base : UInt32) :
    (n : Nat) → (i : UInt32) → m Unit
  | 0, _ => pure ()
  | n + 1, i => do
    word base i.toInt32
    visitWords word base n (i + 1)

def visitMapped (word : UInt32 → Int32 → m Unit) (base map : UInt32) :
    (n : Nat) → (i : UInt32) → m Unit
  | 0, _ => pure ()
  | n + 1, i => do
    if ← store (Class.mapBit map i) then word base i.toInt32
    visitMapped word base map n (i + 1)

def visitFrames (word : UInt32 → Int32 → m Unit) (last shift : UInt32) :
    (fuel : Nat) → (lp : UInt32) → m Unit
  | 0, _ => store (throw .endless)
  | fuel + 1, lp => do
    if lp > last then return
    word lp (-2)
    let mp ← store (Frame.method lp)
    let offset := (← store (Frame.ip lp)) - mp
    word lp (-5)
    let moved ← store (Frame.method lp)
    store (Frame.setIp lp (moved + offset))
    if shift != 0 then
      let previous ← store (Frame.previous lp)
      store (Frame.setPrevious lp (if previous == 0 then 0 else previous + shift))
    let map ← store (Method.referenceMap mp : Read UInt32)
    if offset == (← store (Method.headerSize mp)) then
      -- Not entered yet: only the parameters are set, and it is the innermost frame.
      let count ← store (Method.parameterCount mp)
      visitMapped word lp map count.toNat 0
      store (require (lp == last) : Read Unit)
    else
      let count ← store (Method.localCount mp)
      visitMapped word lp map count.toNat 0
      visitFrames word last shift fuel (← store (Frame.above lp))

/-- The frames of the chunk whose words are at `walk`. The frame links in it are addresses in
the chunk at `stored`; they become addresses in the chunk at `target`. A method that moves takes
the instruction pointer with it. -/
def frames (walk stored target : UInt32) (word : UInt32 → Int32 → m Unit) : m Unit := do
  let last ← store (Chunk.lastFrame walk)
  if last == 0 then return
  let shift := target - stored
  if shift != 0 then store (Chunk.setLastFrame walk (last + shift))
  let first ← store (Chunk.firstFrame walk : Read UInt32)
  visitFrames word (last + (walk - stored)) shift (← store Memory.walkBound) first

def chunkInPlace (word : UInt32 → Int32 → m Unit) (chunk : UInt32) : m Unit := do
  frames chunk chunk chunk word
  word chunk 0
  word chunk 1
  word chunk 2

def object (visitor : Visitor m) (oop k : UInt32) : m Unit := do
  match ← store (Shape.of oop k) with
  | .primitive => pure ()
  | .references count => visitWords visitor.word oop count.toNat 0
  | .classState count => visitWords visitor.word oop count.toNat 0
  | .stackChunk => visitor.chunk oop
  | .record map words => visitMapped visitor.word oop map words.toNat 0

end Traversal

end DeviceVm
