import DeviceVm.Collection.Persistent.FreeList
import DeviceVm.Collection.Shape
import DeviceVm.Store.Association

/-!
Copying of object graphs from RAM to persistent memory. An object is forwarded to its copy, so
that shared and cyclic references lead to one copy. A migration leaves the objects forwarded, and
the next collection of RAM drops them; otherwise the forwarding is taken back.
-/

namespace DeviceVm

namespace Persistent

open Store Word

@[inline] def update (f : PersistentState → PersistentState) : Run Unit :=
  modify fun s => { s with persistent := f s.persistent }

def needsCopy (oop : UInt32) : Query Bool := do
  if oop == 0 then return false
  if ← inRam oop then return !(← Header.isForwarded oop) else return false

def copyObject (oop : UInt32) : Run UInt32 := do
  let k ← Header.classOf oop
  match ← Shape.of oop k with
  | .stackChunk | .classState _ => fatal (.classNotPersistable oop (← Class.number k))
  | .primitive | .references _ | .record _ _ => pure ()
  let block ← Block.ofObject oop
  let header ← minus oop block
  let size ← plus header (← Header.bodySizeAs oop k)
  let chunk ← take size false
  if chunk == 0 then return 0
  Memory.copyBytes block chunk size
  let total ← plus (← get).persistent.bytesCopied size
  update fun p => { p with bytesCopied := total }
  let copy ← plus chunk header
  Header.forwardTo oop copy
  update fun p => { p with forwarded := oop :: p.forwarded }
  say .trace .migration fun _ =>
    Hex.word oop ++ " -> " ++ Hex.word copy ++ s!" ({size} bytes)"
  return copy

def mappedWords (map : UInt32) : (n : Nat) → (i : UInt32) → Read (List UInt32)
  | 0, _ => return []
  | n + 1, i => do
    let isReference ← Class.mapBit map i
    let rest ← mappedWords map n (i + 1)
    return if isReference then i :: rest else rest

def referenceWords (oop k : UInt32) : Run (List UInt32) := do
  match ← Shape.of oop k with
  | .primitive => return []
  | .references count => return (List.range count.toNat).map (·.toUInt32)
  | .record map words => mappedWords map words.toNat 0
  | .stackChunk | .classState _ => fatal (.notPersistable oop)

/-- Copies what the words of a copy refer to. Gives the new copies, last one first, or nothing if
memory ran out. -/
def copyReferences (copy : UInt32) :
    List UInt32 → (made : List UInt32) → Run (Option (List UInt32))
  | [], made => return some made
  | i :: rest, made => do
    let oop ← Memory.word copy i.toInt32
    if ← needsCopy oop then
      let target ← copyObject oop
      if target == 0 then return none
      Memory.setWord copy i.toInt32 target
      copyReferences copy rest (target :: made)
    else
      if oop != 0 then
        if ← inRam oop then
          Memory.setWord copy i.toInt32 (← Header.forwardTarget oop)
      copyReferences copy rest made

def copyPending : (fuel : Nat) → (pending : List UInt32) → Run Bool
  | 0, _ => throw .endless
  | _ + 1, [] => return true
  | fuel + 1, copy :: pending => do
    let k ← Header.classOf copy
    match ← copyReferences copy (← referenceWords copy k) pending with
    | none => return false
    | some pending => copyPending fuel pending

def copyGraph (oop : UInt32) : Run UInt32 := do
  let copy ← copyObject oop
  if copy == 0 then return 0
  if ← copyPending (← Memory.walkBound) [copy] then return copy else return 0

def forwarded : Run (List UInt32) := return (← get).persistent.forwarded.reverse

def restoreForwarded : Run Unit := do
  (← forwarded).forM fun oop => do
    let copy ← Header.forwardTarget oop
    Header.setClass oop (← Header.classOf copy)

/-- Moves the association of an object to the copy, and drops recorded stores into the object. -/
def finishForwarded (oop : UInt32) : Run Unit := do
  let copy ← Header.forwardTarget oop
  let a ← associationOf oop
  if a != 0 then
    Association.setObject a copy
    Association.clearMigratable a
  if (← get).barrier then
    if oop > (← memoryStart) then
      let length ← Header.bodySize copy
      let first ← minus oop 4
      clearBits first (← minus (← plus oop length) 4)

def finishMigration : Run Unit := do
  (← forwarded).forM finishForwarded
  rebuildQueues
  update fun p => { p with fullRequested := true }

/-- What is done when the attempt to copy a graph has ended. -/
def conclude (oop : UInt32) (migrate : Bool) : Except Fault UInt32 → Run UInt32
  | .error fault => do
    restoreForwarded
    throw fault
  | .ok copy => do
    if copy == 0 then
      restoreForwarded
      say .debug .migration fun _ => "EEPROM too small for the graph at " ++ Hex.word oop
      update fun p => { p with bytesCopied := 0 }
      return 0
    if migrate then
      finishMigration
      update fun p => { p with migrations := p.migrations + 1 }
    else
      restoreForwarded
      update fun p => { p with copies := p.copies + 1 }
    let p := (← get).persistent
    say .debug .migration fun _ =>
      (if migrate then "migrated " else "copied ") ++ Hex.word oop ++ " to " ++ Hex.word copy ++
        s!": {p.forwarded.length} objects, {p.bytesCopied} bytes"
    return copy

/-- Copies a graph to persistent memory, or moves it there. Gives the copy of the object, the
object itself if it is not in RAM, and zero if there is no room. -/
def makePersistent (oop : UInt32) (migrate : Bool) : Run UInt32 := do
  require (oop != 0)
  update fun p => { p with bytesCopied := 0, forwarded := [] }
  if !(← needsCopy oop) then return ← Header.resolve oop
  conclude oop migrate (← attempt (copyGraph oop))

def takeFullRequest : Run Bool := do
  let requested := (← get).persistent.fullRequested
  update fun p => { p with fullRequested := false }
  return requested

def requestFull : Run Unit :=
  update fun p => { p with fullRequested := true }

def sayStats : Run Unit := do
  let p := (← get).persistent
  say .info .persistent fun _ =>
    s!"persistent memory: {p.collections} collections, {p.copies} copies, " ++
      s!"{p.migrations} migrations"

end Persistent

end DeviceVm
