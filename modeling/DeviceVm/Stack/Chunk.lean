import DeviceVm.Memory.Access

/-!
Stack chunks. The first five words of a chunk link it to other chunks and tell its size and its
innermost frame; frames follow upwards. A chunk without an innermost frame is not suspended: it
is running or unused.
-/

namespace DeviceVm

namespace Frame

def previous (lp : UInt32) : Read UInt32 := Memory.word lp (-3)

end Frame

namespace Chunk

open Word

def headerWords : UInt32 := 5

def frameHeaderWords : UInt32 := 5

def firstFrameOffset : UInt32 := 40

def regularWords : UInt32 := 32

/-- The address of the chunk when its frame links were last brought up to date. -/
def self (c : UInt32) : Read UInt32 := Memory.word c 0
def setSelf (c v : UInt32) : Edit Unit := Memory.setWord c 0 v

/-- The next chunk of the list of all chunks. It shares its word with `self`. -/
def listed (c : UInt32) : Read UInt32 := Memory.word c 0
def setListed (c v : UInt32) : Edit Unit := Memory.setWord c 0 v

def next (c : UInt32) : Read UInt32 := Memory.word c 1
def setNext (c v : UInt32) : Edit Unit := Memory.setWord c 1 v

def prev (c : UInt32) : Read UInt32 := Memory.word c 2
def setPrev (c v : UInt32) : Edit Unit := Memory.setWord c 2 v

def size (c : UInt32) : Read UInt32 := Memory.word c 3
def setSize (c v : UInt32) : Edit Unit := Memory.setWord c 3 v

/-- The innermost suspended frame, zero if there is none. -/
def lastFrame (c : UInt32) : Read UInt32 := Memory.word c 4
def setLastFrame (c v : UInt32) : Edit Unit := Memory.setWord c 4 v

def firstFrame (c : UInt32) : Except Fault UInt32 := plus c firstFrameOffset

def limit (c : UInt32) : Read UInt32 := do
  plus c (← times (← size c) 4)

def ofFrameWithin : (fuel : Nat) → (lp : UInt32) → Read UInt32
  | 0, _ => throw .endless
  | fuel + 1, lp => do
    let p ← Frame.previous lp
    if p == 0 then minus lp firstFrameOffset else ofFrameWithin fuel p

def ofFrame (lp : UInt32) : Read UInt32 := do
  ofFrameWithin (← Memory.walkBound) lp

def wordsFor (locals operands : UInt32) : Except Fault UInt32 := do
  plus (← plus (headerWords + 2 * frameHeaderWords) locals) operands

end Chunk

end DeviceVm
