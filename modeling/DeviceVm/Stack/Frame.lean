import DeviceVm.Stack.Chunk
import DeviceVm.Stack.Method

/-!
Frames. The five words in front of the locals of a frame hold its method, its saved instruction
pointer, the frame it returns to, its class and the byte distance from the locals to the word
below the operand stack.
-/

namespace DeviceVm.Frame

open Word

def method (lp : UInt32) : Read UInt32 := Memory.word lp (-5)
def setMethod (lp v : UInt32) : Edit Unit := Memory.setWord lp (-5) v

def ip (lp : UInt32) : Read UInt32 := Memory.word lp (-4)
def setIp (lp v : UInt32) : Edit Unit := Memory.setWord lp (-4) v

def setPrevious (lp v : UInt32) : Edit Unit := Memory.setWord lp (-3) v

def classOf (lp : UInt32) : Read UInt32 := Memory.word lp (-2)
def setClass (lp v : UInt32) : Edit Unit := Memory.setWord lp (-2) v

def stackOffset (lp : UInt32) : Read UInt32 := Memory.word lp (-1)
def setStackOffset (lp v : UInt32) : Edit Unit := Memory.setWord lp (-1) v

def above (lp : UInt32) : Read UInt32 := do
  plus (← plus lp (← stackOffset lp)) 4

def enteredOffset (locals : UInt32) : Except Fault UInt32 := do
  times (← minus (← plus locals Chunk.frameHeaderWords) 1) 4

def depthWithin : (fuel : Nat) → (lp depth : UInt32) → Read UInt32
  | 0, _, _ => throw .endless
  | fuel + 1, lp, depth => do
    if lp == 0 then return depth
    let depth ← plus depth 1
    let p ← previous lp
    if p != 0 then depthWithin fuel p depth
    else
      let below ← Chunk.prev (← Chunk.ofFrame lp)
      let lp ← if below == 0 then pure 0 else Chunk.lastFrame below
      depthWithin fuel lp depth

def depth (lp : UInt32) : Read UInt32 := do
  depthWithin (← Memory.walkBound) lp 0

/-- The frame has not run its first instruction, so that only its parameters are set. -/
def isBeforeEntry (lp : UInt32) : Read Bool := do
  let mp ← method lp
  return (← minus (← ip lp) mp) == (← Method.headerSize mp)

end DeviceVm.Frame
