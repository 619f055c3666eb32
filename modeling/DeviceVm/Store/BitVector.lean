import DeviceVm.Memory.Access

/-!
One bit per word of an address range, in a bitmap that lies in memory itself, and an ascending
scan over the set bits. One bit vector can be bound to several bitmaps in turn.
-/

namespace DeviceVm

structure BitRange where
  base : UInt32 := 0
  first : UInt32 := 0
  last : UInt32 := 0
  deriving DecidableEq, Repr

structure BitScan where
  active : Bool := false
  cursor : UInt32 := 0
  stop : UInt32 := 0
  /-- The address the scan is at, zero behind the last one. -/
  current : UInt32 := 0
  deriving DecidableEq, Repr

structure BitVector where
  range : BitRange := {}
  scan : BitScan := {}
  deriving DecidableEq, Repr

namespace BitRange

open Word

def wordSpan : UInt32 := 128

def alignDown (addr : UInt32) : UInt32 := addr &&& 0xffffff80

def bitmapSize (first last : UInt32) : Except Fault UInt32 := do
  times (← plus ((← minus last (alignDown first)) / wordSpan) 1) 4

def bind (first last bitmap size : UInt32) : Except Fault BitRange := do
  require (bitmap % 4 == 0 && bitmap != 0)
  require (last > first)
  let aligned := alignDown first
  let base ← minus bitmap (aligned / 32)
  let lastWord ← plus base (last / wordSpan * 4)
  require ((← plus lastWord 4) ≤ (← plus bitmap size))
  return { base, first := aligned, last }

@[inline] def locate (r : BitRange) (addr : UInt32) : Except Fault (UInt32 × UInt32) := do
  require (r.first != 0)
  require (addr % 4 == 0)
  require (r.first ≤ addr && addr ≤ r.last)
  return (← plus r.base (addr / wordSpan * 4), addr / 4 % 32)

@[inline] def mask (bit : UInt32) : UInt32 := 1 <<< bit

@[inline] def test (r : BitRange) (addr : UInt32) : Read Bool := do
  let (word, bit) ← r.locate addr
  return (← Memory.wordAt word) &&& mask bit != 0

def set (r : BitRange) (addr : UInt32) : Edit Unit := do
  let (word, bit) ← r.locate addr
  Memory.setWordAt word ((← Memory.wordAt word) ||| mask bit)

def clear (r : BitRange) (addr : UInt32) : Edit Unit := do
  let (word, bit) ← r.locate addr
  Memory.setWordAt word ((← Memory.wordAt word) &&& ~~~mask bit)

def testAndSet (r : BitRange) (addr : UInt32) : Edit Bool := do
  let (word, bit) ← r.locate addr
  let value ← Memory.wordAt word
  Memory.setWordAt word (value ||| mask bit)
  return value &&& mask bit != 0

/-- The bitmap word of `addr` starts there and lies in the range up to `last`. -/
def wholeWord (last addr bit : UInt32) : Except Fault Bool := do
  if bit == 0 then return (← minus (← plus addr wordSpan) 4) ≤ last else return false

def clearFrom (r : BitRange) (last : UInt32) : (fuel : Nat) → (addr : UInt32) → Edit Unit
  | 0, _ => throw .endless
  | fuel + 1, addr => do
    if addr > last then return
    let (word, bit) ← r.locate addr
    if ← wholeWord last addr bit then
      Memory.setWordAt word 0
      r.clearFrom last fuel (← plus addr wordSpan)
    else
      Memory.setWordAt word ((← Memory.wordAt word) &&& ~~~mask bit)
      r.clearFrom last fuel (← plus addr 4)

def clearRange (r : BitRange) (before last : UInt32) : Edit Unit := do
  require (before ≤ last && last ≤ r.last)
  r.clearFrom last ((last.toNat - before.toNat) / 4 + 2) (← plus before 4)

def clearAll (r : BitRange) : Edit Unit := do
  let first ← plus r.base (r.first / wordSpan * 4)
  let last ← plus r.base (r.last / wordSpan * 4)
  Memory.zeroBytes first (← plus (← minus last first) 4)

def scanBound (r : BitRange) : Nat :=
  (r.last.toNat - r.first.toNat) / 4 + 3

end BitRange

namespace BitVector

open Word

def advanceWithin (r : BitRange) (scan : BitScan) : (fuel : Nat) → (addr : UInt32) → Read BitScan
  | 0, _ => throw .endless
  | fuel + 1, addr => do
    if addr == scan.stop then return { scan with cursor := addr, current := 0 }
    let next ← plus addr 4
    if ← r.test addr then return { scan with cursor := next, current := addr }
    advanceWithin r scan fuel next

def advance (v : BitVector) : Read BitVector := do
  return { v with scan := ← advanceWithin v.range v.scan v.range.scanBound v.scan.cursor }

def startScan (v : BitVector) (before last : UInt32) : Read BitVector := do
  require (before ≤ last)
  require (!v.scan.active)
  let scan := { v.scan with active := true, cursor := ← plus before 4, stop := ← plus last 4 }
  advance { v with scan }

def endScan (v : BitVector) : BitVector :=
  { v with scan := { v.scan with active := false } }

end BitVector

end DeviceVm
