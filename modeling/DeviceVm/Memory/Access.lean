import DeviceVm.Memory.Basic
import DeviceVm.Memory.Word

/-!
Checked access to memory. `Read` and `Edit` are computations over a memory that may fault; an
`Edit` that faults keeps the memory as it was at the fault. Words must be aligned, other values
need not be. Data is in the byte order of the memory, code is always big-endian.
-/

namespace DeviceVm

abbrev Read := ReaderT Memory (Except Fault)

abbrev Edit := EStateM Fault Memory

@[always_inline, inline]
instance : MonadLift Read Edit where
  monadLift r := fun m =>
    match r m with
    | .ok a => .ok a m
    | .error e => .error e m

namespace Memory

@[inline] def readable (addr : UInt32) (n : Nat) (m : Memory) : Bool :=
  addr.toNat + n ≤ m.size

@[inline] def readAt (addr : UInt32) (n : Nat) (get : Memory → Nat → α) : Read α := fun m =>
  if readable addr n m then .ok (get m addr.toNat) else .error .broken

@[inline] def writeAt (addr : UInt32) (n : Nat) (set : Memory → Nat → Memory) : Edit Unit :=
  fun m => if readable addr n m then .ok () (set m addr.toNat) else .error .broken m

def wordAt (addr : UInt32) : Read UInt32 := fun m =>
  if addr % 4 == 0 && readable addr 4 m then .ok (m.peekWord addr.toNat) else .error .broken

def setWordAt (addr : UInt32) (v : UInt32) : Edit Unit := fun m =>
  if addr % 4 == 0 && readable addr 4 m then .ok () (m.pokeWord addr.toNat v)
  else .error .broken m

def word (base : UInt32) (index : Int32) : Read UInt32 := do
  wordAt (base + (← Word.scaled index 4))

def setWord (base : UInt32) (index : Int32) (v : UInt32) : Edit Unit := do
  let distance ← Word.scaled index 4
  setWordAt (base + distance) v

def half (base : UInt32) (index : Int32) : Read UInt16 := do
  readAt (base + (← Word.scaled index 2)) 2 peekHalf

def setHalf (base : UInt32) (index : Int32) (v : UInt16) : Edit Unit := do
  let distance ← Word.scaled index 2
  writeAt (base + distance) 2 (pokeHalf · · v)

def byte (base : UInt32) (index : Int32) : Read UInt8 :=
  readAt (base + index.toUInt32) 1 peek

def setByte (base : UInt32) (index : Int32) (v : UInt8) : Edit Unit :=
  writeAt (base + index.toUInt32) 1 (poke · · v)

def long (base : UInt32) (index : Int32) : Read UInt64 := do
  readAt (base + (← Word.scaled index 8)) 8 peekLong

def setLong (base : UInt32) (index : Int32) (v : UInt64) : Edit Unit := do
  let distance ← Word.scaled index 8
  writeAt (base + distance) 8 (pokeLong · · v)

def longAtWord (base : UInt32) (index : Int32) : Read UInt64 := do
  readAt (base + (← Word.scaled index 4)) 8 peekLong

def setLongAtWord (base : UInt32) (index : Int32) (v : UInt64) : Edit Unit := do
  let distance ← Word.scaled index 4
  writeAt (base + distance) 8 (pokeLong · · v)

def code8 (addr : UInt32) : Read UInt8 :=
  readAt addr 1 peek

def code16 (addr : UInt32) : Read UInt16 :=
  readAt addr 2 fun m a => ByteOrder.big.half (m.peek a) (m.peek (a + 1))

def bigWord (m : Memory) (a : Nat) : UInt32 :=
  ByteOrder.big.word (m.peek a) (m.peek (a + 1)) (m.peek (a + 2)) (m.peek (a + 3))

def code32 (addr : UInt32) : Read UInt32 :=
  readAt addr 4 bigWord

def code64 (addr : UInt32) : Read UInt64 :=
  readAt addr 8 fun m a => ByteOrder.big.long (bigWord m a) (bigWord m (a + 4))

def slice (addr len : UInt32) : Read ByteArray := do
  let stop ← Word.plus addr len
  fun m =>
    if stop.toNat ≤ m.size then .ok (m.bytes.extract addr.toNat stop.toNat)
    else .error .broken

def setSlice (addr : UInt32) (source : ByteArray) : Edit Unit := do
  let _ ← Word.plus addr source.size.toUInt32
  writeAt addr source.size (pokeBytes · · source)

def copyBytes (source target len : UInt32) : Edit Unit := fun m =>
  if len == 0 || source == target then .ok () m
  else if source.toNat + len.toNat ≤ m.size && target.toNat + len.toNat ≤ m.size then
    .ok () (m.move source.toNat target.toNat len.toNat)
  else .error .broken m

/-- Fills `len` bytes with a word. With the word zero every byte is cleared, else a rest
shorter than a word is left. -/
def fillWords (addr len pattern : UInt32) : Edit Unit :=
  writeAt addr len.toNat fun m a =>
    if pattern == 0 then m.pokeZeros a len.toNat else m.pokeWords a pattern (len.toNat / 4)

def zeroBytes (addr len : UInt32) : Edit Unit :=
  fillWords addr len 0

def walkBound : Read Nat :=
  return (← read).size + 1

end Memory

end DeviceVm
