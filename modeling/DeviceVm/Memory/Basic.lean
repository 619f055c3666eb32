/-!
Byte-addressed memory. `peek` and `poke` read and write single bytes; wider values are bytes in
the byte order of the memory. Reading outside memory gives zero and writing there changes
nothing, so these operations are total; the checked accesses are built on them.
-/

namespace DeviceVm

inductive ByteOrder where
  | big | little
  deriving DecidableEq, Repr

namespace ByteOrder

def name : ByteOrder → String
  | big => "Big"
  | little => "Little"

@[inline] def half (o : ByteOrder) (a b : UInt8) : UInt16 :=
  match o with
  | big => a.toUInt16 <<< 8 ||| b.toUInt16
  | little => b.toUInt16 <<< 8 ||| a.toUInt16

@[inline] def word (o : ByteOrder) (a b c d : UInt8) : UInt32 :=
  match o with
  | big => a.toUInt32 <<< 24 ||| b.toUInt32 <<< 16 ||| c.toUInt32 <<< 8 ||| d.toUInt32
  | little => d.toUInt32 <<< 24 ||| c.toUInt32 <<< 16 ||| b.toUInt32 <<< 8 ||| a.toUInt32

@[inline] def long (o : ByteOrder) (a b : UInt32) : UInt64 :=
  match o with
  | big => a.toUInt64 <<< 32 ||| b.toUInt64
  | little => b.toUInt64 <<< 32 ||| a.toUInt64

end ByteOrder

structure Memory where
  bytes : ByteArray
  order : ByteOrder

namespace Memory

def zeros (n : Nat) : ByteArray := ⟨Array.replicate n 0⟩

def blank (size : Nat) (order : ByteOrder) : Memory :=
  { bytes := zeros size, order }

@[inline] def size (m : Memory) : Nat := m.bytes.size

@[inline] def peek (m : Memory) (a : Nat) : UInt8 :=
  if h : a < m.bytes.size then m.bytes[a] else 0

@[inline] def poke (m : Memory) (a : Nat) (b : UInt8) : Memory :=
  { m with bytes := m.bytes.set! a b }

@[inline] def peekHalf (m : Memory) (a : Nat) : UInt16 :=
  m.order.half (m.peek a) (m.peek (a + 1))

@[inline] def pokeHalf (m : Memory) (a : Nat) (v : UInt16) : Memory :=
  match m.order with
  | .big => (m.poke a (v >>> 8).toUInt8).poke (a + 1) v.toUInt8
  | .little => (m.poke a v.toUInt8).poke (a + 1) (v >>> 8).toUInt8

@[inline] def peekWord (m : Memory) (a : Nat) : UInt32 :=
  m.order.word (m.peek a) (m.peek (a + 1)) (m.peek (a + 2)) (m.peek (a + 3))

def pokeWord (m : Memory) (a : Nat) (v : UInt32) : Memory :=
  match m.order with
  | .big =>
    (((m.poke a (v >>> 24).toUInt8).poke (a + 1) (v >>> 16).toUInt8).poke
      (a + 2) (v >>> 8).toUInt8).poke (a + 3) v.toUInt8
  | .little =>
    (((m.poke a v.toUInt8).poke (a + 1) (v >>> 8).toUInt8).poke
      (a + 2) (v >>> 16).toUInt8).poke (a + 3) (v >>> 24).toUInt8

def peekLong (m : Memory) (a : Nat) : UInt64 :=
  m.order.long (m.peekWord a) (m.peekWord (a + 4))

def pokeLong (m : Memory) (a : Nat) (v : UInt64) : Memory :=
  let high := (v >>> 32).toUInt32
  let low := v.toUInt32
  match m.order with
  | .big => (m.pokeWord a high).pokeWord (a + 4) low
  | .little => (m.pokeWord a low).pokeWord (a + 4) high

def pokeZeros (m : Memory) (a : Nat) : (n : Nat) → Memory
  | 0 => m
  | n + 1 => (m.poke a 0).pokeZeros (a + 1) n

def pokeWords (m : Memory) (a : Nat) (v : UInt32) : (n : Nat) → Memory
  | 0 => m
  | n + 1 => (m.pokeWord a v).pokeWords (a + 4) v n

def pokeBytes (m : Memory) (a : Nat) (source : ByteArray) : Memory :=
  { m with bytes := source.copySlice 0 m.bytes a source.size }

def move (m : Memory) (source target n : Nat) : Memory :=
  m.pokeBytes target (m.bytes.extract source (source + n))

end Memory

end DeviceVm
