import DeviceVm.Interpreter.Frames
import DeviceVm.Proofs.Interpreter.Execution
import DeviceVm.Proofs.Record

/-!
Calls as they lie in stack chunks. A `Call` is a frame apart from where it is: its method, where
it goes on, its class, its locals and its operands. The calls of a chunk follow each other from
the first frame on, and the room that a frame takes is known from its locals.

A `Placement` says which chunks the calls of a context are in. `Scene.Rests` relates it to memory
for all calls but the innermost; nothing it says depends on the bytes from the innermost frame on.
-/

namespace DeviceVm

open List Memory UInt32

namespace Memory

/-- The words `vs` stand one after another from `a` on. -/
def Lists (m : Memory) : (a : Nat) → List UInt32 → Prop
  | _, [] => True
  | a, v :: vs => m.peekWord a = v ∧ m.Lists (a + 4) vs

variable {m n : Memory} {a : Nat} {v : UInt32} {vs ws : List UInt32} {fixed : Nat → Prop}

lemma lists_append : m.Lists a (vs ++ ws) ↔ m.Lists a vs ∧ m.Lists (a + 4 * vs.length) ws := by
  induction vs generalizing a with
  | nil => simp [Lists]
  | cons v vs ih =>
    rw [cons_append, Lists, Lists, ih, and_assoc, length_cons,
      show a + 4 + 4 * vs.length = a + 4 * (vs.length + 1) by omega]

lemma Lists.get (h : m.Lists a vs) {i : Nat} (hi : vs[i]? = some v) :
    m.peekWord (a + 4 * i) = v := by
  induction vs generalizing a i with
  | nil => cases hi
  | cons w vs ih =>
    cases i with
    | zero => exact h.1.trans (Option.some.inj hi)
    | succ i =>
      rw [show a + 4 * (i + 1) = a + 4 + 4 * i by omega]
      exact ih h.2 hi

lemma Lists.agrees (h : m.Lists a vs) (ha : Agrees fixed m n)
    (hf : ∀ b, a ≤ b → b < a + 4 * vs.length → fixed b) : n.Lists a vs := by
  induction vs generalizing a with
  | nil => trivial
  | cons w vs ih =>
    have : (w :: vs).length = vs.length + 1 := rfl
    refine ⟨?_, ih h.2 fun b hb hb' => hf b (by omega) (by omega)⟩
    rw [ha.peekWord a fun i hi => hf _ (by omega) (by omega)]
    exact h.1

end Memory

/-! ### Headers of frames and chunks -/

/-- A frame with its locals at `a` has its five words in memory. -/
structure Frame.Within (m : Memory) (lp : UInt32) (a : Nat) : Prop where
  eq : lp.toNat = a
  aligned : a % 4 = 0
  low : 20 ≤ a
  high : a ≤ m.size
  small : m.size ≤ 16777216

/-- The chunk at `a` has its header in memory. -/
structure Chunk.Within (m : Memory) (c : UInt32) (a : Nat) : Prop where
  eq : c.toNat = a
  aligned : a % 4 = 0
  high : a + 20 ≤ m.size
  small : m.size ≤ 16777216

namespace Frame.Within

variable {m n : Memory} {lp v : UInt32} {index : Int32} {a j : Nat}

lemma resize (h : Within m lp a) (hn : n.size = m.size) : Within n lp a :=
  ⟨h.eq, h.aligned, h.low, hn ▸ h.high, hn ▸ h.small⟩

section

variable (h : Within m lp a) (hi : index.toInt = -(j : Int))
include h hi

lemma points (hj : j ≤ 5) : Points lp index (a - 4 * j) := by
  have := h.eq
  have := h.low
  have := lp.toNat_lt
  exact .lit (-(j : Int)) hi (by omega)

lemma word_eq (hj : 1 ≤ j ∧ j ≤ 5) :
    word lp index m = .ok (m.peekWord (a - 4 * j)) := by
  have := h.aligned
  have := h.low
  have := h.high
  exact Memory.word_eq (h.points hi hj.2) (by omega)

lemma setWord_eq (hj : 1 ≤ j ∧ j ≤ 5) :
    setWord lp index v m = .ok () (m.pokeWord (a - 4 * j) v) := by
  have := h.aligned
  have := h.low
  have := h.high
  exact Memory.setWord_eq (h.points hi hj.2) (by omega)

end

section

variable (h : Within m lp a)
include h

lemma method_eq : method lp m = .ok (m.peekWord (a - 20)) := h.word_eq (j := 5) rfl (by omega)

lemma ip_eq : ip lp m = .ok (m.peekWord (a - 16)) := h.word_eq (j := 4) rfl (by omega)

lemma previous_eq : previous lp m = .ok (m.peekWord (a - 12)) :=
  h.word_eq (j := 3) rfl (by omega)

lemma classOf_eq : classOf lp m = .ok (m.peekWord (a - 8)) := h.word_eq (j := 2) rfl (by omega)

lemma stackOffset_eq : stackOffset lp m = .ok (m.peekWord (a - 4)) :=
  h.word_eq (j := 1) rfl (by omega)

lemma setMethod_eq : setMethod lp v m = .ok () (m.pokeWord (a - 20) v) :=
  h.setWord_eq (j := 5) rfl (by omega)

lemma setIp_eq : setIp lp v m = .ok () (m.pokeWord (a - 16) v) :=
  h.setWord_eq (j := 4) rfl (by omega)

lemma setPrevious_eq : setPrevious lp v m = .ok () (m.pokeWord (a - 12) v) :=
  h.setWord_eq (j := 3) rfl (by omega)

lemma setClass_eq : setClass lp v m = .ok () (m.pokeWord (a - 8) v) :=
  h.setWord_eq (j := 2) rfl (by omega)

lemma setStackOffset_eq : setStackOffset lp v m = .ok () (m.pokeWord (a - 4) v) :=
  h.setWord_eq (j := 1) rfl (by omega)

end

end Frame.Within

namespace Chunk.Within

variable {m n : Memory} {c v : UInt32} {index : Int32} {a j : Nat}

lemma resize (h : Within m c a) (hn : n.size = m.size) : Within n c a :=
  ⟨h.eq, h.aligned, hn ▸ h.high, hn ▸ h.small⟩

section

variable (h : Within m c a) (hi : index.toInt = j) (hj : j < 5)
include h hi hj

lemma points : Points c index (a + 4 * j) := by
  have := h.eq
  have := h.high
  have := h.small
  exact .lit j hi (by omega)

lemma word_eq : word c index m = .ok (m.peekWord (a + 4 * j)) := by
  have := h.aligned
  have := h.high
  exact Memory.word_eq (h.points hi hj) (by omega)

lemma setWord_eq : setWord c index v m = .ok () (m.pokeWord (a + 4 * j) v) := by
  have := h.aligned
  have := h.high
  exact Memory.setWord_eq (h.points hi hj) (by omega)

end

section

variable (h : Within m c a)
include h

lemma next_eq : next c m = .ok (m.peekWord (a + 4)) := h.word_eq (j := 1) rfl (by omega)

lemma prev_eq : prev c m = .ok (m.peekWord (a + 8)) := h.word_eq (j := 2) rfl (by omega)

lemma size_eq : size c m = .ok (m.peekWord (a + 12)) := h.word_eq (j := 3) rfl (by omega)

lemma lastFrame_eq : lastFrame c m = .ok (m.peekWord (a + 16)) :=
  h.word_eq (j := 4) rfl (by omega)

lemma setNext_eq : setNext c v m = .ok () (m.pokeWord (a + 4) v) :=
  h.setWord_eq (j := 1) rfl (by omega)

lemma setPrev_eq : setPrev c v m = .ok () (m.pokeWord (a + 8) v) :=
  h.setWord_eq (j := 2) rfl (by omega)

lemma setLastFrame_eq : setLastFrame c v m = .ok () (m.pokeWord (a + 16) v) :=
  h.setWord_eq (j := 4) rfl (by omega)

end

end Chunk.Within

/-! ### Methods -/

/-- What frames need to know of a method. The sizes are in words, but that of the header in
bytes. -/
structure Method.Form where
  header : Nat
  parameters : Nat
  locals : Nat
  operands : Nat

/-- The instruction at an address, as long as the fixed bytes stay. -/
structure Instructs (fixed : Nat → Prop) (m : Memory) (ip : UInt32) (op : Opcode) : Prop where
  range : ip.toNat + 1 < 4294967296
  code : ∃ byte, Settled fixed m (code8 ip) byte ∧ Opcode.ofByte? byte = some op

lemma Instructs.unique {fixed : Nat → Prop} {mem : Memory} {ip : UInt32} {op op' : Opcode}
    (h : Instructs fixed mem ip op) (h' : Instructs fixed mem ip op') : op = op' := by
  obtain ⟨b, hb, ho⟩ := h.code
  obtain ⟨b', hb', ho'⟩ := h'.code
  obtain rfl := hb.unique hb'
  exact Option.some.inj (ho.symm.trans ho')

/-- What is read of a method that begins by extending its frame. -/
structure Method.Reads (fixed : Nat → Prop) (m : Memory) (mp : UInt32) (f : Form) : Prop where
  header : Settled fixed m (headerSize mp) (ofNat f.header)
  parameters : Settled fixed m (parameterCount mp) (ofNat f.parameters)
  locals : Settled fixed m (localCount mp) (ofNat f.locals)
  operands : Settled fixed m (operandWords mp) (ofNat f.operands)
  header_lt : f.header < 256
  parameters_le : f.parameters ≤ f.locals
  locals_lt : f.locals < 256
  operands_lt : f.operands < 256
  range : mp.toNat + f.header + 2 < 4294967296
  /-- The first instruction reserves the operands. -/
  extend : (∃ n, Instructs fixed m (mp + ofNat f.header) (.extend n) ∧ n = f.operands) ∨
    (Instructs fixed m (mp + ofNat f.header) .extendBy ∧
      Settled fixed m (code8 (mp + ofNat f.header + 1)) (UInt8.ofNat f.operands))

namespace Stack

/-! ### Calls -/

/-- A call: its method, the instruction at which it goes on, the class of the method, its locals and
its operands. -/
structure Call where
  method : UInt32
  ip : UInt32
  owner : UInt32
  locals : List UInt32
  operands : List UInt32

/-- The calls of a context. The innermost one may be in front of its first instruction. -/
structure Calls where
  top : Call
  entered : Bool
  callers : List Call

/-- The bytes that the frames of the calls take. -/
def reach : List Call → Nat
  | [] => 0
  | c :: cs => 4 * (c.locals.length + 5) + reach cs

/-- A chunk and its size in words. -/
structure Room where
  chunk : UInt32
  words : Nat

namespace Room

variable (r : Room)

def stop : Nat := r.chunk.toNat + 4 * r.words

lemma stop_eq : r.stop = r.chunk.toNat + 4 * r.words := rfl

def Has (b : Nat) : Prop := r.chunk.toNat ≤ b ∧ b < r.stop

/-- Where the locals of the next frame are when the chunk has frames of the calls `cs`. -/
def above (cs : List Call) : Nat := r.chunk.toNat + 40 + reach cs

/-- The locals of the innermost of some calls, zero for none. -/
def frame : List Call → Nat
  | [] => 0
  | _ :: cs => r.above cs

def Apart (r r' : Room) : Prop := r.stop ≤ r'.chunk.toNat ∨ r'.stop ≤ r.chunk.toNat

end Room

/-- A chunk below the innermost one, with the calls whose frames it has. -/
structure Stretch where
  room : Room
  calls : List Call

/-- Where the frames of a context are: in the innermost chunk below the top one, in the chunks
below, and the spare chunks above. -/
structure Placement where
  room : Room
  inner : List Call
  below : List Stretch
  spares : List Room

namespace Placement

variable (w : Placement)

/-- Where the locals of the innermost frame are. -/
def lp : Nat := w.room.above w.inner

/-- The frame that the innermost call returns to in the same chunk, zero if there is none. -/
def previous : Nat := w.room.frame w.inner

def callers : List Call := w.inner ++ w.below.flatMap (·.calls)

def others : List Room := w.below.map (·.room) ++ w.spares

def rooms : List Room := w.room :: w.others

/-- The bytes that tell where all calls but the innermost are. -/
def Keeps (b : Nat) : Prop :=
  (w.room.chunk.toNat + 4 ≤ b ∧ b < w.room.chunk.toNat + 16) ∨
  (w.room.chunk.toNat + 20 ≤ b ∧ b + 20 < w.lp) ∨ ∃ r ∈ w.others, r.Has b

end Placement

/-- What stays the same while contexts run: the segments, and the bytes from which classes and
methods are read. -/
structure Scene where
  rom : Region
  eeprom : Region
  ram : Region
  mem : Memory
  fixed : Nat → Prop
  chunkClass : UInt32
  isMethod : UInt32 → Prop
  form : UInt32 → Method.Form
  isClass : UInt32 → Prop

namespace Scene

variable (S : Scene)

def entry (mp : UInt32) : UInt32 := mp + ofNat (S.form mp).header

/-- The bytes that stay tell the class of chunks and the form of each method, whatever else is
written. -/
structure Ok : Prop where
  record_aligned : S.ram.start.toNat % 4 = 0
  record_inside : S.ram.start.toNat + 64 ≤ S.mem.size
  mem_size : S.mem.size ≤ 16777216
  fixed_record : ∀ b, S.fixed b → b < S.ram.start.toNat ∨ S.ram.start.toNat + 64 ≤ b
  chunkClass : ∀ t : Store, t.rom = S.rom → t.eeprom = S.eeprom → t.ram = S.ram →
    Agrees S.fixed S.mem t.mem →
    Store.classNumbered ClassNumber.localArray t = .ok S.chunkClass
  chunkClass_aligned : S.chunkClass.toNat % 4 = 0
  chunkClass_lt : S.chunkClass.toNat < 16777216
  element : Settled S.fixed S.mem (Class.arrayElementSize S.chunkClass) 4
  method : ∀ mp, S.isMethod mp → Method.Reads S.fixed S.mem mp (S.form mp)
  number : ∀ k, S.isClass k → ∃ number, Settled S.fixed S.mem (Class.number k) number

/-- A store in which contexts may run. It agrees with the scene, no collection is going on, and what
is free can be given away. -/
structure Ready (s : Store) : Prop where
  rom : s.rom = S.rom
  eeprom : s.eeprom = S.eeprom
  ram : s.ram = S.ram
  agrees : Agrees S.fixed S.mem s.mem
  collecting : s.collecting = false
  free_aligned : (s.recorded 3).toNat % 4 = 0
  free_low : S.ram.start.toNat + 64 ≤ (s.recorded 3).toNat
  free_le : (s.recorded 3).toNat ≤ (s.recorded 4).toNat
  stop_le : (s.recorded 4).toNat ≤ S.mem.size
  /-- What is free may be written. -/
  fixed_free : ∀ b, S.fixed b → b < (s.recorded 3).toNat ∨ (s.recorded 4).toNat ≤ b

/-- The chunk is an object in RAM below what is free, and contexts may write it. -/
structure Holds (s : Store) (r : Room) : Prop where
  aligned : r.chunk.toNat % 4 = 0
  low : S.ram.start.toNat + 64 ≤ r.chunk.toNat
  high : r.stop ≤ (s.recorded 3).toNat
  header : 5 ≤ r.words
  fixed : ∀ b, S.fixed b → b < r.chunk.toNat ∨ r.stop ≤ b
  size : (s.mem.peekWord (r.chunk.toNat + 12)).toNat = r.words

end Scene

/-- The frame of the call has its locals at `lp`, and `previous` are those of the frame below it. -/
structure Call.Lies (c : Call) (m : Memory) (lp previous : Nat) : Prop where
  method : m.peekWord (lp - 20) = c.method
  previous : (m.peekWord (lp - 12)).toNat = previous
  owner : m.peekWord (lp - 8) = c.owner
  locals : m.Lists lp c.locals

namespace Scene

variable (S : Scene)

/-- The frame at `lp` has all its locals, and its operands have room. -/
structure Shaped (m : Memory) (r : Room) (lp previous : Nat) (c : Call) : Prop
    extends c.Lies m lp previous where
  known : S.isMethod c.method
  count : c.locals.length = (S.form c.method).locals
  fits : lp + 4 * (c.locals.length + 4 + (S.form c.method).operands) < r.stop

/-- The frame of a call that has run its first instruction says where its operands start. -/
structure Entered (m : Memory) (r : Room) (lp previous : Nat) (c : Call) : Prop
    extends S.Shaped m r lp previous c where
  offset : (m.peekWord (lp - 4)).toNat = 4 * (c.locals.length + 4)

/-- The frame at `lp` waits for the return of a callee. -/
structure Waits (m : Memory) (r : Room) (lp previous : Nat) (c : Call) : Prop
    extends S.Entered m r lp previous c where
  ip : m.peekWord (lp - 16) = c.ip
  behind : c.ip ≠ S.entry c.method
  operands : c.operands = []

/-- The calls follow each other from the start of a chunk. -/
def Held (m : Memory) (r : Room) : List Call → Prop
  | [] => True
  | c :: cs => S.Waits m r (r.above cs) (r.frame cs) c ∧ Held m r cs

/-- A chunk whose innermost call waits for one in the chunk `next`. -/
structure Suspended (m : Memory) (next : UInt32) (t : Stretch) : Prop where
  next : m.peekWord (t.room.chunk.toNat + 4) = next
  some_call : t.calls ≠ []
  last : (m.peekWord (t.room.chunk.toNat + 16)).toNat = t.room.frame t.calls
  held : S.Held m t.room t.calls

/-- Each chunk leads to the one below it. -/
def Linked (m : Memory) : (chunk : UInt32) → List Stretch → Prop
  | chunk, [] => m.peekWord (chunk.toNat + 8) = 0
  | chunk, t :: ts => m.peekWord (chunk.toNat + 8) = t.room.chunk ∧
      S.Suspended m chunk t ∧ Linked m t.room.chunk ts

/-- The spare chunks from `chunk` on. No frame is suspended in them. -/
def Spare (m : Memory) : (chunk : UInt32) → List Room → Prop
  | chunk, [] => chunk = 0
  | chunk, r :: rs => chunk = r.chunk ∧ m.peekWord (r.chunk.toNat + 16) = 0 ∧
      Spare m (m.peekWord (r.chunk.toNat + 4)) rs

/-- The frames of the callers are in their chunks, which do not overlap. -/
structure Rests (s : Store) (w : Placement) : Prop where
  ready : S.Ready s
  rooms : ∀ r ∈ w.rooms, S.Holds s r
  apart : w.rooms.Pairwise Room.Apart
  inner : S.Held s.mem w.room w.inner
  below : S.Linked s.mem w.room.chunk w.below
  spares : Spare s.mem (s.mem.peekWord (w.room.chunk.toNat + 4)) w.spares

end Scene

/-! ### Bytes that do not matter -/

section Agrees

variable {S : Scene} {s : Store} {m n : Memory} {fixed : Nat → Prop} {r : Room} {c : Call}
  {cs : List Call} {w : Placement} {lp previous : Nat}

lemma reach_cons : reach (c :: cs) = 4 * (c.locals.length + 5) + reach cs := rfl

lemma Room.above_cons : r.above (c :: cs) = r.above cs + 4 * (c.locals.length + 5) := by
  rw [above, above, reach_cons]
  omega

lemma Room.above_ge : r.chunk.toNat + 40 ≤ r.above cs := Nat.le_add_right _ _

lemma Placement.lp_ge (w : Placement) : w.room.chunk.toNat + 40 ≤ w.lp := Room.above_ge

lemma Call.Lies.agrees (h : c.Lies m lp previous) (ha : Agrees fixed m n)
    (low : 20 ≤ lp)
    (hf : ∀ b, (lp ≤ b + 20 ∧ b + 16 < lp) ∨ (lp ≤ b + 12 ∧ b + 4 < lp) ∨
      (lp ≤ b ∧ b < lp + 4 * c.locals.length) → fixed b) :
    c.Lies n lp previous where
  method := by
    rw [ha.peekWord _ fun i hi => hf _ (by omega)]
    exact h.method
  previous := by
    rw [ha.peekWord _ fun i hi => hf _ (by omega)]
    exact h.previous
  owner := by
    rw [ha.peekWord _ fun i hi => hf _ (by omega)]
    exact h.owner
  locals := h.locals.agrees ha fun b hb hb' => hf b (by omega)

lemma Call.Lies.like {d : Call} (h : c.Lies m lp previous) (method : d.method = c.method)
    (owner : d.owner = c.owner) (locals : d.locals = c.locals) : d.Lies m lp previous :=
  ⟨h.method.trans method.symm, h.previous, h.owner.trans owner.symm, locals ▸ h.locals⟩

namespace Scene

variable {d : Call} {chunk : UInt32} {t : Store}

lemma Shaped.like (h : S.Shaped m r lp previous c) (method : d.method = c.method)
    (owner : d.owner = c.owner) (locals : d.locals = c.locals) :
    S.Shaped m r lp previous d where
  toLies := h.toLies.like method owner locals
  known := method ▸ h.known
  count := method ▸ locals ▸ h.count
  fits := method ▸ locals ▸ h.fits

lemma Entered.like (h : S.Entered m r lp previous c) (method : d.method = c.method)
    (owner : d.owner = c.owner) (locals : d.locals = c.locals) :
    S.Entered m r lp previous d where
  toShaped := h.toShaped.like method owner locals
  offset := locals ▸ h.offset

lemma Shaped.agrees (h : S.Shaped m r lp previous c) (ha : Agrees fixed m n)
    (low : 20 ≤ lp)
    (hf : ∀ b, (lp ≤ b + 20 ∧ b + 16 < lp) ∨ (lp ≤ b + 12 ∧ b + 4 < lp) ∨
      (lp ≤ b ∧ b < lp + 4 * c.locals.length) → fixed b) :
    S.Shaped n r lp previous c where
  __ := h
  toLies := h.toLies.agrees ha low hf

lemma Entered.agrees (h : S.Entered m r lp previous c) (ha : Agrees fixed m n)
    (low : 20 ≤ lp)
    (hf : ∀ b, (lp ≤ b + 20 ∧ b + 16 < lp) ∨ (lp ≤ b + 12 ∧ b < lp + 4 * c.locals.length) →
      fixed b) :
    S.Entered n r lp previous c where
  toShaped := h.toShaped.agrees ha low fun b hb => hf b (by omega)
  offset := by
    rw [ha.peekWord _ fun i hi => hf _ (by omega)]
    exact h.offset

lemma Waits.agrees (h : S.Waits m r lp previous c) (ha : Agrees fixed m n)
    (low : 20 ≤ lp) (hf : ∀ b, lp ≤ b + 20 → b < lp + 4 * c.locals.length → fixed b) :
    S.Waits n r lp previous c where
  __ := h
  toEntered := h.toEntered.agrees ha low fun b hb => hf b (by omega) (by omega)
  ip := by
    rw [ha.peekWord _ fun i hi => hf _ (by omega) (by omega)]
    exact h.ip

lemma Held.agrees (h : S.Held m r cs) (ha : Agrees fixed m n)
    (hf : ∀ b, r.chunk.toNat + 20 ≤ b → b + 20 < r.above cs → fixed b) : S.Held n r cs := by
  induction cs with
  | nil => trivial
  | cons c cs ih =>
    have := @Room.above_ge r cs
    rw [Room.above_cons] at hf
    exact ⟨h.1.agrees ha (by omega) fun b hb hb' => hf b (by omega) (by omega),
      ih h.2 fun b hb hb' => hf b hb (by omega)⟩

lemma Held.above_le (h : S.Held m r cs) (hcs : cs ≠ []) : r.above cs < r.stop + 4 := by
  cases cs with
  | nil => exact absurd rfl hcs
  | cons c cs =>
    have := h.1.fits
    rw [Room.above_cons]
    omega

lemma Suspended.agrees {next : UInt32} {t : Stretch} (h : S.Suspended m next t)
    (ha : Agrees fixed m n) (header : 5 ≤ t.room.words)
    (hf : ∀ b, t.room.Has b → fixed b) : S.Suspended n next t := by
  have : t.room.chunk.toNat + 20 ≤ t.room.stop := by
    rw [Room.stop]
    omega
  have := h.held.above_le h.some_call
  have has : ∀ b, t.room.chunk.toNat ≤ b → b < t.room.stop → fixed b := fun b h1 h2 =>
    hf b ⟨h1, h2⟩
  constructor
  case next =>
    rw [ha.peekWord _ fun i hi => has _ (by omega) (by omega)]
    exact h.next
  case some_call => exact h.some_call
  case last =>
    rw [ha.peekWord _ fun i hi => has _ (by omega) (by omega)]
    exact h.last
  case held => exact h.held.agrees ha fun b hb hb' => has b (by omega) (by omega)

lemma Linked.agrees {ts : List Stretch} (h : S.Linked m chunk ts)
    (ha : Agrees fixed m n) (header : ∀ t ∈ ts, 5 ≤ t.room.words)
    (hf : ∀ b, chunk.toNat + 8 ≤ b → b < chunk.toNat + 12 → fixed b)
    (hts : ∀ t ∈ ts, ∀ b, t.room.Has b → fixed b) : S.Linked n chunk ts := by
  induction ts generalizing chunk with
  | nil =>
    rw [Linked, ha.peekWord _ fun i hi => hf _ (by omega) (by omega)]
    exact h
  | cons t ts ih =>
    have h5 := header t mem_cons_self
    have ht := hts t mem_cons_self
    refine ⟨?_, h.2.1.agrees ha h5 ht, ?_⟩
    · rw [ha.peekWord _ fun i hi => hf _ (by omega) (by omega)]
      exact h.1
    · refine ih h.2.2 (fun u hu => header u (mem_cons_of_mem _ hu))
        (fun b hb hb' => ht b ⟨by omega, ?_⟩) fun u hu => hts u (mem_cons_of_mem _ hu)
      rw [Room.stop]
      omega

lemma Spare.agrees {rs : List Room} (h : Spare m chunk rs)
    (ha : Agrees fixed m n) (header : ∀ r ∈ rs, 5 ≤ r.words)
    (hf : ∀ r ∈ rs, ∀ b, r.Has b → fixed b) : Spare n chunk rs := by
  induction rs generalizing chunk with
  | nil => exact h
  | cons r rs ih =>
    have := header r mem_cons_self
    have hr : ∀ b, r.chunk.toNat ≤ b → b < r.chunk.toNat + 20 → fixed b := fun b h1 h2 =>
      hf r mem_cons_self b ⟨h1, by rw [Room.stop]; omega⟩
    refine ⟨h.1, ?_, ?_⟩
    · rw [ha.peekWord _ fun i hi => hr _ (by omega) (by omega)]
      exact h.2.1
    · rw [ha.peekWord _ fun i hi => hr _ (by omega) (by omega)]
      exact ih h.2.2 (fun u hu => header u (mem_cons_of_mem _ hu))
        fun u hu => hf u (mem_cons_of_mem _ hu)

lemma Holds.agrees (h : S.Holds s r) (ha : Agrees fixed s.mem t.mem)
    (hf : ∀ b, r.chunk.toNat + 12 ≤ b → b < r.chunk.toNat + 16 → fixed b)
    (free : (s.recorded 3).toNat ≤ (t.recorded 3).toNat) : S.Holds t r where
  __ := h
  high := Nat.le_trans h.high free
  size := by
    rw [ha.peekWord _ fun i hi => hf _ (by omega) (by omega)]
    exact h.size

lemma Rests.agrees (h : S.Rests s w) (ready : S.Ready t)
    (free : (s.recorded 3).toNat ≤ (t.recorded 3).toNat)
    (ha : Agrees w.Keeps s.mem t.mem) : S.Rests t w := by
  have header : ∀ r ∈ w.others, 5 ≤ r.words := fun r hr =>
    (h.rooms r (mem_cons_of_mem _ hr)).header
  have others : ∀ r ∈ w.others, ∀ b, r.Has b → w.Keeps b := fun r hr b hb =>
    .inr (.inr ⟨r, hr, hb⟩)
  have below : ∀ t ∈ w.below, t.room ∈ w.others := fun t ht =>
    mem_append_left _ (mem_map_of_mem ht)
  have spares : ∀ r ∈ w.spares, r ∈ w.others := fun r hr => mem_append_right _ hr
  constructor
  case ready => exact ready
  case rooms =>
    intro r hr
    refine (h.rooms r hr).agrees ha (fun b hb hb' => ?_) free
    rcases mem_cons.1 hr with rfl | hr
    · exact .inl ⟨by omega, by omega⟩
    · have := header r hr
      exact others r hr b ⟨by omega, by rw [Room.stop]; omega⟩
  case apart => exact h.apart
  case inner => exact h.inner.agrees ha fun b hb hb' => .inr (.inl ⟨hb, hb'⟩)
  case below =>
    exact h.below.agrees ha (fun t ht => header _ (below t ht))
      (fun b hb hb' => .inl ⟨by omega, by omega⟩) fun t ht => others _ (below t ht)
  case spares =>
    rw [ha.peekWord _ fun i hi => .inl ⟨by omega, by omega⟩]
    exact h.spares.agrees ha (fun r hr => header _ (spares r hr)) fun r hr =>
      others _ (spares r hr)

end Scene

end Agrees

end Stack

end DeviceVm
