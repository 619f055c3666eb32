import DeviceVm.Collection.Copying
import DeviceVm.Proofs.Record
import DeviceVm.Proofs.Tiling
import DeviceVm.Proofs.Traversal

/-!
The invariant of the copying collector. A `Scene` is what stays the same during a collection:
the objects of the half in use, the bytes that are not written, the layout of RAM. `Progress` is
what has been done: the order of the copies, which decides where each lies, and the words of the
copies that have been updated.
-/

namespace DeviceVm

namespace Copying

/-- What stays the same during a collection. The half in use begins at `source`, the other one at
`target`. -/
structure Scene where
  rom : Region
  eeprom : Region
  ram : Region
  mem : Memory
  cells : List Cell
  /-- The persistent copy of an object that was migrated. -/
  gone : Cell → Option UInt32
  /-- Objects outside RAM that the collector writes. -/
  pins : List Cell
  source : Nat
  target : Nat
  half : Nat
  fixed : Nat → Prop
  chunkClass : UInt32

/-- How far a collection has come. The copies lie in the order in which they were made, and `orig`
are the words that they are made from. -/
structure Progress where
  order : List Cell
  orig : Cell → Nat → UInt32
  record : Nat → UInt32
  /-- The addresses of the words that were updated. -/
  done : Nat → Prop
  /-- The next copy whose references are not yet updated. -/
  scan : UInt32

namespace Scene

variable (S : Scene)

def space : Space := { start := S.target.toUInt32, stop := (S.target + S.half).toUInt32 }

/-- An object of the half in use that is copied when it is found. -/
structure Fresh (c : Cell) : Prop where
  mem : c ∈ S.cells
  stays : S.gone c = none
  inRam : S.ram.Has c.oop

/-- A word that a collection leaves as it is: out of RAM, or the address of a copy. -/
def Still (v : UInt32) : Prop :=
  ¬ S.ram.Has v ∨ (S.target < v.toNat ∧ v.toNat ≤ S.target + S.half)

/-- What becomes of a reference. -/
inductive Image (order : List Cell) : UInt32 → UInt32 → Prop
  | still {v : UInt32} (h : S.Still v) : Image order v v
  | gone {c : Cell} {e : UInt32} (hm : c ∈ S.cells) (hr : S.ram.Has c.oop)
      (he : S.gone c = some e) : Image order c.oop e
  | copied {c : Cell} {a : UInt32} (hf : S.Fresh c) (hp : Placed S.target order c a.toNat) :
      Image order c.oop a

/-- What becomes of a word of the copy of `c` at `a`, by its role. -/
def Updated (g : Progress) (c : Cell) (a : UInt32) (x : Nat) (v : UInt32) : Prop :=
  match c.role x with
  | .data => v = g.orig c x
  | .pointer => S.Image g.order (g.orig c x) v
  | .code => ∃ mp, S.Image g.order (g.orig c (x - 4)) mp ∧ v = mp + (g.orig c x - g.orig c (x - 4))
  | .link => v = if g.orig c x = 0 then 0 else g.orig c x + (a - c.oop)
  | .listed => v = a
  | .next => (v = 0 ∧ (g.orig c x = 0 ∨
      ∃ d, S.Fresh d ∧ d.isChunk ∧ d.oop = g.orig c x ∧ g.orig d 16 = 0)) ∨
    (∃ d, S.Fresh d ∧ d.isChunk ∧ d.oop = g.orig c x ∧ g.orig d 16 ≠ 0 ∧
      S.Image g.order (g.orig c x) v)

/-- The halves are in RAM behind the record, and the bytes from which classes and methods are read
are in neither the other half nor a header. An object in the half in use is as its class says, or it
was migrated to an address out of RAM. -/
structure Ok : Prop where
  record_aligned : S.ram.start.toNat % 4 = 0
  ram_pos : 0 < S.ram.start.toNat
  ram_stop : S.ram.start.toNat + S.ram.size.toNat ≤ S.mem.size
  mem_size : S.mem.size < 16777216
  target_aligned : S.target % 4 = 0
  half_aligned : S.half % 4 = 0
  target_low : S.ram.start.toNat + 64 ≤ S.target
  source_low : S.ram.start.toNat + 64 ≤ S.source
  target_high : S.target + S.half ≤ S.ram.start.toNat + S.ram.size.toNat
  source_high : S.source + S.half ≤ S.ram.start.toNat + S.ram.size.toNat
  halves : S.source + S.half ≤ S.target ∨ S.target + S.half ≤ S.source
  tiles : ∃ free, Tiles S.source S.cells free ∧ free ≤ S.source + S.half
  aligned : ∀ c ∈ S.cells, c.oop.toNat % 4 = 0 ∧ c.body % 4 = 0
  gone_aligned : ∀ c e, S.gone c = some e → e.toNat % 4 = 0 ∧ e.toNat + 2 < 16777216
  gone_outside : ∀ c e, S.gone c = some e → e ≠ 0 ∧ ¬ S.ram.Has e
  kind : ∀ c ∈ S.cells, c.kind.toNat % 4 = 0 ∧ c.kind ≠ 0 ∧ c.kind.toNat < 16777216
  count : ∀ c ∈ S.cells, c.count.toNat < 1073741824
  pins : ∀ c ∈ S.pins, c.oop.toNat % 4 = 0 ∧ 0 < c.oop.toNat ∧
    c.oop.toNat + c.body ≤ S.mem.size ∧
    (c.oop.toNat + c.body ≤ S.ram.start.toNat ∨
      S.ram.start.toNat + S.ram.size.toNat + 4 ≤ c.oop.toNat)
  pins_resolve : ∀ c n, c ∈ S.pins → Memory.Agrees S.fixed S.mem n →
    Header.resolve c.oop n = .ok c.oop
  pins_apart : ∀ c d, c ∈ S.pins → d ∈ S.pins → c ≠ d →
    c.oop.toNat + c.body ≤ d.oop.toNat ∨ d.oop.toNat + d.body ≤ c.oop.toNat
  fixed_target : ∀ b, S.fixed b → b < S.target ∨ S.target + S.half ≤ b
  fixed_record : ∀ b, S.fixed b → b < S.ram.start.toNat ∨ S.ram.start.toNat + 64 ≤ b
  fixed_cells : ∀ b c, S.fixed b → c ∈ S.cells → b < c.oop.toNat - 4 ∨ c.oop.toNat ≤ b
  typed : ∀ c, S.Fresh c → c.Typed S.fixed S.mem
  kind_outside : ∀ c, S.Fresh c → ¬ S.ram.Has c.kind
  chunk_of_kind : ∀ c, S.Fresh c → c.kind = S.chunkClass → c.isChunk
  chunkClass : ∀ t : Store, t.rom = S.rom → t.eeprom = S.eeprom → t.ram = S.ram →
    Memory.Agrees S.fixed S.mem t.mem →
    Store.classNumbered ClassNumber.localArray t = .ok S.chunkClass

variable {S} in
lemma Ok.bounds (ok : S.Ok) :
    (S.ram.start.toNat + S.ram.size.toNat ≤ S.mem.size ∧ S.mem.size < 16777216) ∧
      (S.ram.start.toNat + 64 ≤ S.target ∧ S.ram.start.toNat + 64 ≤ S.source) ∧
      S.target + S.half ≤ S.ram.start.toNat + S.ram.size.toNat ∧
      S.source + S.half ≤ S.ram.start.toNat + S.ram.size.toNat :=
  ⟨⟨ok.ram_stop, ok.mem_size⟩, ⟨ok.target_low, ok.source_low⟩, ok.target_high, ok.source_high⟩

end Scene

/-- The store during a collection. Objects that were copied lead to their copies, the others are as
they were. -/
structure Inv (S : Scene) (g : Progress) (s : Store) : Prop where
  rom : s.rom = S.rom
  eeprom : s.eeprom = S.eeprom
  ram : s.ram = S.ram
  collecting : s.collecting = true
  agrees : Memory.Agrees S.fixed S.mem s.mem
  free : s.copying.free.toNat = S.target + Cell.total g.order
  scan : s.copying.scan = g.scan
  nodup : g.order.Nodup
  fresh : ∀ c ∈ g.order, S.Fresh c
  done_lt : ∀ y, g.done y → y < S.target + Cell.total g.order
  record : ∀ j < 16, s.mem.peekWord (S.ram.start.toNat + 4 * j) = g.record j
  gone : ∀ c e, c ∈ S.cells → S.gone c = some e → Header.Holds s.mem c.oop (e + 2) c.count
  unmoved : ∀ c ∈ S.cells, S.gone c = none → c ∉ g.order →
    Header.Holds s.mem c.oop c.kind c.count
  words : ∀ c x, c ∈ S.cells → S.gone c = none → c ∉ g.order → x % 4 = 0 → x + 4 ≤ c.body →
    s.mem.peekWord (c.oop.toNat + x) = g.orig c x
  moved : ∀ c (a : UInt32), Placed S.target g.order c a.toNat →
    Header.Holds s.mem c.oop (a + 2) c.count
  copies : ∀ c (a : UInt32), Placed S.target g.order c a.toNat →
    Header.Holds s.mem a c.kind c.count
  waiting : ∀ c (a : UInt32) x, Placed S.target g.order c a.toNat → x % 4 = 0 → x + 4 ≤ c.body →
    ¬ g.done (a.toNat + x) → s.mem.peekWord (a.toNat + x) = g.orig c x
  updated : ∀ c (a : UInt32) x, Placed S.target g.order c a.toNat → x % 4 = 0 → x + 4 ≤ c.body →
    g.done (a.toNat + x) → S.Updated g c a x (s.mem.peekWord (a.toNat + x))
  pinned : ∀ c x, c ∈ S.pins → x % 4 = 0 → x + 4 ≤ c.body →
    s.mem.peekWord (c.oop.toNat + x) = g.orig c x

/-- A reference that is followed to a live object, if to any. -/
inductive Scene.Follows (S : Scene) (live : Cell → Prop) : UInt32 → Prop
  | still {v : UInt32} (h : S.Still v) : Follows S live v
  | gone {c : Cell} {e : UInt32} (hm : c ∈ S.cells) (hr : S.ram.Has c.oop)
      (he : S.gone c = some e) : Follows S live c.oop
  | live {c : Cell} (h : live c) : Follows S live c.oop

/-- The chunk is in use, names itself, and its frames can be followed. -/
structure Scene.Framed (S : Scene) (c : Cell) (w : Nat → UInt32) : Prop where
  room : 20 ≤ c.body
  self : w 0 = c.oop
  used : w 16 ≠ 0
  last : c.oop.toNat ≤ (w 16).toNat
  frames : Frames w c.body ((w 16).toNat - c.oop.toNat) 40 c.frames
  reads : ∀ f ∈ c.frames, ∀ n, Memory.Agrees S.fixed S.mem n → f.Reads n

/-- What live objects refer to is live. -/
structure Closed (S : Scene) (orig : Cell → Nat → UInt32) (live : Cell → Prop) : Prop where
  fresh : ∀ c, live c → S.Fresh c
  framed : ∀ c, live c → c.isChunk → S.Framed c (orig c)
  pointer : ∀ c x, live c → x % 4 = 0 → x + 4 ≤ c.body → c.role x = .pointer →
    S.Follows live (orig c x)
  next : ∀ c, live c → c.isChunk → orig c 4 = 0 ∨ ∃ d, S.Fresh d ∧ d.isChunk ∧ 20 ≤ d.body ∧
    d.oop = orig c 4 ∧ (orig d 16 ≠ 0 → live d)
  owner : ∀ c k, live c → c.shape = .classState k → 4 ≤ c.body ∧ orig c 0 = c.words S.mem 0

end Copying

end DeviceVm
