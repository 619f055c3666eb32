import DeviceVm.Proofs.Classes
import DeviceVm.Proofs.Sliding.Layout
import DeviceVm.Proofs.Sliding.Marking
import DeviceVm.Proofs.Sliding.Relocation

/-!
A heap that can be compacted, and what it is when its live objects have moved. What has moved is a
heap again, of which all objects are live, so that passes of compaction can follow one another.
-/

namespace DeviceVm.Sliding

open List Cell Store Word

/-- The stores differ at most in what a compaction changes, and in how far its objects move at
once. -/
def Kin (s t : Store) : Prop :=
  t = { s with
    mem := t.mem, bits := t.bits, marks := t.marks, log := t.log
    sliding := { s.sliding with
      passes := t.sliding.passes, highWater := t.sliding.highWater
      deltaLimit := t.sliding.deltaLimit } }

namespace Scene

variable (S : Scene) (s : Store)

/-- The byte is not written while the space is compacted. -/
structure Fixed (b : Nat) : Prop where
  record : ¬ (s.ram.start.toNat ≤ b ∧ b < s.ram.start.toNat + 64)
  space : ¬ (S.space.start.toNat ≤ b ∧ b < high s + 20)
  bitmap : ¬ s.bits.range.covers b
  field : ∀ a, S.Field s a → ¬ (a ≤ b ∧ b < a + 4)
  chunk : ∀ c ∈ S.chunks, ¬ (c.oop.toNat ≤ b ∧ b < c.stop)

/-- A method that a frame runs: one that stays, or a live object without references. -/
inductive Method (f : Activation) : Prop
  | stays (out : ¬ S.space.has f.method = true)
      (reads : ∀ n, Memory.Agrees (S.Fixed s) s.mem n → f.Reads n) : Method f
  | moves (d : Cell) (live : S.Live s d) (oop : d.oop = f.method) (plain : d.shape = .primitive)
      (reads : ∀ (n : Memory) (a : UInt32), n.size = s.mem.size → n.order = s.mem.order →
        a.toNat + d.body ≤ n.size →
        (∀ b < d.body, n.peek (a.toNat + b) = s.mem.peek (d.oop.toNat + b)) →
        { f with method := a }.Reads n) : Method f

/-- A heap that can be compacted. A chunk that is not listed has no frames and refers to nothing
that moves. -/
structure Heap (C : Classes) : Prop where
  ok : S.Ok s
  typed : ∀ c, S.Live s c ∨ c ∈ S.chunks → c.Typed (S.Fixed s) s.mem
  kinds : ∀ c, S.Live s c → ∃ i j, C.At i j c.kind
  classes : ∀ t, t.rom = s.rom → t.eeprom = s.eeprom →
    Memory.Agrees (S.Fixed s) s.mem t.mem → C.Reads t
  listed : ∀ c, S.Live s c → c.isChunk → c ∈ S.chunks ∨
    c.words s.mem 16 = 0 ∧ ∀ x, c.Slot x → ¬ S.space.has (c.words s.mem x) = true
  methods : ∀ c f, S.Live s c ∨ c ∈ S.chunks → f ∈ c.frames → S.Method s f
  links : ∀ c x, c ∈ S.chunks → x % 4 = 0 → x + 4 ≤ c.body → c.role x = .link →
    c.words s.mem x = 0 ∨ c.oop.toNat ≤ (c.words s.mem x).toNat
  old : Spread (low s) S.others S.space.start.toNat
  stores : ∀ a, S.Field s a → ∃ c ∈ S.others, c ∉ S.chunks ∧ c.oop.toNat ≤ a ∧ a + 4 ≤ c.stop
  owners : ∀ c k, S.Live s c → c.shape = .classState k → ¬ S.space.has (c.words s.mem 0) = true
  associations : s.recorded 14 = 0
  minimum : s.sliding.minimumHeap = false
  young : s.sliding.idealYoung.toNat + 3 < 4294967296

/-- Where the survivors go: down, in their order, each to a place of its own. -/
structure Shift (L : List Cell) (tgt : UInt32 → UInt32) (stop : UInt32) : Prop where
  live : ∀ c, c ∈ L ↔ S.Live s c
  spread : Spread S.space.start.toNat L S.space.stop.toNat
  moved : Spread S.space.start.toNat (L.map (·.relocate tgt)) stop.toNat
  outside : ∀ v, ¬ S.space.has v = true → tgt v = v
  down : ∀ c ∈ L, (tgt c.oop).toNat ≤ c.oop.toNat
  aligned : ∀ c ∈ L, (tgt c.oop).toNat % 4 = 0
  stop_aligned : stop.toNat % 4 = 0
  stop_le : stop.toNat ≤ S.space.stop.toNat

/-- The store when all survivors have gone to their places and all references follow them. -/
structure Moved (L : List Cell) (tgt : UInt32 → UInt32) (t : Store) : Prop where
  kin : Kin s t
  range : t.bits.range = s.bits.range
  idle : t.bits.scan.active = false
  unused : t.marks.inUse = false
  fixed : Memory.Agrees (S.Fixed s) s.mem t.mem
  header : ∀ c ∈ L, Header.Holds t.mem (tgt c.oop) c.kind c.count
  object : ∀ c ∈ L, c.Arrived tgt s.mem t.mem
  chunk : ∀ c ∈ S.chunks, c.Arrived tgt s.mem t.mem
  field : ∀ a, S.Field s a → t.mem.peekWord a = tgt (s.mem.peekWord a)
  root : ∀ k < 8, t.recorded (k + 8) = tgt (s.recorded (k + 8))
  record : ∀ j < 8, j ≠ 3 → j ≠ 4 → t.recorded j = s.recorded j
  bits : ∀ a, a % 4 = 0 → low s < a → a ≤ S.space.start.toNat →
    s.bits.range.holds t.mem a = s.bits.range.holds s.mem a

/-- The scene when its objects have moved. -/
def relocate (L : List Cell) (tgt : UInt32 → UInt32) (stop : UInt32) : Scene where
  space := { start := S.space.start, stop }
  cells := L.map (·.relocate tgt)
  others := S.others.map (·.relocate tgt)
  chunks := S.chunks.map (·.relocate tgt)

end Scene

variable {S : Scene} {C : Classes} {s t u : Store} {L : List Cell} {tgt : UInt32 → UInt32}
  {stop v : UInt32} {c d : Cell} {f : Activation}

namespace Kin

lemma rom (h : Kin s t) : t.rom = s.rom := (congrArg Store.rom h :)
lemma eeprom (h : Kin s t) : t.eeprom = s.eeprom := (congrArg Store.eeprom h :)
lemma ram (h : Kin s t) : t.ram = s.ram := (congrArg Store.ram h :)

lemma minimumHeap (h : Kin s t) : t.sliding.minimumHeap = s.sliding.minimumHeap :=
  (congrArg (·.sliding.minimumHeap) h :)

lemma idealYoung (h : Kin s t) : t.sliding.idealYoung = s.sliding.idealYoung :=
  (congrArg (·.sliding.idealYoung) h :)

lemma trans (h : Kin s t) (h' : Kin t u) : Kin s u := by
  unfold Kin at *
  rw [h', h]

end Kin

namespace Scene

variable {tgt' : UInt32 → UInt32}

lemma Fixed.kept (h : S.Ok s) {b : Nat} (hb : S.Fixed s b) : (S.graph s).kept b := by
  rw [h.kept_iff]
  have hs := hb.space
  have := h.start_le
  exact ⟨hb.bitmap, fun hc => hs ⟨by omega, hc.2⟩⟩

lemma Ok.chunk_live (h : S.Ok s) (hc : c ∈ S.chunks) (hm : c ∈ S.cells) : S.Live s c := by
  refine .source hm ?_
  have named : ∀ {v l}, Listed s.mem v l → c ∈ l →
      c.oop = v ∨ ∃ d ∈ l, d.words s.mem 0 = c.oop := by
    intro v l hl hcl
    induction hl with
    | nil => cases hcl
    | @cons d rest _ _ ih =>
      rcases mem_cons.1 hcl with rfl | hcl
      · exact .inl rfl
      · rcases ih hcl with he | ⟨e, he, hw⟩
        · exact .inr ⟨d, mem_cons_self, he.symm⟩
        · exact .inr ⟨e, mem_cons_of_mem d he, hw⟩
  rcases named h.listed hc with he | ⟨d, hd, he⟩
  · rw [he]
    exact .root (by omega) (by omega)
  · rw [← he]
    refine .chunk hd ?_
    rw [Cell.Slot, if_pos (h.chunks d hd).1]
    exact .inl rfl

namespace Shift

lemma mem (h : S.Shift s L tgt stop) (hc : c ∈ L) : c ∈ S.cells := ((h.live c).1 hc).mem

lemma low (h : S.Shift s L tgt stop) (hc : c ∈ L) :
    S.space.start.toNat + c.head ≤ (tgt c.oop).toNat ∧
      (tgt c.oop).toNat + c.body ≤ stop.toNat := by
  have hm : c.relocate tgt ∈ L.map (·.relocate tgt) := mem_map.2 ⟨c, hc, rfl⟩
  exact ⟨h.moved.low hm, h.moved.high hm⟩

lemma other (h : S.Shift s L tgt stop) (ok : S.Ok s) (hc : c ∈ S.others) :
    tgt c.oop = c.oop := by
  refine h.outside _ fun hv => ?_
  have := (Space.has_iff.1 hv).1
  have := ok.others_below c hc
  omega

lemma zero (h : S.Shift s L tgt stop) : tgt 0 = 0 := h.outside 0 (by simp [Space.has])

end Shift

namespace Heap

lemma old_below (h : S.Heap s C) (hc : c ∈ S.others) :
    low s + c.head ≤ c.oop.toNat ∧ c.oop.toNat + c.body ≤ S.space.start.toNat :=
  ⟨h.old.low hc, h.old.high hc⟩

section

variable (h : S.Heap s C) (hc : S.Live s c ∨ c ∈ S.chunks) {x : Nat}
include h hc

lemma readable : (S.graph s).Readable c := by
  rcases hc with hc | hc
  · exact h.ok.readable c hc
  · exact (h.ok.chunks c hc).2.1

lemma framed (hk : c.isChunk) (hn : c.frames ≠ []) :
    ∃ w last, Frames w c.body last 40 c.frames := by
  have hr := h.readable hc
  by_cases h0 : c.words s.mem 16 = 0
  · exact absurd (hr.idle hk h0) hn
  · exact ⟨_, _, (hr.frames hk h0).frames⟩

lemma image_slot (hx : c.Slot x) : c.image tgt s.mem x = tgt (c.words s.mem x) :=
  Cell.image_slot hx (h.framed hc)

lemma link_word (hx : x % 4 = 0) (hb : x + 4 ≤ c.body) (hr : c.role x = .link) :
    c.words s.mem x = 0 ∨ c.oop.toNat ≤ (c.words s.mem x).toNat := by
  rcases hc with hl | hc
  · have hk : c.isChunk := by
      by_contra hn
      rw [role_plain hn] at hr
      split_ifs at hr
    rcases h.listed c hl hk with hc | ⟨h0, _⟩
    · exact h.links c x hc hx hb hr
    -- It has no frames, so that the link is to the innermost one.
    have hn := (h.ok.readable c hl).idle hk h0
    rw [role, if_pos hk, hn, find?_nil] at hr
    split_ifs at hr with _ _ _ h16
    exact .inl (h16 ▸ h0)
  · exact h.links c x hc hx hb hr

end

lemma fixed_header (h : S.Heap s C) (hc : c ∈ S.others) {b : Nat} (hb : c.start ≤ b)
    (ho : b < c.oop.toNat) : S.Fixed s b := by
  have hok := h.ok
  have := h.old_below hc
  have := c.start_eq
  have := hok.bounds
  -- A body that holds the byte would have to be that of an older object, and these lie apart.
  have apart : ∀ d ∈ S.others, ¬ (d.oop.toNat ≤ b ∧ b < d.oop.toNat + d.body) := by
    intro d hd hin
    rcases h.old.apart hc hd with rfl | hs | hs
    · omega
    · omega
    · omega
  refine ⟨fun hin => by omega, fun hin => by omega, fun hin => ?_, fun a ha hin => ?_,
    fun d hd hin => ?_⟩
  · have := hok.bitmap b hin
    omega
  · obtain ⟨d, hd, _, hda, hdb⟩ := h.stores a ha
    have : a + 4 ≤ d.oop.toNat + d.body := hdb
    exact apart d hd ⟨by omega, by omega⟩
  · rcases mem_append.1 (hok.chunks d hd).2.2 with hd' | hd'
    · have := Space.has_iff.1 (hok.has_cell hd')
      omega
    · exact apart d hd' hin

end Heap

lemma Shift.chunk_cases (sh : S.Shift s L tgt stop) (h : S.Heap s C) (hc : c ∈ S.chunks) :
    c ∈ L ∨ c ∈ S.others ∧ tgt c.oop = c.oop := by
  rcases mem_append.1 (h.ok.chunks c hc).2.2 with hm | hm
  · exact .inl ((sh.live c).2 (h.ok.chunk_live hc hm))
  · exact .inr ⟨hm, sh.other h.ok hm⟩

lemma Method.reads_of {p : Nat → Prop} {n : Memory} (h : S.Method s f)
    (hfixed : ∀ b, S.Fixed s b → p b)
    (hlive : ∀ d, S.Live s d → d.shape = .primitive → d.stop ≤ s.mem.size ∧
      ∀ b, d.oop.toNat ≤ b → b < d.stop → p b)
    (hn : Memory.Agrees p s.mem n) : f.Reads n := by
  cases h with
  | stays _ reads => exact reads n (hn.mono hfixed)
  | moves d live oop plain reads =>
    obtain ⟨hstop, hbytes⟩ := hlive d live plain
    have hstop' := hstop
    have hr := reads n f.method hn.size hn.order (by rw [← oop, hn.size]; exact hstop') ?_
    · exact hr
    · intro b hb
      rw [← oop]
      exact hn.peek _ (hbytes _ (Nat.le_add_right _ _) (Nat.add_lt_add_left hb _))

/-! ### The heap behind a move -/

namespace Moved

section

variable (m : S.Moved s L tgt t)
include m

lemma low_eq : low t = low s := by
  rw [low, m.record 0 (by omega) (by omega) (by omega), low]

lemma high_eq : high t = high s := by
  rw [high, m.record 0 (by omega) (by omega) (by omega),
    m.record 1 (by omega) (by omega) (by omega), high]

lemma size_eq : t.mem.size = s.mem.size := m.fixed.size

lemma recorded (h : S.Ok s) : t.Recorded := by
  have hr := h.recorded
  refine ⟨m.kin.ram ▸ hr.aligned, ?_, ?_⟩
  · rw [m.kin.ram, m.size_eq]
    exact hr.inside
  · rw [m.size_eq]
    exact hr.small

lemma field_iff {a : Nat} : (S.relocate L tgt stop).Field t a ↔ S.Field s a := by
  constructor
  · intro ha
    have hlow : low s < a := m.low_eq ▸ ha.low
    refine ⟨ha.aligned, hlow, ha.high, ?_⟩
    rw [← m.bits a ha.aligned hlow ha.high, ← m.range]
    exact ha.set
  · intro ha
    refine ⟨ha.aligned, m.low_eq ▸ ha.low, ha.high, ?_⟩
    rw [m.range, m.bits a ha.aligned ha.low ha.high]
    exact ha.set

lemma fixed_iff (h : S.Heap s C) (sh : S.Shift s L tgt stop) {b : Nat} :
    (S.relocate L tgt stop).Fixed t b ↔ S.Fixed s b := by
  have hrec := m.kin.ram
  have cells : ∀ c ∈ L, S.space.start.toNat ≤ (tgt c.oop).toNat ∧
      (tgt c.oop).toNat + c.body ≤ high s + 20 ∧ S.space.start.toNat ≤ c.oop.toNat ∧
      c.oop.toNat + c.body ≤ high s + 20 := by
    intro c hc
    have := sh.low hc
    have := sh.stop_le
    have := h.ok.stop_le
    have := h.ok.spread.high (sh.mem hc)
    have := h.ok.spread.low (sh.mem hc)
    omega
  constructor
  · intro hb
    refine ⟨hrec ▸ hb.record, m.high_eq ▸ hb.space, m.range ▸ hb.bitmap,
      fun a ha => hb.field a (m.field_iff.2 ha), fun c hc hin => ?_⟩
    have hin' : c.oop.toNat ≤ b ∧ b < c.oop.toNat + c.body := hin
    rcases sh.chunk_cases h hc with hm | ⟨_, he⟩
    · have := cells c hm
      have : ¬ (S.space.start.toNat ≤ b ∧ b < high s + 20) := m.high_eq ▸ hb.space
      omega
    · refine hb.chunk _ (mem_map.2 ⟨c, hc, rfl⟩) ?_
      show (tgt c.oop).toNat ≤ b ∧ b < (tgt c.oop).toNat + c.body
      rw [he]
      exact hin'
  · intro hb
    refine ⟨hrec ▸ hb.record, m.high_eq ▸ hb.space, m.range ▸ hb.bitmap,
      fun a ha => hb.field a (m.field_iff.1 ha), fun c' hc' hin => ?_⟩
    obtain ⟨c, hc, rfl⟩ := mem_map.1 hc'
    have hin' : (tgt c.oop).toNat ≤ b ∧ b < (tgt c.oop).toNat + c.body := hin
    rcases sh.chunk_cases h hc with hm | ⟨_, he⟩
    · have := cells c hm
      have := hb.space
      omega
    · rw [he] at hin'
      exact hb.chunk c hc hin'

lemma holds_other (h : S.Heap s C) (hc : c ∈ S.others) :
    Header.Holds t.mem c.oop c.kind c.count :=
  (h.ok.header c (mem_append_right _ hc)).1.agrees m.fixed fun _ => h.fixed_header hc

end

/-- The object has arrived and can be read. -/
structure Landed (s t : Store) (tgt : UInt32 → UInt32) (stop : UInt32) (c : Cell) : Prop where
  header : Header.Holds t.mem (tgt c.oop) c.kind c.count
  arrived : c.Arrived tgt s.mem t.mem
  down : (tgt c.oop).toNat ≤ c.oop.toNat
  positive : 0 < (tgt c.oop).toNat
  high : (tgt c.oop).toNat + c.body ≤ stop.toNat

section

variable (m : S.Moved s L tgt t) (h : S.Heap s C) (sh : S.Shift s L tgt stop)
include m h sh

lemma landed (hc : S.Live s c ∨ c ∈ S.chunks) : Landed s t tgt stop c := by
  have object : c ∈ L → Landed s t tgt stop c := by
    intro hm
    have h1 := sh.low hm
    have := c.head_cases
    exact ⟨m.header c hm, m.object c hm, sh.down c hm, by omega, h1.2⟩
  rcases hc with hc | hc
  · exact object ((sh.live c).2 hc)
  rcases sh.chunk_cases h hc with hm | ⟨hm, he⟩
  · exact object hm
  have := h.old_below hm
  have := c.head_cases
  have := sh.moved.total_le
  refine ⟨?_, m.chunk c hc, Nat.le_of_eq (congrArg _ he), ?_, ?_⟩
  · rw [he]
    exact m.holds_other h hm
  · rw [he]
    omega
  · rw [he]
    omega

lemma word (hc : S.Live s c ∨ c ∈ S.chunks) {x : Nat} (hx : c.Slot x) :
    (c.relocate tgt).words t.mem x = tgt (c.words s.mem x) := by
  obtain ⟨h4, hb⟩ := (h.readable hc).slot_inside hx
  rw [(m.landed h sh hc).arrived x h4 hb, h.image_slot hc hx]

lemma legal (hv : S.Legal s v) (hl : ∀ c ∈ S.cells, c.oop = v → S.Live s c) :
    (S.relocate L tgt stop).Legal t (tgt v) := by
  rcases hv with rfl | hv | ⟨c, hc, rfl⟩
  · exact .inl (sh.zero)
  · refine .inr (.inl ?_)
    rw [sh.outside _ fun hin => hv (h.ok.has_ram hin), m.kin.ram]
    exact hv
  refine .inr (.inr ⟨c.relocate tgt, ?_, rfl⟩)
  rcases mem_append.1 hc with hm | hm
  · exact mem_append_left _
      (mem_map.2 ⟨c, (sh.live c).2 (hl c hm rfl), rfl⟩)
  · exact mem_append_right _ (mem_map.2 ⟨c, hm, rfl⟩)

lemma source (hv : S.Source s v) : (S.relocate L tgt stop).Source t (tgt v) := by
  cases hv with
  | root hk ha =>
    rw [← m.root _ hk]
    exact .root hk ha
  | field ha =>
    rw [← m.field _ ha]
    exact .field (m.field_iff.2 ha)
  | chunk hc hx =>
    rw [← m.word h sh (.inr hc) hx]
    exact .chunk (mem_map.2 ⟨_, hc, rfl⟩) (slot_relocate.2 hx)

lemma live (hc : S.Live s c) : (S.relocate L tgt stop).Live t (c.relocate tgt) := by
  have cell : ∀ {d}, S.Live s d → d.relocate tgt ∈ (S.relocate L tgt stop).cells := fun hd =>
    mem_map.2 ⟨_, (sh.live _).2 hd, rfl⟩
  induction hc with
  | source hc hs => exact .source (cell (.source hc hs)) (m.source h sh hs)
  | step hl hx hd he ih =>
    refine .step ih (slot_relocate.2 hx) (cell (.step hl hx hd he)) ?_
    rw [m.word h sh (.inl hl) hx, he]
    rfl

end

lemma of_live (hc : (S.relocate L tgt stop).Live t c) (sh : S.Shift s L tgt stop) :
    ∃ d, S.Live s d ∧ c = d.relocate tgt := by
  obtain ⟨d, hd, rfl⟩ := mem_map.1 hc.mem
  exact ⟨d, (sh.live d).1 hd, rfl⟩

section

variable (m : S.Moved s L tgt t) (h : S.Heap s C) (sh : S.Shift s L tgt stop)
include m h sh

lemma owner_word (hc : S.Live s c) {k : UInt32} (hs : c.shape = .classState k) :
    (c.relocate tgt).words t.mem 0 = c.words s.mem 0 := by
  have hout := sh.outside _ (h.owners c k hc hs)
  have hb := (h.readable (.inl hc)).owner k hs
  have hnc : ¬ c.isChunk := by
    rw [isChunk, hs]
    intro h
    cases h
  rw [(m.landed h sh (.inl hc)).arrived 0 rfl hb]
  cases hr : c.role 0 with
  | data => exact image_data hr
  | pointer => rw [image_pointer hr, hout]
  | code => exact absurd (chunk_of_code hr).1 hnc
  | listed | next | link =>
    rw [role_plain hnc] at hr
    split_ifs at hr

lemma typed (hc : S.Live s c ∨ c ∈ S.chunks) :
    (c.relocate tgt).Typed ((S.relocate L tgt stop).Fixed t) t.mem := by
  have ht := h.typed c hc
  have agrees : ∀ {n}, Memory.Agrees ((S.relocate L tgt stop).Fixed t) t.mem n →
      Memory.Agrees (S.Fixed s) s.mem n := fun hn =>
    m.fixed.trans (hn.mono fun b hb => (m.fixed_iff h sh).2 hb)
  constructor
  case kind_ne => exact ht.kind_ne
  case kind_aligned => exact ht.kind_aligned
  case body_aligned => exact ht.body_aligned
  case slots_le => exact ht.slots_le
  case size => exact fun n oop low hn hh => ht.size n oop low (agrees hn) hh
  case slots => exact fun n hn => ht.slots n (agrees hn)
  case shape =>
    intro n oop low hn hh hk
    refine ht.shape n oop low (agrees hn) hh fun k hs => ?_
    have hl : S.Live s c := by
      rcases hc with hc | hc
      · exact hc
      · have := (h.ok.chunks c hc).1
        rw [isChunk, hs] at this
        cases this
    rw [hk k hs]
    exact m.owner_word h sh hl hs

lemma bytes (hc : S.Live s c) (hp : c.shape = .primitive) {b : Nat} (hb : b < c.body) :
    t.mem.peek ((tgt c.oop).toNat + b) = s.mem.peek (c.oop.toNat + b) := by
  have ht := h.typed c (.inl hc)
  have := ht.body_aligned
  have : c.slots = 0 := by
    have := ht.slots s.mem (.refl _)
    rw [Cell.SlotsRead, hp] at this
    exact this
  have hdata : c.role (4 * (b / 4)) = .data := by
    have hnc : ¬ c.isChunk := by
      rw [isChunk, hp]
      intro h
      cases h
    rw [role_plain hnc, if_neg fun hin => by omega]
  have hw := (m.landed h sh (.inl hc)).arrived (4 * (b / 4)) (by omega) (by omega)
  rw [image_data hdata] at hw
  have hword := hw
  have hsplit : b = 4 * (b / 4) + b % 4 := by omega
  rw [hsplit, ← Nat.add_assoc, ← Nat.add_assoc]
  exact Memory.peek_of_peekWord m.fixed.order hword (by omega)

lemma method (hf : S.Method s f) : (S.relocate L tgt stop).Method t (f.relocate tgt) := by
  cases hf with
  | stays out reads =>
    have he : f.relocate tgt = f := by
      rw [Activation.relocate, sh.outside _ out]
    rw [he]
    refine .stays (fun hin => out ?_) fun n hn => reads n ?_
    · have h1 := Space.has_iff.1 hin
      have h2 := sh.stop_le
      exact Space.has_iff.2 ⟨h1.1, Nat.le_trans h1.2 h2⟩
    · exact m.fixed.trans (hn.mono fun b hb => (m.fixed_iff h sh).2 hb)
  | moves d live oop plain reads =>
    refine .moves (d.relocate tgt) (m.live h sh live) (congrArg tgt oop) plain ?_
    intro n a hsize horder hstop hbytes
    refine reads n a (hsize.trans m.size_eq) (horder.trans m.fixed.order) hstop fun b hb => ?_
    rw [hbytes b hb]
    exact m.bytes h sh live plain hb

end

lemma start_le (sh : S.Shift s L tgt stop) : S.space.start.toNat ≤ stop.toNat := by
  have := sh.moved.total_le
  omega

section

variable (m : S.Moved s L tgt t) (h : S.Heap s C) (sh : S.Shift s L tgt stop) {b : Nat}
include m h sh

lemma kept (hb : b < stop.toNat) : ((S.relocate L tgt stop).graph t).kept b := by
  have := sh.stop_le
  have := h.ok.stop_le
  refine ⟨fun hc => ?_, fun hc => ?_⟩
  · have hc' : s.bits.range.covers b := m.range ▸ hc
    have := h.ok.bitmap b hc'
    omega
  · have : stop.toNat ≤ b := hc.1
    omega

omit h in
lemma fixed_kept (hb : S.Fixed s b) : ((S.relocate L tgt stop).graph t).kept b := by
  have := start_le sh
  have hspace := hb.space
  refine ⟨fun hc => hb.bitmap (m.range ▸ hc), fun hc => hspace ?_⟩
  have : stop.toNat ≤ b := hc.1
  have hhi : b < stop.toNat + 4 * ((high t + 20 - stop.toNat) / 4) := hc.2
  rw [m.high_eq] at hhi
  omega

lemma readable (hc : S.Live s c ∨ c ∈ S.chunks) :
    ((S.relocate L tgt stop).graph t).Readable (c.relocate tgt) := by
  have hr := h.readable hc
  have hl := m.landed h sh hc
  have := hl.high
  have := Nat.le_trans sh.stop_le h.ok.stop_le
  have := h.ok.bounds
  constructor
  case typed =>
    exact (m.typed h sh hc).mono fun b hb => m.fixed_kept sh ((m.fixed_iff h sh).1 hb)
  case header => exact hl.header
  case kept_header =>
    intro b _ hb
    have : b < (tgt c.oop).toNat := hb
    exact m.kept h sh (by omega)
  case inside =>
    show (tgt c.oop).toNat + c.body ≤ t.mem.size
    rw [m.size_eq]
    omega
  case kept_body =>
    intro _ b _ hb
    have : b < (tgt c.oop).toNat + c.body := hb
    exact m.kept h sh (by omega)
  case legal =>
    intro x hx
    have hx := slot_relocate.1 hx
    show (S.relocate L tgt stop).Legal t ((c.relocate tgt).words t.mem x)
    rw [m.word h sh hc hx]
    refine m.legal h sh (hr.legal x hx) fun d hd he => ?_
    rcases hc with hc | hc
    · exact .step hc hx hd he.symm
    · exact .source hd (he ▸ .chunk hc hx)
  case room => exact hr.room
  case frames =>
    intro hk h0
    have hk : c.isChunk := hk
    have hw := hl.arrived 16 rfl (hr.room hk)
    have hne : c.words s.mem 16 ≠ 0 := by
      intro hz
      rw [image_link (role_last hk), if_pos hz] at hw
      exact h0 hw
    exact (hr.frames hk hne).relocate hl.arrived hl.down hne
  case idle =>
    intro hk h0
    have hk : c.isChunk := hk
    have hw := hl.arrived 16 rfl (hr.room hk)
    have hz : c.words s.mem 16 = 0 := by
      by_contra hne
      have hlast : c.oop.toNat ≤ (c.words s.mem 16).toNat := (hr.frames hk hne).last
      have hs := toNat_shift hl.down hlast
      have := hl.positive
      rw [image_link (role_last hk), if_neg hne] at hw
      rw [← hw, show (c.relocate tgt).words t.mem 16 = 0 from h0, UInt32.toNat_zero] at hs
      omega
    show c.frames.map _ = []
    rw [hr.idle hk hz]
    rfl
  case methods =>
    intro f' hf' n hn
    obtain ⟨f, hf, rfl⟩ := mem_map.1 hf'
    have hm := m.method h sh (h.methods c f hc hf)
    refine hm.reads_of (fun b hb => m.fixed_kept sh ((m.fixed_iff h sh).1 hb)) (fun d hd _ => ?_)
      hn
    obtain ⟨e, he, rfl⟩ := of_live hd sh
    have := (m.landed h sh (.inl he)).high
    refine ⟨?_, fun b _ hb => m.kept h sh ?_⟩
    · show (tgt e.oop).toNat + e.body ≤ t.mem.size
      rw [m.size_eq]
      omega
    · have : b < (tgt e.oop).toNat + e.body := hb
      omega
  case owner => exact hr.owner

lemma listed : Listed t.mem (t.recorded 10) (S.relocate L tgt stop).chunks := by
  have step : ∀ {v l}, Listed s.mem v l → (∀ c ∈ l, c ∈ S.chunks) →
      Listed t.mem (tgt v) (l.map (·.relocate tgt)) := by
    intro v l hl
    induction hl with
    | nil =>
      intro _
      rw [sh.zero]
      exact .nil
    | @cons c rest ne next ih =>
      intro hall
      have hc := hall c mem_cons_self
      have hslot : c.Slot 0 := by
        rw [Cell.Slot, if_pos (h.ok.chunks c hc).1]
        exact .inl rfl
      have hpos := (m.landed h sh (.inr hc)).positive
      refine .cons (c := c.relocate tgt) (fun h0 => ?_) ?_
      · rw [show tgt c.oop = 0 from h0, UInt32.toNat_zero] at hpos
        omega
      · rw [m.word h sh (.inr hc) hslot]
        exact ih fun d hd => hall d (mem_cons_of_mem c hd)
  rw [m.root 2 (by omega)]
  exact step h.ok.listed fun c hc => hc

end

lemma not_chunk (sh : S.Shift s L tgt stop) (h : S.Heap s C) (hc : c ∈ S.others)
    (hn : c ∉ S.chunks) : c.relocate tgt ∉ S.chunks.map (·.relocate tgt) := by
  intro hm
  obtain ⟨d, hd, he⟩ := mem_map.1 hm
  have hoop : tgt d.oop = c.oop := (congrArg oop he).trans (sh.other h.ok hc)
  rcases sh.chunk_cases h hd with hl | ⟨ho, hs⟩
  · have h1 := (sh.low hl).1
    have := h.ok.others_below c hc
    have := d.head_cases
    rw [hoop] at h1
    omega
  · rw [hs] at hoop
    exact hn (h.old.eq_of_oop ho hc hoop ▸ hd)

lemma ok (m : S.Moved s L tgt t) (h : S.Heap s C) (sh : S.Shift s L tgt stop) :
    (S.relocate L tgt stop).Ok t := by
  have hok := h.ok
  have hstop := sh.stop_le
  have hstart := start_le sh
  have hram := m.kin.ram
  constructor
  case recorded => exact m.recorded hok
  case ram_high =>
    rw [hram, m.size_eq]
    exact hok.ram_high
  case record_low =>
    rw [hram, m.low_eq]
    exact hok.record_low
  case high_ram =>
    rw [hram, m.high_eq]
    exact hok.high_ram
  case idle => exact m.idle
  case unused => exact m.unused
  case mapped =>
    rw [m.range, m.size_eq]
    exact hok.mapped
  case first =>
    rw [m.range, m.low_eq]
    exact hok.first
  case last =>
    rw [m.range, m.high_eq]
    exact hok.last
  case bitmap =>
    rw [m.range, m.high_eq]
    exact hok.bitmap
  case low_aligned =>
    rw [m.low_eq]
    exact hok.low_aligned
  case high_aligned =>
    rw [m.high_eq]
    exact hok.high_aligned
  case start_aligned => exact hok.start_aligned
  case stop_aligned => exact sh.stop_aligned
  case low_le =>
    rw [m.low_eq]
    exact hok.low_le
  case start_le => exact hstart
  case stop_le =>
    rw [m.high_eq]
    exact Nat.le_trans hstop hok.stop_le
  case spread => exact sh.moved
  case others_below =>
    intro c' hc'
    obtain ⟨c, hc, rfl⟩ := mem_map.1 hc'
    rw [relocate_oop, sh.other hok hc]
    exact hok.others_below c hc
  case header =>
    intro c' hc'
    rcases mem_append.1 hc' with hc' | hc'
    · obtain ⟨c, hc, rfl⟩ := mem_map.1 hc'
      have hh := hok.header c (mem_append_left _ (sh.mem hc))
      exact ⟨m.header c hc, hh.2⟩
    · obtain ⟨c, hc, rfl⟩ := mem_map.1 hc'
      have hh := hok.header c (mem_append_right _ hc)
      rw [relocate_oop, sh.other hok hc]
      exact ⟨m.holds_other h hc, hh.2⟩
  case readable =>
    intro c' hc'
    obtain ⟨c, hc, rfl⟩ := of_live hc' sh
    exact m.readable h sh (.inl hc)
  case roots =>
    intro k hk ha
    rw [m.root k hk]
    refine m.legal h sh (hok.roots k hk ha) fun c hc he => .source hc ?_
    rw [he]
    exact .root hk ha
  case fields =>
    intro a ha
    have ha := m.field_iff.1 ha
    obtain ⟨hle, hl⟩ := hok.fields a ha
    rw [m.field a ha]
    refine ⟨hle, m.legal h sh hl fun c hc he => .source hc ?_⟩
    rw [he]
    exact .field ha
  case listed => exact m.listed h sh
  case chunks =>
    intro c' hc'
    obtain ⟨c, hc, rfl⟩ := mem_map.1 hc'
    refine ⟨(hok.chunks c hc).1, m.readable h sh (.inr hc), ?_⟩
    rcases sh.chunk_cases h hc with hl | ⟨ho, _⟩
    · exact mem_append_left _ (mem_map.2 ⟨c, hl, rfl⟩)
    · exact mem_append_right _ (mem_map.2 ⟨c, ho, rfl⟩)

lemma heap (m : S.Moved s L tgt t) (h : S.Heap s C) (sh : S.Shift s L tgt stop) :
    (S.relocate L tgt stop).Heap t C := by
  have out : ∀ {v}, ¬ S.space.has v = true → ¬ (S.relocate L tgt stop).space.has v = true := by
    intro v hv hin
    have h1 := Space.has_iff.1 hin
    exact hv (Space.has_iff.2 ⟨h1.1, Nat.le_trans h1.2 sh.stop_le⟩)
  have cases' : ∀ {c'}, (S.relocate L tgt stop).Live t c' ∨
      c' ∈ (S.relocate L tgt stop).chunks →
      ∃ c, (S.Live s c ∨ c ∈ S.chunks) ∧ c' = c.relocate tgt := by
    rintro c' (hc' | hc')
    · obtain ⟨c, hc, he⟩ := of_live hc' sh
      exact ⟨c, .inl hc, he⟩
    · obtain ⟨c, hc, he⟩ := mem_map.1 hc'
      exact ⟨c, .inr hc, he.symm⟩
  constructor
  case ok => exact m.ok h sh
  case typed =>
    intro c' hc'
    obtain ⟨c, hc, rfl⟩ := cases' hc'
    exact m.typed h sh hc
  case kinds =>
    intro c' hc'
    obtain ⟨c, hc, rfl⟩ := of_live hc' sh
    exact h.kinds c hc
  case classes =>
    intro u hrom heeprom hu
    refine h.classes u (hrom.trans m.kin.rom) (heeprom.trans m.kin.eeprom) ?_
    exact m.fixed.trans (hu.mono fun b hb => (m.fixed_iff h sh).2 hb)
  case listed =>
    intro c' hc' hk
    obtain ⟨c, hc, rfl⟩ := of_live hc' sh
    have hk : c.isChunk := hk
    rcases h.listed c hc hk with hl | ⟨h0, hw⟩
    · exact .inl (mem_map.2 ⟨c, hl, rfl⟩)
    refine .inr ⟨?_, fun x hx => ?_⟩
    · rw [(m.landed h sh (.inl hc)).arrived 16 rfl ((h.readable (.inl hc)).room hk),
        image_link (role_last hk), if_pos h0]
    · have hx := slot_relocate.1 hx
      rw [m.word h sh (.inl hc) hx, sh.outside _ (hw x hx)]
      exact out (hw x hx)
  case methods =>
    intro c' f' hc' hf'
    obtain ⟨c, hc, rfl⟩ := cases' hc'
    obtain ⟨f, hf, rfl⟩ := mem_map.1 hf'
    exact m.method h sh (h.methods c f hc hf)
  case links =>
    intro c' x hc' hx hb hr
    obtain ⟨c, hc, rfl⟩ := mem_map.1 hc'
    have hl := m.landed h sh (.inr hc)
    have hr := role_relocate.symm.trans hr
    rw [hl.arrived x hx hb, image_link hr]
    by_cases h0 : c.words s.mem x = 0
    · exact .inl (if_pos h0)
    · have hle := (h.links c x hc hx hb hr).resolve_left h0
      rw [if_neg h0, toNat_shift hl.down hle]
      exact .inr (Nat.le_add_left _ _)
  case old =>
    rw [m.low_eq]
    exact h.old.map fun c hc => ⟨sh.other h.ok hc, rfl, rfl⟩
  case stores =>
    intro a ha
    obtain ⟨c, hc, hn, hlo, hhi⟩ := h.stores a (m.field_iff.1 ha)
    have he := sh.other h.ok hc
    refine ⟨c.relocate tgt, mem_map.2 ⟨c, hc, rfl⟩, not_chunk sh h hc hn, ?_, ?_⟩
    · rw [relocate_oop, he]
      exact hlo
    · show a + 4 ≤ (tgt c.oop).toNat + c.body
      rw [he]
      exact hhi
  case owners =>
    intro c' k hc' hs
    obtain ⟨c, hc, rfl⟩ := of_live hc' sh
    rw [m.owner_word h sh hc hs]
    exact out (h.owners c k hc hs)
  case associations =>
    rw [m.root 6 (by omega), h.associations]
    exact sh.zero
  case minimum => rw [m.kin.minimumHeap]; exact h.minimum
  case young => rw [m.kin.idealYoung]; exact h.young

end Moved

/-! ### One move behind another -/

lemma Moved.refl (h : S.Heap s C) (hl : ∀ c ∈ L, c ∈ S.cells) : S.Moved s L id s := by
  have arrived : ∀ c : Cell, c.Arrived id s.mem s.mem := by
    intro c x _ _
    rw [image_id]
    rfl
  constructor
  case kin => rfl
  case range => rfl
  case idle => exact h.ok.idle
  case unused => exact h.ok.unused
  case fixed => exact .refl _
  case header => exact fun c hc => (h.ok.header c (mem_append_left _ (hl c hc))).1
  case object => exact fun c _ => arrived c
  case chunk => exact fun c _ => arrived c
  case field => exact fun _ _ => rfl
  case root => exact fun _ _ => rfl
  case record => exact fun _ _ _ _ => rfl
  case bits => exact fun _ _ _ _ => rfl

lemma Shift.refl (h : S.Heap s C) (hl : ∀ c, c ∈ L ↔ S.Live s c)
    (hs : Spread S.space.start.toNat L S.space.stop.toNat) : S.Shift s L id S.space.stop where
  live := hl
  spread := hs
  moved := hs.map fun _ _ => ⟨rfl, rfl, rfl⟩
  outside _ _ := rfl
  down _ _ := Nat.le_refl _
  aligned c hc := (h.ok.header c (mem_append_left _ ((hl c).1 hc).mem)).1.aligned
  stop_aligned := h.ok.stop_aligned
  stop_le := Nat.le_refl _

lemma Moved.touch (m : S.Moved s L tgt t) (hk : Kin t u) (hm : u.mem = t.mem)
    (hb : u.bits = t.bits) (hu : u.marks = t.marks) : S.Moved s L tgt u := by
  have hrec : ∀ j, u.recorded j = t.recorded j := by
    intro j
    rw [Store.recorded, hm, hk.ram, Store.recorded]
  constructor
  case kin => exact m.kin.trans hk
  case range => rw [hb]; exact m.range
  case idle => rw [hb]; exact m.idle
  case unused => rw [hu]; exact m.unused
  case fixed => rw [hm]; exact m.fixed
  case header => rw [hm]; exact m.header
  case object => rw [hm]; exact m.object
  case chunk => rw [hm]; exact m.chunk
  case field => rw [hm]; exact m.field
  case root => exact fun k hk => (hrec _).trans (m.root k hk)
  case record => exact fun j hj h3 h4 => (hrec _).trans (m.record j hj h3 h4)
  case bits => rw [hm]; exact m.bits

lemma Shift.trans {stop' : UInt32} (sh : S.Shift s L tgt stop)
    (sh' : (S.relocate L tgt stop).Shift t (L.map (·.relocate tgt)) tgt' stop') :
    S.Shift s L (tgt' ∘ tgt) stop' := by
  have mem : ∀ {c}, c ∈ L → c.relocate tgt ∈ L.map (·.relocate tgt) := fun hc =>
    mem_map.2 ⟨_, hc, rfl⟩
  constructor
  case live => exact sh.live
  case spread => exact sh.spread
  case moved =>
    have he : L.map (·.relocate (tgt' ∘ tgt)) =
        (L.map (·.relocate tgt)).map (·.relocate tgt') := by
      rw [map_map]
      exact map_congr_left fun c _ => relocate_relocate.symm
    rw [he]
    exact sh'.moved
  case outside =>
    intro v hv
    rw [Function.comp_apply, sh.outside v hv]
    refine sh'.outside v fun hin => hv ?_
    have h1 := Space.has_iff.1 hin
    exact Space.has_iff.2 ⟨h1.1, Nat.le_trans h1.2 sh.stop_le⟩
  case down => exact fun c hc => Nat.le_trans (sh'.down _ (mem hc)) (sh.down c hc)
  case aligned => exact fun c hc => sh'.aligned _ (mem hc)
  case stop_aligned => exact sh'.stop_aligned
  case stop_le => exact Nat.le_trans sh'.stop_le sh.stop_le

lemma Moved.trans (h : S.Heap s C) (sh : S.Shift s L tgt stop)
    (m : S.Moved s L tgt t) (m' : (S.relocate L tgt stop).Moved t (L.map (·.relocate tgt)) tgt' u) :
    S.Moved s L (tgt' ∘ tgt) u := by
  have arrived : ∀ {c}, S.Live s c ∨ c ∈ S.chunks →
      (c.relocate tgt).Arrived tgt' t.mem u.mem → c.Arrived (tgt' ∘ tgt) s.mem u.mem := by
    intro c hc ha x hx hb
    have hl := m.landed h sh hc
    rw [← relocate_relocate, ha x hx hb]
    exact image_image hl.arrived (h.framed hc) (h.link_word hc hx hb) hl.down hl.positive hx
      hb
  have hlow := m.low_eq
  constructor
  case kin => exact m.kin.trans m'.kin
  case range => exact m'.range.trans m.range
  case idle => exact m'.idle
  case unused => exact m'.unused
  case fixed => exact m.fixed.trans (m'.fixed.mono fun b hb => (m.fixed_iff h sh).2 hb)
  case header => exact fun c hc => m'.header _ (mem_map.2 ⟨c, hc, rfl⟩)
  case object =>
    exact fun c hc =>
      arrived (.inl ((sh.live c).1 hc)) (m'.object _ (mem_map.2 ⟨c, hc, rfl⟩))
  case chunk => exact fun c hc => arrived (.inr hc) (m'.chunk _ (mem_map.2 ⟨c, hc, rfl⟩))
  case field =>
    intro a ha
    rw [m'.field a (m.field_iff.2 ha), m.field a ha]
    rfl
  case root =>
    intro k hk
    rw [m'.root k hk, m.root k hk]
    rfl
  case record =>
    intro j hj h3 h4
    rw [m'.record j hj h3 h4, m.record j hj h3 h4]
  case bits =>
    intro a h4 hlo hhi
    rw [← m.bits a h4 hlo hhi, ← m.range]
    exact m'.bits a h4 (hlow ▸ hlo) hhi

end Scene

end DeviceVm.Sliding
