import DeviceVm.Proofs.Persistent.Marking
import DeviceVm.Proofs.Persistent.Sweeping
import DeviceVm.Proofs.Sample

/-!
Collection of persistent memory. The bits lie in an array that the guest lends and the mark stack in
another one. Of persistent memory the live objects stay as they are; what lies between them is
listed as free.
-/

namespace DeviceVm

open List Store Sample

namespace Persistent

open Store Word

/-- The bytes of neither array nor of the root of the free list. -/
def Spared (s : Store) (bits stack : Cell) (b : Nat) : Prop :=
  ¬ (s.eeprom.start.toNat + 32 ≤ b ∧ b < s.eeprom.start.toNat + 36) ∧
    ¬ (bits.oop.toNat ≤ b ∧ b < bits.stop) ∧ ¬ (stack.oop.toNat ≤ b ∧ b < stack.stop)

/-- A store whose references are sound, and the arrays that the guest lends. Of the objects of
persistent memory those that are referred to are known, and their addresses are in the segment. -/
structure Scene.Heap (S : Scene) (s : Store) (bits stack : Cell) : Prop where
  recorded : s.Recorded
  ordered : s.Ordered
  rom_record : 64 ≤ s.rom.size.toNat
  ram_high : s.stopOf .ram ≤ s.mem.size
  eeprom_aligned : s.eeprom.start.toNat % 4 = 0
  idle : s.bits.scan.active = false
  unused : s.marks.inUse = false
  range : Persistent.range s = .ok (S.space.start, S.space.stop)
  low : s.eeprom.start.toNat + 64 ≤ S.space.start.toNat
  lt : S.space.start.toNat < S.space.stop.toNat
  high : S.space.stop.toNat ≤ s.stopOf .eeprom
  start_aligned : S.space.start.toNat % 4 = 0
  stop_aligned : S.space.stop.toNat % 4 = 0
  spread : Spread S.space.start.toNat S.cells S.space.stop.toNat
  inside : ∀ c ∈ S.cells, c.oop.toNat % 4 = 0 ∧ s.eeprom.Has c.oop
  readable : ∀ c, S.Live s c → c.Readable (Spared s bits stack) s.mem (S.Legal s)
  tiles : Tiles S.ram.start.toNat S.young S.ram.stop.toNat
  tiles_low : s.ram.start.toNat + 64 ≤ S.ram.start.toNat
  tiles_high : S.ram.stop.toNat ≤ s.stopOf .ram
  stays : ∀ c ∈ S.young, S.gone c = none →
    c.Readable (Spared s bits stack) s.mem (S.Legal s)
  gone : ∀ c e, c ∈ S.young → S.gone c = some e →
    Header.Holds s.mem c.oop (e + 2) c.count ∧ e.toNat % 4 = 0 ∧
      ∃ d ∈ S.cells, d.oop = e ∧ d.body = c.body
  persistentRoots : ∀ k < 8, k ≠ 0 → S.Legal s (Scene.persistentRoot s k)
  roots : ∀ k < 8, S.Legal s (s.recorded (k + 8))
  bits_mem : bits ∈ S.young
  stack_mem : stack ∈ S.young
  distinct : bits ≠ stack
  bits_body : bits.body = 4 * bits.count.toNat
  stack_body : stack.body = 4 * stack.count.toNat
  stack_eq : S.stack = stack.oop
  stackSize_eq : S.stackSize.toNat = stack.body

/-- What collection comes to. The objects `L` are the live ones. -/
structure Scene.Collected (S : Scene) (s : Store) (bits stack : Cell) (L : List Cell)
    (t : Store) : Prop where
  live : ∀ c, c ∈ L ↔ S.Live s c
  spread : Spread S.space.start.toNat L S.space.stop.toNat
  kept : ∀ c ∈ L, ∀ b, c.start ≤ b → b < c.stop → t.mem.peek b = s.mem.peek b
  /-- The stretches between them are listed, and cleared but for their first words. -/
  listed : Listed t (between S.space.start.toNat L S.space.stop.toNat)
  cleared : ∀ g ∈ between S.space.start.toNat L S.space.stop.toNat, g.Cleared t.mem
  /-- No two of the stretches touch, and they are what the objects leave of the space. -/
  maximal : (between S.space.start.toNat L S.space.stop.toNat).Pairwise
    fun g h => g.stop < h.block.toNat
  tiled : ∀ b, (∃ g ∈ between S.space.start.toNat L S.space.stop.toNat, g.covers b) ↔
    (S.space.start.toNat ≤ b ∧ b < S.space.stop.toNat) ∧ ∀ c ∈ L, ¬ (c.start ≤ b ∧ b < c.stop)
  free : ∃ w, freeMemory t = .ok w ∧
    w.toNat = S.space.stop.toNat - S.space.start.toNat - Cell.total L
  range : t.bits.range = s.bits.range
  idle : t.bits.scan.active = false
  unused : t.marks.inUse = false
  ram : ∀ b, s.ram.start.toNat ≤ b → b < s.stopOf .ram →
    ¬ (bits.oop.toNat ≤ b ∧ b < bits.stop) → ¬ (stack.oop.toNat ≤ b ∧ b < stack.stop) →
    t.mem.peek b = s.mem.peek b
  same : s.Same t

variable {s t : Store}

lemma same_of_alike (h : s.Alike t) : s.Same t :=
  ⟨h.rom, h.eeprom, h.ram, (congrArg collecting h :), (congrArg kind h :),
    (congrArg exactChunks h :)⟩

lemma same_of_scans (h : s.Scans t) : s.Same t :=
  ⟨h.rom, h.eeprom, h.ram, (congrArg collecting h :), (congrArg kind h :),
    (congrArg exactChunks h :)⟩

namespace Scene.Heap

variable {S : Scene} {s t u : Store} {bits stack c : Cell} {α β : Type} {e : Fault}

section

variable (h : S.Heap s bits stack) {b : Nat}
include h

lemma young_inside (hc : c ∈ S.young) :
    s.ram.start.toNat + 64 + c.head ≤ c.oop.toNat ∧ c.stop ≤ s.mem.size := by
  have := h.tiles.low hc
  have := h.tiles.high hc
  have := h.tiles_low
  have := h.tiles_high
  have := h.ram_high
  rw [Cell.stop]
  omega

lemma spared_header (hc : c ∈ S.young) (hlo : c.start ≤ b) (hhi : b < c.oop.toNat) :
    Spared s bits stack b := by
  have := h.ordered.eeprom
  have := h.young_inside hc
  have away : ∀ d ∈ S.young, ¬ (d.oop.toNat ≤ b ∧ b < d.stop) := by
    rintro d hd ⟨h1, h2⟩
    rw [Cell.start] at hlo
    rw [Cell.stop] at h2
    rcases h.tiles.spread.apart hc hd with rfl | hs | hs <;> omega
  refine ⟨?_, away bits h.bits_mem, away stack h.stack_mem⟩
  rw [Cell.start] at hlo
  omega

lemma apart (hb : bits.oop.toNat ≤ b ∧ b < bits.stop) :
    ¬ (stack.oop.toNat ≤ b ∧ b < stack.stop) := by
  rintro ⟨h1, h2⟩
  obtain ⟨h3, h4⟩ := hb
  rw [Cell.stop] at h2 h4
  rcases h.tiles.spread.apart h.bits_mem h.stack_mem with he | hs | hs
  · exact h.distinct he
  · omega
  · omega

lemma holds (hc : c ∈ S.young) : ∃ low, Header.Holds s.mem c.oop low c.count := by
  cases hg : S.gone c with
  | none => exact ⟨_, (h.stays c hc hg).header⟩
  | some e => exact ⟨_, (h.gone c e hc hg).1⟩

lemma space_high : S.space.stop.toNat ≤ s.eeprom.start.toNat + s.eeprom.size.toNat := h.high

lemma eeprom_record :
    s.eeprom.start.toNat + 64 ≤ s.ram.start.toNat ∧ 64 ≤ s.eeprom.start.toNat := by
  have := h.ordered.eeprom
  have := h.ordered.rom
  have := h.rom_record
  have := h.low
  have := h.lt
  have := h.space_high
  omega

end

/-! ### The store that is ready for marking -/

/-- The list of free blocks is taken away and the bits are bound and cleared. -/
structure Prepared (S : Scene) (s : Store) (bits stack : Cell) (t : Store) : Prop where
  alike : s.Alike t
  agrees : Memory.Agrees (Spared s bits stack) s.mem t.mem
  bound : t.bits.range.Bound S.space.start S.space.stop bits.oop
  fits : BitRange.bitmapBytes S.space.start S.space.stop ≤ bits.body
  clear : ∀ a, t.bits.range.Spans a → t.bits.range.holds t.mem a = false
  scan : t.bits.scan = s.bits.scan
  marks : t.marks = s.marks

lemma legal_iff (ha : s.Alike t) {v : UInt32} : S.Legal t v ↔ S.Legal s v := by
  rw [Legal, Legal, ha.eeprom, ha.ram]

section

variable (h : S.Heap s bits stack) {b : Nat} {L : List Cell} {v : Store}
include h

lemma spared_record (hb : b < s.ram.start.toNat + 64)
    (hroot : ¬ (s.eeprom.start.toNat + 32 ≤ b ∧ b < s.eeprom.start.toNat + 36)) :
    Spared s bits stack b := by
  have := h.young_inside h.bits_mem
  have := h.young_inside h.stack_mem
  exact ⟨hroot, by omega, by omega⟩

section

variable (ha : s.Alike t) (hm : Memory.Agrees (Spared s bits stack) s.mem t.mem) {k : Nat}
include ha hm

lemma recorded_eq (hk : k < 16) : t.recorded k = s.recorded k := by
  have := h.eeprom_record
  rw [Store.recorded, Store.recorded, ha.ram]
  exact hm.peekWord _ fun i hi => h.spared_record (by omega) (by omega)

lemma persistentRoot_eq (hk : k < 8) (h0 : k ≠ 0) :
    Scene.persistentRoot t k = Scene.persistentRoot s k := by
  have := h.eeprom_record
  rw [persistentRoot, persistentRoot, ha.eeprom]
  exact hm.peekWord _ fun i hi => h.spared_record (by omega) (by omega)

lemma source_iff {v : UInt32} : S.Source t v ↔ S.Source s v := by
  constructor
  · rintro (⟨hk, h0⟩ | ⟨hk⟩ | ⟨hc, hg, hx⟩ | ⟨hc, hg⟩)
    · rw [h.persistentRoot_eq ha hm hk h0]
      exact .persistentRoot hk h0
    · rw [h.recorded_eq ha hm (Nat.add_lt_add_right hk 8)]
      exact .root hk
    · rw [(h.stays _ hc hg).slot_eq hm hx]
      exact .slot hc hg hx
    · exact .copy hc hg
  rintro (⟨hk, h0⟩ | ⟨hk⟩ | ⟨hc, hg, hx⟩ | ⟨hc, hg⟩)
  · rw [← h.persistentRoot_eq ha hm hk h0]
    exact .persistentRoot hk h0
  · rw [← h.recorded_eq ha hm (Nat.add_lt_add_right hk 8)]
    exact .root hk
  · rw [← (h.stays _ hc hg).slot_eq hm hx]
    exact .slot hc hg hx
  · exact .copy hc hg

lemma live_iff : S.Live t c ↔ S.Live s c := by
  constructor
  · intro hl
    induction hl with
    | source hc hs => exact .source hc ((h.source_iff ha hm).1 hs)
    | step _ hx hd he ih => exact .step ih hx hd ((h.readable _ ih).slot_eq hm hx ▸ he)
  · intro hl
    induction hl with
    | source hc hs => exact .source hc ((h.source_iff ha hm).2 hs)
    | step hl hx hd he ih => exact .step ih hx hd (((h.readable _ hl).slot_eq hm hx).trans he)

end

lemma Prepared.kept (hp : Prepared S s bits stack t) (hb : Spared s bits stack b) :
    (S.graph t).kept b := by
  refine ⟨fun hc => ?_, fun hc => ?_⟩
  · obtain ⟨hlo, hhi⟩ := hp.bound.covers hc
    have := hp.fits
    exact hb.2.1 ⟨hlo, by rw [Cell.stop]; omega⟩
  · have hc' : S.stack.toNat ≤ b ∧ b < S.stack.toNat + 4 * (S.stackSize.toNat / 4) := hc
    rw [h.stack_eq, h.stackSize_eq] at hc'
    exact hb.2.2 ⟨hc'.1, by rw [Cell.stop]; omega⟩

lemma Prepared.kept_below (hp : Prepared S s bits stack t)
    (hb : b < s.ram.start.toNat + 64) : (S.graph t).kept b := by
  have := h.young_inside h.bits_mem
  have := h.young_inside h.stack_mem
  refine ⟨fun hc => ?_, fun hc => ?_⟩
  · have := (hp.bound.covers hc).1
    omega
  · have hc' : S.stack.toNat ≤ b := hc.1
    rw [h.stack_eq] at hc'
    omega

lemma Prepared.ok (hp : Prepared S s bits stack t) : S.Ok t := by
  have ha := hp.alike
  have hm := hp.agrees
  have hsize := hm.size
  have := h.recorded.small
  have := h.recorded.inside
  have := h.eeprom_record
  have := h.low
  have := h.lt
  have := h.space_high
  have := h.ordered.eeprom
  have : s.ram.start.toNat + s.ram.size.toNat ≤ s.mem.size := h.ram_high
  have hbits := h.young_inside h.bits_mem
  have hstack := h.young_inside h.stack_mem
  have := hp.bound.low
  have := hp.fits
  have hmapped : t.bits.range.Mapped t.mem.size := by
    refine hp.bound.mapped (by omega) ?_ (by omega)
    rw [Cell.stop] at hbits
    omega
  have readable : ∀ {d}, d.Readable (Spared s bits stack) s.mem (S.Legal s) →
      (S.graph t).Readable d := fun hd =>
    hd.later hm (fun b hb => hp.kept h hb) fun v hv => (legal_iff ha).2 hv
  constructor
  case recorded =>
    exact ⟨by rw [ha.ram]; exact h.recorded.aligned, by rw [ha.ram]; omega, by omega⟩
  case ram_high => rw [ha.ram]; omega
  case eeprom_aligned => rw [ha.eeprom]; exact h.eeprom_aligned
  case eeprom_record => rw [ha.eeprom]; omega
  case eeprom_high => rw [ha.eeprom]; omega
  case idle => rw [hp.scan]; exact h.idle
  case unused => rw [hp.marks]; exact h.unused
  case mapped => exact hmapped
  case first => omega
  case last => rw [hp.bound.high]
  case clear =>
    intro a h4 hlo hhi
    refine hp.clear a ⟨h4, by omega, ?_⟩
    rw [hp.bound.high]
    exact hhi
  case stack_aligned =>
    obtain ⟨_, hh⟩ := h.holds h.stack_mem
    rw [h.stack_eq]
    exact hh.aligned
  case stack_inside =>
    rw [h.stack_eq, h.stackSize_eq, hsize]
    exact hstack.2
  case apart =>
    intro b hb
    obtain ⟨hlo, hhi⟩ := hp.bound.covers hb
    rw [h.stack_eq, h.stackSize_eq]
    exact h.apart ⟨hlo, by rw [Cell.stop]; omega⟩
  case kept_record =>
    intro b _ hhi
    rw [ha.ram] at hhi
    exact hp.kept_below h hhi
  case kept_eeprom =>
    intro b _ hhi
    rw [ha.eeprom] at hhi
    exact hp.kept_below h (by omega)
  case start_aligned => exact h.start_aligned
  case stop_aligned => exact h.stop_aligned
  case start_le => omega
  case stop_le => omega
  case spread => exact h.spread
  case inside =>
    rw [ha.eeprom]
    exact h.inside
  case readable => exact fun c hl => readable (h.readable c ((h.live_iff ha hm).1 hl))
  case tiles => exact h.tiles
  case tiles_high =>
    have := h.tiles_high
    have := h.ram_high
    omega
  case tiles_apart =>
    have := h.tiles_low
    omega
  case stays => exact fun c hc hg => readable (h.stays c hc hg)
  case gone =>
    intro c e hc hg
    obtain ⟨hh, h4, hd⟩ := h.gone c e hc hg
    exact ⟨hh.agrees hm fun b hlo hhi => h.spared_header hc hlo hhi, h4,
      fun b hlo hhi => hp.kept h (h.spared_header hc hlo hhi), hd⟩
  case persistentRoots =>
    intro k hk h0
    rw [h.persistentRoot_eq ha hm hk h0]
    exact (legal_iff ha).2 (h.persistentRoots k hk h0)
  case roots =>
    intro k hk
    rw [h.recorded_eq ha hm (by omega)]
    exact (legal_iff ha).2 (h.roots k hk)

/-! ### Collection -/

lemma bytes_eq (hc : c ∈ S.young) (hb : c.body = 4 * c.count.toNat) :
    times c.count 4 = .ok (c.count * 4) ∧ (c.count * 4).toNat = c.body := by
  have hin := h.young_inside hc
  have := h.recorded.small
  have h4 := toNat_four
  rw [Cell.stop] at hin
  have hlt : c.count.toNat * (4 : UInt32).toNat < 4294967296 := by
    rw [h4]
    omega
  exact ⟨times_eq hlt, by rw [toNat_times hlt, h4]; omega⟩

/-- The store without its list of free memory, which the collection makes anew. -/
def unlisted (s : Store) : Store :=
  s.setMem (s.mem.pokeWord (s.eeprom.start.toNat + 32) 0)

lemma unlist_ends : Ends (setFreeList 0) s fun _ t => t = unlisted s := by
  have := h.recorded.inside
  have := h.eeprom_record
  exact setFreeList_ends 0 h.eeprom_aligned (by omega) h.recorded.small

lemma bindBits_ends (hfits : BitRange.bitmapBytes S.space.start S.space.stop ≤ bits.body)
    {size : UInt32} (hsize : size.toNat = bits.body) :
    Ends (bindBits S.space.start S.space.stop bits.oop size) (unlisted s) fun _ t =>
      ∃ r log, t = ((unlisted s).setBits { s.bits with range := r }).setLog log ∧
        r.Bound S.space.start S.space.stop bits.oop := by
  have := h.recorded.small
  have := h.space_high
  have := h.ordered.eeprom
  have hlt := h.lt
  have hbits := h.young_inside h.bits_mem
  rw [Cell.stop] at hbits
  obtain ⟨_, hh⟩ := h.holds h.bits_mem
  obtain ⟨r, hbind, hbound⟩ : ∃ r, BitRange.bind S.space.start S.space.stop bits.oop size = .ok r ∧
      r.Bound S.space.start S.space.stop bits.oop :=
    BitRange.bind_eq hh.aligned hlt (by omega) (by omega) (by omega)
  exact .except_bind hbind (.modify_bind (.say fun log => ⟨r, log, rfl, hbound⟩))

lemma clearAllBits_ends (hfits : BitRange.bitmapBytes S.space.start S.space.stop ≤ bits.body)
    {r : BitRange} {log : Log} (hbound : r.Bound S.space.start S.space.stop bits.oop) :
    Ends clearAllBits (((unlisted s).setBits { s.bits with range := r }).setLog log) fun _ t =>
      Prepared S s bits stack t := by
  have := h.lt
  have := h.low
  have := h.eeprom_record
  have hbits := h.young_inside h.bits_mem
  rw [Cell.stop] at hbits
  have hpoke : Memory.Agrees (Spared s bits stack) s.mem (unlisted s).mem :=
    (Memory.Agrees.refl s.mem).pokeWord fun b hb => by
      have := hb.1
      omega
  have hmapped : r.Mapped (unlisted s).mem.size := by
    rw [hpoke.size]
    exact hbound.mapped (by omega) (by omega) h.recorded.small
  have hle : r.first.toNat ≤ r.last.toNat := by
    rw [hbound.low, hbound.high]
    omega
  obtain ⟨n, hn, hsz, hord, hpeek, hclear⟩ := BitRange.clearAll_ok hmapped.inside
    (Nat.lt_of_le_of_lt (Nat.le_trans hmapped.inside hmapped.small) (by decide)) hle
  refine .get_bind (.edit hn ⟨rfl, ?_, hbound, hfits, hclear, rfl, rfl⟩)
  refine hpoke.trans ⟨hsz, hord, fun b hb => hpeek b fun hc => ?_⟩
  obtain ⟨hlo, hhi⟩ := hbound.covers hc
  exact hb.2.1 ⟨hlo, by rw [Cell.stop]; omega⟩

lemma Prepared.ready (hp : Prepared S s bits stack t) (hm : S.Marked t u)
    (hsub : L.Sublist S.cells) (hL : ∀ c, c ∈ L ↔ S.Live s c) : Ready S.space L u := by
  have hok := hp.ok h
  have hlive : ∀ c, c ∈ L ↔ S.Live t c := fun c =>
    (hL c).trans (h.live_iff hp.alike hp.agrees).symm
  have hsize := hm.agrees.size
  have hE := hm.alike.eeprom.trans hp.alike.eeprom
  have hstop : u.stopOf .eeprom = s.stopOf .eeprom := by
    show u.eeprom.start.toNat + u.eeprom.size.toNat = _
    rw [hE]
    rfl
  constructor
  case start_aligned => exact h.start_aligned
  case stop_aligned => exact h.stop_aligned
  case spread => exact h.spread.sublist hsub
  case aligned =>
    exact fun c hc => ⟨(h.inside c (hsub.subset hc)).1,
      (h.readable c ((hL c).1 hc)).typed.body_aligned⟩
  case extent =>
    intro c hc
    have hr := hok.readable c ((hlive c).1 hc)
    exact hr.typed.extent hm.agrees (hr.holds hm.agrees)
  case mapped =>
    rw [hm.range, hsize]
    exact hok.mapped
  case bits_first =>
    rw [hm.range]
    exact hok.first
  case bits_last =>
    rw [hm.range]
    exact hok.last
  case marks =>
    intro a h4 hlo hhi
    rw [hm.range, hm.exact a h4 hlo hhi]
    exact exists_congr fun c => and_congr_left fun _ => (hlive c).symm
  case idle => exact hm.idle
  case eeprom_aligned =>
    rw [hE]
    exact h.eeprom_aligned
  case low =>
    rw [hE]
    exact h.low
  case high =>
    rw [hstop]
    exact h.high
  case inside =>
    have := h.ordered.eeprom
    have := h.recorded.inside
    have : s.stopOf .eeprom = s.eeprom.start.toNat + s.eeprom.size.toNat := rfl
    have := hp.agrees.size
    omega

lemma Prepared.agrees_swept (hp : Prepared S s bits stack t) (hm : S.Marked t u) {gs : List Gap}
    (hs : Swept u gs v) :
    Memory.Agrees (fun b => Spared s bits stack b ∧ ∀ g ∈ gs, ¬ g.covers b) s.mem v.mem := by
  have hE := hm.alike.eeprom.trans hp.alike.eeprom
  refine (hp.agrees.mono fun b hb => hb.1).trans
    ((hm.agrees.mono fun b hb => hp.kept h hb.1).trans (hs.agrees.mono fun b hb => ?_))
  rintro (hroot | ⟨g, hg, hc⟩)
  · rw [hE] at hroot
    exact hb.1.1 hroot
  · exact hb.2 g hg hc

lemma spared_persistent (hlo : S.space.start.toNat ≤ b) (hhi : b < S.space.stop.toNat) :
    Spared s bits stack b := by
  have := h.low
  have := h.space_high
  have := h.ordered.eeprom
  exact h.spared_record (by omega) (by omega)

lemma Prepared.collected (hp : Prepared S s bits stack t) (hm : S.Marked t u)
    (hsub : L.Sublist S.cells) (hL : ∀ c, c ∈ L ↔ S.Live s c)
    (hs : Swept u (between S.space.start.toNat L S.space.stop.toNat) v) {w : Store}
    (hmem : w.mem = v.mem) (hsame : v.Same w) (hmarks : w.marks = v.marks)
    (hbits : w.bits = { v.bits with range := s.bits.range }) : S.Collected s bits stack L w := by
  have hready := hp.ready h hm hsub hL
  have hagrees := hp.agrees_swept h hm hs
  have hspread := hready.spread
  have hbound : S.space.stop.toNat ≤ 16777216 := by
    have := hready.high
    have := hready.inside
    have := hready.mapped.small
    omega
  obtain ⟨hgaps, hpair⟩ := between_spec hspread hbound
  have := total_between hspread hbound
  have hlisted : Listed w (between S.space.start.toNat L S.space.stop.toNat) :=
    hs.listed.agrees hsame (show Memory.Agrees (fun _ => True) v.mem w.mem by
      rw [hmem]
      exact .refl _) fun _ _ => trivial
  rw [← hmem] at hagrees
  constructor
  case live => exact hL
  case spread => exact hspread
  case kept =>
    intro c hc b hlo hhi
    have := hspread.low hc
    have := hspread.high hc
    have := c.start_eq
    have := c.stop_eq
    refine hagrees.peek b ⟨h.spared_persistent (by omega) (by omega), fun g hg hgb => ?_⟩
    have := hgb.1
    have := hgb.2
    rcases (hgaps g hg).2.2.2 c hc with hcon | hcon <;> omega
  case listed => exact hlisted
  case cleared => exact hmem ▸ hs.cleared
  case maximal => exact hpair
  case tiled =>
    intro b
    constructor
    · rintro ⟨g, hg, hgb⟩
      obtain ⟨hlo, _, hhi, hclear⟩ := hgaps g hg
      have := hgb.1
      have := hgb.2
      refine ⟨⟨by omega, by omega⟩, fun c hc hcb => ?_⟩
      rcases hclear c hc with hcon | hcon <;> omega
    · rintro ⟨⟨hlo, hhi⟩, hnone⟩
      rcases between_cover hspread hbound hlo hhi with ⟨c, hc, hcb⟩ | hgap
      · exact absurd hcb (hnone c hc)
      · exact hgap
  case free =>
    obtain ⟨w, hw, hn⟩ := hlisted.freeMemory_eq
    exact ⟨w, hw, by omega⟩
  case range => rw [hbits]
  case idle =>
    rw [hbits]
    exact hs.idle
  case unused =>
    rw [hmarks, hs.scans.marks]
    exact hm.released
  case ram =>
    intro b hlo hhi hnb hns
    have := h.eeprom_record
    have := h.space_high
    have := h.ordered.eeprom
    refine hagrees.peek b ⟨⟨by omega, hnb, hns⟩, fun g hg hgb => ?_⟩
    have := hgb.2
    have := (hgaps g hg).2.2.1
    omega
  case same =>
    have h1 := same_of_alike hp.alike
    have h2 := same_of_alike hm.alike
    have h3 := same_of_scans hs.scans
    exact ((h1.trans h2).trans h3).trans hsame

lemma collected_ends (hfits : BitRange.bitmapBytes S.space.start S.space.stop ≤ bits.body) :
    Ends (collect S.ram bits.oop stack.oop) s fun _ t => ∃ L, S.Collected s bits stack L t := by
  have hlt := h.lt
  obtain ⟨_, hbits⟩ := h.holds h.bits_mem
  obtain ⟨_, hstack⟩ := h.holds h.stack_mem
  obtain ⟨hb, hbn⟩ := h.bytes_eq h.bits_mem h.bits_body
  obtain ⟨hk, hkn⟩ := h.bytes_eq h.stack_mem h.stack_body
  obtain ⟨needed, hneeded, hnn⟩ := BitRange.bitmapSize_eq (Nat.le_of_lt hlt)
  have hstackSize : S.stackSize = stack.count * 4 :=
    UInt32.toNat_inj.1 (h.stackSize_eq.trans hkn.symm)
  refine .query_bind h.range (.read_bind hbits.elementCount (.except_bind hb
    (.except_bind hneeded ?_)))
  rw [if_neg fun hsmall => by
    have := UInt32.lt_iff_toNat_lt.1 hsmall
    omega]
  refine .read_bind hstack.elementCount (.except_bind hk (.bind h.unlist_ends ?_))
  rintro _ _ rfl
  refine .get_bind (.bind (h.bindBits_ends hfits hbn) ?_)
  rintro _ _ ⟨r, log, rfl, hbound⟩
  refine .bind (h.clearAllBits_ends hfits hbound) ?_
  intro _ t hp
  rw [← hstackSize, ← h.stack_eq]
  refine .bind (hp.ok h).mark_ends ?_
  intro _ u hm
  -- The live objects in their order.
  classical
  have hL : ∀ c, c ∈ S.cells.filter (fun c => decide (S.Live s c)) ↔ S.Live s c := fun c => by
    rw [mem_filter, decide_eq_true_iff]
    exact ⟨And.right, fun hl => ⟨hl.mem, hl⟩⟩
  have hsub : (S.cells.filter fun c => decide (S.Live s c)).Sublist S.cells :=
    filter_sublist
  refine .bind (hp.ready h hm hsub hL).sweep_ends ?_
  intro _ v hs
  refine .next (.modify ?_)
  refine .modify_bind (.get_bind (.say fun log => ?_))
  exact ⟨_, hp.collected h hm hsub hL hs rfl ⟨rfl, rfl, rfl, rfl, rfl, rfl⟩ rfl rfl⟩

end

lemma fault_behind {x : Run α} {f : α → Run β} {a : α}
    (hx : Ends x s fun b t => b = a ∧ t = s) (hf : f a s = .error e t) :
    (x >>= f) s = .error e t := by
  obtain ⟨_, _, hr, rfl, rfl⟩ := hx
  show EStateM.bind x f _ = _
  simp only [EStateM.bind, hr, hf]

lemma fault_bind {x : Run α} {f : α → Run β}
    (hx : x s = .error e t) : (x >>= f) s = .error e t := by
  show EStateM.bind x f _ = _
  simp only [EStateM.bind, hx]

lemma fatal_eq (cause : FatalCause) (s : Store) :
    ∃ log, (fatal cause : Run α) s = .error (.fatal cause) (s.setLog log) := by
  obtain ⟨_, _, hr, log, rfl⟩ : Ends (say .error .machine fun _ => cause.message) s fun _ t =>
    ∃ log, t = s.setLog log := .say fun log => ⟨log, rfl⟩
  refine ⟨log, ?_⟩
  show EStateM.bind (say .error .machine fun _ => cause.message)
    (fun _ => (throw (.fatal cause) : Run α)) s = _
  simp only [EStateM.bind, hr]
  rfl

lemma collect_refused (h : S.Heap s bits stack)
    (hsmall : bits.body < BitRange.bitmapBytes S.space.start S.space.stop) :
    ∃ size needed log, collect S.ram bits.oop stack.oop s =
        .error (.fatal (.bitVectorTooSmall size needed)) (s.setLog log) ∧
      size.toNat = bits.body ∧
      needed.toNat = BitRange.bitmapBytes S.space.start S.space.stop := by
  obtain ⟨_, hbits⟩ := h.holds h.bits_mem
  obtain ⟨hb, hbn⟩ := h.bytes_eq h.bits_mem h.bits_body
  obtain ⟨needed, hneeded, hnn⟩ := BitRange.bitmapSize_eq (Nat.le_of_lt h.lt)
  have hlt : bits.count * 4 < needed := UInt32.lt_iff_toNat_lt.2 (by omega)
  obtain ⟨log, hlog⟩ := fatal_eq (.bitVectorTooSmall (bits.count * 4) needed) s
  refine ⟨bits.count * 4, needed, log, ?_, hbn, hnn⟩
  refine fault_behind (.query h.range ⟨rfl, rfl⟩) ?_
  refine fault_behind (.read hbits.elementCount ⟨rfl, rfl⟩) ?_
  refine fault_behind (.except hb ⟨rfl, rfl⟩) (fault_behind (.except hneeded ⟨rfl, rfl⟩) ?_)
  rw [if_pos hlt]
  exact fault_bind hlog

end Scene.Heap

/-- With a bit vector that is large enough, collection keeps the live objects as they are and lists
what lies between them; with one that is too small it stops before it changes anything. -/
theorem collection_keeps_live_and_lists_rest {S : Scene} {s : Store} {bits stack : Cell}
    (h : S.Heap s bits stack) :
    (BitRange.bitmapBytes S.space.start S.space.stop ≤ bits.body →
      Ends (collect S.ram bits.oop stack.oop) s fun _ t => ∃ L, S.Collected s bits stack L t) ∧
    (bits.body < BitRange.bitmapBytes S.space.start S.space.stop →
      ∃ size needed log, collect S.ram bits.oop stack.oop s =
          .error (.fatal (.bitVectorTooSmall size needed)) (s.setLog log) ∧
        size.toNat = bits.body ∧
        needed.toNat = BitRange.bitmapBytes S.space.start S.space.stop) :=
  ⟨h.collected_ends, h.collect_refused⟩

/-! ### A small store -/

open Sample

/-- In persistent memory three arrays of integers, of which the last is garbage; in RAM an array
that refers to the first, arrays of integers for the bits and for the mark stack, the original of
the second and an array that is too small for the bits. -/
def lentWords : List UInt32 := table [
  (2, [528]), (4, [560]), (8, [552]), (16, [0x01000100, 7]), (18, [0x01000100, 7]),
  (20, [0x01000100, 2]), (33, [628]), (40, [0x020000c0, 532, 656]), (43, [0x01000100, 0]),
  (45, [0x01000100, 0]), (47, [0x0100021e, 7]), (49, [0x00000100])] 0 50

def lentStore : Store := { store .sliding lentWords with
  eeprom := { start := 464, size := 96 }
  ram := { start := 560, size := 104 } }

def lentScene : Scene where
  space := { start := 528, stop := 560 }
  cells := [integerArray 532 1, integerArray 540 1, integerArray 548 1]
  ram := { start := 624, stop := 664 }
  young := [array 628 2, integerArray 640 1, integerArray 648 1, integerArray 656 1,
    integerArray 664 0]
  gone c := if c.oop = 656 then some 540 else none
  stack := 648
  stackSize := 4

lemma lent_size : lentStore.mem.size = 664 := size_words.trans (by decide)

lemma lent_word (k : Nat) : lentStore.mem.peekWord (464 + 4 * k) = lentWords.getD k 0 :=
  peekWord_ram k

lemma lent_legal {v : UInt32} (hv : v ∈ ([0, 532, 628, 656] : List UInt32)) :
    lentScene.Legal lentStore v := by
  have h : v = 0 ∨ v ∈ lentScene.cells.map Cell.oop ∨ v ∈ lentScene.young.map Cell.oop := by
    simp only [mem_cons, not_mem_nil, or_false] at hv
    rcases hv with rfl | rfl | rfl | rfl <;> decide
  rcases h with h0 | hm | hm
  · exact .inl h0
  · exact .inr (.inl (mem_map.1 hm))
  · exact .inr (.inr (.inl (mem_map.1 hm)))

section

variable {bits : Cell} (hb : bits ∈ [integerArray 640 1, integerArray 664 0])

include hb

lemma lent_spared {b : Nat} (hr : ¬ (496 ≤ b ∧ b < 500)) (h1 : ¬ (640 ≤ b ∧ b < 644))
    (h2 : ¬ (648 ≤ b ∧ b < 652)) : Spared lentStore bits (integerArray 648 1) b := by
  simp only [mem_cons, not_mem_nil, or_false] at hb
  refine ⟨hr, ?_, h2⟩
  rcases hb with rfl | rfl
  · exact h1
  · rintro ⟨h3, h4⟩
    exact absurd (Nat.lt_of_le_of_lt h3 h4) (Nat.lt_irrefl _)

lemma lent_readable {c : Cell}
    (hc : c ∈ lentScene.cells ∨ c ∈ lentScene.young ∧ lentScene.gone c = none) :
    c.Readable (Spared lentStore bits (integerArray 648 1)) lentStore.mem
      (lentScene.Legal lentStore) := by
  have hmem : c ∈ lentScene.cells ++ [array 628 2, integerArray 640 1, integerArray 648 1,
      integerArray 664 0] := by
    rcases hc with hc | ⟨hc, hg⟩
    · exact mem_append_left _ hc
    simp only [lentScene, mem_cons, not_mem_nil, or_false] at hc
    rcases hc with rfl | rfl | rfl | rfl | rfl
    · simp
    · simp
    · simp
    · exact absurd hg (by decide)
    · simp
  have typed : c.Typed Sample.fixed (.ofWords (Sample.rom ++ lentWords)) := by
    clear hc
    revert c
    simp [lentScene]
  have h : ∀ c ∈ lentScene.cells ++ [array 628 2, integerArray 640 1, integerArray 648 1,
        integerArray 664 0], Plain lentWords [0, 532, 628, 656] c ∧ 532 ≤ c.oop.toNat ∧
      c.oop.toNat = c.start + 4 ∧ c.start ≠ 640 ∧ c.start ≠ 648 ∧
      (c.shape = .primitive ∨ (c.oop.toNat = 628 ∧ c.stop = 636)) := by decide
  obtain ⟨plain, h1, h2, h3, h4, h5⟩ := h c hmem
  have := plain.1.1.2
  refine readable rfl plain typed
    (fun b hlt => lent_spared hb (by omega) (by omega) (by omega))
    (fun b hlo hhi => lent_spared hb (by omega) (by omega) (by omega)) (fun hs b hlo hhi => ?_)
    fun v => lent_legal
  rcases h5 with h5 | h5
  · exact absurd h5 hs
  · exact lent_spared hb (by omega) (by omega) (by omega)

lemma lent_heap : lentScene.Heap lentStore bits (integerArray 648 1) := by
  have hsize := lent_size
  have hmem : bits ∈ lentScene.young ∧ bits ≠ integerArray 648 1 ∧
      bits.body = 4 * bits.count.toNat := by
    simp only [mem_cons, not_mem_nil, or_false] at hb
    rcases hb with rfl | rfl
    · exact ⟨by simp [lentScene], fun h => absurd (congrArg Cell.oop h) (by decide), rfl⟩
    · exact ⟨by simp [lentScene], fun h => absurd (congrArg Cell.oop h) (by decide), rfl⟩
  constructor
  case recorded => exact ⟨by decide, by rw [hsize]; decide, by rw [hsize]; decide⟩
  case ordered => exact ⟨by decide, by decide, by decide⟩
  case ram_high => rw [hsize]; decide
  case idle => rfl
  case unused => rfl
  case range =>
    have word : ∀ {index : Int32} {j : Nat}, index.toInt = j → j < 16 →
        record .eeprom index lentStore = .ok (lentWords.getD j 0) := by
      intro index j hi hj
      have hp : Points (464 : UInt32) index (464 + 4 * j) :=
        .lit j hi ⟨by omega, rfl, by omega⟩
      rw [← lent_word]
      exact Memory.word_eq hp ⟨by omega, (by omega)⟩
    rw [Persistent.range, Query.bind_ok (word (j := 2) rfl (by omega)),
      Query.bind_ok (word (j := 4) rfl (by omega))]
    rfl
  case spread => decide
  case inside => decide
  case readable => exact fun c hl => lent_readable hb (.inl hl.mem)
  case tiles => decide
  case stays => exact fun c hc hg => lent_readable hb (.inr ⟨hc, hg⟩)
  case gone =>
    intro c e hc hg
    obtain ⟨rfl, rfl⟩ : c = integerArray 656 1 ∧ e = 540 := by
      simp only [lentScene, mem_cons, not_mem_nil, or_false] at hc
      rcases hc with rfl | rfl | rfl | rfl | rfl
      case inr.inr.inr.inl => exact ⟨rfl, (Option.some.inj hg).symm⟩
      all_goals
        cases hg
    refine ⟨?_, by decide, integerArray 540 1, by simp [lentScene], rfl, rfl⟩
    exact Laid.holds (c := { integerArray 656 1 with kind := 542 }) (by decide)
  case persistentRoots =>
    intro k hk h0
    have h : ∀ k < 8, k ≠ 0 → lentWords.getD (k + 8) 0 = 0 := by decide
    refine .inl ?_
    exact (lent_word (k + 8)).trans (h k hk h0)
  case roots =>
    intro k hk
    have h : ∀ k < 8, lentWords.getD (k + 32) 0 ∈ ([0, 532, 628, 656] : List UInt32) := by decide
    have ha : lentStore.ram.start.toNat + 4 * (k + 8) = 464 + 4 * (k + 32) := by
      show 560 + 4 * (k + 8) = _
      omega
    rw [recorded, ha, lent_word]
    exact lent_legal (h k hk)
  case bits_mem => exact hmem.1
  case stack_mem => simp [lentScene]
  case distinct => exact hmem.2.1
  case bits_body => exact hmem.2.2
  all_goals first | rfl | decide

end

theorem collection_keeps_live_and_lists_rest_sample :
    (lentScene.Heap lentStore (integerArray 640 1) (integerArray 648 1) ∧
      Ends (collect lentScene.ram 640 648) lentStore fun _ t =>
        ∃ L, lentScene.Collected lentStore (integerArray 640 1) (integerArray 648 1) L t) ∧
    lentScene.Heap lentStore (integerArray 664 0) (integerArray 648 1) ∧
      ∃ size needed log, collect lentScene.ram 664 648 lentStore =
        .error (.fatal (.bitVectorTooSmall size needed)) (lentStore.setLog log) :=
  have large : lentScene.Heap lentStore (integerArray 640 1) _ := lent_heap (by simp)
  have small : lentScene.Heap lentStore (integerArray 664 0) _ := lent_heap (by simp)
  have ⟨size, needed, log, h, _⟩ := (collection_keeps_live_and_lists_rest small).2 (by decide)
  ⟨⟨large, (collection_keeps_live_and_lists_rest large).1 (by decide)⟩, small, size, needed, log, h⟩

end Persistent

end DeviceVm
