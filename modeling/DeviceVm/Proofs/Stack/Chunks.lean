import DeviceVm.Proofs.Allocation
import DeviceVm.Proofs.Stack.Saving

/-!
Chunks for frames. An allocation leaves a context as it is, whether it makes a chunk or is refused;
a chunk that was made, and a spare chunk of the context, can take the innermost frame.
-/

namespace DeviceVm.Stack

open List Memory Header Store Placement

variable {S : Scene} {s t : Store} {m : Machine} {mem : Memory} {w : Placement} {r : Room}
  {rs : List Room} {σ : Calls} {c : Call}

namespace Scene

/-! ### Allocations -/

variable {k chunk size : UInt32} {b : Nat}

lemma Ready.partition (h : S.Ready s) (ok : S.Ok) : s.Partition where
  __ := h
  recorded := h.recorded ok
  free_low := by
    rw [h.ram]
    exact h.free_low
  stop_le := by
    rw [h.size]
    exact h.stop_le

/-- What an allocation leaves as it was: the bytes in front of what was free, apart from the
record. -/
structure Later (s t : Store) : Prop extends s.Kept t where
  agrees : Agrees (fun b => (b < (s.recorded 3).toNat ∨ (t.recorded 3).toNat ≤ b) ∧
    (b < s.ram.start.toNat ∨ s.ram.start.toNat + 64 ≤ b)) s.mem t.mem
  aligned : (t.recorded 3).toNat % 4 = 0
  le : (s.recorded 3).toNat ≤ (t.recorded 3).toNat
  high : (t.recorded 3).toNat ≤ (s.recorded 4).toNat
  stop : t.recorded 4 = s.recorded 4

lemma Later.onward (h : Later s t) : s.Onward t := ⟨h.le, h.stop, h.bits, h.barrier⟩

lemma Ready.refused {size : Nat} (h : S.Ready s) (ht : s.Refused t size) : Later s t where
  toKept := ht.kept
  agrees := ht.agrees.mono fun b hb => by omega
  aligned := by
    rw [ht.record (by omega)]
    exact h.free_aligned
  le := by rw [ht.record (by omega)]
  high := by
    rw [ht.record (by omega)]
    exact h.free_le
  stop := ht.record (by omega)

lemma Ready.made (h : S.Ready s) (ht : s.Made t k chunk size) :
    Later s t where
  toKept := ht.toKept
  agrees := by
    rw [ht.free]
    exact ht.agrees
  aligned := by
    have := h.free_aligned
    have := bytes_cases size
    rw [ht.free, ht.first]
    omega
  le := by
    rw [ht.free, ht.first]
    omega
  high := by
    rw [ht.free]
    exact ht.fits
  stop := ht.record 4 (by omega) (by omega) (.inl (by omega))

lemma Ready.newChunk (h : S.Ready s) (ok : S.Ok) {words : UInt32} (low : 15 ≤ words.toNat) :
    Ends (newChunk words) s fun chunk t =>
      (chunk = 0 ∧ Later s t ∧ ∃ size : UInt32, words.toNat ≤ size.toNat ∧
        size.toNat ≤ max words.toNat 32 ∧ s.Short (bytes size + 4 * size.toNat)) ∨
      (chunk ≠ 0 ∧ ∃ size, s.Made t S.chunkClass chunk size ∧ words.toNat ≤ size.toNat) := by
  refine ((h.partition ok).newChunk_ends (ok.chunkClass _ h.rom h.eeprom h.ram h.agrees)
    (ok.element _ h.agrees) ok.chunkClass_aligned ok.chunkClass_lt fun _ => by omega).mono ?_
  rintro chunk t ⟨size, h1, h2, ⟨rfl, ht⟩ | ht⟩
  · exact .inl ⟨rfl, h.refused ht, size, h1, h2, ht.short⟩
  refine .inr ⟨?_, size, ht, h1⟩
  rintro rfl
  have := ht.first
  have := h.free_low
  have := UInt32.toNat_zero
  omega

lemma Ready.later (h : S.Ready s) (ok : S.Ok) (ht : Later s t) : S.Ready t := by
  have := ht.le
  have hhigh := ht.high
  have := h.free_low
  have hram := h.ram
  constructor
  case rom => exact ht.rom.trans h.rom
  case eeprom => exact ht.eeprom.trans h.eeprom
  case ram => exact ht.ram.trans h.ram
  case agrees =>
    refine h.agrees.trans (ht.agrees.mono fun b hb => ?_)
    have := h.fixed_free b hb
    have := ok.fixed_record b hb
    rw [hram]
    omega
  case collecting => exact ht.collecting.trans h.collecting
  case free_aligned => exact ht.aligned
  case free_low => omega
  case free_le =>
    rw [ht.stop]
    exact hhigh
  case stop_le =>
    rw [ht.stop]
    exact h.stop_le
  case fixed_free =>
    intro b hb
    have := h.fixed_free b hb
    rw [ht.stop]
    omega

lemma Holds.later (h : S.Holds s r) (ready : S.Ready s) (hb : r.Has b) :
    (b < (s.recorded 3).toNat ∨ (t.recorded 3).toNat ≤ b) ∧
      (b < s.ram.start.toNat ∨ s.ram.start.toNat + 64 ≤ b) := by
  have := h.high
  have := h.low
  have := hb.1
  have := hb.2
  rw [ready.ram]
  omega

lemma Rests.keeps_has (h : S.Rests s w) (hb : w.Keeps b) :
    ∃ r ∈ w.rooms, r.Has b := by
  have := h.holds.header
  have := w.room.stop_eq
  rcases hb with hb | hb | ⟨r, hr, hb⟩
  · exact ⟨w.room, mem_cons_self, by omega, by omega⟩
  · refine ⟨w.room, mem_cons_self, by omega, ?_⟩
    have hlp : w.lp = w.room.above w.inner := rfl
    cases hi : w.inner with
    | nil =>
      rw [hi] at hlp
      have : w.room.above [] = w.room.chunk.toNat + 40 := rfl
      omega
    | cons c cs =>
      have := h.inner.above_le (by simp [hi])
      omega
  · exact ⟨r, mem_cons_of_mem _ hr, hb⟩

lemma Rests.later (h : S.Rests s w) (ok : S.Ok) (ht : Later s t) : S.Rests t w := by
  refine h.agrees (h.ready.later ok ht) ht.le (ht.agrees.mono fun b hb => ?_)
  obtain ⟨r, hr, hb⟩ := h.keeps_has hb
  exact (h.rooms r hr).later h.ready hb

lemma At.later (h : S.At m w) (ok : S.Ok) (ht : Later m.store t) :
    S.At (m.setStore t) w where
  __ := h
  rests := h.rests.later ok ht
  last := by
    have := h.rests.holds.header
    have := w.room.stop_eq
    show t.mem.peekWord _ = 0
    rw [ht.agrees.peekWord _ fun i hi => h.rests.holds.later h.rests.ready ⟨by omega, by omega⟩]
    exact h.last

lemma Called.later (h : S.Called m w c) (hat : S.At m w) (ht : Later m.store t) :
    S.Called (m.setStore t) w c where
  __ := h
  toLies := by
    have := hat.lp_ge
    have := h.inside
    refine h.toLies.agrees ht.agrees (by omega) fun b hb => ?_
    exact hat.rests.holds.later hat.rests.ready ⟨by omega, by omega⟩

lemma Works.later (h : S.Works m w c) (hat : S.At m w) (ht : Later m.store t) :
    S.Works (m.setStore t) w c := by
  have := hat.lp_ge
  have := h.fits
  have := h.within
  have : w.lp % 4 = 0 := hat.rests.holds.above_aligned w.inner
  have := w.room.stop_eq
  have := hat.rests.holds.aligned
  have hkeep : ∀ b, w.room.chunk.toNat ≤ b → b < w.room.stop →
      (b < (m.store.recorded 3).toNat ∨ (t.recorded 3).toNat ≤ b) ∧
        (b < m.store.ram.start.toNat ∨ m.store.ram.start.toNat + 64 ≤ b) := fun b h1 h2 =>
    hat.rests.holds.later hat.rests.ready ⟨h1, h2⟩
  exact ⟨h.toEntered.agrees ht.agrees (by omega) fun b hb => hkeep b (by omega) (by omega),
    h.operands.agrees ht.agrees fun b hb hb' => hkeep b (by omega) (by omega), h.within, h.sp⟩

lemma Standing.later (h : S.Standing m σ w) (ok : S.Ok) (ht : Later m.store t) :
    S.Standing (m.setStore t) σ w := by
  cases he : σ.entered with
  | true =>
    exact (h.toAt.later ok ht).working h.callers h.cp he ((h.works he).later h.toAt ht)
  | false =>
    exact (h.toAt.later ok ht).called h.callers h.cp he ((h.called he).later h.toAt ht)

lemma Holds.recorded_link {j : Nat} {v : UInt32} (h : S.Holds s r) (ready : S.Ready s)
    (hmem : s.mem.pokeWord (r.chunk.toNat + 4) v = mem) (hj : j < 16) :
    (s.setMem mem).recorded j = s.recorded j := by
  have := h.low
  rw [recorded, recorded, setMem_mem, setMem_ram, ready.ram, ← hmem]
  exact peekWord_pokeWord_apart _ (by omega)

/-! ### Chunks that can be had -/

/-- The chunk `r` is free to take over, with the spare chunks `rs` behind it. -/
structure Offers (S : Scene) (s : Store) (w : Placement) (r : Room) (rs : List Room) : Prop where
  holds : ∀ x ∈ r :: rs, S.Holds s x
  apart : (w.rooms ++ r :: rs).Pairwise Room.Apart
  spare : Spare s.mem (s.mem.peekWord (r.chunk.toNat + 4)) rs

lemma Rests.dropSpares (h : S.Rests s w)
    (hmem : s.mem.pokeWord (w.room.chunk.toNat + 4) 0 = mem) :
    S.Rests (s.setMem mem) { w with spares := [] } := by
  have hh := h.holds
  have := hh.header
  have := w.room.stop_eq
  have := hh.high
  have := h.ready.bounds
  have hagr : Agrees (fun b => b < w.room.chunk.toNat + 4 ∨ w.room.chunk.toNat + 8 ≤ b)
      s.mem mem := by
    rw [← hmem]
    exact .poked fun b hb => by omega
  have hready : S.Ready (s.setMem mem) := by
    refine h.ready.write hagr (fun b hb => ?_) fun b _ hb => ?_
    · have := hh.fixed b hb
      omega
    · have := hh.low
      omega
  have hfree' := hh.recorded_link (j := 3) h.ready hmem (by omega)
  have hsub : List.Sublist (Placement.rooms { w with spares := [] }) w.rooms := by
    refine Sublist.cons_cons _ ?_
    rw [others, others, append_nil]
    exact sublist_append_left _ _
  have apart : ∀ t ∈ w.below, w.room.Apart t.room := fun t ht =>
    rel_of_pairwise_cons h.apart (mem_append_left _ (mem_map_of_mem ht))
  have below : ∀ t ∈ w.below, S.Holds s t.room := fun t ht =>
    h.rooms _ (mem_cons_of_mem _ (mem_append_left _ (mem_map_of_mem ht)))
  constructor
  case ready => exact hready
  case rooms =>
    intro r hr
    refine (h.rooms r (hsub.subset hr)).agrees hagr (fun b hb hb' => ?_) (by rw [hfree'])
    rcases mem_cons.1 (hsub.subset hr) with rfl | hr
    · omega
    · have ha := rel_of_pairwise_cons h.apart hr
      have := (h.rooms r (mem_cons_of_mem _ hr)).header
      have : r.stop = r.chunk.toNat + 4 * r.words := rfl
      rw [Room.Apart] at ha
      omega
  case apart => exact h.apart.sublist hsub
  case inner => exact h.inner.agrees hagr fun b hb _ => by omega
  case below =>
    refine h.below.agrees hagr (fun t ht => (below t ht).header) (fun b hb _ => by omega)
      fun t ht b hb => ?_
    have ha := apart t ht
    have := hb.1
    have := hb.2
    rw [Room.Apart] at ha
    omega
  case spares =>
    rw [← hmem]
    exact peekWord_pokeWord_self 0 (by omega)

lemma Rests.offers_spare (h : S.Rests s w) (hw : w.spares = r :: rs)
    (hmem : s.mem.pokeWord (w.room.chunk.toNat + 4) 0 = mem) :
    S.Offers (s.setMem mem) { w with spares := [] } r rs := by
  have hh := h.holds
  have := hh.header
  have hagr : Agrees (fun b => b < w.room.chunk.toNat + 4 ∨ w.room.chunk.toNat + 8 ≤ b)
      s.mem mem := by
    rw [← hmem]
    exact .poked fun b hb => by omega
  have hfree' := hh.recorded_link (j := 3) h.ready hmem (by omega)
  have := w.room.stop_eq
  have hmem' : ∀ x ∈ r :: rs, x ∈ w.others := fun x hx => by
    rw [others, hw]
    exact mem_append_right _ hx
  have hx5 : ∀ x ∈ r :: rs, 5 ≤ x.words := fun x hx =>
    (h.rooms x (mem_cons_of_mem _ (hmem' x hx))).header
  have far : ∀ x ∈ r :: rs, ∀ b, x.Has b →
      b < w.room.chunk.toNat + 4 ∨ w.room.chunk.toNat + 8 ≤ b := by
    intro x hx b hb
    have ha := rel_of_pairwise_cons h.apart (hmem' x hx)
    have := hb.1
    have := hb.2
    rw [Room.Apart] at ha
    omega
  have hspares := h.spares
  rw [hw] at hspares
  constructor
  case holds =>
    intro x hx
    have := hx5 x hx
    refine (h.rooms x (mem_cons_of_mem _ (hmem' x hx))).agrees hagr
      (fun b hb hb' => far x hx b ⟨by omega, ?_⟩) (by rw [hfree'])
    rw [Room.stop]
    omega
  case apart =>
    have : Placement.rooms { w with spares := [] } ++ r :: rs = w.rooms := by
      rw [Placement.rooms, Placement.others, Placement.rooms, Placement.others, hw, List.append_nil,
        cons_append]
    rw [this]
    exact h.apart
  case spare =>
    have := hx5 r mem_cons_self
    show Spare mem (mem.peekWord (r.chunk.toNat + 4)) rs
    rw [hagr.peekWord _ fun i hi => far r mem_cons_self _ ⟨by omega, by rw [Room.stop]; omega⟩]
    exact hspares.2.2.agrees hagr (fun x hx => hx5 x (mem_cons_of_mem _ hx)) fun x hx =>
      far x (mem_cons_of_mem _ hx)

lemma Ready.holds_new (h : S.Ready s) (ht : s.Made t k chunk size)
    (header : 5 ≤ size.toNat) : S.Holds t ⟨chunk, size.toNat⟩ := by
  have := ht.first
  have := ht.fits
  have := h.free_low
  have := bytes_cases size
  have := h.free_aligned
  constructor
  case aligned =>
    show chunk.toNat % 4 = 0
    omega
  case low =>
    show _ ≤ chunk.toNat
    omega
  case high => exact Nat.le_of_eq ht.free.symm
  case header => exact header
  case fixed =>
    intro b hb
    have := h.fixed_free b hb
    show b < chunk.toNat ∨ chunk.toNat + 4 * size.toNat ≤ b
    omega
  case size =>
    rw [ht.words 12 (by omega) (by omega) (by omega), if_pos rfl]

lemma Rests.offers_new (h : S.Rests s w) (ht : s.Made t k chunk size)
    (header : 5 ≤ size.toNat) : S.Offers t w ⟨chunk, size.toNat⟩ [] := by
  have := ht.first
  constructor
  case holds =>
    intro x hx
    obtain rfl := mem_singleton.1 hx
    exact h.ready.holds_new ht header
  case apart =>
    refine pairwise_append.2 ⟨h.apart, pairwise_singleton _ _, fun x hx y hy => ?_⟩
    obtain rfl := mem_singleton.1 hy
    have := (h.rooms x hx).high
    left
    show x.stop ≤ chunk.toNat
    omega
  case spare =>
    show t.mem.peekWord (chunk.toNat + 4) = 0
    rw [ht.words 4 (by omega) (by omega) (by omega), if_neg (by omega)]

end Scene

end DeviceVm.Stack
