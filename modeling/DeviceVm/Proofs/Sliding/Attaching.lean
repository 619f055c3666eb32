import DeviceVm.Collection.Sliding.Basic
import DeviceVm.Proofs.Sliding.Marking
import DeviceVm.Proofs.Stopping

/-!
RAM under the sliding collector. Behind the record of the segment come the objects, the reserve of
the mark stack and the bitmap. The bitmap grows with the object memory it is for; a first guess of
the size of that is corrected downwards and upwards until it is the largest that leaves room.
-/

namespace DeviceVm.Sliding

open Store Word UInt32 BitRange

/-- Bytes from `start` to the end of the bitmap, for `size` bytes of objects. The bitmap has a word
for every 128 bytes that the addresses from `start` to `start + size` touch. -/
def extent (start size : Nat) : Nat := size + 20 + 4 * ((start + size) / 128 - start / 128 + 1)

lemma extent_mono {start n n' : Nat} (h : n ≤ n') : extent start n ≤ extent start n' := by
  unfold extent
  omega

section

variable {start available size : UInt32} {fuel : Nat}

lemma sizeWithOverhead_eq (h : start.toNat + size.toNat < 33554432) :
    ∃ w, sizeWithOverhead start size = .ok w ∧ w.toNat = extent start.toNat size.toNat := by
  have : stackReserve.toNat = 20 := rfl
  have hsum : (start + size).toNat = start.toNat + size.toNat := toNat_plus (by omega)
  obtain ⟨w, hw, hn⟩ := bitmapSize_eq (show start.toNat ≤ (start + size).toNat by omega)
  rw [bitmapBytes, hsum] at hn
  have hr : (stackReserve + w).toNat = 20 + w.toNat := toNat_plus (by omega)
  refine ⟨size + (stackReserve + w), ?_, ?_⟩
  · simp only [sizeWithOverhead, plus_eq (show start.toNat + size.toNat < 4294967296 by omega), hw,
      plus_eq (show stackReserve.toNat + w.toNat < 4294967296 by omega), Bind.bind, Except.bind]
    exact plus_eq (by omega)
  · rw [toNat_plus (by omega), hr, extent]
    omega

/-- A heap of `size` bytes and its bitmap fit into what is available, or there is no heap. -/
def Allows (start available size : UInt32) : Prop :=
  size.toNat % 4 = 0 ∧ (size.toNat = 0 ∨ extent start.toNat size.toNat ≤ available.toNat)

lemma shrinkToFit_eq (h : start.toNat + size.toNat < 33554432) (h4 : size.toNat % 4 = 0)
    (hfuel : size.toNat < 4 * fuel) :
    ∃ r, shrinkToFit start available fuel size = .ok r ∧ Allows start available r := by
  induction fuel generalizing size with
  | zero => omega
  | succ fuel ih =>
    rw [shrinkToFit]
    by_cases h0 : size = 0
    · rw [if_pos (by simpa using h0)]
      exact ⟨size, rfl, h4, .inl (by rw [h0]; rfl)⟩
    have : size.toNat ≠ 0 := fun he => h0 (UInt32.toNat_inj.1 he)
    have := toNat_four
    obtain ⟨w, hw, hn⟩ := sizeWithOverhead_eq h
    rw [if_neg (by simpa using h0), hw]
    by_cases hle : w ≤ available
    · exact ⟨size, if_pos hle, h4, .inr (hn ▸ le_iff_toNat_le.1 hle)⟩
    have : (size - 4).toNat = size.toNat - 4 := toNat_minus (by omega)
    obtain ⟨r, hr, hallows⟩ := @ih (size - 4) (by omega) (by omega) (by omega)
    refine ⟨r, (if_neg hle).trans ?_, hallows⟩
    rw [minus_eq (by omega)]
    exact hr

lemma growToFit_eq (h : start.toNat + available.toNat < 16777216)
    (hsize : Allows start available size) (hfuel : available.toNat < size.toNat + 4 * fuel) :
    ∃ r, growToFit start available fuel size = .ok r ∧ Allows start available r ∧
      available.toNat < extent start.toNat (r.toNat + 4) := by
  induction fuel generalizing size with
  | zero =>
    have := hsize.2
    unfold extent at this
    omega
  | succ fuel ih =>
    have h44 := toNat_four
    have hle : size.toNat ≤ available.toNat := by
      have := hsize.2
      unfold extent at this
      omega
    have hsum : (size + 4).toNat = size.toNat + 4 := toNat_plus (by omega)
    obtain ⟨w, hw, hn⟩ := @sizeWithOverhead_eq start (size + 4) (by omega)
    rw [hsum] at hn
    rw [growToFit, plus_eq (by omega)]
    show ∃ r, (sizeWithOverhead start (size + 4) >>= _) = _ ∧ _
    rw [hw]
    by_cases hfits : w ≤ available
    · have := le_iff_toNat_le.1 hfits
      have h4 := hsize.1
      obtain ⟨r, hr, hgrown⟩ := @ih (size + 4) ⟨by omega, .inr (by rw [hsum]; omega)⟩ (by omega)
      exact ⟨r, (if_pos hfits).trans hr, hgrown⟩
    · have := mt le_iff_toNat_le.2 hfits
      exact ⟨size, if_neg hfits, hsize, by omega⟩

lemma objectMemorySize_eq (h : start.toNat + available.toNat < 16777216) :
    ∃ r, objectMemorySize start available = .ok r ∧ Allows start available r ∧
      available.toNat < extent start.toNat (r.toNat + 4) := by
  have h33 : (33 : UInt32).toNat = 33 := rfl
  have h32 : (32 : UInt32).toNat = 32 := rfl
  have hm : (0xfffffffc : UInt32).toNat = (2 ^ 30 - 1) <<< 2 := by decide
  generalize hg : minusSaturating available stackReserve / 33 * 32 &&& 0xfffffffc = guess
  have hguess : guess.toNat % 4 = 0 ∧ guess.toNat ≤ available.toNat := by
    have : (minusSaturating available stackReserve).toNat ≤ available.toNat := by
      rw [minusSaturating]
      split
      · rename_i hle
        rw [toNat_minus (le_iff_toNat_le.1 hle)]
        omega
      · exact Nat.zero_le _
    have hq : (minusSaturating available stackReserve / 33).toNat =
        (minusSaturating available stackReserve).toNat / 33 := by rw [UInt32.toNat_div, h33]
    have ht : (minusSaturating available stackReserve / 33 * 32).toNat =
        (minusSaturating available stackReserve).toNat / 33 * 32 := by
      rw [toNat_times (by rw [hq, h32]; omega), hq, h32]
    rw [← hg, UInt32.toNat_and, hm, and_highMask (UInt32.toNat_lt _), ht]
    omega
  obtain ⟨r, hr, hallows⟩ := @shrinkToFit_eq start available guess (available.toNat / 4 + 2)
    (by omega) hguess.1 (by omega)
  obtain ⟨r', hr', hgrown⟩ := @growToFit_eq start available r (available.toNat / 4 + 2) h hallows
    (by omega)
  refine ⟨r', ?_, hgrown⟩
  simp only [objectMemorySize, hg, hr, Bind.bind, Except.bind]
  exact hr'

end

/-! ### Attaching the collector -/

/-- A store over an image that no collector was attached to. -/
structure Unattached (s : Store) : Prop where
  start_aligned : s.ram.start.toNat % 4 = 0
  size_aligned : s.ram.size.toNat % 4 = 0
  record_le : 64 ≤ s.ram.size.toNat
  below : s.ram.start.toNat + s.ram.size.toNat < 16777216
  inside : s.ram.start.toNat + s.ram.size.toNat ≤ s.mem.size
  small : s.mem.size ≤ 16777216
  percent : 1 ≤ s.sliding.youngPercent.toNat ∧ s.sliding.youngPercent.toNat ≤ 100

/-- So many bytes of objects leave room for the reserve and the bitmap. -/
def HasRoom (s : Store) (size : Nat) : Prop :=
  size % 4 = 0 ∧ extent (s.ram.start.toNat + 64) size + 64 ≤ s.ram.size.toNat

/-- RAM in the order of its parts: the record, the objects, the reserve and the bitmap. -/
structure LaidOut (s t : Store) : Prop where
  start : (t.recorded 0).toNat = s.ram.start.toNat + 64
  room : HasRoom s (t.recorded 1).toNat
  largest : ∀ n, HasRoom s n → n ≤ (t.recorded 1).toNat
  large : 64 < (t.recorded 1).toNat
  /-- Every word address has a bit, which is clear, behind the reserve and in the segment. -/
  bits : ∀ a, a % 4 = 0 → low t ≤ a → a ≤ high t →
    (high t + 20 ≤ t.bits.range.wordOf a ∧
      t.bits.range.wordOf a + 4 ≤ s.ram.start.toNat + s.ram.size.toNat) ∧
    t.bits.range.holds t.mem a = false
  bits_inj : ∀ a b, a % 4 = 0 → b % 4 = 0 → t.bits.range.wordOf a = t.bits.range.wordOf b →
    a / 4 % 32 = b / 4 % 32 → a = b
  partition : t.recorded 2 = t.recorded 0 ∧ t.recorded 3 = t.recorded 0 ∧
    low t ≤ (t.recorded 4).toNat ∧ (t.recorded 4).toNat ≤ high t
  barrier : t.barrier = true
  ram : t.ram = s.ram

variable {s t : Store} {start size : UInt32}

abbrev sizedStore (s : Store) (start size : UInt32) : Store :=
  (s.setRecorded 0 start).setRecorded 1 size

lemma recorded_sized (h : s.Recorded) (start size : UInt32) :
    (sizedStore s start size).recorded 0 = start ∧
      (sizedStore s start size).recorded 1 = size := by
  have h0 := h.setRecorded 0 start
  rw [h0.recorded_setRecorded (by omega), h0.recorded_setRecorded (by omega),
    h.recorded_setRecorded (by omega)]
  exact ⟨rfl, rfl⟩

namespace Unattached

lemma has_record (h : Unattached s) : s.Recorded :=
  ⟨h.start_aligned, (Nat.add_le_add_left h.record_le _).trans h.inside, h.small⟩

/-- The heap begins behind the record and is the largest that has room. -/
structure Sized (s : Store) (start size : UInt32) : Prop where
  start : start.toNat = s.ram.start.toNat + 64
  room : size.toNat = 0 ∨ HasRoom s size.toNat
  largest : ∀ n, HasRoom s n → n ≤ size.toNat

/-- The store with the bounds of the heap written and a bitmap without bits. -/
structure Prepared (s : Store) (start size : UInt32) (t : Store) : Prop where
  recorded : t.Recorded
  ram : t.ram = s.ram
  start_eq : t.recorded 0 = start
  size_eq : t.recorded 1 = size
  bound : t.bits.range.Bound start (start + size) (start + size + stackReserve)
  clear : ∀ a, t.bits.range.Spans a → t.bits.range.holds t.mem a = false
  percent : t.sliding.youngPercent = s.sliding.youngPercent

lemma Prepared.tuned (h : Prepared s start size t) (barrier : Bool) (idealYoung : UInt32) :
    Prepared s start size { t with barrier, sliding := { t.sliding with idealYoung } } :=
  ⟨⟨h.recorded.aligned, h.recorded.inside, h.recorded.small⟩, h.ram, h.start_eq, h.size_eq,
    h.bound, h.clear, h.percent⟩

lemma sized (h : Unattached s) : ∃ start stop available size, s.ram.heapStart = .ok start ∧
    s.ram.stop = .ok stop ∧ minus stop start = .ok available ∧
      objectMemorySize start available = .ok size ∧ Sized s start size := by
  have : SegmentRecord.bytes.toNat = 64 := rfl
  have := h.below
  have := h.record_le
  have hstop : (s.ram.start + s.ram.size).toNat = s.ram.start.toNat + s.ram.size.toNat :=
    toNat_plus (by omega)
  have hstart : (s.ram.start + SegmentRecord.bytes).toNat = s.ram.start.toNat + 64 :=
    toNat_plus (by omega)
  have hle : (s.ram.start + SegmentRecord.bytes).toNat ≤ (s.ram.start + s.ram.size).toNat := by
    omega
  obtain ⟨size, hsize, ⟨h4, hfit⟩, hlarge⟩ := @objectMemorySize_eq
    (s.ram.start + SegmentRecord.bytes)
    (s.ram.start + s.ram.size - (s.ram.start + SegmentRecord.bytes))
    (by rw [toNat_minus] <;> omega)
  rw [toNat_minus (by omega), hstop, hstart] at hfit hlarge
  refine ⟨_, _, _, size, plus_eq (by omega), plus_eq (by omega), minus_eq hle, hsize, hstart,
    ?_, ?_⟩
  · exact hfit.imp_right fun hfit => ⟨h4, by omega⟩
  · rintro n ⟨hn, hroom⟩
    by_contra hlt
    have := @extent_mono (s.ram.start.toNat + 64) (size.toNat + 4) n (by omega)
    omega

section

variable (h : Unattached s) (hs : Sized s start size) (hlarge : 64 < size.toNat)
include h hs hlarge

lemma toNat_stop : (start + size).toNat = start.toNat + size.toNat ∧
    (start + size + stackReserve).toNat = start.toNat + size.toNat + 20 ∧
    start.toNat + size.toNat + 20 + bitmapBytes start (start + size) ≤
      s.ram.start.toNat + s.ram.size.toNat := by
  have hroom := (hs.room.resolve_left (by omega)).2
  have h20 : stackReserve.toNat = 20 := rfl
  have := h.below
  rw [extent, ← hs.start] at hroom
  have := hs.start
  have hsum : (start + size).toNat = start.toNat + size.toNat := toNat_plus (by omega)
  refine ⟨hsum, ?_, ?_⟩
  · rw [toNat_plus (by omega), hsum, h20]
  · rw [bitmapBytes, hsum]
    omega

lemma laidOut (hp : Prepared s start size t) (hbarrier : t.barrier = true) {stop : UInt32}
    (hlo : start.toNat ≤ stop.toNat) (hhi : stop.toNat ≤ start.toNat + size.toNat) (log : Log) :
    LaidOut s ((((t.setRecorded 2 start).setRecorded 3 start).setRecorded 4 stop).setLog log) := by
  obtain ⟨hsum, hbitmap, hend⟩ := h.toNat_stop hs hlarge
  have hstart := hs.start
  have := hp.bound.low
  have := hp.bound.base
  rw [bitmapBytes, hsum] at hend
  generalize hu : (((t.setRecorded 2 start).setRecorded 3 start).setRecorded 4 stop).setLog log = u
  have hbits : u.bits = t.bits := by rw [← hu]; rfl
  have hrec : ∀ j, u.recorded j = if j = 4 then stop else if j = 3 then start else
      if j = 2 then start else t.recorded j := by
    intro j
    have h2 := hp.recorded.setRecorded 2 start
    rw [← hu]
    show (((t.setRecorded 2 start).setRecorded 3 start).setRecorded 4 stop).recorded j = _
    rw [(h2.setRecorded 3 start).recorded_setRecorded (by omega),
      h2.recorded_setRecorded (by omega), hp.recorded.recorded_setRecorded (by omega)]
  have hkeep : Memory.Agrees (fun b => start.toNat ≤ b) t.mem u.mem := by
    have hfar : ∀ j < 16, ∀ b, start.toNat ≤ b → b < t.ram.start.toNat + 4 * j ∨
        t.ram.start.toNat + 4 * j + 4 ≤ b := by
      rw [hp.ram]
      omega
    rw [← hu]
    exact (((Memory.Agrees.refl t.mem).pokeWord (hfar 2 (by omega))).pokeWord
      (hfar 3 (by omega))).pokeWord (hfar 4 (by omega))
  have h0 : u.recorded 0 = start := (hrec 0).trans hp.start_eq
  have h1 : u.recorded 1 = size := (hrec 1).trans hp.size_eq
  have hhigh : high u = start.toNat + size.toNat := by rw [high, h0, h1]
  refine ⟨by rw [h0, hstart], ?_, by rw [h1]; exact hs.largest, by rw [h1]; exact hlarge,
    ?_, ?_, ?_, ?_, ?_⟩
  · rw [h1]
    exact hs.room.resolve_left (by omega)
  · intro a ha hla hah
    rw [low, h0] at hla
    rw [hhigh] at hah ⊢
    have hw : start.toNat + size.toNat + 20 ≤ t.bits.range.wordOf a := by
      rw [wordOf]
      omega
    rw [hbits]
    refine ⟨⟨hw, ?_⟩, ?_⟩
    · rw [wordOf]
      omega
    · rw [holds_congr hkeep.order fun i _ => hkeep.peek _ (by omega)]
      exact hp.clear a ⟨ha, by omega, by rw [hp.bound.high, hsum]; exact hah⟩
  · intro a b ha hb hw he
    rw [wordOf, wordOf] at hw
    omega
  · rw [hhigh, low, h0, hrec 2, hrec 3, hrec 4]
    exact ⟨rfl, rfl, hlo, hhi⟩
  · rw [← hu]
    exact hbarrier
  · rw [← hu]
    exact hp.ram

lemma bindBits_ends {w : UInt32} (hw : w.toNat = bitmapBytes start (start + size)) :
    Ends (bindBits start (start + size) (start + size + stackReserve) w)
      (sizedStore s start size) fun _ t =>
        Ends clearAllBits t fun _ u => Prepared s start size u := by
  obtain ⟨hsum, hbitmap, hend⟩ := h.toNat_stop hs hlarge
  have := hs.start
  have := h.below
  have := h.inside
  have := h.start_aligned
  have := (hs.room.resolve_left (by omega)).1
  obtain ⟨r, hbind, hb⟩ := @bind_eq start (start + size) (start + size + stackReserve) w
    (by omega) (by omega) (by omega) (by omega) (by omega)
  have hr : (sizedStore s start size).Recorded :=
    (h.has_record.setRecorded 0 start).setRecorded 1 size
  obtain ⟨h0, h1⟩ := recorded_sized h.has_record start size
  have hsize : (sizedStore s start size).mem.size = s.mem.size :=
    (Memory.size_pokeWord ..).trans (Memory.size_pokeWord ..)
  have hram : (sizedStore s start size).ram = s.ram := rfl
  have hp : (sizedStore s start size).sliding = s.sliding := rfl
  generalize sizedStore s start size = v at hr h0 h1 hsize hram hp
  refine .except_bind hbind (.modify_bind (.say fun log => .get_bind ?_))
  have := hb.low
  have hlast := hb.high
  have : r.wordOf r.last.toNat + 4 ≤ s.ram.start.toNat + s.ram.size.toNat := by
    rw [bitmapBytes, hsum] at hend
    have := hb.base
    rw [wordOf, hlast]
    omega
  obtain ⟨n, hn, hnsize, hord, hpeek, hclear⟩ := @clearAll_ok r v.mem (by omega) (by omega)
    (by rw [hlast]; omega)
  have hkeep : Memory.Agrees (fun b => b < start.toNat) v.mem n :=
    ⟨hnsize, hord, fun b hb' => hpeek b fun hc => by have := (hb.covers hc).1; omega⟩
  have hwords : ∀ j < 16, n.peekWord (v.ram.start.toNat + 4 * j) = v.recorded j := by
    intro j hj
    exact hkeep.peekWord _ fun i hi => by rw [hram]; omega
  exact .edit hn ⟨⟨hr.aligned, hr.inside.trans_eq hnsize.symm, hnsize.trans_le hr.small⟩, hram,
    (hwords 0 (by omega)).trans h0, (hwords 1 (by omega)).trans h1, hb, hclear, congrArg _ hp⟩

lemma setIdealYoung_ends (hp : Prepared s start size t) : Ends setIdealYoung t fun _ u =>
    ∃ idealYoung : UInt32, idealYoung.toNat < 16777216 ∧
      u = { t with sliding := { t.sliding with idealYoung } } := by
  have hperc : t.sliding.youngPercent.toNat ≤ 100 := by
    rw [hp.percent]
    exact h.percent.2
  have := (h.toNat_stop hs hlarge).2.2
  have := h.below
  refine .get_bind ?_
  by_cases hm : t.sliding.minimumHeap
  · rw [if_pos hm]
    exact .modify_bind (.pure ⟨16, by decide, rfl⟩)
  · have h100 : (100 : UInt32).toNat = 100 := rfl
    have : (size / 100).toNat = size.toNat / 100 := by rw [UInt32.toNat_div, h100]
    have : (size / 100).toNat * t.sliding.youngPercent.toNat ≤ size.toNat :=
      (Nat.mul_le_mul_left _ hperc).trans (by omega)
    have hsize : memorySize t = .ok size :=
      (hp.recorded.record_eq (j := 1) rfl (by omega)).trans (congrArg _ hp.size_eq)
    rw [if_neg hm]
    refine .query_bind hsize (.except_bind (times_eq (by omega)) ?_)
    exact .modify_bind (.pure ⟨_, (toNat_times (by omega)).trans_lt (by omega), rfl⟩)

end

end Unattached

/-- The collector is attached and RAM laid out for it, or no object memory of over 64 bytes has
room. -/
theorem attach_lays_out (h : Unattached s) : Stops (attach true) s (fun _ t => LaidOut s t)
    fun f _ => f = .fatal (.ramTooSmallForSliding s.ram.size) ∧ ∀ n, HasRoom s n → n ≤ 64 := by
  obtain ⟨start, ramStop, available, size, hstart, hstop, hav, hsize, hs⟩ := h.sized
  have h64 : (64 : UInt32).toNat = 64 := rfl
  have h20 : stackReserve.toNat = 20 := rfl
  have := h.below
  have hroom := hs.room
  have := hs.start
  rw [HasRoom, extent] at hroom
  have hsum : (start + size).toNat = start.toNat + size.toNat := toNat_plus (by omega)
  have hr := h.has_record
  have hr0 := hr.setRecorded 0 start
  have hr1 := hr0.setRecorded 1 size
  obtain ⟨h0, h1⟩ := recorded_sized hr start size
  have hend := hr1.memoryEnd_eq (by rw [h0, h1]; omega)
  rw [h0, h1] at hend
  obtain ⟨w, hw, hwn⟩ := @bitmapSize_eq start (start + size) (by omega)
  have hbytes := hwn
  rw [bitmapBytes, hsum] at hbytes
  have hbitmap : (start + size + stackReserve).toNat = start.toNat + size.toNat + 20 := by
    rw [toNat_plus (by omega), hsum, h20]
  rw [attach]
  refine .get_bind ?_
  rw [if_pos rfl]
  refine .except_bind hstart (.except_bind hstop (.except_bind hav (.except_bind hsize ?_)))
  refine .after (Q := fun _ t => t = s.setRecorded 0 start)
    (hr.setRecord_ends (j := 0) rfl (by omega) rfl) fun _ t ht => ?_
  subst ht
  refine .after (Q := fun _ t => t = sizedStore s start size)
    (hr0.setRecord_ends (j := 1) rfl (by omega) rfl) fun _ t ht => ?_
  subst ht
  refine .query_bind ((hr1.record_eq (j := 0) rfl (by omega)).trans (congrArg _ h0)) ?_
  refine .query_bind hend ?_
  refine .query_bind (a := start + size + stackReserve) ?_ ?_
  · rw [bitmapAddress, Query.bind_ok hend]
    exact plus_eq (by omega)
  refine .except_bind hw (.except_bind (plus_eq (by omega)) ?_)
  have hle : start + size ≤ start + 64 ↔ size.toNat ≤ 64 := by
    rw [le_iff_toNat_le, hsum, toNat_plus (by omega), h64]
    omega
  by_cases hsmall : size.toNat ≤ 64
  · rw [if_pos (hle.mpr hsmall)]
    exact .bind (Q := fun _ _ => False)
      (.fatal fun log => ⟨rfl, fun n hn => (hs.largest n hn).trans hsmall⟩) fun _ _ h => h.elim
  have hlarge : 64 < size.toNat := by omega
  rw [if_neg (mt hle.mp hsmall)]
  refine .except_bind (plus_eq (by omega)) (.except_bind hstop ?_)
  rw [if_neg]
  · refine .after (h.bindBits_ends hs hlarge hwn) fun _ t ht => .after ht fun _ t ht => ?_
    refine .modify_bind (.after (h.setIdealYoung_ends hs hlarge (ht.tuned true _)) ?_)
    rintro _ _ ⟨ideal, hideal, rfl⟩
    have hu := ht.tuned true ideal
    obtain ⟨young, hround, hy⟩ := @roundUp4_eq ideal (by omega)
    have : (start + young).toNat = start.toNat + young.toNat := toNat_plus (by omega)
    have hmin : start ≤ min (start + young) (start + size) ∧
        min (start + young) (start + size) ≤ start + size := by
      rw [min_def]
      split <;> simp only [le_iff_toNat_le] at * <;> omega
    refine .get_bind ?_
    rw [if_pos rfl]
    refine .except_bind hround (.except_bind (plus_eq (by omega)) ?_)
    exact .of_ends (.next (hu.recorded.setPartition_ends (UInt32.le_refl _) hmin.1
      (.say fun log => h.laidOut hs hlarge hu rfl (le_iff_toNat_le.mp hmin.1)
        (hsum ▸ le_iff_toNat_le.mp hmin.2) log)))
  · have := toNat_of_plus hstop
    rw [gt_iff_lt, lt_iff_toNat_lt, toNat_plus (by omega), hbitmap]
    omega

def blankStore : Store := .ofMemory (.blank 512 .big) ⟨4, 64⟩ ⟨68, 64⟩ ⟨132, 380⟩ {} {}

/-- No more than 284 bytes of objects have room here. -/
theorem attach_lays_out_blank :
    Ends (attach true) blankStore fun _ t =>
      LaidOut blankStore t ∧ (t.recorded 1).toNat = 284 := by
  have hroom : HasRoom blankStore 284 := ⟨rfl, by decide⟩
  have hlast : ∀ n, HasRoom blankStore n → n ≤ 284 := by
    rintro n ⟨h4, hn⟩
    have : extent 196 n + 64 ≤ 380 := hn
    unfold extent at this
    omega
  have hsize : blankStore.mem.size = 512 := Array.size_replicate
  rcases attach_lays_out (s := blankStore) ⟨rfl, rfl, by decide, by decide, hsize ▸ by decide,
    hsize ▸ by decide, by decide, by decide⟩ with h | ⟨_, _, _, _, h⟩
  · exact h.mono fun _ t ht => ⟨ht, Nat.le_antisymm (hlast _ ht.room) (ht.largest _ hroom)⟩
  · exact absurd (h _ hroom) (by decide)

end DeviceVm.Sliding
