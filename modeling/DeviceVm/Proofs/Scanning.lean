import DeviceVm.Proofs.Bits

/-!
Ranges of bits. A range is cleared at once, where a bitmap word lies in it whole a word at a time; a
scan goes through its set bits one at a time, and the memory may change between its steps.
-/

namespace DeviceVm

open BitRange Word Read UInt32

namespace BitVector

/-- The addresses that a scan still gives, the one it is at first. The steps it takes find the
memories `mems`. -/
def Gives (v : BitVector) (mems : Nat → Memory) : List UInt32 → Prop
  | [] => v.scan.current = 0
  | p :: ps => p ≠ 0 ∧ v.scan.current = p ∧
    ∃ w, v.advance (mems 0) = .ok w ∧ w.Gives (fun i => mems (i + 1)) ps

/-- The addresses `ps` ascend, and are those from `lo` up to `stop` whose bit is set in the memory
of the step that comes to them: the step behind the last address given below. -/
structure Picks (r : BitRange) (mems : Nat → Memory) (lo stop : Nat) (ps : List UInt32) :
    Prop where
  ascending : ps.Pairwise (· < ·)
  mem_iff : ∀ a, a ∈ ps ↔ (a.toNat % 4 = 0 ∧ lo ≤ a.toNat ∧ a.toNat < stop) ∧
    r.holds (mems (ps.countP (· < a))) a.toNat = true

variable {r : BitRange} {mems : Nat → Memory} {lo stop : Nat}

lemma Picks.nil (h : Found r (mems 0) lo stop stop) : Picks r mems lo stop [] where
  ascending := .nil
  mem_iff a := by
    refine ⟨fun ha => absurd ha List.not_mem_nil, ?_⟩
    rintro ⟨⟨h4, hlo, hlt⟩, hset⟩
    rw [List.countP_nil, h.clear _ h4 hlo hlt] at hset
    exact absurd hset Bool.false_ne_true

lemma Picks.cons {p : UInt32} {ps : List UInt32} (h : Found r (mems 0) lo stop p.toNat)
    (hp : p.toNat < stop) (hps : Picks r (fun i => mems (i + 1)) (p.toNat + 4) stop ps) :
    Picks r mems lo stop (p :: ps) := by
  have above : ∀ a ∈ ps, p < a := fun a ha => by
    have := ((hps.mem_iff a).1 ha).1.2.1
    exact lt_iff_toNat_lt.2 (by omega)
  refine ⟨List.pairwise_cons.2 ⟨above, hps.ascending⟩, fun a => ?_⟩
  have := h.aligned
  have := h.low
  -- Up to the first address the step is the one that gives it, behind it one of the others.
  by_cases hlt : p < a
  · have := lt_iff_toNat_lt.1 hlt
    have hne : a ≠ p := fun he => by rw [he] at this; omega
    rw [List.mem_cons, or_iff_right hne, hps.mem_iff a,
      List.countP_cons_of_pos (by simpa using hlt)]
    refine and_congr_left fun _ => ⟨fun h => ?_, fun h => ?_⟩ <;> omega
  have hle : a.toNat ≤ p.toNat := by
    have := mt lt_iff_toNat_lt.2 hlt
    omega
  have hnone : (p :: ps).countP (· < a) = 0 := by
    refine List.countP_eq_zero.2 fun q hq => ?_
    have hpq : p.toNat ≤ q.toNat := by
      rcases List.mem_cons.1 hq with rfl | hq
      · exact Nat.le_refl _
      · exact Nat.le_of_lt (lt_iff_toNat_lt.1 (above q hq))
    rw [decide_eq_true_iff, lt_iff_toNat_lt]
    omega
  have hout : a ∉ ps := fun ha => hlt (above a ha)
  rw [hnone, List.mem_cons, or_iff_left hout]
  constructor
  · rintro rfl
    exact ⟨by omega, h.set hp⟩
  · rintro ⟨⟨h4, hlo, -⟩, hset⟩
    by_contra hne
    have hne : a.toNat ≠ p.toNat := fun he => hne (UInt32.toNat_inj.1 he)
    rw [h.clear _ h4 hlo (by omega)] at hset
    exact absurd hset Bool.false_ne_true

/-- The scan is going to look at the addresses from `lo` to `stop`, all of which have a bit. -/
structure Ahead (v : BitVector) (lo stop : Nat) : Prop where
  active : v.scan.active = true
  cursor : v.scan.cursor.toNat = lo
  stop_eq : v.scan.stop.toNat = stop
  low : v.range.first.toNat ≤ lo
  le : lo ≤ stop
  high : stop ≤ v.range.last.toNat + 4
  aligned : lo % 4 = 0
  stop_aligned : stop % 4 = 0

lemma Ahead.advance_gives {v : BitVector} (h : v.Ahead lo stop)
    (hr : ∀ i, v.range.Lies (mems i).size) :
    ∃ w ps, v.advance (mems 0) = .ok w ∧ w.Gives (fun i => mems (i + 1)) ps ∧
      Picks v.range mems lo stop ps := by
  -- The scan has fewer words ahead of it after each step.
  induction hn : stop - lo using Nat.strong_induction_on generalizing v mems lo with
  | _ n ih =>
    have := h.low
    have := h.high
    obtain ⟨p, next, hadv, hfound, hat⟩ := @advanceWithin_ok _ _ v.scan.cursor (hr 0) _ h.active
      (by rw [h.cursor]; exact h.aligned) (by rw [h.cursor]; exact h.low)
      (by rw [h.stop_eq]; exact h.stop_aligned) (by rw [h.cursor, h.stop_eq]; exact h.le)
      (by rw [h.stop_eq]; exact h.high) v.range.scanBound
      (by rw [h.cursor, h.stop_eq, scanBound]; omega)
    rw [h.cursor, h.stop_eq] at hfound
    rw [h.stop_eq] at hat
    have hw : v.advance (mems 0) = .ok { v with scan := next } := by
      rw [advance, bind_ok hadv]
      rfl
    have := hfound.low
    have := hfound.aligned
    obtain ⟨active, hstop, ⟨rfl, hcur⟩ | ⟨hlt, hcur, hcursor⟩⟩ := hat
    · exact ⟨_, [], hw, hcur, .nil hfound⟩
    have hahead : BitVector.Ahead { v with scan := next } (p + 4) stop :=
      ⟨active, hcursor, hstop, by show v.range.first.toNat ≤ _; omega, by
        have := h.stop_aligned
        omega, h.high, by omega, h.stop_aligned⟩
    obtain ⟨u, ps, hu, hgives, hpicks⟩ := ih (stop - (p + 4)) (by omega) hahead
      (fun i => hr (i + 1)) rfl
    have hne : next.current ≠ 0 := fun h0 => by
      have := (hr 0).first_pos
      rw [h0, UInt32.toNat_zero] at hcur
      omega
    subst hcur
    exact ⟨_, next.current :: ps, hw, ⟨hne, rfl, u, hu, hgives⟩, .cons hfound hlt hpicks⟩

end BitVector

/-! ### Ranges of a bound vector -/

lemma BitRange.Bound.lies {r : BitRange} {first last bitmap size : UInt32}
    (h : BitRange.bind first last bitmap size = .ok r) (low : 128 ≤ first.toNat)
    (high : last.toNat < 4294967168) {bytes : Nat} (hs : bitmap.toNat + size.toNat ≤ bytes) :
    r.Lies bytes := by
  obtain ⟨hb, hw, hlt⟩ := bound_of_bind h
  have := hb.low
  exact ⟨by omega, hb.base_aligned, by rw [hb.high]; omega, by rw [hb.high]; omega,
    by rw [hb.high]; exact high⟩

/-- Clearing the bits behind `before` up to `stop` clears these and nothing else, and a scan of them
gives, in ascending order, those that are set when it comes to them. -/
theorem BitVector.range_cleared_and_scanned {v : BitVector} {first last bitmap size : UInt32}
    (bound : BitRange.bind first last bitmap size = .ok v.range) (low : 128 ≤ first.toNat)
    (high : last.toNat < 4294967168) {before stop : UInt32} (before_aligned : before.toNat % 4 = 0)
    (stop_aligned : stop.toNat % 4 = 0) (le : before.toNat ≤ stop.toNat)
    (inside : v.range.first.toNat ≤ before.toNat ∧ stop.toNat ≤ last.toNat) :
    (∀ m : Memory, bitmap.toNat + size.toNat ≤ m.size →
      (∀ a, v.range.Spans a.toNat → v.range.test a m = .ok (v.range.holds m a.toNat)) ∧
      ∃ n, v.range.clearRange before stop m = .ok () n ∧
        v.range.Cleared m n (before.toNat + 4) stop.toNat) ∧
    (v.scan.active = false → ∀ mems : Nat → Memory,
      (∀ i, bitmap.toNat + size.toNat ≤ (mems i).size) →
      ∃ w ps, v.startScan before stop (mems 0) = .ok w ∧ w.Gives (fun i => mems (i + 1)) ps ∧
        Picks v.range mems (before.toNat + 4) (stop.toNat + 4) ps) := by
  have hlast : v.range.last = last := (bound_of_bind bound).1.high
  have hlies : ∀ m : Memory, bitmap.toNat + size.toNat ≤ m.size → v.range.Lies m.size :=
    fun m hm => Bound.lies bound low high hm
  refine ⟨fun m hm => ⟨fun a ha => (hlies m hm).test_eq ha, ?_⟩, fun hidle mems hmems => ?_⟩
  · exact (hlies m hm).clearRange_ok before_aligned stop_aligned le (by omega)
      (by rw [hlast]; exact inside.2)
  · have := toNat_four
    rw [startScan_eq hidle le (by omega)]
    refine Ahead.advance_gives (v := { v with scan := _ }) ?_ fun i => hlies _ (hmems i)
    exact ⟨rfl, toNat_plus (by omega), toNat_plus (by omega),
      by show v.range.first.toNat ≤ _; omega, by omega,
      by show _ ≤ v.range.last.toNat + 4; rw [hlast]; omega, by omega, by omega⟩

def sampleVector : BitVector := { range := { base := 4, first := 128, last := 380 } }

def sampleBitmap (b : UInt8) : Memory :=
  ⟨⟨#[0, 0, 0, 0, 0, 0, 0, 0, b, b, b, b, b, b, b, b]⟩, .big⟩

theorem BitVector.range_cleared_and_scanned_sample :
    BitRange.bind 128 380 8 8 = .ok sampleVector.range ∧
    (∃ n, sampleVector.range.clearRange 128 260 (sampleBitmap 3) = .ok () n ∧
      sampleVector.range.Cleared (sampleBitmap 3) n 132 260) ∧
    ∃ w ps, sampleVector.startScan 128 260 (sampleBitmap 3) = .ok w ∧
      w.Gives (fun _ => sampleBitmap 255) ps ∧
      Picks sampleVector.range (fun i => sampleBitmap (if i = 0 then 3 else 255)) 132 264 ps := by
  have h : BitRange.bind 128 380 8 8 = .ok sampleVector.range := by decide
  have := @range_cleared_and_scanned _ _ _ _ _ h (by decide) (by decide) 128 260 (by decide)
    (by decide) (by decide) (by decide)
  exact ⟨h, (this.1 (sampleBitmap 3) (by decide)).2,
    this.2 rfl (fun i => sampleBitmap (if i = 0 then 3 else 255)) fun _ => Nat.le_refl 16⟩

/-- A vector bound to a range that starts below 128 refuses every operation on its bits: the start
is rounded down to zero. In a range up to the end of the address space clearing stops at the last
bitmap word, behind which there is no address. -/
theorem BitRange.outer_ranges_refused :
    (∃ r, BitRange.bind 4 252 8 8 = .ok r ∧ 8 + 8 ≤ (Memory.blank 16 .big).size ∧
      r.first ≤ 4 ∧ (8 : UInt32) ≤ r.last ∧
      r.clearRange 4 8 (.blank 16 .big) = .error .broken (.blank 16 .big)) ∧
    ∃ r, BitRange.bind 0xffffff00 0xfffffffc 134217724 8 = .ok r ∧
      ∀ m : Memory, r.clearRange 0xffffff7c 0xffffff80 m = .error .broken m :=
  ⟨⟨{ base := 8, first := 0, last := 252 }, by decide, by decide, by decide, by decide, rfl⟩,
    { base := 4, first := 0xffffff00, last := 0xfffffffc }, by decide, fun _ => rfl⟩

end DeviceVm
