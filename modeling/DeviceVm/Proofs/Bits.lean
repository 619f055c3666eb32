import DeviceVm.Proofs.Access
import DeviceVm.Proofs.Execution
import DeviceVm.Proofs.Word
import DeviceVm.Store.Barrier
import Mathlib.Data.Nat.Bitwise

/-!
The bits of a bit vector as a set of addresses. The operations on single bits and on ranges are
told by what they do to this set; a loop over the set bits is told by an invariant that speaks of
the address it has come to.
-/

namespace DeviceVm

open BitRange Word Memory UInt32 Read Edit

namespace BitRange

variable {r : BitRange} {m : Memory} {a b size : Nat} {addr : UInt32}

/-- The address of the word that holds the bit of `a`. -/
def wordOf (r : BitRange) (a : Nat) : Nat := r.base.toNat + a / 128 * 4

/-- The bit of the address `a` is set. -/
def holds (r : BitRange) (m : Memory) (a : Nat) : Bool :=
  (m.peekWord (r.wordOf a)).toNat.testBit (a / 4 % 32)

/-- The byte `b` is one of the bitmap. -/
def covers (r : BitRange) (b : Nat) : Prop :=
  r.wordOf r.first.toNat ≤ b ∧ b < r.wordOf r.last.toNat + 4

/-- The address `a` has a bit of its own. -/
def Spans (r : BitRange) (a : Nat) : Prop :=
  a % 4 = 0 ∧ r.first.toNat ≤ a ∧ a ≤ r.last.toNat

/-- The bitmap is inside of a memory of `size` bytes, so that each of its bits can be read and
written. -/
structure Mapped (r : BitRange) (size : Nat) : Prop where
  first_pos : 0 < r.first.toNat
  base_aligned : r.base.toNat % 4 = 0
  inside : r.wordOf r.last.toNat + 4 ≤ size
  small : size ≤ 16777216

/-- As `Mapped`, for a memory of any size. The last bitmap word of the address space is not used:
the address behind its bits is no word. -/
structure Lies (r : BitRange) (size : Nat) : Prop where
  first_pos : 0 < r.first.toNat
  base_aligned : r.base.toNat % 4 = 0
  inside : r.wordOf r.last.toNat + 4 ≤ size
  below : r.wordOf r.last.toNat + 4 ≤ 4294967296
  high : r.last.toNat < 4294967168

lemma Mapped.lies (h : r.Mapped size) : r.Lies size where
  __ := h
  below := Nat.le_trans h.inside (Nat.le_trans h.small (by decide))
  high := by
    have hi := h.inside
    have := h.small
    unfold wordOf at hi
    omega

lemma wordOf_mono (h : a ≤ b) : r.wordOf a ≤ r.wordOf b := by
  unfold wordOf
  omega

lemma Mapped.covers_word (ha : r.Spans a) {i : Nat} (hi : i < 4) : r.covers (r.wordOf a + i) := by
  have := wordOf_mono (r := r) ha.2.1
  have := wordOf_mono (r := r) ha.2.2
  exact ⟨by omega, by omega⟩

lemma toNat_wordOffset (w : UInt32) : (w / wordSpan * 4).toNat = w.toNat / 128 * 4 := by
  have hn : (w / wordSpan).toNat = w.toNat / 128 := by
    rw [UInt32.toNat_div, show wordSpan.toNat = 128 from rfl]
  have h44 := toNat_four
  have := w.toNat_lt
  rw [toNat_times (by rw [hn, h44]; omega), hn, h44]

namespace Lies

lemma word_inside (h : r.Lies size) (ha : r.Spans a) :
    r.wordOf a % 4 = 0 ∧ r.wordOf a + 4 ≤ size := by
  have := h.base_aligned
  have := h.inside
  have := wordOf_mono (r := r) ha.2.2
  unfold wordOf at *
  omega

lemma locate_eq (h : r.Lies size) (ha : r.Spans addr.toNat) :
    ∃ word bit, r.locate addr = .ok (word, bit) ∧ word.toNat = r.wordOf addr.toNat ∧
      bit.toNat = addr.toNat / 4 % 32 := by
  have := h.below
  have hm := wordOf_mono (r := r) ha.2.2
  have hp := h.first_pos
  obtain ⟨h4, hf, hl⟩ := ha
  have hd := toNat_wordOffset addr
  have hsum : r.base.toNat + (addr / wordSpan * 4).toNat < 4294967296 := by
    rw [wordOf] at hm
    omega
  have hfirst : r.first ≠ 0 := fun h0 => by simp [h0] at hp
  have hmod : addr % 4 = 0 := UInt32.toNat_inj.1 (by simpa using h4)
  refine ⟨r.base + addr / wordSpan * 4, addr / 4 % 32, ?_, ?_, ?_⟩
  · simp only [locate, require, plus_eq hsum, bne_iff_ne, ne_eq, hfirst, hmod, le_iff_toNat_le, hf,
      hl, Bool.and_self]
    rfl
  · rw [toNat_plus hsum, hd, wordOf]
  · simp

end Lies

/-! ### Bits of a word -/

lemma toNat_mask {bit : UInt32} (h : bit.toNat < 32) : (mask bit).toNat = 2 ^ bit.toNat := by
  have hp : 2 ^ bit.toNat < 2 ^ 32 := Nat.pow_lt_pow_right (by omega) h
  rw [mask, UInt32.toNat_shiftLeft, Nat.mod_eq_of_lt h, show (1 : UInt32).toNat = 1 from rfl,
    Nat.one_shiftLeft, Nat.mod_eq_of_lt hp]

lemma and_mask_bne (w : UInt32) {bit : UInt32} (h : bit.toNat < 32) :
    (w &&& mask bit != 0) = w.toNat.testBit bit.toNat := by
  have hn : (w &&& mask bit).toNat = (w.toNat.testBit bit.toNat).toNat * 2 ^ bit.toNat := by
    rw [UInt32.toNat_and, toNat_mask h, Nat.and_two_pow]
  have : 0 < 2 ^ bit.toNat := Nat.two_pow_pos _
  cases ht : w.toNat.testBit bit.toNat with
  | true =>
    rw [ht] at hn
    rw [bne_iff_ne]
    intro h0
    rw [h0] at hn
    simp only [UInt32.toNat_zero, Bool.toNat_true] at hn
    omega
  | false =>
    rw [ht] at hn
    have h0 : w &&& mask bit = 0 := UInt32.toNat_inj.1 (by simpa using hn)
    simp [h0]

lemma testBit_or_mask (w : UInt32) {bit : UInt32} (h : bit.toNat < 32) (i : Nat) :
    (w ||| mask bit).toNat.testBit i = (decide (i = bit.toNat) || w.toNat.testBit i) := by
  rw [UInt32.toNat_or, toNat_mask h, Nat.testBit_or, Nat.testBit_two_pow, Bool.or_comm]
  simp only [eq_comm]

lemma testBit_and_not_mask (w : UInt32) {bit : UInt32} (h : bit.toNat < 32) {i : Nat}
    (hi : i < 32) :
    (w &&& ~~~mask bit).toNat.testBit i = (!decide (i = bit.toNat) && w.toNat.testBit i) := by
  have hlt : (mask bit).toNat < 2 ^ 32 := (mask bit).toNat_lt
  have hnot : (~~~mask bit).toNat = 2 ^ 32 - ((mask bit).toNat + 1) := by
    rw [toNat_not]
    simp only [UInt32.size]
    omega
  rw [UInt32.toNat_and, hnot, Nat.testBit_and, Nat.testBit_two_pow_sub_succ hlt, toNat_mask h,
    Nat.testBit_two_pow, Bool.and_comm]
  simp only [hi, decide_true, Bool.true_and, eq_comm]

/-! ### Single bits -/

/-- The memory with the bit of `a` set. -/
def raise (r : BitRange) (m : Memory) (a : Nat) : Memory :=
  m.pokeWord (r.wordOf a) (m.peekWord (r.wordOf a) ||| mask (ofNat (a / 4 % 32)))

/-- The memory with the bit of `a` cleared. -/
def lower (r : BitRange) (m : Memory) (a : Nat) : Memory :=
  m.pokeWord (r.wordOf a) (m.peekWord (r.wordOf a) &&& ~~~mask (ofNat (a / 4 % 32)))

@[simp] lemma size_raise : (r.raise m a).size = m.size := size_pokeWord _
@[simp] lemma order_raise : (r.raise m a).order = m.order := order_pokeWord _
@[simp] lemma size_lower : (r.lower m a).size = m.size := size_pokeWord _
@[simp] lemma order_lower : (r.lower m a).order = m.order := order_pokeWord _

lemma toNat_bit (a : Nat) : (ofNat (a / 4 % 32)).toNat = a / 4 % 32 := by
  simp only [toNat_ofNat']
  omega

lemma holds_pokeWord {v : UInt32} (h : r.Lies m.size) (ha : r.Spans a) :
    r.holds (m.pokeWord (r.wordOf a) v) b =
      if b / 128 = a / 128 then v.toNat.testBit (b / 4 % 32) else r.holds m b := by
  have hw := h.word_inside ha
  unfold holds
  by_cases hb : b / 128 = a / 128
  · have he : r.wordOf b = r.wordOf a := by simp only [wordOf, hb]
    rw [he, if_pos hb, peekWord_pokeWord_self _ hw.2]
  have hne : r.wordOf b ≠ r.wordOf a := by
    unfold wordOf
    omega
  have := h.base_aligned
  rw [if_neg hb, peekWord_pokeWord_ne _ hw.1 (by unfold wordOf; omega) hne]

lemma holds_raise (h : r.Lies m.size) (ha : r.Spans a) (hb : b % 4 = 0) :
    r.holds (r.raise m a) b = (decide (b = a) || r.holds m b) := by
  have := ha.1
  rw [raise, holds_pokeWord h ha]
  by_cases hw : b / 128 = a / 128
  · rw [if_pos hw, testBit_or_mask _ (by rw [toNat_bit]; omega), toNat_bit]
    have he : (b / 4 % 32 = a / 4 % 32) ↔ b = a := by omega
    simp only [he, holds, wordOf, hw]
  · have hne : b ≠ a := fun he => hw (by rw [he])
    rw [if_neg hw, decide_eq_false hne, Bool.false_or]

lemma holds_lower (h : r.Lies m.size) (ha : r.Spans a) (hb : b % 4 = 0) :
    r.holds (r.lower m a) b = (!decide (b = a) && r.holds m b) := by
  have := ha.1
  rw [lower, holds_pokeWord h ha]
  by_cases hw : b / 128 = a / 128
  · rw [if_pos hw, testBit_and_not_mask _ (by rw [toNat_bit]; omega) (by omega), toNat_bit]
    have he : (b / 4 % 32 = a / 4 % 32) ↔ b = a := by omega
    simp only [he, holds, wordOf, hw]
  · have hne : b ≠ a := fun he => hw (by rw [he])
    rw [if_neg hw, decide_eq_false hne, Bool.not_false, Bool.true_and]

lemma peek_pokeWord_wordOf {v : UInt32} (ha : r.Spans a) (hb : ¬ r.covers b) :
    (m.pokeWord (r.wordOf a) v).peek b = m.peek b := by
  apply peek_pokeWord_ne
  by_contra hc
  have he : b = r.wordOf a + (b - r.wordOf a) := by omega
  exact hb (he ▸ Mapped.covers_word ha (by omega))

lemma holds_congr {n : Memory} (ho : n.order = m.order)
    (h : ∀ i < 4, n.peek (r.wordOf a + i) = m.peek (r.wordOf a + i)) :
    r.holds n a = r.holds m a := by
  rw [holds, peekWord_congr ho h, holds]

namespace Lies

lemma test_eq (h : r.Lies m.size) (ha : r.Spans addr.toNat) :
    r.test addr m = .ok (r.holds m addr.toNat) := by
  obtain ⟨word, bit, hl, hw, hbit⟩ := h.locate_eq ha
  have hin := h.word_inside ha
  rw [← hw] at hin
  rw [test, Read.lift_ok hl]
  dsimp only
  rw [bind_ok (wordAt_eq hin.1 hin.2), and_mask_bne _ (by omega), hw, hbit]
  rfl

lemma testAndSet_eq (h : r.Lies m.size) (ha : r.Spans addr.toNat) :
    r.testAndSet addr m = .ok (r.holds m addr.toNat) (r.raise m addr.toNat) := by
  obtain ⟨word, bit, hl, hw, hbit⟩ := h.locate_eq ha
  have hin := h.word_inside ha
  rw [← hw] at hin
  have he : bit = ofNat (addr.toNat / 4 % 32) :=
    UInt32.toNat_inj.1 (by rw [toNat_bit, hbit])
  rw [testAndSet, Edit.lift_ok hl]
  dsimp only
  rw [read_ok (wordAt_eq hin.1 hin.2), bind_ok (setWordAt_eq hin.1 hin.2),
    and_mask_bne _ (by omega), hw, hbit, raise, ← he]
  rfl

end Lies

/-! ### Ranges of bits -/

/-- The memory `n` is `m` with the bits from `lo` to `hi` cleared. -/
structure Cleared (r : BitRange) (m n : Memory) (lo hi : Nat) : Prop where
  size : n.size = m.size
  order : n.order = m.order
  peek : ∀ b, ¬ r.covers b → n.peek b = m.peek b
  holds : ∀ b, b % 4 = 0 → r.holds n b = (!(decide (lo ≤ b) && decide (b ≤ hi)) && r.holds m b)

namespace Cleared

variable {n o : Memory} {lo mid hi : Nat}

lemma refl (h : hi < lo) : r.Cleared m m lo hi :=
  ⟨rfl, rfl, fun _ _ => rfl, fun b _ => by grind⟩

lemma trans (h : r.Cleared m n lo mid) (h' : r.Cleared n o (mid + 4) hi) (hm : mid % 4 = 0)
    (hlo : lo ≤ mid) (hle : mid ≤ hi) : r.Cleared m o lo hi where
  size := h'.size.trans h.size
  order := h'.order.trans h.order
  peek b hb := (h'.peek b hb).trans (h.peek b hb)
  holds b hb := by
    rw [h'.holds b hb, h.holds b hb]
    by_cases hl : lo ≤ b <;> by_cases hmb : b ≤ mid <;> grind

lemma lower (h : r.Lies m.size) (ha : r.Spans a) : r.Cleared m (r.lower m a) a a where
  size := size_lower
  order := order_lower
  peek _ hb := peek_pokeWord_wordOf ha hb
  holds b hb := by
    rw [holds_lower h ha hb]
    grind

lemma word (h : r.Lies m.size) (ha : r.Spans a) (h0 : a / 4 % 32 = 0) :
    r.Cleared m (m.pokeWord (r.wordOf a) 0) a (a + 124) where
  size := size_pokeWord _
  order := order_pokeWord _
  peek _ hb := peek_pokeWord_wordOf ha hb
  holds b hb := by
    have := ha.1
    rw [holds_pokeWord h ha]
    by_cases hw : b / 128 = a / 128
    · rw [if_pos hw, UInt32.toNat_zero, Nat.zero_testBit, decide_eq_true (by omega : a ≤ b),
        decide_eq_true (by omega : b ≤ a + 124)]
      rfl
    · grind

end Cleared

lemma wholeWord_eq {last bit : UInt32} (h : addr.toNat + 128 < 4294967296) :
    ∃ whole, wholeWord last addr bit = .ok whole ∧
      (whole = true ↔ bit = 0 ∧ addr.toNat + 124 ≤ last.toNat) := by
  have : wordSpan.toNat = 128 := rfl
  have := toNat_four
  have hm : (addr + wordSpan - 4).toNat = addr.toNat + 124 := by
    rw [toNat_minus (by rw [toNat_plus (by omega)]; omega), toNat_plus (by omega)]
    omega
  rw [wholeWord, plus_eq (by omega)]
  by_cases h0 : bit = 0
  · refine ⟨decide (addr + wordSpan - 4 ≤ last), ?_, ?_⟩
    · rw [if_pos (by simpa using h0)]
      show minus (addr + wordSpan) 4 >>= _ = _
      rw [minus_eq (show (4 : UInt32).toNat ≤ (addr + wordSpan).toNat by
        rw [toNat_plus] <;> omega)]
      rfl
    · rw [decide_eq_true_iff, le_iff_toNat_le, hm]
      exact ⟨fun hle => ⟨h0, hle⟩, fun hle => hle.2⟩
  · refine ⟨false, by rw [if_neg (by simpa using h0)]; rfl, ?_⟩
    simp only [Bool.false_eq_true, h0, false_and]

lemma Lies.clearFrom_ok (h : r.Lies m.size) {last : UInt32} (hl : last.toNat ≤ r.last.toNat)
    (h4 : addr.toNat % 4 = 0) (hf : r.first.toNat ≤ addr.toNat) (hl4 : last.toNat % 4 = 0)
    {fuel : Nat} (hfuel : last.toNat + 4 < addr.toNat + 4 * fuel) (hpos : 0 < fuel) :
    ∃ n, r.clearFrom last fuel addr m = .ok () n ∧ r.Cleared m n addr.toNat last.toNat := by
  induction fuel generalizing m addr with
  | zero => omega
  | succ fuel ih =>
    rw [clearFrom]
    by_cases hend : addr > last
    · rw [if_pos hend]
      exact ⟨m, rfl, .refl (lt_iff_toNat_lt.1 hend)⟩
    have hle : addr.toNat ≤ last.toNat := by
      have := mt lt_iff_toNat_lt.2 hend
      omega
    have := h.high
    have hspan : r.Spans addr.toNat := ⟨h4, hf, by omega⟩
    obtain ⟨word, bit, hloc, hw, hbit⟩ := h.locate_eq hspan
    have hin := h.word_inside hspan
    rw [← hw] at hin
    have : wordSpan.toNat = 128 := rfl
    have := toNat_four
    have hp128 : (addr + wordSpan).toNat = addr.toNat + 128 := toNat_plus (by omega)
    have hp4 : (addr + 4).toNat = addr.toNat + 4 := toNat_plus (by omega)
    obtain ⟨whole, hwhole, hiff⟩ := @wholeWord_eq addr last bit (by omega)
    rw [if_neg hend, Edit.lift_ok hloc]
    dsimp only
    rw [Edit.lift_ok hwhole]
    cases whole with
    | true =>
      have hcond := hiff.1 rfl
      have h0 : addr.toNat / 4 % 32 = 0 := by rw [← hbit, hcond.1]; rfl
      rw [if_pos rfl]
      rw [bind_ok (setWordAt_eq hin.1 hin.2),
        Edit.lift_ok (plus_eq (by omega)), hw]
      have hc := Cleared.word h hspan h0
      obtain ⟨n, hn, hcn⟩ := @ih _ (addr + wordSpan) (hc.size ▸ h) (by omega) (by omega)
        (by omega) (by omega)
      refine ⟨n, hn, hc.trans ?_ (by omega) (by omega) hcond.2⟩
      rw [hp128] at hcn
      exact hcn
    | false =>
      rw [if_neg Bool.false_ne_true]
      rw [read_ok (wordAt_eq hin.1 hin.2),
        bind_ok (setWordAt_eq hin.1 hin.2),
        Edit.lift_ok (plus_eq (by omega)), hw]
      have he : bit = ofNat (addr.toNat / 4 % 32) :=
        UInt32.toNat_inj.1 (by rw [toNat_bit, hbit])
      have hc := Cleared.lower h hspan
      rw [lower, ← he] at hc
      by_cases hmore : addr.toNat + 4 ≤ last.toNat
      · obtain ⟨n, hn, hcn⟩ := @ih _ (addr + 4) (hc.size ▸ h) (by omega) (by omega)
          (by omega) (by omega)
        refine ⟨n, hn, hc.trans ?_ h4 (Nat.le_refl _) hle⟩
        rw [hp4] at hcn
        exact hcn
      obtain ⟨fuel, rfl⟩ : ∃ k, fuel = k + 1 := ⟨fuel - 1, by omega⟩
      have hgt : addr + 4 > last := lt_iff_toNat_lt.2 (by omega)
      refine ⟨_, by rw [clearFrom, if_pos hgt]; rfl, ?_⟩
      have heq : last.toNat = addr.toNat := by omega
      rw [heq]
      exact hc

lemma Lies.clearRange_ok (h : r.Lies m.size) {before last : UInt32}
    (hb : before.toNat % 4 = 0) (hl4 : last.toNat % 4 = 0) (hle : before.toNat ≤ last.toNat)
    (hf : r.first.toNat ≤ before.toNat + 4) (hl : last.toNat ≤ r.last.toNat) :
    ∃ n, r.clearRange before last m = .ok () n ∧
      r.Cleared m n (before.toNat + 4) last.toNat := by
  have := toNat_four
  have := h.high
  have hp4 : (before + 4).toNat = before.toNat + 4 := toNat_plus (by omega)
  have hreq : require (before ≤ last && last ≤ r.last) = .ok () := by
    simp only [require, le_iff_toNat_le, hle, hl, decide_true, Bool.and_self, if_true]
  rw [clearRange, Edit.lift_ok hreq, Edit.lift_ok (plus_eq (by omega)), ← hp4]
  exact h.clearFrom_ok hl (by omega) (by omega) hl4 (by omega) (by omega)

lemma clearAll_ok (hi : r.wordOf r.last.toNat + 4 ≤ m.size)
    (hbelow : r.wordOf r.last.toNat + 4 < 4294967296) (hle : r.first.toNat ≤ r.last.toNat) :
    ∃ n, r.clearAll m = .ok () n ∧ n.size = m.size ∧ n.order = m.order ∧
      (∀ b, ¬ r.covers b → n.peek b = m.peek b) ∧ ∀ b, r.Spans b → r.holds n b = false := by
  have := wordOf_mono (r := r) hle
  have h44 := toNat_four
  have addr : ∀ w : UInt32, w.toNat ≤ r.last.toNat →
      plus r.base (w / wordSpan * 4) = .ok (r.base + w / wordSpan * 4) ∧
        (r.base + w / wordSpan * 4).toNat = r.wordOf w.toNat := by
    intro w hw
    have hm := wordOf_mono (r := r) hw
    have hd := toNat_wordOffset w
    have hlt : r.base.toNat + (w / wordSpan * 4).toNat < 4294967296 := by
      rw [wordOf] at hm
      omega
    exact ⟨plus_eq hlt, by rw [toNat_plus hlt, hd, wordOf]⟩
  obtain ⟨hf, hfn⟩ := addr r.first hle
  obtain ⟨hl, hln⟩ := addr r.last (Nat.le_refl _)
  rw [clearAll, Edit.lift_ok hf, Edit.lift_ok hl]
  generalize r.base + r.first / wordSpan * 4 = first at hfn
  generalize r.base + r.last / wordSpan * 4 = last at hln
  have hdn : (last - first).toNat = last.toNat - first.toNat := toNat_minus (by omega)
  have : (last - first + 4).toNat = last.toNat - first.toNat + 4 := by
    rw [toNat_plus (by omega), hdn, h44]
  have hroom : first.toNat + (last - first + 4).toNat ≤ m.size := by omega
  refine ⟨m.pokeZeros first.toNat (last - first + 4).toNat, ?_, size_pokeZeros _,
    order_pokeZeros _, ?_, ?_⟩
  · rw [Edit.lift_ok (minus_eq (by omega)), Edit.lift_ok (plus_eq (by omega))]
    simp only [zeroBytes, fillWords, writeAt, readable, hroom,
      beq_self_eq_true, decide_true, if_true]
  · intro b hb
    rw [peek_pokeZeros _ hroom, if_neg]
    rintro ⟨h1, h2⟩
    exact hb ⟨by omega, by omega⟩
  intro b hb
  have hc : ∀ i < 4,
      (m.pokeZeros first.toNat (last - first + 4).toNat).peek (r.wordOf b + i) = 0 := by
    intro i hi
    have := Mapped.covers_word hb hi
    rw [peek_pokeZeros _ hroom, if_pos ⟨by have := this.1; omega,
      by have := this.2; omega⟩]
  have hz : ∀ o : ByteOrder, (o.word 0 0 0 0).toNat = 0 := by
    intro o
    cases o <;> rfl
  have h0 := hc 0 (by omega)
  rw [Nat.add_zero] at h0
  rw [holds, peekWord, h0, hc 1 (by omega), hc 2 (by omega), hc 3 (by omega), hz]
  exact Nat.zero_testBit _

/-! ### Binding the bit vector -/

/-- Bytes of bitmap for the addresses from `first` to `last`: a word for every 128 bytes that they
touch. -/
def bitmapBytes (first last : UInt32) : Nat := 4 * (last.toNat / 128 - first.toNat / 128 + 1)

/-- The range is that of the addresses from `first` to `last`, with the bitmap at `bitmap`. -/
structure Bound (r : BitRange) (first last bitmap : UInt32) : Prop where
  low : r.first.toNat = first.toNat / 128 * 128
  high : r.last = last
  base_aligned : r.base.toNat % 4 = 0
  base : r.base.toNat + first.toNat / 128 * 4 = bitmap.toNat

variable {first last bitmap size : UInt32}

lemma toNat_alignDown (a : UInt32) : (alignDown a).toNat = a.toNat / 128 * 128 := by
  have hm : (0xffffff80 : UInt32).toNat = (2 ^ 25 - 1) <<< 7 := rfl
  have hp : a.toNat / 2 ^ 7 * 2 ^ 7 = a.toNat / 128 * 128 := by omega
  rw [alignDown, UInt32.toNat_and, hm, and_highMask a.toNat_lt, hp]

lemma bitmapSize_eq (h : first.toNat ≤ last.toNat) :
    ∃ w, bitmapSize first last = .ok w ∧ w.toNat = bitmapBytes first last := by
  have h128 : wordSpan.toNat = 128 := rfl
  have h1 := UInt32.toNat_one
  have h4 := toNat_four
  have ha := toNat_alignDown first
  have := last.toNat_lt
  have hd : ((last - alignDown first) / wordSpan).toNat = last.toNat / 128 - first.toNat / 128 := by
    rw [UInt32.toNat_div, toNat_minus (by omega), ha, h128]
    omega
  have hs : ((last - alignDown first) / wordSpan + 1).toNat =
      last.toNat / 128 - first.toNat / 128 + 1 := by
    rw [toNat_plus (by omega), hd, h1]
  refine ⟨((last - alignDown first) / wordSpan + 1) * 4, ?_, ?_⟩
  · simp only [bitmapSize, minus_eq (show (alignDown first).toNat ≤ last.toNat by omega),
      plus_eq (show ((last - alignDown first) / wordSpan).toNat + (1 : UInt32).toNat < 4294967296 by
        omega), Bind.bind, Except.bind]
    exact times_eq (by rw [hs, h4]; omega)
  · rw [toNat_times (by rw [hs, h4]; omega), hs, h4, bitmapBytes, Nat.mul_comm]

lemma bind_eq (h4 : bitmap.toNat % 4 = 0) (hlt : first.toNat < last.toNat)
    (hlow : first.toNat < bitmap.toNat) (hsize : bitmapBytes first last ≤ size.toNat)
    (hin : bitmap.toNat + size.toNat < 4294967296) :
    ∃ r, BitRange.bind first last bitmap size = .ok r ∧ r.Bound first last bitmap := by
  have h32 : (32 : UInt32).toNat = 32 := rfl
  have h44 := toNat_four
  have ha := toNat_alignDown first
  rw [bitmapBytes] at hsize
  have hq : (alignDown first / 32).toNat = first.toNat / 128 * 4 := by
    rw [UInt32.toNat_div, ha, h32]
    omega
  have hbase : (bitmap - alignDown first / 32).toNat = bitmap.toNat - first.toNat / 128 * 4 := by
    rw [toNat_minus (by omega), hq]
  have hword := toNat_wordOffset last
  have hlast : (bitmap - alignDown first / 32 + last / wordSpan * 4).toNat =
      bitmap.toNat - first.toNat / 128 * 4 + last.toNat / 128 * 4 := by
    rw [toNat_plus (by omega), hbase, hword]
  have hmod : (bitmap % 4 == 0 && bitmap != 0) = true := by
    simp only [Bool.and_eq_true, beq_iff_eq, bne_iff_ne, ← UInt32.toNat_inj, UInt32.toNat_mod,
      UInt32.toNat_zero, h44, ne_eq]
    omega
  have hgt := UInt32.lt_iff_toNat_lt.2 hlt
  have hfits : bitmap - alignDown first / 32 + last / wordSpan * 4 + 4 ≤ bitmap + size := by
    have hend : (bitmap + size).toNat = bitmap.toNat + size.toNat := toNat_plus hin
    rw [UInt32.le_iff_toNat_le, hend, toNat_plus (by omega), hlast, h44]
    omega
  refine ⟨⟨bitmap - alignDown first / 32, alignDown first, last⟩, ?_, ha, rfl, ?_, ?_⟩
  · simp only [BitRange.bind, require, hmod, hgt, decide_true, if_true,
      minus_eq (show (alignDown first / 32).toNat ≤ bitmap.toNat by omega),
      plus_eq (show (bitmap - alignDown first / 32).toNat + (last / wordSpan * 4).toNat <
        4294967296 by omega),
      plus_eq (show (bitmap - alignDown first / 32 + last / wordSpan * 4).toNat +
        (4 : UInt32).toNat < 4294967296 by omega), plus_eq hin, hfits, Bind.bind, Except.bind,
      pure, Except.pure]
  · show (bitmap - alignDown first / 32).toNat % 4 = 0
    omega
  · show (bitmap - alignDown first / 32).toNat + _ = _
    omega

lemma bound_of_bind (h : BitRange.bind first last bitmap size = .ok r) :
    r.Bound first last bitmap ∧ r.wordOf last.toNat + 4 ≤ bitmap.toNat + size.toNat ∧
      bitmap.toNat + size.toNat < 4294967296 := by
  obtain ⟨_, h4, h⟩ := Except.of_bind h
  obtain ⟨_, -, h⟩ := Except.of_bind h
  obtain ⟨base, hbase, h⟩ := Except.of_bind h
  obtain ⟨word, hword, h⟩ := Except.of_bind h
  obtain ⟨next, hnext, h⟩ := Except.of_bind h
  obtain ⟨stop, hstop, h⟩ := Except.of_bind h
  obtain ⟨_, hle, h⟩ := Except.of_bind h
  cases h
  have h4 : (bitmap % 4).toNat = 0 := by
    rw [beq_iff_eq.1 (Bool.and_eq_true_iff.1 (of_require h4)).1]
    rfl
  have h44 := toNat_four
  have ha := toNat_alignDown first
  have : (alignDown first / 32).toNat = first.toNat / 128 * 4 := by
    rw [UInt32.toNat_div, ha, show (32 : UInt32).toNat = 32 from rfl]
    omega
  rw [UInt32.toNat_mod, h44] at h4
  have := toNat_of_minus hbase
  have := toNat_of_plus hword
  have := toNat_of_plus hnext
  have := toNat_of_plus hstop
  have := stop.toNat_lt
  have hle := le_iff_toNat_le.1 (of_decide_eq_true (of_require hle))
  have := toNat_wordOffset last
  refine ⟨⟨ha, rfl, ?_, ?_⟩, ?_, by omega⟩
  · show base.toNat % 4 = 0
    omega
  · show base.toNat + _ = _
    omega
  · show base.toNat + last.toNat / 128 * 4 + 4 ≤ _
    omega

namespace Bound

lemma covers (h : r.Bound first last bitmap) {b : Nat} (hb : r.covers b) :
    bitmap.toNat ≤ b ∧ b < bitmap.toNat + bitmapBytes first last := by
  have := h.low
  have := h.base
  obtain ⟨hlo, hhi⟩ := hb
  rw [wordOf] at hlo hhi
  rw [h.high] at hhi
  rw [bitmapBytes]
  omega

lemma mapped (h : r.Bound first last bitmap) {bytes : Nat} (h128 : 128 ≤ first.toNat)
    (hin : bitmap.toNat + bitmapBytes first last ≤ bytes) (hs : bytes ≤ 16777216) :
    r.Mapped bytes where
  first_pos := by
    rw [h.low]
    omega
  base_aligned := h.base_aligned
  inside := by
    have := h.base
    rw [bitmapBytes] at hin
    rw [wordOf, h.high]
    omega
  small := hs

end Bound

end BitRange

/-! ### Loops over the set bits -/

/-- The scan has found `p`, or nothing if `p` is the end, and goes on behind it. -/
structure BitScan.At (scan : BitScan) (last p : Nat) : Prop where
  active : scan.active = true
  stop : scan.stop.toNat = last
  cursor : (p = last ∧ scan.current = 0) ∨
    (p < last ∧ scan.current.toNat = p ∧ scan.cursor.toNat = p + 4)

namespace BitVector

variable {r : BitRange} {m : Memory} {addr : UInt32}

/-- The next address with a bit, the end of the scan if there is none. -/
structure Found (r : BitRange) (m : Memory) (start stop p : Nat) : Prop where
  aligned : p % 4 = 0
  low : start ≤ p
  high : p ≤ stop
  clear : ∀ b, b % 4 = 0 → start ≤ b → b < p → r.holds m b = false
  set : p < stop → r.holds m p = true

lemma advanceWithin_ok (h : r.Lies m.size) {scan : BitScan} (ha : scan.active = true)
    (h4 : addr.toNat % 4 = 0) (hf : r.first.toNat ≤ addr.toNat) (hs4 : scan.stop.toNat % 4 = 0)
    (hle : addr.toNat ≤ scan.stop.toNat) (hl : scan.stop.toNat ≤ r.last.toNat + 4) {fuel : Nat}
    (hfuel : scan.stop.toNat < addr.toNat + 4 * fuel) :
    ∃ p next, advanceWithin r scan fuel addr m = .ok next ∧
      Found r m addr.toNat scan.stop.toNat p ∧ next.At scan.stop.toNat p := by
  induction fuel generalizing addr with
  | zero => omega
  | succ fuel ih =>
    rw [advanceWithin]
    by_cases hend : addr = scan.stop
    · rw [if_pos (by simpa using hend)]
      refine ⟨scan.stop.toNat, _, rfl, ⟨hs4, hle, Nat.le_refl _, ?_, fun h => absurd h (by omega)⟩,
        ⟨ha, rfl, .inl ⟨rfl, rfl⟩⟩⟩
      intro b _ hlo hhi
      rw [hend] at hlo
      omega
    have hne : addr.toNat ≠ scan.stop.toNat := fun he => hend (UInt32.toNat_inj.1 he)
    have := h.high
    have := toNat_four
    have hp4 : (addr + 4).toNat = addr.toNat + 4 := toNat_plus (by omega)
    have hspan : r.Spans addr.toNat := ⟨h4, hf, by omega⟩
    rw [if_neg (by simpa using hend), Read.lift_ok (Word.plus_eq (by omega)),
      bind_ok (h.test_eq hspan)]
    cases hb : r.holds m addr.toNat with
    | true =>
      refine ⟨addr.toNat, _, rfl, ⟨h4, Nat.le_refl _, hle, ?_, fun _ => hb⟩,
        ⟨ha, rfl, .inr ⟨Nat.lt_of_le_of_ne hle hne, rfl, hp4⟩⟩⟩
      intro b _ hlo hhi
      omega
    | false =>
      obtain ⟨p, next, hn, hfound, hat⟩ := @ih (addr + 4) (by omega) (by omega) (by omega)
        (by omega)
      refine ⟨p, next, hn, ⟨hfound.aligned, ?_, hfound.high, ?_, hfound.set⟩, hat⟩
      · have := hfound.low
        omega
      · intro b hb4 hlo hhi
        by_cases hbe : b = addr.toNat
        · rw [hbe, hb]
        · exact hfound.clear b hb4 (by omega) hhi

lemma startScan_eq {v : BitVector} {before last : UInt32} (hidle : v.scan.active = false)
    (hle : before.toNat ≤ last.toNat) (hlast : last.toNat + 4 < 4294967296) :
    v.startScan before last m = advance { v with scan :=
      { v.scan with active := true, cursor := before + 4, stop := last + 4 } } m := by
  have := toNat_four
  rw [startScan, Read.lift_ok (a := ()) (by
      simp only [require, le_iff_toNat_le, hle, decide_true, if_true]),
    Read.lift_ok (a := ()) (by simp [require, hidle]), Read.lift_ok (Word.plus_eq (by omega)),
    Read.lift_ok (Word.plus_eq (by omega))]

end BitVector

namespace Store

@[simps]
def setBits (s : Store) (bits : BitVector) : Store := { s with bits }

/-- What a loop over the set bits of `r` keeps. The invariant `J a acc` holds when the loop has
come to the address `a`; it says nothing about where the scan is. -/
structure BitLoop {σ : Type} (r : BitRange) (visit : σ → UInt32 → Run σ)
    (J : Nat → σ → Store → Prop) (lo stop : Nat) : Prop where
  mapped : ∀ {a acc t}, J a acc t → t.bits.range = r ∧ r.Mapped t.mem.size
  blind : ∀ {a acc t} (scan : BitScan), J a acc t → J a acc (t.setBits { t.bits with scan })
  step : ∀ {addr : UInt32} {acc t}, lo ≤ addr.toNat → addr.toNat < stop → addr.toNat % 4 = 0 →
    r.holds t.mem addr.toNat = true → J addr.toNat acc t →
    Ends (visit acc addr) t fun acc' u => u.bits.scan = t.bits.scan ∧ J (addr.toNat + 4) acc' u
  skip : ∀ {a acc t}, lo ≤ a → a < stop → a % 4 = 0 → r.holds t.mem a = false → J a acc t →
    J (a + 4) acc t

namespace BitLoop

variable {σ : Type} {r : BitRange} {visit : σ → UInt32 → Run σ} {J : Nat → σ → Store → Prop}
  {lo stop p q : Nat} {acc : σ} {s : Store}

lemma skip_to (h : BitLoop r visit J lo stop) (hfound : BitVector.Found r s.mem p stop q)
    (hlo : lo ≤ p) (h4 : p % 4 = 0) (hj : J p acc s) : J q acc s := by
  have skips : ∀ n, p + 4 * n ≤ q → J (p + 4 * n) acc s := by
    intro n
    induction n with
    | zero => exact fun _ => hj
    | succ n ih =>
      intro hn
      have hclear := hfound.clear (p + 4 * n) (by omega) (by omega) (by omega)
      have := hfound.high
      exact h.skip (a := p + 4 * n) (by omega) (by omega) (by omega) hclear (ih (by omega))
  have := hfound.low
  have := hfound.aligned
  have hq := skips ((q - p) / 4) (by omega)
  rwa [show p + 4 * ((q - p) / 4) = q by omega] at hq

lemma foldFrom_ends (h : BitLoop r visit J lo stop) (hf : r.first.toNat ≤ lo)
    (hs4 : stop % 4 = 0) (hl : stop ≤ r.last.toNat + 4) (hat : s.bits.scan.At stop p)
    (hlo : lo ≤ p) (h4 : p % 4 = 0) (hset : p < stop → r.holds s.mem p = true) (hj : J p acc s)
    {fuel : Nat} (hfuel : stop < p + 4 * fuel) :
    Ends (foldFrom visit fuel acc) s fun acc' t => J stop acc' t := by
  induction fuel generalizing s p acc with
  | zero =>
    obtain ⟨_, _, ⟨he, _⟩ | ⟨hlt, _⟩⟩ := hat <;> omega
  | succ fuel ih =>
    obtain ⟨active, hstop, ⟨rfl, hcur⟩ | ⟨hlt, hcur, hcursor⟩⟩ := hat
    · apply Ends.get_bind
      rw [if_pos (by simp [hcur])]
      exact .pure hj
    have := (h.mapped hj).2.first_pos
    have hne : s.bits.scan.current ≠ 0 := by
      intro h0
      rw [h0, UInt32.toNat_zero] at hcur
      omega
    apply Ends.get_bind
    rw [if_neg (by simpa using hne)]
    subst hcur
    refine .bind (h.step hlo hlt h4 (hset hlt) hj) ?_
    rintro acc' t ⟨hscan, hj'⟩
    obtain ⟨hrange, hm⟩ := h.mapped hj'
    have hfuel' : t.bits.scan.stop.toNat <
        t.bits.scan.cursor.toNat + 4 * t.bits.range.scanBound := by
      rw [hscan, hstop, hcursor, hrange, scanBound]
      omega
    obtain ⟨q, next, hadv, hfound, hat'⟩ := BitVector.advanceWithin_ok
      (hrange ▸ hm.lies) (hscan ▸ active) (by rw [hscan, hcursor]; omega)
      (by rw [hscan, hcursor, hrange]; omega) (by rw [hscan, hstop]; exact hs4)
      (by rw [hscan, hstop, hcursor]; omega) (by rw [hscan, hstop, hrange]; exact hl) hfuel'
    have hadv' : BitVector.advance t.bits t.mem = .ok { t.bits with scan := next } := by
      rw [BitVector.advance, bind_ok hadv]
      rfl
    rw [hscan, hstop, hcursor, hrange] at hfound
    rw [hscan, hstop] at hat'
    have := hfound.low
    have hjq : J q acc' t := h.skip_to hfound (by omega) (by omega) hj'
    refine .next (.get_bind (.read_bind hadv' (.modify ?_)))
    exact ih hat' (by omega) hfound.aligned hfound.set (h.blind next hjq) (by omega)

lemma foldBits_ends {before last : UInt32}
    (h : BitLoop r visit J (before.toNat + 4) (last.toNat + 4)) (hb : before.toNat % 4 = 0)
    (hl4 : last.toNat % 4 = 0) (hle : before.toNat ≤ last.toNat)
    (hf : r.first.toNat ≤ before.toNat + 4) (hl : last.toNat ≤ r.last.toNat)
    (hidle : s.bits.scan.active = false) (hj : J (before.toNat + 4) acc s) :
    Ends (foldBits before last acc visit) s fun acc' t =>
      t.bits.scan.active = false ∧ J (last.toNat + 4) acc' t := by
  obtain ⟨hrange, hm⟩ := h.mapped hj
  have := hm.lies.high
  have := toNat_four
  have hb4 : (before + 4).toNat = before.toNat + 4 := toNat_plus (by omega)
  have he4 : (last + 4).toNat = last.toNat + 4 := toNat_plus (by omega)
  let scan : BitScan := { s.bits.scan with active := true, cursor := before + 4, stop := last + 4 }
  obtain ⟨q, next, hadv, hfound, hat⟩ := @BitVector.advanceWithin_ok s.bits.range s.mem
    (before + 4) (hrange ▸ hm.lies) scan rfl
    (by omega) (by rw [hrange]; omega) (by show (last + 4).toNat % 4 = 0; omega)
    (by show _ ≤ (last + 4).toNat; omega) (by show (last + 4).toNat ≤ _; rw [hrange]; omega)
    s.bits.range.scanBound (by show (last + 4).toNat < _; rw [hrange, scanBound]; omega)
  have hstart : s.bits.startScan before last s.mem = .ok { s.bits with scan := next } := by
    rw [BitVector.startScan_eq hidle hle (by omega), BitVector.advance, Read.bind_ok hadv]
    rfl
  have hstop := he4
  rw [hb4, hstop, hrange] at hfound
  rw [hstop] at hat
  have hjq : J q acc s := h.skip_to hfound (Nat.le_refl _) (by omega) hj
  have hlow := hfound.low
  refine .next (.get_bind (.read_bind hstart (.modify ?_)))
  apply Ends.get_bind
  have hfuel : last.toNat + 4 < q + 4 * s.bits.range.scanBound := by
    rw [hrange, scanBound]
    omega
  refine .bind (h.foldFrom_ends (s := s.setBits { s.bits with scan := next }) hf (by omega)
    (by omega) hat hlow hfound.aligned hfound.set (h.blind next hjq) hfuel) ?_
  · intro acc' t hjt
    apply Ends.modify_bind
    exact .pure ⟨rfl, h.blind _ hjt⟩

end BitLoop

end Store

lemma BitRange.Lies.set_eq {r : BitRange} {m : Memory} {addr : UInt32} (h : r.Lies m.size)
    (ha : r.Spans addr.toNat) : r.set addr m = .ok () (r.raise m addr.toNat) := by
  obtain ⟨word, bit, hl, hw, hbit⟩ := h.locate_eq ha
  have hin := h.word_inside ha
  rw [← hw] at hin
  have he : bit = ofNat (addr.toNat / 4 % 32) :=
    UInt32.toNat_inj.1 (by rw [toNat_bit, hbit])
  rw [set, Edit.lift_ok hl]
  dsimp only
  rw [read_ok (wordAt_eq hin.1 hin.2), setWordAt_eq hin.1 hin.2, hw, raise, ← he]

lemma Store.setReferenceInRam_ends {s : Store} {obj v : UInt32} {index : Int32} {a : Nat}
    (fixed : Nat → Prop) (hp : Points obj index a) (ram : s.ram.contains obj = .ok true)
    (h4 : a % 4 = 0) (hs : a + 4 ≤ s.mem.size) (collecting : s.collecting = false)
    (bits : s.barrier = true → s.bits.range.Mapped s.mem.size ∧ s.bits.range.Spans a ∧
      ∀ b, s.bits.range.covers b → ¬ fixed b) :
    Ends (setReferenceInRam obj index v) s fun _ t => ∃ mem, t = s.setMem mem ∧
      mem.peekWord a = v ∧
      Agrees (fun b => (b < a ∨ a + 4 ≤ b) ∧ fixed b) s.mem mem ∧
      (s.barrier = true → (∀ i < 4, fixed (a + i)) → ∀ b, s.bits.range.Spans b →
        s.bits.range.holds mem b = (decide (b = a) || s.bits.range.holds s.mem b)) := by
  obtain ⟨d, hd, ha⟩ := hp.scaled
  have write : ∀ mem : Memory, Agrees fixed s.mem mem →
      (s.barrier = true → ∀ b, s.bits.range.Spans b →
        s.bits.range.holds mem b = (decide (b = a) || s.bits.range.holds s.mem b)) →
      Ends (setWord obj index v) (s.setMem mem) fun _ t => ∃ mem, t = s.setMem mem ∧
        mem.peekWord a = v ∧ Agrees (fun b => (b < a ∨ a + 4 ≤ b) ∧ fixed b) s.mem mem ∧
        (s.barrier = true → (∀ i < 4, fixed (a + i)) → ∀ b, s.bits.range.Spans b →
          s.bits.range.holds mem b = (decide (b = a) || s.bits.range.holds s.mem b)) := by
    intro mem hagr hset
    have hms := hagr.size
    refine .edit (setWord_eq hp ⟨h4, ?_⟩) ⟨_, rfl, ?_, ?_, fun hb hf b hspans => ?_⟩
    · show _ ≤ mem.size
      omega
    · exact peekWord_pokeWord_self _ (by show _ ≤ mem.size; omega)
    · exact (hagr.mono fun b hb => hb.2).trans (.poked fun b hb => hb.1)
    · refine (holds_congr (order_pokeWord v) fun i hi => peek_pokeWord_ne v ?_).trans
        (hset hb b hspans)
      by_contra hin
      refine (bits hb).2.2 _ (Mapped.covers_word hspans hi) ?_
      have := hf (s.bits.range.wordOf b + i - a) (by omega)
      rwa [show a + (s.bits.range.wordOf b + i - a) = s.bits.range.wordOf b + i by omega] at this
  unfold setReferenceInRam
  refine .query_bind (show inRam obj s = .ok true from ram) ?_
  refine .except_bind (show require true = .ok () from rfl) ?_
  refine .except_bind hd ?_
  unfold recordStore
  refine .next (Ends.get_bind ?_)
  split
  · rename_i hb
    obtain ⟨hmapped, hspans, hcovers⟩ := bits hb
    rw [← ha] at hspans
    apply Ends.get_bind
    refine .except_bind (show require (!s.collecting) = .ok () from ?_) ?_
    · rw [collecting]
      rfl
    unfold setBit
    apply Ends.get_bind
    refine .edit (hmapped.lies.set_eq hspans) (write _ ?_ fun _ b hb => ?_)
    · exact ⟨size_raise, order_raise, fun b hb =>
        peek_pokeWord_wordOf hspans fun hc => hcovers b hc hb⟩
    · rw [← ha]
      exact holds_raise hmapped.lies hspans hb.1
  · rename_i hb
    exact .pure (write s.mem (.refl _) fun h => absurd h hb)

end DeviceVm
