import DeviceVm.Memory.Word
import Mathlib.Data.Nat.Bitwise

/-!
Words taken apart and put together, as numbers.
-/

namespace DeviceVm.Word

lemma toNat_four : (4 : UInt32).toNat = 4 := rfl

lemma toNat_and_three (w : UInt32) : (w &&& 3).toNat = w.toNat % 4 := by
  exact Nat.and_two_pow_sub_one_eq_mod w.toNat 2

lemma toNat_low (w : UInt32) : (w &&& 0x00ffffff).toNat = w.toNat % 16777216 := by
  exact Nat.and_two_pow_sub_one_eq_mod w.toNat 24

lemma toNat_high (w : UInt32) : (w >>> 24).toNat = w.toNat / 16777216 := by
  exact Nat.shiftRight_eq_div_pow w.toNat 24

lemma and_highMask {n j k : Nat} (h : n < 2 ^ (k + j)) :
    n &&& ((2 ^ j - 1) <<< k) = n / 2 ^ k * 2 ^ k := by
  rw [← Nat.shiftRight_eq_div_pow, ← Nat.shiftLeft_eq]
  apply Nat.eq_of_testBit_eq
  intro i
  simp only [Nat.testBit_shiftLeft, Nat.testBit_shiftRight]
  by_cases hk : k ≤ i
  · rw [show k + (i - k) = i by omega]
    by_cases hj : i - k < j
    · simp [hk, hj]
    · have hlt : n < 2 ^ i := Nat.lt_of_lt_of_le h (Nat.pow_le_pow_right (by decide) (by omega))
      simp [Nat.testBit_lt_two_pow hlt]
  · simp [hk]

lemma toNat_setLow {w bits : UInt32} (h : bits.toNat < 16777216) :
    ((w &&& ~~~(0x00ffffff : UInt32)) ||| bits).toNat =
      w.toNat / 16777216 * 16777216 + bits.toNat := by
  have hm : (~~~(0x00ffffff : UInt32)).toNat = (2 ^ 8 - 1) <<< 24 := by decide
  have hp : 2 ^ 24 * (w.toNat / 2 ^ 24) = w.toNat / 16777216 * 16777216 := by omega
  rw [UInt32.toNat_or, UInt32.toNat_and, hm, and_highMask w.toNat_lt,
    Nat.mul_comm (w.toNat / 2 ^ 24), ← Nat.two_pow_add_eq_or_of_lt h, hp]

lemma toNat_clearTag (w : UInt32) : (w &&& ~~~(3 : UInt32)).toNat = w.toNat / 4 * 4 := by
  have hm : (~~~(3 : UInt32)).toNat = (2 ^ 30 - 1) <<< 2 := by decide
  have hp : w.toNat / 2 ^ 2 * 2 ^ 2 = w.toNat / 4 * 4 := by omega
  rw [UInt32.toNat_and, hm, and_highMask w.toNat_lt, hp]

lemma roundUp4_eq {n : UInt32} (h : n.toNat + 3 < 4294967296) :
    ∃ r, roundUp4 n = .ok r ∧ r.toNat = (n.toNat + 3) / 4 * 4 := by
  have h3 : (3 : UInt32).toNat = 3 := rfl
  have hm : (0xfffffffc : UInt32).toNat = (2 ^ 30 - 1) <<< 2 := by decide
  refine ⟨(n + 3) &&& 0xfffffffc, ?_, ?_⟩
  · rw [roundUp4, plus, if_pos (by exact h)]
    rfl
  · have hp : (n.toNat + 3) / 2 ^ 2 * 2 ^ 2 = (n.toNat + 3) / 4 * 4 := by omega
    rw [UInt32.toNat_and, hm, and_highMask (n + 3).toNat_lt, UInt32.toNat_add, h3,
      Nat.mod_eq_of_lt h, hp]

variable {a b : UInt32}

lemma plus_eq (h : a.toNat + b.toNat < 4294967296) : plus a b = .ok (a + b) := by
  rw [plus, if_pos h]

lemma minus_eq (h : b.toNat ≤ a.toNat) : minus a b = .ok (a - b) := by
  rw [minus, if_pos (UInt32.le_iff_toNat_le.2 h)]

lemma times_eq (h : a.toNat * b.toNat < 4294967296) : times a b = .ok (a * b) := by
  rw [times, if_pos h]

lemma toNat_nat {n : Nat} (h : n < 4294967296) : (UInt32.ofNat n).toNat = n :=
  UInt32.toNat_ofNat_of_lt' h

lemma toNat_plus (h : a.toNat + b.toNat < 4294967296) :
    (a + b).toNat = a.toNat + b.toNat := by
  rw [UInt32.toNat_add, Nat.mod_eq_of_lt h]

lemma toNat_minus (h : b.toNat ≤ a.toNat) : (a - b).toNat = a.toNat - b.toNat :=
  UInt32.toNat_sub_of_le a b (UInt32.le_iff_toNat_le.2 h)

lemma toNat_times (h : a.toNat * b.toNat < 4294967296) : (a * b).toNat = a.toNat * b.toNat := by
  rw [UInt32.toNat_mul, Nat.mod_eq_of_lt h]

lemma toNat_plusSaturating (a b : UInt32) :
    (plusSaturating a b).toNat = min (a.toNat + b.toNat) 4294967295 := by
  rw [plusSaturating]
  by_cases h : a.toNat + b.toNat < 4294967296
  · rw [if_pos h, toNat_plus h, Nat.min_eq_left (by omega)]
  · rw [if_neg h, Nat.min_eq_right (by omega)]
    rfl

variable {c : UInt32}

lemma toNat_of_plus (h : plus a b = .ok c) : c.toNat = a.toNat + b.toNat := by
  rw [plus] at h
  split at h
  · cases h
    exact toNat_plus ‹_›
  · cases h

lemma toNat_of_minus (h : minus a b = .ok c) : c.toNat + b.toNat = a.toNat := by
  rw [minus] at h
  split at h
  · rename_i hle
    cases h
    have := UInt32.le_iff_toNat_le.1 hle
    rw [toNat_minus] <;> omega
  · cases h

end DeviceVm.Word

namespace DeviceVm

lemma Except.of_bind {α β : Type} {e : Except Fault α} {f : α → Except Fault β} {b : β}
    (h : e >>= f = .ok b) : ∃ a, e = .ok a ∧ f a = .ok b := by
  cases e with
  | ok a => exact ⟨a, rfl, h⟩
  | error e => cases h

lemma of_require {b : Bool} {u : Unit} (h : require b = .ok u) : b = true := by
  cases b with
  | true => rfl
  | false => cases h

end DeviceVm
