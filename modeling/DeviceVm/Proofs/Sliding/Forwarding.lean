import DeviceVm.Collection.Sliding.Forwarding
import DeviceVm.Proofs.Classes
import DeviceVm.Proofs.Header

/-!
Forwarding words: what is put together is taken apart again. The division of the words that the
classes of a store lead to leaves room for all of them, and lets every object move.
-/

namespace DeviceVm.Forwarding

open UInt32 Nat

open Word

/-- The division has room for `count` classes and lets objects move. -/
structure Fits (f : Forwarding) (count : Nat) : Prop where
  bits : f.classBits.toNat ≤ 23
  classes : count < 2 ^ f.classBits.toNat
  aligned : f.maxDelta.toNat % 4 = 0
  positive : 4 ≤ f.maxDelta.toNat
  high : f.maxDelta.toNat / 4 < 2 ^ (24 - f.classBits.toNat)

/-- A limit on distances that the settings admit. -/
def Accepted (limit : Option UInt32) : Prop :=
  ∀ l, limit = some l → 4 ≤ l.toNat ∧ l.toNat % 4 = 0

lemma bitsFor_spec {n : UInt32} (h : n.toNat ≤ 4194304) :
    (bitsFor n).toNat ≤ 23 ∧ n.toNat < 2 ^ (bitsFor n).toNat := by
  rw [bitsFor]
  by_cases h0 : n = 0
  · rw [h0]
    decide
  have hne : n.toNat ≠ 0 := fun he => h0 (UInt32.toNat_inj.1 he)
  have : n.toNat.log2 < 23 := (log2_lt hne).2 (by omega)
  have hb : ((n.toNat.log2 + 1).toUInt32).toNat = n.toNat.log2 + 1 :=
    toNat_nat (by omega)
  rw [if_neg (by simpa using h0), hb]
  exact ⟨by omega, Nat.lt_log2_self⟩

lemma toNat_one_shiftLeft {k : UInt32} (h : k.toNat < 32) : (1 <<< k).toNat = 2 ^ k.toNat := by
  have h1 := UInt32.toNat_one
  rw [UInt32.toNat_shiftLeft, h1, Nat.mod_eq_of_lt h, Nat.shiftLeft_eq, Nat.one_mul]
  exact Nat.mod_eq_of_lt (Nat.pow_lt_pow_right (by decide) h)

lemma farthest_eq {b : UInt32} (h : b.toNat ≤ 23) :
    (((1 <<< (24 - b)) - 1) * 4).toNat = (2 ^ (24 - b.toNat) - 1) * 4 := by
  have h24 : (24 : UInt32).toNat = 24 := rfl
  have h1 := toNat_one
  have h4 := toNat_four
  have hk : (24 - b).toNat = 24 - b.toNat := by rw [toNat_minus (by omega), h24]
  have hp := toNat_one_shiftLeft (k := 24 - b) (by omega)
  have : 2 ^ (24 - b.toNat) ≤ 2 ^ 24 := Nat.pow_le_pow_right (by decide) (by omega)
  have : 0 < 2 ^ (24 - b.toNat) := Nat.pow_pos (by decide)
  rw [hk] at hp
  have hm : ((1 <<< (24 - b)) - 1).toNat = 2 ^ (24 - b.toNat) - 1 := by
    rw [toNat_minus (by omega), hp, h1]
  rw [toNat_times (by rw [hm, h4]; omega), hm, h4]

lemma ofClasses_ends {C : Classes} {s : Store} (h : C.Reads s)
    (hs : Classes.total C.suites ≤ 4194304) (hl : Accepted s.sliding.deltaLimit) :
    Ends ofClasses s fun f t => f.Fits (Classes.total C.suites) ∧ ∃ log, t = s.setLog log := by
  obtain ⟨count, hcount, hn⟩ := h.classCount_eq hs
  obtain ⟨hbits, hclasses⟩ := bitsFor_spec (n := count) (by omega)
  have hfar := farthest_eq hbits
  have : 2 ^ 1 ≤ 2 ^ (24 - (bitsFor count).toNat) :=
    Nat.pow_le_pow_right (by decide) (by omega)
  have hle : bitsFor count ≤ 24 := le_iff_toNat_le.2 (le_trans hbits (by decide))
  rw [ofClasses]
  refine .query_bind hcount ?_
  refine .except_bind (a := ()) (by simp [require, hle]) ?_
  refine .get_bind ?_
  have main : ∀ delta : UInt32, delta.toNat % 4 = 0 → 4 ≤ delta.toNat →
      delta.toNat ≤ (2 ^ (24 - (bitsFor count).toNat) - 1) * 4 →
      Ends (do
        Store.say .trace .collection fun _ =>
          s!"forwarding: {bitsFor count} class bits, max delta {delta} bytes"
        return ({ classBits := bitsFor count, maxDelta := delta } : Forwarding)) s fun f t =>
        f.Fits (Classes.total C.suites) ∧ ∃ log, t = s.setLog log := by
    intro delta h4 hlow hhigh
    have hhigh' : delta.toNat / 4 < 2 ^ (24 - (bitsFor count).toNat) := by omega
    exact .say_bind fun log => .pure ⟨⟨hbits, hn ▸ hclasses, h4, hlow, hhigh'⟩, log, rfl⟩
  cases hd : s.sliding.deltaLimit with
  | none => exact main (((1 <<< (24 - bitsFor count)) - 1) * 4) (by omega) (by omega) (by omega)
  | some limit =>
    obtain ⟨hlow, h4⟩ := hl limit hd
    have : (min (((1 <<< (24 - bitsFor count)) - 1) * 4) limit).toNat =
        min ((2 ^ (24 - (bitsFor count).toNat) - 1) * 4) limit.toNat := by
      rw [← hfar, toNat_min]
    exact main (min (((1 <<< (24 - bitsFor count)) - 1) * 4) limit) (by omega) (by omega)
      (by omega)

variable {f : Forwarding} {n : Nat} {delta dense : UInt32}

lemma toNat_classMask (h : f.Fits n) : f.classMask.toNat = 2 ^ f.classBits.toNat - 1 := by
  have := h.bits
  have h1 := toNat_one
  have hp := toNat_one_shiftLeft (k := f.classBits) (by omega)
  have : 0 < 2 ^ f.classBits.toNat := Nat.pow_pos (by decide)
  rw [classMask, toNat_minus (by omega), hp, h1]

/-- The word that replaces the class in a header: how far the object goes, in words, above the dense
number of its class. -/
def encode (f : Forwarding) (delta dense : UInt32) : UInt32 :=
  (delta / 4) <<< f.classBits ||| dense

section

variable (h : f.Fits n) (hd : delta.toNat ≤ f.maxDelta.toNat) (hn : dense.toNat ≤ n)
include h hd hn

lemma toNat_encode :
    (f.encode delta dense).toNat = delta.toNat / 4 * 2 ^ f.classBits.toNat + dense.toNat ∧
      (f.encode delta dense).toNat < 16777216 := by
  have := h.bits
  have hc := h.classes
  have hh := h.high
  have h4 : (delta / 4).toNat = delta.toNat / 4 := by rfl
  have hlt : delta.toNat / 4 < 2 ^ (24 - f.classBits.toNat) :=
    Nat.lt_of_le_of_lt (Nat.div_le_div_right hd) hh
  have hmul : (delta.toNat / 4 + 1) * 2 ^ f.classBits.toNat ≤ 2 ^ 24 := by
    have := mul_le_mul_right (2 ^ f.classBits.toNat) hlt
    rwa [← Nat.pow_add, Nat.sub_add_cancel (by omega)] at this
  rw [Nat.add_mul, Nat.one_mul] at hmul
  have hs : ((delta / 4) <<< f.classBits).toNat = delta.toNat / 4 * 2 ^ f.classBits.toNat := by
    have hmod : f.classBits.toNat % 32 = f.classBits.toNat := mod_eq_of_lt (by omega)
    rw [UInt32.toNat_shiftLeft, h4, hmod, Nat.shiftLeft_eq]
    exact mod_eq_of_lt (by omega)
  have he : (f.encode delta dense).toNat =
      delta.toNat / 4 * 2 ^ f.classBits.toNat + dense.toNat := by
    rw [encode, UInt32.toNat_or, hs, Nat.mul_comm,
      ← two_pow_add_eq_or_of_lt (lt_of_le_of_lt hn hc)]
  exact ⟨he, by omega⟩

lemma encode_delta : (f.encode delta dense >>> f.classBits).toNat = delta.toNat / 4 := by
  have := h.bits
  have hlt := Nat.lt_of_le_of_lt hn h.classes
  have hpos : 0 < 2 ^ f.classBits.toNat := Nat.pow_pos (by decide)
  have hmod : f.classBits.toNat % 32 = f.classBits.toNat := mod_eq_of_lt (by omega)
  rw [UInt32.toNat_shiftRight, (toNat_encode h hd hn).1, hmod,
    shiftRight_eq_div_pow, mul_comm, mul_add_div hpos, div_eq_of_lt hlt,
    add_zero]

lemma encode_class : f.encode delta dense &&& f.classMask = dense := by
  apply UInt32.toNat_inj.mp
  rw [UInt32.toNat_and, toNat_classMask h, Nat.and_two_pow_sub_one_eq_mod,
    (toNat_encode h hd hn).1, mul_comm, mul_add_mod]
  exact mod_eq_of_lt (lt_of_le_of_lt hn h.classes)

end

/-! ### Forwarded objects -/

variable {s : Store} {oop low k count : UInt32}

section

variable (h : f.Fits n) (hd : delta.toNat ≤ f.maxDelta.toNat) (hn : dense.toNat ≤ n)
include h hd hn

lemma forward_ends (hdense : Store.denseNumber k s = .ok dense)
    (hh : Header.Holds s.mem oop low count) {post : Unit → Store → Prop}
    (hp : ∀ w, Header.Holds (s.mem.pokeWord (oop.toNat - 4) w) oop (f.encode delta dense) count →
      post () (s.setMem (s.mem.pokeWord (oop.toNat - 4) w))) :
    Ends (f.forward oop k delta) s post := by
  have := toNat_classMask h
  have := h.classes
  obtain ⟨w, hw, hheld⟩ := hh.setLowBits (toNat_encode h hd hn).2
  have hle : dense ≤ f.classMask := le_iff_toNat_le.2 (by omega)
  have hle' := le_iff_toNat_le.2 hd
  refine .query_bind hdense ?_
  refine .except_bind (a := ()) (by simp [require, hle, hle']) ?_
  exact .edit hw (hp w hheld)

lemma target_eq {m : Memory} (h4 : delta.toNat % 4 = 0) (hle : delta.toNat ≤ oop.toNat)
    (hh : Header.Holds m oop (f.encode delta dense) count) :
    f.target oop m = .ok (oop - delta) := by
  have hshift := encode_delta h hd hn
  have := delta.toNat_lt
  have h44 := toNat_four
  have hmul : (f.encode delta dense >>> f.classBits) * 4 = delta := by
    apply UInt32.toNat_inj.mp
    rw [toNat_times (by rw [hshift, h44]; omega), hshift, h44]
    omega
  rw [target, Read.bind_ok hh.lowBits, Read.lift_ok (times_eq (by rw [hshift, h44]; omega)), hmul]
  exact minus_eq hle

lemma classOf_eq (hh : Header.Holds s.mem oop (f.encode delta dense) count)
    (hk : Store.classOfDense dense s = .ok k) : f.classOf oop s = .ok k := by
  have hlow : (liftM (Header.lowBits oop) : Query UInt32) s = .ok (f.encode delta dense) :=
    hh.lowBits
  rw [classOf, Query.bind_ok hlow, encode_class h hd hn]
  exact hk

end

end DeviceVm.Forwarding
