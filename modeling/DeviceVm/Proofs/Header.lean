import DeviceVm.Object.Block
import DeviceVm.Proofs.Access
import DeviceVm.Proofs.Word

/-!
Headers read and written. `Header.Holds` says what the one or two words in front of an object
are: the low bits, which name a class or lead to another object, and the element count.
-/

namespace DeviceVm

open Memory UInt32 Header Word Read

namespace HeaderTag

variable {w : UInt32}

lemma ofWord_class (h : w.toNat % 4 = 0) : ofWord w = .classWord := by
  rw [ofWord, toNat_and_three, h]
  rfl

lemma ofWord_length (h : w.toNat % 4 = 1) : ofWord w = .arrayLength := by
  rw [ofWord, toNat_and_three, h]
  rfl

lemma ofWord_forward (h : w.toNat % 4 = 2) : ofWord w = .forward := by
  rw [ofWord, toNat_and_three, h]
  rfl

lemma ofWord_free (h : w.toNat % 4 = 3) : ofWord w = .freeBlock := by
  rw [ofWord, toNat_and_three, h]
  rfl

lemma ofWord_beq : (ofWord w == .arrayLength) = (w.toNat % 4 == 1) ∧
    (ofWord w == .forward) = (w.toNat % 4 == 2) := by
  have : w.toNat % 4 = 0 ∨ w.toNat % 4 = 1 ∨ w.toNat % 4 = 2 ∨ w.toNat % 4 = 3 := by omega
  rcases this with h | h | h | h
  · rw [ofWord_class h, h]; exact ⟨rfl, rfl⟩
  · rw [ofWord_length h, h]; exact ⟨rfl, rfl⟩
  · rw [ofWord_forward h, h]; exact ⟨rfl, rfl⟩
  · rw [ofWord_free h, h]; exact ⟨rfl, rfl⟩

end HeaderTag

namespace Header

/-- A count below 255 is in the first word, a greater one has a word of its own. -/
def bytes (count : UInt32) : Nat := if count.toNat < 255 then 4 else 8

lemma toNat_sizeForCount (count : UInt32) : (sizeForCount count).toNat = bytes count := by
  have h : (count < longCount) ↔ count.toNat < 255 := lt_iff_toNat_lt
  simp only [sizeForCount, bytes, h]
  split <;> rfl

lemma bytes_cases (count : UInt32) : bytes count = 4 ∨ bytes count = 8 := by
  unfold bytes
  split <;> simp

/-- The words in front of the object hold the low bits and the count. -/
structure Holds (m : Memory) (oop low count : UInt32) : Prop where
  aligned : oop.toNat % 4 = 0
  room : bytes count ≤ oop.toNat
  inside : oop.toNat ≤ m.size
  low_lt : low.toNat < 16777216
  count_lt : count.toNat < 1073741824
  word : (m.peekWord (oop.toNat - 4)).toNat = min count.toNat 255 * 16777216 + low.toNat
  long : 255 ≤ count.toNat → (m.peekWord (oop.toNat - 8)).toNat = count.toNat * 4 + 1

namespace Holds

variable {m n : Memory} {oop low count : UInt32}

section

variable (h : Holds m oop low count)
include h

lemma four_le : 4 ≤ oop.toNat := by
  have := h.room
  have := bytes_cases count
  omega

lemma eight_le (hc : 255 ≤ count.toNat) : 8 ≤ oop.toNat := by
  have := h.room
  rw [bytes, if_neg (by omega)] at this
  exact this

lemma congr (hs : n.size = m.size)
    (h4 : n.peekWord (oop.toNat - 4) = m.peekWord (oop.toNat - 4))
    (h8 : 255 ≤ count.toNat → n.peekWord (oop.toNat - 8) = m.peekWord (oop.toNat - 8)) :
    Holds n oop low count where
  __ := h
  inside := hs ▸ h.inside
  word := by rw [h4]; exact h.word
  long hc := by rw [h8 hc]; exact h.long hc

lemma agrees {fixed : Nat → Prop} (hn : Agrees fixed m n)
    (hf : ∀ b, oop.toNat - bytes count ≤ b → b < oop.toNat → fixed b) : Holds n oop low count := by
  have := bytes_cases count
  refine h.congr hn.size (hn.peekWord _ fun i hi => ?_) fun hc => hn.peekWord _ fun i hi => ?_
  · have := h.four_le
    exact hf _ (by omega) (by omega)
  · have := h.eight_le hc
    have : bytes count = 8 := by rw [bytes, if_neg (by omega)]
    exact hf _ (by omega) (by omega)

lemma moved {oop' : UInt32} (ho : n.order = m.order) (h4 : oop'.toNat % 4 = 0)
    (hr : bytes count ≤ oop'.toNat) (hs : oop'.toNat ≤ n.size)
    (hb : ∀ i < bytes count,
      n.peek (oop'.toNat - bytes count + i) = m.peek (oop.toNat - bytes count + i)) :
    Holds n oop' low count := by
  have := bytes_cases count
  have := h.room
  have word : ∀ d ≤ bytes count, 4 ≤ d →
      n.peekWord (oop'.toNat - d) = m.peekWord (oop.toNat - d) := by
    intro d hd h4d
    refine peekWord_congr ho fun i hi => ?_
    have := hb (bytes count - d + i) (by omega)
    rwa [show oop'.toNat - bytes count + (bytes count - d + i) = oop'.toNat - d + i by omega,
      show oop.toNat - bytes count + (bytes count - d + i) = oop.toNat - d + i by omega] at this
  exact { h with
    aligned := h4
    room := hr
    inside := hs
    word := by rw [word 4 (by omega) (by omega)]; exact h.word
    long := by
      intro hl
      have : bytes count = 8 := by rw [bytes, if_neg (by omega)]
      rw [word 8 (by omega) (by omega)]
      exact h.long hl }

lemma peek_eq (h' : Holds n oop low count) (ho : n.order = m.order) {b : Nat}
    (hb : oop.toNat - bytes count ≤ b) (hlt : b < oop.toNat) : n.peek b = m.peek b := by
  by_cases hw : oop.toNat - 4 ≤ b
  · have he : n.peekWord (oop.toNat - 4) = m.peekWord (oop.toNat - 4) :=
      UInt32.toNat_inj.1 (h'.word.trans h.word.symm)
    have := peek_of_peekWord ho he (i := b - (oop.toNat - 4)) (by omega)
    rwa [show oop.toNat - 4 + (b - (oop.toNat - 4)) = b by omega] at this
  have hc : 255 ≤ count.toNat := by
    rw [bytes] at hb
    split at hb <;> omega
  have he : n.peekWord (oop.toNat - 8) = m.peekWord (oop.toNat - 8) :=
    UInt32.toNat_inj.1 ((h'.long hc).trans (h.long hc).symm)
  rw [bytes, if_neg (by omega)] at hb
  have := peek_of_peekWord ho he (i := b - (oop.toNat - 8)) (by omega)
  rwa [show oop.toNat - 8 + (b - (oop.toNat - 8)) = b by omega] at this

lemma points_class : Points oop (-1) (oop.toNat - 4) := by
  have := h.four_le
  have := oop.toNat_lt
  exact .lit (-1) rfl (by omega)

lemma points_length (hc : 255 ≤ count.toNat) : Points oop (-2) (oop.toNat - 8) := by
  have := h.eight_le hc
  have := oop.toNat_lt
  exact .lit (-2) rfl (by omega)

lemma classWord : classWord oop m = .ok (m.peekWord (oop.toNat - 4)) := by
  have := h.four_le
  have := h.aligned
  have := h.inside
  exact word_eq h.points_class (by omega)

lemma low_eq : m.peekWord (oop.toNat - 4) &&& classMask = low := by
  apply UInt32.toNat_inj.mp
  have := h.low_lt
  rw [classMask, Word.toNat_low, h.word]
  omega

lemma high_eq : (m.peekWord (oop.toNat - 4) >>> 24).toNat = min count.toNat 255 := by
  have := h.low_lt
  rw [toNat_high, h.word]
  omega

lemma tag_eq : (m.peekWord (oop.toNat - 4)).toNat % 4 = low.toNat % 4 := by
  rw [h.word]
  omega

lemma lowBits : Header.lowBits oop m = .ok low := by
  rw [Header.lowBits, Read.bind_ok h.classWord, h.low_eq]
  rfl

lemma size : Header.size oop m = .ok (sizeForCount count) := by
  rw [Header.size, Read.bind_ok h.classWord]
  have hh := h.high_eq
  have : longCount.toNat = 255 := rfl
  by_cases hc : count.toNat < 255
  · have hne : ¬ (m.peekWord (oop.toNat - 4) >>> 24 = longCount) := by
      intro he
      rw [he] at hh
      omega
    have hlt : count < longCount := lt_iff_toNat_lt.2 hc
    simp only [sizeForCount, hlt, beq_iff_eq, hne]
    rfl
  · have he : m.peekWord (oop.toNat - 4) >>> 24 = longCount := by
      apply UInt32.toNat_inj.mp
      omega
    have hge : ¬ count < longCount := fun hlt => hc (UInt32.lt_iff_toNat_lt.1 hlt)
    simp only [sizeForCount, hge, he]
    rfl

lemma elementCount : Header.elementCount oop m = .ok count := by
  rw [Header.elementCount, Read.bind_ok h.classWord]
  have := h.high_eq
  have : longCount.toNat = 255 := rfl
  by_cases hc : count.toNat < 255
  · have hlt : m.peekWord (oop.toNat - 4) >>> 24 < longCount := by
      apply lt_iff_toNat_lt.mpr
      omega
    have he : m.peekWord (oop.toNat - 4) >>> 24 = count := by
      apply UInt32.toNat_inj.mp
      omega
    rw [if_pos hlt, he]
    rfl
  have hge : ¬ m.peekWord (oop.toNat - 4) >>> 24 < longCount := by
    intro hlt
    have := lt_iff_toNat_lt.1 hlt
    omega
  have hc' : 255 ≤ count.toNat := by omega
  have hw : Memory.word oop (-2) m = .ok (m.peekWord (oop.toNat - 8)) := by
    have := h.aligned
    have := h.inside
    have := h.eight_le hc'
    exact word_eq (h.points_length hc') (by omega)
  have ht : HeaderTag.ofWord (m.peekWord (oop.toNat - 8)) = .arrayLength := by
    apply HeaderTag.ofWord_length
    rw [h.long hc']
    omega
  have hs : m.peekWord (oop.toNat - 8) >>> 2 = count := by
    apply UInt32.toNat_inj.mp
    rw [UInt32.toNat_shiftRight, h.long hc']
    show (count.toNat * 4 + 1) >>> 2 = count.toNat
    omega
  rw [if_neg hge, bind_ok hw, lift_ok (a := ()) (by simp [require, ht]), hs]
  rfl

lemma classOf (h4 : low.toNat % 4 = 0) (h0 : low ≠ 0) : classOf oop m = .ok low := by
  have ht := HeaderTag.ofWord_class (h.tag_eq.trans h4)
  rw [Header.classOf, Read.bind_ok h.classWord, Read.lift_ok (a := ()) (by simp [require, ht]),
    h.low_eq, lift_ok (a := ()) (by simp [require, h0])]
  rfl

lemma isForwarded : Header.isForwarded oop m = .ok (low.toNat % 4 == 2) := by
  rw [Header.isForwarded, Read.bind_ok h.classWord, HeaderTag.ofWord_beq.2, h.tag_eq]
  rfl

lemma forwardTarget (h2 : low.toNat % 4 = 2) : forwardTarget oop m = .ok (low - 2) := by
  have ht := HeaderTag.ofWord_forward (h.tag_eq.trans h2)
  have hl : m.peekWord (oop.toNat - 4) &&& classMask &&& ~~~3 = low - 2 := by
    apply UInt32.toNat_inj.mp
    have h2' : (2 : UInt32).toNat = 2 := rfl
    rw [h.low_eq, Word.toNat_clearTag, Word.toNat_minus (by omega), h2']
    omega
  rw [Header.forwardTarget, Read.bind_ok h.classWord,
    lift_ok (a := ()) (by simp [require, ht]), hl]
  rfl

lemma resolve_self (h2 : low.toNat % 4 ≠ 2) : resolve oop m = .ok oop := by
  rw [resolve]
  by_cases h0 : oop = 0
  · simp only [h0, beq_self_eq_true]
    rfl
  · have hb : (low.toNat % 4 == 2) = false := by simpa using h2
    rw [if_neg (by simpa using h0), bind_ok h.isForwarded, hb]
    rfl

lemma resolve_forwarded (h2 : low.toNat % 4 = 2) : resolve oop m = .ok (low - 2) := by
  have h0 : oop ≠ 0 := by
    intro h0
    have := h.four_le
    rw [h0] at this
    exact absurd this (by decide)
  have hb : (low.toNat % 4 == 2) = true := by simpa using h2
  rw [resolve, if_neg (by simpa using h0), bind_ok h.isForwarded, hb, if_pos rfl]
  exact h.forwardTarget h2

lemma setLowBits {bits : UInt32} (hb : bits.toNat < 16777216) :
    ∃ w, setLowBits oop bits m = .ok () (m.pokeWord (oop.toNat - 4) w) ∧
      Holds (m.pokeWord (oop.toNat - 4) w) oop bits count := by
  have := h.four_le
  have ha := h.aligned
  have hi := h.inside
  have := h.low_lt
  refine ⟨(m.peekWord (oop.toNat - 4) &&& ~~~classMask) ||| bits, ?_, ?_⟩
  · have : classMask.toNat = 16777215 := by decide
    have hm : bits ≤ classMask := le_iff_toNat_le.2 (by omega)
    rw [Header.setLowBits, Edit.lift_ok (a := ()) (by simp [require, hm]),
      Edit.read_ok h.classWord, setClassWord]
    exact setWord_eq h.points_class (by omega)
  exact { h with
    aligned := ha
    inside := by rw [size_pokeWord]; exact hi
    low_lt := hb
    word := by
      rw [peekWord_pokeWord_self _ (by omega), classMask, toNat_setLow hb, h.word]
      omega
    long := by
      intro hc
      have := h.eight_le hc
      rw [peekWord_pokeWord_apart _ (by omega)]
      exact h.long hc }

lemma forwardTo {e : UInt32} (h4 : e.toNat % 4 = 0) (hl : e.toNat + 2 < 16777216) :
    ∃ w, forwardTo oop e m = .ok () (m.pokeWord (oop.toNat - 4) w) ∧
      Holds (m.pokeWord (oop.toNat - 4) w) oop (e + 2) count := by
  have h2 : (2 : UInt32).toNat = 2 := rfl
  have ho : e ||| 2 = e + 2 := by
    apply UInt32.toNat_inj.mp
    have hd : e.toNat = 2 ^ 2 * (e.toNat / 4) := by omega
    rw [UInt32.toNat_or, Word.toNat_plus (by omega), h2]
    rw [hd, Nat.two_pow_add_eq_or_of_lt (by omega)]
  have hz : e &&& 3 = 0 := by
    apply UInt32.toNat_inj.mp
    rw [Word.toNat_and_three, h4]
    rfl
  have : classMask.toNat = 16777215 := by decide
  have hm : e ≤ classMask := le_iff_toNat_le.2 (by omega)
  rw [Header.forwardTo, Edit.lift_ok (a := ()) (by simp [require, hz, hm]), ho]
  exact h.setLowBits (by rw [toNat_plus (by omega)]; omega)

lemma toObject (h1 : low.toNat % 4 ≠ 1) {block : UInt32}
    (hb : block.toNat + bytes count = oop.toNat) : Block.toObject block m = .ok oop := by
  have := h.aligned
  have := h.inside
  have hw : ∀ n : Nat, block.toNat + n = oop.toNat → (n = 4 ∨ n = 8) →
      wordAt block m = .ok (m.peekWord (oop.toNat - n)) := by
    intro n hn hc
    rw [wordAt_eq (by omega) (by omega), show oop.toNat - n = block.toNat by omega]
  have := toNat_four
  have : (8 : UInt32).toNat = 8 := rfl
  have := oop.toNat_lt
  rw [Block.toObject]
  by_cases hc : count.toNat < 255
  · have : bytes count = 4 := by rw [bytes, if_pos hc]
    have hs : Block.headerSize block m = .ok 4 := by
      rw [Block.headerSize, bind_ok (hw 4 (by omega) (by omega)),
        HeaderTag.ofWord_beq.1, h.tag_eq]
      have hn : (low.toNat % 4 == 1) = false := by simpa using h1
      rw [hn]
      rfl
    rw [bind_ok hs]
    refine (Word.plus_eq (by omega)).trans (congrArg Except.ok (UInt32.toNat_inj.mp ?_))
    rw [Word.toNat_plus] <;> omega
  have : bytes count = 8 := by rw [bytes, if_neg hc]
  have hs : Block.headerSize block m = .ok 8 := by
    rw [Block.headerSize, bind_ok (hw 8 (by omega) (by omega)),
      HeaderTag.ofWord_beq.1, h.long (by omega)]
    have hn : ((count.toNat * 4 + 1) % 4 == 1) = true := by
      have : (count.toNat * 4 + 1) % 4 = 1 := by omega
      simp [this]
    rw [hn]
    rfl
  rw [bind_ok hs]
  refine (Word.plus_eq (by omega)).trans (congrArg Except.ok (UInt32.toNat_inj.mp ?_))
  rw [Word.toNat_plus] <;> omega

end

end Holds

end Header

end DeviceVm
