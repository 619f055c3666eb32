import DeviceVm.Memory.Access
import Mathlib.Tactic.Lemma

/-!
Laws of memory: a byte or a word that is read back is the one that was written last, and a write
leaves everything else alone. Addresses are natural numbers here; words are wanted at multiples
of four, so two words are the same or apart.
-/

namespace DeviceVm

open ByteArray BitVec

lemma word_of_bytes (v : UInt32) :
    (v >>> 24).toUInt8.toUInt32 <<< 24 ||| (v >>> 16).toUInt8.toUInt32 <<< 16 |||
      (v >>> 8).toUInt8.toUInt32 <<< 8 ||| v.toUInt8.toUInt32 = v := by
  apply UInt32.toBitVec_inj.mp
  apply BitVec.eq_of_getLsbD_eq
  intro i hi
  simp only [UInt32.toBitVec_or, UInt32.toBitVec_shiftLeft, UInt8.toBitVec_toUInt32,
    BitVec.getLsbD_or]
  simp only [BitVec.shiftLeft_eq', getLsbD_shiftLeft, getLsbD_setWidth, hi,
    decide_true]
  by_cases h8 : i < 8
  · have h16 : i < 16 := by omega
    have h24 : i < 24 := by omega
    simp [h8, h16, h24]
  by_cases h16 : i < 16
  · have h24 : i < 24 := by omega
    have hw : i - 8 < 32 := by omega
    have hb : i - 8 < 8 := by omega
    have he : 8 + (i - 8) = i := by omega
    simp [h8, h16, h24, hw, hb, he]
  by_cases h24 : i < 24
  · have hw : i - 16 < 32 := by omega
    have hb : i - 16 < 8 := by omega
    have hn : ¬ i - 8 < 8 := by omega
    have he : 16 + (i - 16) = i := by omega
    simp [h16, h24, hw, hb, hn, he]
  have hw : i - 24 < 32 := by omega
  have hb : i - 24 < 8 := by omega
  have hn : ¬ i - 8 < 8 := by omega
  have hn' : ¬ i - 16 < 8 := by omega
  have he : 24 + (i - 24) = i := by omega
  simp [h24, hw, hb, hn, hn', he]

lemma bytes_of_word {a b c d a' b' c' d' : UInt8}
    (h : a.toUInt32 <<< 24 ||| b.toUInt32 <<< 16 ||| c.toUInt32 <<< 8 ||| d.toUInt32 =
      a'.toUInt32 <<< 24 ||| b'.toUInt32 <<< 16 ||| c'.toUInt32 <<< 8 ||| d'.toUInt32) :
    a = a' ∧ b = b' ∧ c = c' ∧ d = d' := by
  have bit : ∀ j, (a.toUInt32 <<< 24 ||| b.toUInt32 <<< 16 ||| c.toUInt32 <<< 8 |||
      d.toUInt32).toBitVec.getLsbD j = (a'.toUInt32 <<< 24 ||| b'.toUInt32 <<< 16 |||
      c'.toUInt32 <<< 8 ||| d'.toUInt32).toBitVec.getLsbD j := fun j => by rw [h]
  simp only [UInt32.toBitVec_or, UInt32.toBitVec_shiftLeft, UInt8.toBitVec_toUInt32,
    BitVec.getLsbD_or, BitVec.reduceMod, UInt32.toBitVec_ofNat,
    BitVec.shiftLeft_eq', BitVec.toNat_ofNat, Nat.reducePow, BitVec.getLsbD_shiftLeft,
    BitVec.getLsbD_setWidth] at bit
  have high : ∀ (x : UInt8) {j : Nat}, 8 ≤ j → x.toBitVec.getLsbD j = false :=
    fun x j hj => getLsbD_of_ge _ _ hj
  refine ⟨?_, ?_, ?_, ?_⟩ <;> apply UInt8.toBitVec_inj.1 <;> apply eq_of_getLsbD_eq <;>
    intro i hi
  · have := bit (24 + i)
    rw [show 24 + i - 24 = i by omega, show 24 + i - 16 = 8 + i by omega,
      show 24 + i - 8 = 16 + i by omega, high b (by omega), high c (by omega), high d (by omega),
      high b' (by omega), high c' (by omega), high d' (by omega)] at this
    simpa [show 24 + i < 32 by omega, show ¬ 24 + i < 24 by omega, show i < 32 by omega] using this
  · have := bit (16 + i)
    rw [show 16 + i - 16 = i by omega, show 16 + i - 8 = 8 + i by omega, high c (by omega),
      high d (by omega), high c' (by omega), high d' (by omega)] at this
    simpa [show 16 + i < 32 by omega, show 16 + i < 24 by omega, show ¬ 16 + i < 16 by omega,
      show i < 32 by omega] using this
  · have := bit (8 + i)
    simpa [show 8 + i < 32 by omega, show 8 + i < 24 by omega, show 8 + i < 16 by omega,
      show ¬ 8 + i < 8 by omega, show i < 32 by omega] using this
  · have := bit i
    simpa [show i < 32 by omega, show i < 24 by omega, show i < 16 by omega, hi] using this

namespace Memory

variable {m : Memory} {a b : Nat} {source target n : Nat}

lemma size_eq (m : Memory) : m.size = m.bytes.data.size := rfl

lemma peek_eq (m : Memory) (a : Nat) : m.peek a = m.bytes.data[a]?.getD 0 := by
  unfold peek
  split
  · rename_i h
    have h' := h
    rw [Array.getElem?_eq_getElem h']
    rfl
  · rename_i h
    rw [Array.getElem?_eq_none (Nat.le_of_not_lt h)]
    rfl

/-! ### Bytes -/

@[simp] lemma size_poke (v : UInt8) : (m.poke a v).size = m.size := by
  simp only [size_eq, poke, set!, Array.set!_eq_setIfInBounds, Array.size_setIfInBounds]

@[simp] lemma order_poke (v : UInt8) : (m.poke a v).order = m.order := rfl

lemma peek_poke (v : UInt8) (ha : a < m.size) :
    (m.poke a v).peek b = if b = a then v else m.peek b := by
  simp only [peek_eq, poke, set!, Array.set!_eq_setIfInBounds,
    Array.getElem?_setIfInBounds]
  have ha' : a < m.bytes.data.size := ha
  by_cases h : a = b
  · subst h
    rw [if_pos rfl, if_pos ha', if_pos rfl]
    rfl
  · rw [if_neg h, if_neg (Ne.symm h)]

lemma peek_poke_ne (v : UInt8) (h : b ≠ a) : (m.poke a v).peek b = m.peek b := by
  simp only [peek_eq, poke, set!, Array.set!_eq_setIfInBounds,
    Array.getElem?_setIfInBounds]
  rw [if_neg (Ne.symm h)]

/-! ### Words -/

@[simp] lemma size_pokeWord (v : UInt32) : (m.pokeWord a v).size = m.size := by
  unfold pokeWord
  split <;> simp

@[simp] lemma order_pokeWord (v : UInt32) : (m.pokeWord a v).order = m.order := by
  unfold pokeWord
  split <;> simp

lemma peek_pokeWord_ne (v : UInt32) (h : b < a ∨ a + 4 ≤ b) :
    (m.pokeWord a v).peek b = m.peek b := by
  have h0 : b ≠ a := by omega
  have h1 : b ≠ a + 1 := by omega
  have h2 : b ≠ a + 2 := by omega
  have h3 : b ≠ a + 3 := by omega
  unfold pokeWord
  split <;> simp only [peek_poke_ne, h0, h1, h2, h3, ne_eq, not_false_eq_true]

lemma peekWord_congr {n : Memory} (ho : n.order = m.order)
    (h : ∀ i < 4, n.peek (b + i) = m.peek (a + i)) : n.peekWord b = m.peekWord a := by
  have h0 := h 0 (by omega)
  have h1 := h 1 (by omega)
  have h2 := h 2 (by omega)
  have h3 := h 3 (by omega)
  simp only [Nat.add_zero] at h0
  simp only [peekWord, ho, h0, h1, h2, h3]

lemma peekWord_pokeWord_self (v : UInt32) (h : a + 4 ≤ m.size) :
    (m.pokeWord a v).peekWord a = v := by
  have h0 : a < m.size := by omega
  have h1 : a + 1 < m.size := by omega
  have h2 : a + 2 < m.size := by omega
  have h3 : a + 3 < m.size := by omega
  have hw := word_of_bytes v
  unfold pokeWord
  split <;> rename_i ho
  all_goals
    simp only [peekWord, order_poke, ho, ByteOrder.word, peek_poke, size_poke, h0, h1, h2, h3]
    simpa using hw

lemma peekWord_pokeWord_apart (v : UInt32) (h : b + 4 ≤ a ∨ a + 4 ≤ b) :
    (m.pokeWord a v).peekWord b = m.peekWord b := by
  apply peekWord_congr (order_pokeWord v)
  intro i hi
  exact peek_pokeWord_ne v (by omega)

lemma peekWord_pokeWord_ne (v : UInt32) (ha : a % 4 = 0) (hb : b % 4 = 0) (h : b ≠ a) :
    (m.pokeWord a v).peekWord b = m.peekWord b :=
  peekWord_pokeWord_apart v (by omega)

lemma peekWord_pokeWord (v : UInt32) (ha : a % 4 = 0) (hb : b % 4 = 0) (h : a + 4 ≤ m.size) :
    (m.pokeWord a v).peekWord b = if b = a then v else m.peekWord b := by
  by_cases hab : b = a
  · rw [if_pos hab, hab, peekWord_pokeWord_self v h]
  · rw [if_neg hab, peekWord_pokeWord_ne v ha hb hab]

/-! ### Ranges -/

lemma peek_pokeZeros (n : Nat) (h : a + n ≤ m.size) :
    (m.pokeZeros a n).peek b = if a ≤ b ∧ b < a + n then 0 else m.peek b := by
  induction n generalizing m a with
  | zero =>
    rw [if_neg (by omega)]
    rfl
  | succ n ih =>
    rw [pokeZeros, ih (by simp; omega), peek_poke 0 (by omega)]
    by_cases hb : b = a
    · rw [if_neg (by omega), if_pos hb, if_pos (by omega)]
    · rw [if_neg hb]
      by_cases hr : a ≤ b ∧ b < a + (n + 1)
      · rw [if_pos hr, if_pos (by omega)]
      · rw [if_neg hr, if_neg (by omega)]

@[simp] lemma size_pokeZeros (n : Nat) : (m.pokeZeros a n).size = m.size := by
  induction n generalizing m a with
  | zero => rfl
  | succ n ih => rw [pokeZeros, ih, size_poke]

@[simp] lemma order_pokeZeros (n : Nat) : (m.pokeZeros a n).order = m.order := by
  induction n generalizing m a with
  | zero => rfl
  | succ n ih => rw [pokeZeros, ih, order_poke]

@[simp] lemma size_pokeWords (v : UInt32) (n : Nat) : (m.pokeWords a v n).size = m.size := by
  induction n generalizing m a with
  | zero => rfl
  | succ n ih => rw [pokeWords, ih, size_pokeWord]

@[simp] lemma order_pokeWords (v : UInt32) (n : Nat) :
    (m.pokeWords a v n).order = m.order := by
  induction n generalizing m a with
  | zero => rfl
  | succ n ih => rw [pokeWords, ih, order_pokeWord]

lemma peek_pokeWords_ne (v : UInt32) (n : Nat) (h : b < a ∨ a + 4 * n ≤ b) :
    (m.pokeWords a v n).peek b = m.peek b := by
  induction n generalizing m a with
  | zero => rfl
  | succ n ih => rw [pokeWords, ih (by omega), peek_pokeWord_ne v (by omega)]

lemma peekWord_pokeWords_apart (v : UInt32) (n : Nat) (h : b + 4 ≤ a ∨ a + 4 * n ≤ b) :
    (m.pokeWords a v n).peekWord b = m.peekWord b :=
  peekWord_congr (order_pokeWords v n) fun _ _ => peek_pokeWords_ne v n (by omega)

lemma peekWord_pokeWords_in (v : UInt32) {n k : Nat} (hk : k < n) (h : a + 4 * n ≤ m.size) :
    (m.pokeWords a v n).peekWord (a + 4 * k) = v := by
  induction n generalizing m a k with
  | zero => omega
  | succ n ih =>
    rw [pokeWords]
    cases k with
    | zero =>
      simp only [Nat.mul_zero, Nat.add_zero]
      rw [peekWord_pokeWords_apart v n (by omega), peekWord_pokeWord_self v (by omega)]
    | succ k =>
      rw [show a + 4 * (k + 1) = a + 4 + 4 * k by omega]
      exact ih (by omega) (by rw [size_pokeWord]; omega)

lemma size_pokeBytes {source : ByteArray} (h : a + source.size ≤ m.size) :
    (m.pokeBytes a source).size = m.size := by
  simp only [size_eq] at h ⊢
  simp only [pokeBytes, copySlice, Array.size_append, Array.size_extract]
  omega

lemma peek_pokeBytes {source : ByteArray} (h : a + source.size ≤ m.size) :
    (m.pokeBytes a source).peek b =
      if a ≤ b ∧ b < a + source.size then source.data[b - a]?.getD 0 else m.peek b := by
  have hs : source.size = source.data.size := rfl
  simp only [size_eq] at h
  simp only [peek_eq, pokeBytes, copySlice, hs, Nat.zero_add, Nat.sub_zero,
    Array.getElem?_append, Array.size_append, Array.size_extract,
    Array.getElem?_extract]
  by_cases hr : a ≤ b ∧ b < a + source.data.size
  · rw [if_pos hr, if_pos (by omega), if_neg (by omega), if_pos (by omega)]
    congr 2
    omega
  rw [if_neg hr]
  by_cases hb : b < a
  · rw [if_pos (by omega), if_pos (by omega), if_pos (by omega)]
  rw [if_neg (by omega)]
  by_cases hm : b < m.bytes.data.size
  · rw [if_pos (by omega)]
    congr 2
    omega
  · rw [if_neg (by omega), Array.getElem?_eq_none (by omega)]

@[simp] lemma order_move (source target n : Nat) :
    (m.move source target n).order = m.order := by
  simp only [move, pokeBytes]

lemma size_move (hs : source + n ≤ m.size) (ht : target + n ≤ m.size) :
    (m.move source target n).size = m.size := by
  have he : (m.bytes.extract source (source + n)).size = n := by
    rw [size_extract]
    simp only [size] at hs
    omega
  exact size_pokeBytes (by rw [he]; exact ht)

lemma peek_move (hs : source + n ≤ m.size) (ht : target + n ≤ m.size) :
    (m.move source target n).peek b =
      if target ≤ b ∧ b < target + n then m.peek (source + (b - target)) else m.peek b := by
  have he : (m.bytes.extract source (source + n)).size = n := by
    rw [size_extract]
    simp only [size] at hs
    omega
  rw [move, peek_pokeBytes (by rw [he]; exact ht), he]
  by_cases hr : target ≤ b ∧ b < target + n
  · simp only [size_eq] at hs
    rw [if_pos hr, if_pos hr, peek_eq, data_extract, Array.getElem?_extract,
      if_pos (by omega)]
  · rw [if_neg hr, if_neg hr]

lemma peekWord_move_in (hs : source + n ≤ m.size) (ht : target + n ≤ m.size) (i : Nat)
    (hi : i + 4 ≤ n) :
    (m.move source target n).peekWord (target + i) = m.peekWord (source + i) := by
  apply peekWord_congr (order_move _ _ _)
  intro j hj
  rw [peek_move hs ht, if_pos (by omega)]
  congr 1
  omega

lemma peekWord_move_out (hs : source + n ≤ m.size) (ht : target + n ≤ m.size)
    (hb : b + 4 ≤ target ∨ target + n ≤ b) :
    (m.move source target n).peekWord b = m.peekWord b := by
  apply peekWord_congr (order_move _ _ _)
  intro j hj
  rw [peek_move hs ht, if_neg (by omega)]

/-! ### Memories with the same bytes -/

lemma ext_peek {n : Memory} (ho : n.order = m.order) (hs : n.size = m.size)
    (h : ∀ b, n.peek b = m.peek b) : n = m := by
  obtain ⟨⟨nb⟩, no⟩ := n
  obtain ⟨⟨mb⟩, mo⟩ := m
  have hb : nb = mb := by
    apply Array.ext hs
    intro i h1 h2
    have := h i
    rw [peek_eq, peek_eq] at this
    simpa [h1, h2] using this
  subst hb
  subst ho
  rfl

lemma peek_of_peekWord {n : Memory} {b : Nat} (ho : n.order = m.order)
    (h : n.peekWord a = m.peekWord b) {i : Nat} (hi : i < 4) : n.peek (a + i) = m.peek (b + i) := by
  rw [peekWord, peekWord, ho] at h
  have h4 : i = 0 ∨ i = 1 ∨ i = 2 ∨ i = 3 := by omega
  cases hm : m.order with
  | big =>
    rw [hm] at h
    obtain ⟨h0, h1, h2, h3⟩ := bytes_of_word h
    rcases h4 with rfl | rfl | rfl | rfl <;> assumption
  | little =>
    rw [hm] at h
    obtain ⟨h3, h2, h1, h0⟩ := bytes_of_word h
    rcases h4 with rfl | rfl | rfl | rfl <;> assumption

lemma peekWord_zero (h : ∀ i < 4, m.peek (a + i) = 0) : m.peekWord a = 0 := by
  have h0 := h 0 (by omega)
  rw [Nat.add_zero] at h0
  rw [peekWord, h0, h 1 (by omega), h 2 (by omega), h 3 (by omega)]
  cases m.order <;> rfl

lemma pokeWord_peekWord (h : a + 4 ≤ m.size) : m.pokeWord a (m.peekWord a) = m := by
  apply ext_peek (order_pokeWord _) (size_pokeWord _)
  intro b
  by_cases hb : b < a ∨ a + 4 ≤ b
  · exact peek_pokeWord_ne _ hb
  · have he : b = a + (b - a) := by omega
    rw [he]
    exact peek_of_peekWord (order_pokeWord _) (peekWord_pokeWord_self _ h) (by omega)

end Memory

end DeviceVm
