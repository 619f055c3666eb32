import DeviceVm.Proofs.Memory

/-!
What the checked accesses do where they do not fault, and computations that read only bytes that
stay as they are.
-/

namespace DeviceVm

variable {α β : Type} {m : Memory}

lemma Read.bind_ok {r : Read α} {f : α → Read β} {a : α} (h : r m = .ok a) :
    (r >>= f) m = f a m := by
  show Except.bind (r m) (fun x => f x m) = f a m
  rw [h]
  rfl

lemma Read.lift_ok {e : Except Fault α} {f : α → Read β} {a : α} (h : e = .ok a) :
    ((liftM e : Read α) >>= f) m = f a m :=
  Read.bind_ok h

lemma Edit.bind_ok {n : Memory} {e : Edit α} {f : α → Edit β} {a : α} (h : e m = .ok a n) :
    (e >>= f) m = f a n := by
  show EStateM.bind e f m = f a n
  simp only [EStateM.bind, h]

lemma Edit.read_ok {r : Read α} {f : α → Edit β} {a : α} (h : r m = .ok a) :
    ((liftM r : Edit α) >>= f) m = f a m := by
  apply Edit.bind_ok
  simp only [liftM, monadLift, MonadLift.monadLift, h]

lemma Edit.lift_ok {e : Except Fault α} {f : α → Edit β} {a : α} (h : e = .ok a) :
    ((liftM e : Edit α) >>= f) m = f a m := by
  apply Edit.bind_ok
  rw [h]
  rfl

/-- The word at `index` from `base` has the address `a`, and nothing overflows on the way to it. -/
structure Points (base : UInt32) (index : Int32) (a : Nat) : Prop where
  low : -536870912 ≤ index.toInt
  high : index.toInt < 536870912
  eq : (base.toNat : Int) + 4 * index.toInt = a
  range : a < 4294967296

namespace Points

instance (base : UInt32) (index : Int32) (a : Nat) : Decidable (Points base index a) :=
  decidable_of_iff (_ ∧ _ ∧ _ ∧ _)
    ⟨fun h => ⟨h.1, h.2.1, h.2.2.1, h.2.2.2⟩, fun h => ⟨h.low, h.high, h.eq, h.range⟩⟩

variable {base : UInt32} {index : Int32} {a : Nat} {i : UInt32}

lemma lit (j : Int) (hj : index.toInt = j)
    (h : (-536870912 ≤ j ∧ j < 536870912) ∧ (base.toNat : Int) + 4 * j = a ∧ a < 4294967296 :=
      by omega) : Points base index a :=
  ⟨hj ▸ h.1.1, hj ▸ h.1.2, hj ▸ h.2.1, h.2.2⟩

lemma toInt_toInt32 (h : i.toNat < 2147483648) : i.toInt32.toInt = i.toNat := by
  have hb : i.toInt32.toInt = i.toBitVec.toInt := rfl
  have hn : i.toBitVec.toNat = i.toNat := rfl
  rw [hb, BitVec.toInt_eq_toNat_cond, hn]
  rw [if_pos (by omega)]

lemma nat (hi : i.toNat < 536870912) (he : base.toNat + 4 * i.toNat = a)
    (hr : a < 4294967296) : Points base i.toInt32 a := by
  refine lit (i.toNat : Int) (toInt_toInt32 (by omega)) (by omega)

lemma scaled (h : Points base index a) :
    ∃ d, Word.scaled index 4 = .ok d ∧ (base + d).toNat = a := by
  obtain ⟨low, high, eq, range⟩ := h
  refine ⟨(Int32.ofInt (index.toInt * 4)).toUInt32, ?_, ?_⟩
  · simp only [Word.scaled]
    rw [if_pos (by omega)]
  · have : ((Int32.ofInt (index.toInt * 4)).toUInt32.toNat : Int)
        = (index.toInt * 4) % 4294967296 := by
      simp only [Int32.ofInt, UInt32.toNat, BitVec.toNat_ofInt]
      omega
    rw [UInt32.toNat_add]
    omega

end Points

namespace Memory

variable {m : Memory} {base : UInt32} {index : Int32} {a : Nat} {addr v len : UInt32}

lemma wordAt_eq (h4 : addr.toNat % 4 = 0) (hs : addr.toNat + 4 ≤ m.size) :
    wordAt addr m = .ok (m.peekWord addr.toNat) := by
  have hm : addr % 4 = 0 := by
    apply UInt32.toNat_inj.mp
    simpa using h4
  simp [wordAt, readable, hm, hs]

lemma setWordAt_eq (h4 : addr.toNat % 4 = 0) (hs : addr.toNat + 4 ≤ m.size) :
    setWordAt addr v m = .ok () (m.pokeWord addr.toNat v) := by
  have hm : addr % 4 = 0 := by
    apply UInt32.toNat_inj.mp
    simpa using h4
  simp [setWordAt, readable, hm, hs]

lemma word_eq (h : Points base index a) (hs : a % 4 = 0 ∧ a + 4 ≤ m.size) :
    word base index m = .ok (m.peekWord a) := by
  obtain ⟨d, hd, ha⟩ := h.scaled
  have hw : word base index m = wordAt (base + d) m := by
    simp only [word, hd]
    rfl
  rw [hw, wordAt_eq (by rw [ha]; exact hs.1) (by rw [ha]; exact hs.2), ha]

lemma setWord_eq (h : Points base index a)
    (hs : a % 4 = 0 ∧ a + 4 ≤ m.size) :
    setWord base index v m = .ok () (m.pokeWord a v) := by
  obtain ⟨d, hd, ha⟩ := h.scaled
  have hw : setWord base index v m = setWordAt (base + d) v m := by
    simp only [setWord, hd]
    rfl
  rw [hw, setWordAt_eq (by rw [ha]; exact hs.1) (by rw [ha]; exact hs.2), ha]

lemma walkBound_eq (m : Memory) : walkBound m = .ok (m.size + 1) := rfl

lemma fillWords_eq {pattern : UInt32} (hp : pattern ≠ 0)
    (hs : addr.toNat + len.toNat ≤ m.size) :
    fillWords addr len pattern m = .ok () (m.pokeWords addr.toNat pattern (len.toNat / 4)) := by
  simp [fillWords, writeAt, readable, hp, hs]

lemma copyBytes_eq {source target : UInt32} (hn : len ≠ 0) (hd : source ≠ target)
    (hs : source.toNat + len.toNat ≤ m.size) (ht : target.toNat + len.toNat ≤ m.size) :
    copyBytes source target len m = .ok () (m.move source.toNat target.toNat len.toNat) := by
  simp [copyBytes, hn, hd, hs, ht]

/-! ### Bytes that stay as they are -/

/-- The memories have the same extent and the same bytes where `fixed` holds. -/
structure Agrees (fixed : Nat → Prop) (m n : Memory) : Prop where
  size : n.size = m.size
  order : n.order = m.order
  peek : ∀ b, fixed b → n.peek b = m.peek b

namespace Agrees

variable {fixed : Nat → Prop} {m n o : Memory} {v : UInt32}

lemma refl (m : Memory) : Agrees fixed m m := ⟨rfl, rfl, fun _ _ => rfl⟩

lemma trans (h : Agrees fixed m n) (h' : Agrees fixed n o) : Agrees fixed m o :=
  ⟨h'.size.trans h.size, h'.order.trans h.order,
    fun b hb => (h'.peek b hb).trans (h.peek b hb)⟩

lemma symm (h : Agrees fixed m n) : Agrees fixed n m :=
  ⟨h.size.symm, h.order.symm, fun b hb => (h.peek b hb).symm⟩

lemma mono {fixed' : Nat → Prop} (h : Agrees fixed m n) (hf : ∀ b, fixed' b → fixed b) :
    Agrees fixed' m n :=
  ⟨h.size, h.order, fun b hb => h.peek b (hf b hb)⟩

lemma peekWord (h : Agrees fixed m n) (a : Nat) (hf : ∀ i < 4, fixed (a + i)) :
    n.peekWord a = m.peekWord a :=
  peekWord_congr h.order fun i hi => h.peek _ (hf i hi)

lemma pokeWord (h : Agrees fixed m n)
    (hf : ∀ b, fixed b → b < a ∨ a + 4 ≤ b) : Agrees fixed m (n.pokeWord a v) where
  size := (size_pokeWord v).trans h.size
  order := (order_pokeWord v).trans h.order
  peek b hb := (peek_pokeWord_ne v (hf b hb)).trans (h.peek b hb)

lemma poked (hf : ∀ b, fixed b → b < a ∨ a + 4 ≤ b) :
    Agrees fixed m (m.pokeWord a v) := pokeWord (refl m) hf

end Agrees

end Memory

/-- Reading gives `a` in every memory that agrees with `m` on the fixed bytes. -/
def Settled {α : Type} (fixed : Nat → Prop) (m : Memory) (r : Read α) (a : α) : Prop :=
  ∀ n, Memory.Agrees fixed m n → r n = .ok a

namespace Settled

variable {α β : Type} {fixed : Nat → Prop} {m n : Memory} {r : Read α} {a : α}

lemma here (h : Settled fixed m r a) : r m = .ok a := h m (.refl m)

lemma of_agrees (h : Settled fixed m r a) (hn : Memory.Agrees fixed m n) :
    Settled fixed n r a :=
  fun _ ho => h _ (hn.trans ho)

lemma unique {b : α} (h : Settled fixed m r a) (h' : Settled fixed m r b) : a = b := by
  have h1 := h.here
  rw [h'.here] at h1
  exact (Except.ok.inj h1).symm

end Settled

end DeviceVm
