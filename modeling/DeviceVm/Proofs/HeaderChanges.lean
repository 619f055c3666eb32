import DeviceVm.Proofs.Allocation

/-!
Headers that change. Once the header of an object is written, its low bits may be replaced any
number of times: by an address that the object is forwarded to, by a forwarding word, or by a
class. The element count and the size of the header stay, and the class leads back to the header
as it was.
-/

namespace DeviceVm.Header

open Memory UInt32 Word

/-- What is done to the low bits of a header while its object stays where it is. -/
inductive Change where
  | forward (target : UInt32)
  | encode (bits : UInt32)
  | retype (k : UInt32)

namespace Change

def apply (oop : UInt32) : Change → Edit Unit
  | forward target => forwardTo oop target
  | encode bits => setLowBits oop bits
  | retype k => setClass oop k

/-- The low bits that the change leaves. -/
def low : Change → UInt32
  | forward target => target + 2
  | encode bits => bits
  | retype k => k

/-- The new bits have room beside the count. -/
def Fits : Change → Prop
  | forward target => target.toNat % 4 = 0 ∧ target.toNat < 16777216
  | encode bits => bits.toNat < 16777216
  | retype k => k.toNat < 16777216

def lastLow (k : UInt32) (changes : List Change) : UInt32 := (changes.getLast?.map low).getD k

end Change

def applyAll (oop : UInt32) (changes : List Change) : Edit Unit := changes.forM (Change.apply oop)

variable {m n : Memory} {oop k low count : UInt32} {changes : List Change}

lemma Holds.apply (h : Holds m oop low count) {c : Change} (hc : c.Fits) :
    ∃ w, c.apply oop m = .ok () (m.pokeWord (oop.toNat - 4) w) ∧
      Holds (m.pokeWord (oop.toNat - 4) w) oop c.low count := by
  cases c with
  | forward target => exact h.forwardTo hc.1 (by have := hc.1; have := hc.2; omega)
  | encode bits => exact h.setLowBits hc
  | retype k => exact h.setLowBits hc

lemma Holds.applyAll (h : Holds m oop low count)
    (hc : ∀ c ∈ changes, c.Fits) :
    ∃ n, applyAll oop changes m = .ok () n ∧ Holds n oop (Change.lastLow low changes) count ∧
      Agrees (fun b => b < oop.toNat - 4 ∨ oop.toNat ≤ b) m n := by
  induction changes generalizing m low with
  | nil => exact ⟨m, rfl, h, .refl m⟩
  | cons c changes ih =>
    obtain ⟨w, hw, hheld⟩ := h.apply (hc c List.mem_cons_self)
    obtain ⟨n, hn, hlast, hagr⟩ := ih hheld fun d hd => hc d (List.mem_cons_of_mem c hd)
    have := h.four_le
    refine ⟨n, ?_, ?_, .trans (.poked fun b hb => by omega) hagr⟩
    · show (Change.apply oop c >>= fun _ => Header.applyAll oop changes) m = _
      rw [Edit.bind_ok hw]
      exact hn
    · rw [Change.lastLow, List.getLast?_cons]
      cases hl : changes.getLast? with
      | none => simpa [Change.lastLow, hl] using hlast
      | some d => simpa [Change.lastLow, hl] using hlast

lemma Holds.eq_of_agrees (h : Holds m oop low count) (h' : Holds n oop low count)
    (hagr : Agrees (fun b => b < oop.toNat - 4 ∨ oop.toNat ≤ b) m n) : n = m := by
  refine ext_peek hagr.order hagr.size fun b => ?_
  by_cases hb : oop.toNat - 4 ≤ b ∧ b < oop.toNat
  · exact h.peek_eq h' hagr.order (by have := bytes_cases count; omega) hb.2
  · exact hagr.peek b (by omega)

lemma Holds.ofObject (h : Holds m oop low count) :
    ∃ block, Block.ofObject oop m = .ok block ∧ block.toNat + bytes count = oop.toNat := by
  have := toNat_sizeForCount count
  have := h.room
  refine ⟨oop - sizeForCount count, ?_, ?_⟩
  · rw [Block.ofObject, Read.bind_ok h.size]
    exact minus_eq (by omega)
  · rw [toNat_minus] <;> omega

/-- What is read of an object after changes of its header, where `changes` were made last. -/
structure Reads (n : Memory) (oop count : UInt32) (changes : List Change) : Prop where
  elements : elementCount oop n = .ok count
  size : size oop n = .ok (sizeForCount count)
  /-- Block and object lead to each other while the header has a class word. -/
  block : ∀ w, classWord oop n = .ok w → HeaderTag.ofWord w = .classWord →
    ∃ block, Block.ofObject oop n = .ok block ∧ Block.toObject block n = .ok oop
  target : ∀ e, changes.getLast? = some (.forward e) →
    isForwarded oop n = .ok true ∧ forwardTarget oop n = .ok e

lemma Holds.reads (hc : ∀ c ∈ changes, c.Fits)
    (h : Holds m oop (Change.lastLow k changes) count) : Reads m oop count changes where
  elements := h.elementCount
  size := h.size
  block w hw htag := by
    obtain ⟨block, hof, hb⟩ := h.ofObject
    refine ⟨block, hof, h.toObject (fun h1 => ?_) hb⟩
    rw [h.classWord] at hw
    cases hw
    rw [HeaderTag.ofWord_length (h.tag_eq.trans h1)] at htag
    cases htag
  target e he := by
    have hfits : Change.Fits (.forward e) := hc _ (List.mem_of_getLast? he)
    have hlow : Change.lastLow k changes = e + 2 := by rw [Change.lastLow, he]; rfl
    have : (2 : UInt32).toNat = 2 := rfl
    have hmod : (Change.lastLow k changes).toNat % 4 = 2 := by
      rw [hlow, toNat_plus (by have := hfits.2; omega)]
      have := hfits.1
      omega
    refine ⟨by rw [h.isForwarded, hmod]; rfl, ?_⟩
    rw [h.forwardTarget hmod, hlow, UInt32.add_sub_cancel]

/-- The header of an object of class `k` with `count` elements is written and then changed. All
changes go through and touch the header alone; what is read afterwards is right, and the class
restores the header. -/
theorem changes_keep_header (aligned : oop.toNat % 4 = 0) (room : bytes count ≤ oop.toNat)
    (inside : oop.toNat ≤ m.size) (class_aligned : k.toNat % 4 = 0) (class_lt : k.toNat < 16777216)
    (class_ne : k ≠ 0) (count_le : count ≤ maxCount) {changes : List Change}
    (fits : ∀ c ∈ changes, c.Fits) :
    ∃ written n, setClassAndCount oop k count m = .ok () written ∧
      classOf oop written = .ok k ∧ applyAll oop changes written = .ok () n ∧
      Reads n oop count changes ∧
      Agrees (fun b => b < oop.toNat - bytes count ∨ oop.toNat ≤ b) m n ∧
      setClass oop k n = .ok () written := by
  have := le_iff_toNat_le.mp count_le
  have : maxCount.toNat = 1073741823 := rfl
  have := bytes_cases count
  obtain ⟨written, hset, hholds, hagr⟩ := setClassAndCount_eq aligned room inside class_aligned
    class_lt (by omega)
  obtain ⟨n, hn, hlast, hchanged⟩ := hholds.applyAll fits
  obtain ⟨w, hw, hback⟩ := hlast.setLowBits class_lt
  have hagain : Agrees (fun b => b < oop.toNat - 4 ∨ oop.toNat ≤ b) written
      (n.pokeWord (oop.toNat - 4) w) := hchanged.trans (.poked fun b hb => by omega)
  refine ⟨written, n, hset, hholds.classOf class_aligned class_ne, hn, hlast.reads fits,
    hagr.trans (hchanged.mono fun b hb => by omega), ?_⟩
  rw [setClass, hw, hholds.eq_of_agrees hback hagain]

theorem changes_keep_header_long : ∃ written n : Memory,
    setClassAndCount 16 0x100 300 (.blank 16 .big) = .ok () written ∧
    classOf 16 written = .ok 0x100 ∧
    applyAll 16 [.forward 0x2004, .encode 0xabcdef, .forward 0x3008] written = .ok () n ∧
    Reads n 16 300 [.forward 0x2004, .encode 0xabcdef, .forward 0x3008] ∧
    Agrees (fun b => b < 8 ∨ 16 ≤ b) (.blank 16 .big) n ∧
    setClass 16 0x100 n = .ok () written := by
  refine changes_keep_header (by decide) (by decide) (by decide) (by decide) (by decide)
    (by decide) (by decide) fun c hc => ?_
  simp only [List.mem_cons, List.not_mem_nil, or_false] at hc
  rcases hc with rfl | rfl | rfl
  · exact ⟨by decide, by decide⟩
  · exact (by decide : (0xabcdef : UInt32).toNat < 16777216)
  · exact ⟨by decide, by decide⟩

/-- A forwarding word that is encoded over a forwarded object takes the place of its target. -/
theorem encoding_replaces_target : ∃ written n : Memory,
    setClassAndCount 4 0x100 9 (.blank 4 .big) = .ok () written ∧
    applyAll 4 [.forward 0x2004, .encode 0x302] written = .ok () n ∧
    isForwarded 4 n = .ok true ∧ forwardTarget 4 n = .ok 0x300 :=
  ⟨_, _, rfl, rfl, rfl, rfl⟩

end DeviceVm.Header
