import DeviceVm.Program.Method
import DeviceVm.Object.Class
import DeviceVm.Proofs.Access
import DeviceVm.Proofs.Word

/-!
Methods in memory. What is read of a method is what it was encoded from: the shape of its frames,
the map of its locals, its exception table and its code. The offsets of a handler take the size of
the header on, in sixteen bits.
-/

namespace DeviceVm

open Nat

open List Memory UInt32 Read DeviceVm.Class

lemma half_of_bytes (v : UInt16) :
    (v >>> 8).toUInt8.toUInt16 <<< 8 ||| v.toUInt8.toUInt16 = v := by
  apply UInt16.toNat_inj.mp
  have := v.toNat_lt
  have hlow : v.toUInt8.toUInt16.toNat = v.toNat % 256 := by simp
  have hhigh : ((v >>> 8).toUInt8.toUInt16 <<< 8).toNat = 2 ^ 8 * (v.toNat / 256) := by
    simp [shiftLeft_eq]
    omega
  rw [UInt16.toNat_or, hlow, hhigh, ← two_pow_add_eq_or_of_lt (mod_lt _ (by decide))]
  omega

namespace Memory

/-- The bytes stand in memory from `a` on. -/
def Spells (m : Memory) : (a : Nat) → List UInt8 → Prop
  | _, [] => True
  | a, b :: bs => m.peek a = b ∧ m.Spells (a + 1) bs

variable {m : Memory} {a i : Nat} {b : UInt8} {bs cs : List UInt8}

lemma spells_append :
    m.Spells a (bs ++ cs) ↔ m.Spells a bs ∧ m.Spells (a + bs.length) cs := by
  induction bs generalizing a with
  | nil => simp [Spells]
  | cons b bs ih =>
    rw [cons_append, Spells, Spells, ih, and_assoc, length_cons,
      show a + 1 + bs.length = a + (bs.length + 1) by omega]

lemma spells_iff : m.Spells a bs ↔ ∀ i b, bs[i]? = some b → m.peek (a + i) = b := by
  induction bs generalizing a with
  | nil => simp [Spells]
  | cons c bs ih =>
    rw [Spells, ih]
    constructor
    · rintro ⟨hc, hbs⟩ (_ | i) b hb
      · exact hc.trans (Option.some.inj hb)
      · rw [← hbs i b hb, add_right_comm, add_assoc]
    · intro h
      refine ⟨h 0 c rfl, fun i b hb => ?_⟩
      rw [← h (i + 1) b hb, add_right_comm, add_assoc]

lemma byte_eq {base : UInt32} {index : Int32} (ha : (base + index.toUInt32).toNat = a)
    (hs : a < m.size) : byte base index m = .ok (m.peek a) := by
  rw [byte, readAt, readable, ha, if_pos (by simpa using succ_le_of_lt hs)]

lemma code16_eq {addr : UInt32} {v : UInt16} (hs : addr.toNat + 2 ≤ m.size)
    (h : m.Spells addr.toNat (MethodBody.halfBytes v)) : code16 addr m = .ok v := by
  rw [code16, readAt, readable, if_pos (by simpa using hs), h.1, h.2.1, ByteOrder.half,
    half_of_bytes]

end Memory

/-! ### Maps -/

lemma and_bit_bne (b : UInt8) {i : Nat} (hi : i < 8) :
    (b &&& (1 <<< i.toUInt8) != 0) = b.toNat.testBit i := by
  have hp : 2 ^ i < 2 ^ 8 := Nat.pow_lt_pow_right (by decide) hi
  have hs : ((1 : UInt8) <<< i.toUInt8).toNat = 2 ^ i := by
    have h8 : i.toUInt8.toNat % 8 = i := by simp; omega
    rw [UInt8.toNat_shiftLeft, h8, UInt8.toNat_one, one_shiftLeft, mod_eq_of_lt hp]
  have hn : (b &&& (1 <<< i.toUInt8)).toNat = (b.toNat.testBit i).toNat * 2 ^ i := by
    rw [UInt8.toNat_and, hs, and_two_pow]
  rw [Bool.eq_iff_iff, bne_iff_ne, ne_eq, ← UInt8.toNat_inj, hn]
  cases b.toNat.testBit i <;> simp

namespace MethodBody

lemma mapBytes_get {map : UInt32} {bits j : Nat} (h32 : bits ≤ 32) (hj : j < (bits + 7) / 8) :
    ∃ b, (mapBytes map bits)[j]? = some b ∧
      ∀ i < 8, b.toNat.testBit i = map.toNat.testBit (8 * j + i) := by
  refine ⟨(map >>> (8 * j).toUInt32).toUInt8, ?_, fun i hi => ?_⟩
  · rw [mapBytes, getElem?_map, getElem?_range hj]
    rfl
  · have hs : (8 * j).toUInt32.toNat = 8 * j :=
      Word.toNat_nat (by omega)
    rw [UInt32.toNat_toUInt8, UInt32.toNat_shiftRight, hs, Nat.mod_eq_of_lt (b := 32) (by omega),
      testBit_mod_two_pow _ 8, testBit_shiftRight]
    simp [hi]

lemma mapBit_eq {m : Memory} {at_ map i : UInt32} {bits : Nat} (h32 : bits ≤ 32)
    (hi : i.toNat < bits) (hs : at_.toNat + (bits + 7) / 8 ≤ m.size) (h16 : m.size < 4294967296)
    (h : m.Spells at_.toNat (mapBytes map bits)) :
    mapBit at_ i m = .ok (map.toNat.testBit i.toNat) := by
  have h8 : (8 : UInt32).toNat = 8 := rfl
  have hq : (i / 8).toNat = i.toNat / 8 := by rw [UInt32.toNat_div, h8]
  have hr : (i % 8).toUInt8 = (i.toNat % 8).toUInt8 := by
    apply UInt8.toNat_inj.mp
    simp
  have ha : (at_ + (i / 8).toInt32.toUInt32).toNat = at_.toNat + i.toNat / 8 := by
    show (at_ + i / 8).toNat = _
    rw [Word.toNat_plus (by omega), hq]
  obtain ⟨b, hb, hbits⟩ := @mapBytes_get map bits (i.toNat / 8) h32 (by omega)
  have hlt : i.toNat % 8 < 8 := mod_lt _ (by decide)
  rw [mapBit, bind_ok (byte_eq ha (by omega)), spells_iff.1 h _ b hb, hr,
    and_bit_bne b hlt, hbits _ hlt, show 8 * (i.toNat / 8) + i.toNat % 8 = i.toNat by omega]
  rfl

/-! ### Headers -/

variable {m : MethodBody} {number : UInt32} {bytes : ByteArray}

lemma length_mapBytes (map : UInt32) (bits : Nat) :
    (mapBytes map bits).length = (bits + 7) / 8 := by
  rw [mapBytes, length_map, length_range]

lemma length_handlers (header : UInt32) (rows : List HandlerRow) :
    (rows.flatMap (handlerBytes header)).length = 8 * rows.length := by
  induction rows with
  | nil => rfl
  | cons row rows ih =>
    rw [flatMap_cons, length_append, ih, length_cons]
    have : (handlerBytes header row).length = 8 := rfl
    omega

lemma encode_eq (h : m.encode number = .ok bytes) :
    ∃ header : UInt32, header.toNat ≤ 255 ∧
      header.toNat = 5 + (m.locals.toNat + 7) / 8 + 8 * m.handlers.size ∧
      bytes.data.toList = header.toUInt8 :: (number >>> 8).toUInt8 :: number.toUInt8 ::
        m.parameters :: m.locals :: (mapBytes m.referenceMap m.locals.toNat ++
        (m.handlers.toList.flatMap (handlerBytes header) ++ m.code.data.toList)) := by
  obtain ⟨header, -, h⟩ := Except.of_bind h
  obtain ⟨_, h255, h⟩ := Except.of_bind h
  obtain ⟨_, hl, h⟩ := Except.of_bind h
  have hl := beq_iff_eq.1 (of_require hl)
  have h255 := le_iff_toNat_le.1 (of_decide_eq_true (of_require h255))
  refine ⟨header, h255, ?_, ?_⟩
  · rw [← hl, length_append, length_append, length_handlers, length_mapBytes,
      Array.length_toList]
    rfl
  · cases h
    simp

end MethodBody

/-- The row as it is read, with a header of `header` bytes. The offsets have sixteen bits. -/
def HandlerRow.placed (header : Nat) (row : HandlerRow) : Handler :=
  let offset (v : UInt16) : UInt32 := ofNat ((v.toNat + header) % 65536)
  ⟨offset row.start, offset row.stop, offset row.target, row.classNumber.toUInt32⟩

namespace Method

open Word MethodBody

variable {mem : Memory} {mp addr first header i : UInt32} {row : HandlerRow}
  {rows : List HandlerRow}

lemma toUInt32_offset (v : UInt16) :
    (v + header.toUInt16).toUInt32 = UInt32.ofNat ((v.toNat + header.toNat) % 65536) := by
  apply UInt32.toNat_inj.mp
  simp
  omega

lemma readAt_eq (hs : addr.toNat + 8 ≤ mem.size) (range : mem.size < 4294967296)
    (spelled : mem.Spells addr.toNat (handlerBytes header row)) :
    Handler.readAt addr mem = .ok (row.placed header.toNat) := by
  rw [handlerBytes, spells_append, spells_append, spells_append] at spelled
  obtain ⟨⟨⟨h0, h2⟩, h4⟩, h6⟩ := spelled
  have next : ∀ (d : UInt32) (v : UInt16), d.toNat ≤ 6 →
      mem.Spells (addr.toNat + d.toNat) (halfBytes v) →
      plus addr d = .ok (addr + d) ∧ code16 (addr + d) mem = .ok v := by
    intro d v hd hv
    have he : (addr + d).toNat = addr.toNat + d.toNat := toNat_plus (by omega)
    exact ⟨plus_eq (by omega), code16_eq (by omega) (he ▸ hv)⟩
  obtain ⟨p2, c2⟩ := next 2 _ (by decide) h2
  obtain ⟨p4, c4⟩ := next 4 _ (by decide) h4
  obtain ⟨p6, c6⟩ := next 6 _ (by decide) h6
  rw [Handler.readAt, bind_ok (code16_eq (by omega) h0), lift_ok p2,
    bind_ok c2, lift_ok p4, bind_ok c4, lift_ok p6, bind_ok c6,
    toUInt32_offset, toUInt32_offset, toUInt32_offset]
  rfl

lemma handlersFrom_eq
    (hs : mp.toNat + first.toNat + 8 * (i.toNat + rows.length) ≤ mem.size)
    (range : mem.size < 4294967296) (spelled : mem.Spells (mp.toNat + first.toNat + 8 * i.toNat)
      (rows.flatMap (handlerBytes header))) :
    handlersFrom mp first rows.length i mem = .ok (rows.map (·.placed header.toNat)) := by
  induction rows generalizing i with
  | nil => rfl
  | cons row rows ih =>
    rw [length_cons] at hs ⊢
    rw [flatMap_cons, spells_append] at spelled
    have h8 : handlerSize.toNat = 8 := rfl
    have h1 : (i + 1).toNat = i.toNat + 1 := toNat_plus (by show _ + 1 < _; omega)
    have hf : (mp + first).toNat = mp.toNat + first.toNat := toNat_plus (by omega)
    have hlt : i.toNat * handlerSize.toNat < 4294967296 := by rw [h8]; omega
    have ht : (i * handlerSize).toNat = 8 * i.toNat := by rw [toNat_times hlt, h8, mul_comm]
    have ha : (mp + first + i * handlerSize).toNat = mp.toNat + first.toNat + 8 * i.toNat := by
      rw [toNat_plus (by omega), hf, ht]
    have hrow : handler mp first i mem = .ok (row.placed header.toNat) := by
      rw [handler, lift_ok (plus_eq (by omega)), lift_ok (times_eq hlt),
        lift_ok (plus_eq (by omega))]
      exact readAt_eq (by omega) range (ha ▸ spelled.1)
    have hrest := @ih (i + 1) (by omega) (by
      rw [h1, show mp.toNat + first.toNat + 8 * (i.toNat + 1) =
        mp.toNat + first.toNat + 8 * i.toNat + 8 by omega]
      exact spelled.2)
    rw [handlersFrom, bind_ok hrow, bind_ok hrest]
    rfl

lemma handlersOffset_eq (n : UInt8) :
    ∃ first, handlersOffset n.toUInt32 = .ok first ∧ first.toNat = 5 + (n.toNat + 7) / 8 := by
  have := n.toNat_lt
  have h5 : mapOffset.toNat = 5 := rfl
  have h8 : (8 : UInt32).toNat = 8 := rfl
  have hw := UInt8.toNat_toUInt32 n
  have : (n.toUInt32 / 8).toNat = n.toNat / 8 := by rw [UInt32.toNat_div, hw, h8]
  have hr : (n.toUInt32 % 8 == 0) = decide (n.toNat % 8 = 0) := by
    rw [Bool.eq_iff_iff, beq_iff_eq, decide_eq_true_eq, ← UInt32.toNat_inj, UInt32.toNat_mod, hw,
      h8]
    rfl
  have hs : (n.toUInt32 / 8 + if n.toUInt32 % 8 == 0 then 0 else 1).toNat = (n.toNat + 7) / 8 := by
    have := UInt32.toNat_zero
    have := UInt32.toNat_one
    rw [hr]
    by_cases h : n.toNat % 8 = 0
    · rw [if_pos (decide_eq_true h), toNat_plus] <;> omega
    · rw [if_neg (by simpa using h), toNat_plus (by omega)]
      omega
  exact ⟨_, plus_eq (by omega), by rw [toNat_plus (by omega), hs, h5]⟩

/-- Everything that can be read of the method at `mp` is what was written. -/
structure Mirrors (m : MethodBody) (mp : UInt32) (mem : Memory) (header : UInt32) : Prop where
  read : headerSize mp mem = .ok header
  size : header.toNat = 5 + (m.locals.toNat + 7) / 8 + 8 * m.handlers.size
  parameters : parameterCount mp mem = .ok m.parameters.toUInt32
  locals : localCount mp mem = .ok m.locals.toUInt32
  map : ∀ i : UInt32, i.toNat < m.locals.toNat → ∃ map, referenceMap mp = .ok map ∧
    mapBit map i mem = .ok (m.referenceMap.toNat.testBit i.toNat)
  handlers : handlers mp mem = .ok (m.handlers.toList.map (·.placed header.toNat))
  code : mem.Spells (mp.toNat + header.toNat) m.code.data.toList

/-- A method that stands encoded in memory reads back as it was. -/
theorem encoded_reads_back {m : MethodBody} {number : UInt32} {bytes : ByteArray} {mem : Memory}
    {mp : UInt32} (locals : m.locals.toNat ≤ 32) (encoded : m.encode number = .ok bytes)
    (inside : mp.toNat + bytes.size ≤ mem.size) (range : mem.size < 4294967296)
    (spelled : mem.Spells mp.toNat bytes.data.toList) : ∃ header, Mirrors m mp mem header := by
  obtain ⟨header, h255, hsize, hbytes⟩ := encode_eq encoded
  have hlen : header.toNat ≤ bytes.size := by
    show _ ≤ bytes.data.toList.length
    simp only [hbytes, List.length_cons, List.length_append, length_mapBytes, length_handlers,
      Array.length_toList]
    omega
  simp only [hbytes, Memory.Spells, Memory.spells_append, length_mapBytes, length_handlers,
    Array.length_toList, Nat.add_assoc, Nat.reduceAdd] at spelled
  obtain ⟨s0, -, -, s3, s4, smap, srows, scode⟩ := spelled
  have byte : ∀ (index : Int32) (j : Nat), index.toUInt32.toNat = j → j < header.toNat →
      Memory.byte mp index mem = .ok (mem.peek (mp.toNat + j)) := fun index j hj hlt =>
    Memory.byte_eq (by rw [toNat_plus (by omega), hj]) (by omega)
  have h0 : headerSize mp mem = .ok header := by
    have : header.toUInt8.toUInt32 = header := UInt32.toNat_inj.mp (by simp; omega)
    rw [headerSize, Read.bind_ok (byte 0 0 rfl (by omega)), Nat.add_zero, s0]
    exact congrArg Except.ok this
  have h4 : localCount mp mem = .ok m.locals.toUInt32 := by
    rw [localCount, Read.bind_ok (byte 4 4 rfl (by omega)), s4]
    rfl
  refine ⟨header, h0, hsize, ?_, h4, fun i hi => ?_, ?_, ?_⟩
  · rw [parameterCount, Read.bind_ok (byte 3 3 rfl (by omega)), s3]
    rfl
  · have h5 : mapOffset.toNat = 5 := rfl
    have hm : (mp + mapOffset).toNat = mp.toNat + 5 := toNat_plus (by omega)
    exact ⟨_, plus_eq (by omega), mapBit_eq locals hi (by omega) range (hm ▸ smap)⟩
  · obtain ⟨first, hfirst, hf⟩ := handlersOffset_eq m.locals
    have h8 : handlerSize.toNat = 8 := rfl
    have hcount : (minusSaturating header first / handlerSize).toNat =
        m.handlers.toList.length := by
      have hle : first ≤ header := UInt32.le_iff_toNat_le.mpr (by omega)
      rw [minusSaturating, if_pos hle, UInt32.toNat_div, toNat_minus (by omega), h8,
        Array.length_toList]
      omega
    rw [handlers, handlerRows, bind_assoc, Read.bind_ok h4, bind_assoc, Read.lift_ok hfirst,
      bind_assoc, Read.bind_ok h0, pure_bind]
    dsimp only
    rw [hcount]
    refine handlersFrom_eq ?_ range ?_
    · rw [Array.length_toList]
      show _ + 8 * (0 + _) ≤ _
      omega
    · rw [hf]
      exact srows
  · rw [hsize, Nat.add_assoc 5]
    exact scode

/-- A method with nine locals. The offsets of its second handler do not fit with the header. -/
def sample : MethodBody where
  parameters := 1
  locals := 9
  referenceMap := 0x101
  handlers := #[⟨1, 2, 2, 30⟩, ⟨0, 65530, 65530, 30⟩]
  code := ⟨#[0x61, 0x81]⟩

def sampleBytes : ByteArray := ⟨#[23, 1, 5, 1, 9, 1, 1, 0, 24, 0, 25, 0, 25, 0, 30, 0, 23, 0, 17, 0,
  17, 0, 30, 0x61, 0x81]⟩

theorem encoded_reads_back_sample : ∃ header, Mirrors sample 0 ⟨sampleBytes, .big⟩ header :=
  @encoded_reads_back sample 0x105 sampleBytes ⟨sampleBytes, .big⟩ 0 (by decide) rfl (by decide)
    (by decide) (Memory.spells_iff.mpr fun i b hb => by
      rw [UInt32.toNat_zero, Nat.zero_add, Memory.peek_eq, ← Array.getElem?_toList, hb]
      rfl)

end Method

end DeviceVm
