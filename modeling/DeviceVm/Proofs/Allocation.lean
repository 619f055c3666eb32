import DeviceVm.Proofs.Header
import DeviceVm.Proofs.Record
import DeviceVm.Store.Allocation

/-!
Allocation in RAM. A block is taken from the start of what is free, or none is and the size that
failed is recorded. `Store.Took` and `Store.Refused` say what each leaves as it was.
-/

namespace DeviceVm

open Ends

open Memory UInt32 Header Chunk Edit

namespace Store

open Word

/-- The bounds of the memory that may be given away lie in RAM behind the record, in order. -/
structure Partition (s : Store) : Prop where
  recorded : s.Recorded
  collecting : s.collecting = false
  free_aligned : (s.recorded 3).toNat % 4 = 0
  free_low : s.ram.start.toNat + 64 ≤ (s.recorded 3).toNat
  free_le : (s.recorded 3).toNat ≤ (s.recorded 4).toNat
  stop_le : (s.recorded 4).toNat ≤ s.mem.size

/-- What no operation on objects changes: the segments and how the store is set up. -/
structure Same (s t : Store) : Prop where
  rom : t.rom = s.rom
  eeprom : t.eeprom = s.eeprom
  ram : t.ram = s.ram
  collecting : t.collecting = s.collecting
  kind : t.kind = s.kind
  exactChunks : t.exactChunks = s.exactChunks

namespace Same

variable {s t u : Store}

lemma trans (h : s.Same t) (h' : t.Same u) : s.Same u :=
  ⟨h'.rom.trans h.rom, h'.eeprom.trans h.eeprom, h'.ram.trans h.ram,
    h'.collecting.trans h.collecting, h'.kind.trans h.kind, h'.exactChunks.trans h.exactChunks⟩

end Same

/-- An allocation leaves the segments, the settings and what is recorded of stores. -/
structure Kept (s t : Store) : Prop extends s.Same t where
  bits : t.bits = s.bits
  barrier : t.barrier = s.barrier

variable {s t u : Store}

lemma Kept.set (s : Store) (mem : Memory) (log : Log) (stats : AllocationStats) (just : Bool) :
    s.Kept { s with mem, log, stats, justCollected := just } :=
  ⟨⟨rfl, rfl, rfl, rfl, rfl, rfl⟩, rfl, rfl⟩

lemma Kept.trans (h : s.Kept t) (h' : t.Kept u) : s.Kept u :=
  ⟨h.toSame.trans h'.toSame, h'.bits.trans h.bits, h'.barrier.trans h.barrier⟩

/-- There is no room for a block of `size` bytes, or a collection has to come first. -/
def Short (s : Store) (size : Nat) : Prop :=
  (s.recorded 4).toNat < (s.recorded 3).toNat + size ∨ (s.eager = true ∧ s.justCollected = false)

/-- A block of `size` bytes was not taken. The size that failed is recorded, and nothing else. -/
structure Refused (s t : Store) (size : Nat) : Prop where
  short : s.Short size
  left : ∃ v log, t = (s.setRecorded 5 v).setLog log

namespace Refused

variable {size : Nat}

lemma kept (h : s.Refused t size) : s.Kept t := by
  obtain ⟨v, log, rfl⟩ := h.left
  exact ⟨⟨rfl, rfl, rfl, rfl, rfl, rfl⟩, rfl, rfl⟩

lemma agrees (h : s.Refused t size) : Agrees
    (fun b => b < s.ram.start.toNat + 20 ∨ s.ram.start.toNat + 24 ≤ b) s.mem t.mem := by
  obtain ⟨v, log, rfl⟩ := h.left
  exact .poked fun b hb => by omega

lemma record (h : s.Refused t size) {j : Nat} (hne : j ≠ 5) : t.recorded j = s.recorded j := by
  rw [recorded, recorded, h.kept.ram]
  exact h.agrees.peekWord _ fun i hi => by omega

end Refused

/-- The store `t` after `size` bytes from `block` on were taken from the front of what was free.
Nothing else is written but the bound of what is free. -/
structure Took (s t : Store) (block size : Nat) : Prop extends s.Kept t where
  first : block = (s.recorded 3).toNat
  roomy : ¬ s.Short size
  free : (t.recorded 3).toNat = block + size
  agrees : Agrees (fun b => (b < block ∨ block + size ≤ b) ∧
    (b < s.ram.start.toNat + 12 ∨ s.ram.start.toNat + 16 ≤ b)) s.mem t.mem

namespace Took

variable {block size : Nat}

lemma fits (h : s.Took t block size) : block + size ≤ (s.recorded 4).toNat := by
  have := mt Or.inl h.roomy
  have := h.first
  omega

lemma record (h : s.Took t block size) (hp : s.Partition) {j : Nat} (hj : j < 16) (hne : j ≠ 3) :
    t.recorded j = s.recorded j := by
  have := hp.free_low
  have := h.first
  rw [recorded, recorded, h.ram]
  exact h.agrees.peekWord _ fun i hi => by omega

lemma write (h : s.Took t block size) (hp : s.Partition) (kept : t.Kept u)
    (hm : Agrees (fun b => b < block ∨ block + size ≤ b) t.mem u.mem) :
    s.Took u block size where
  __ := h
  toKept := h.toKept.trans kept
  free := by
    have := hp.free_low
    have := h.first
    rw [← h.free, recorded, recorded, kept.ram, h.ram]
    rw [hm.peekWord _ fun i hi => by omega]
  agrees := h.agrees.trans (hm.mono fun b hb => hb.1)

end Took

lemma zeroBytes_eq {m : Memory} {addr len : UInt32} (hs : addr.toNat + len.toNat ≤ m.size) :
    zeroBytes addr len m = .ok () (m.pokeZeros addr.toNat len.toNat) := by
  simp [zeroBytes, fillWords, writeAt, readable, hs]

/-- A block of `size` bytes was taken and cleared, or none was. -/
def Allocated (s : Store) (size : Nat) (block : UInt32) (t : Store) : Prop :=
  (block = 0 ∧ s.Refused t size) ∨ (block = s.recorded 3 ∧ s.Took t (s.recorded 3).toNat size ∧
    ∀ b, (s.recorded 3).toNat ≤ b → b < (s.recorded 3).toNat + size → t.mem.peek b = 0)

lemma Partition.allocate_ends (h : s.Partition) {bytes : UInt32} {n : Nat}
    (pos : 0 < bytes.toNat) (range : bytes.toNat + 3 < 4294967296)
    (round : (bytes.toNat + 3) / 4 * 4 = n) : Ends (allocate bytes) s (s.Allocated n) := by
  have hr := h.recorded
  have := h.free_low
  have hle := h.free_le
  have := h.stop_le
  have hsmall := hr.small
  obtain ⟨size, hsize, hn⟩ := roundUp4_eq range
  obtain rfl := hn.trans round
  have hpos : (0 : UInt32) < bytes := lt_iff_toNat_lt.2 pos
  apply get_bind
  apply except_bind (a := ()) (by simp [require, h.collecting])
  apply except_bind (a := ()) (by simp [require, hpos])
  apply except_bind hsize
  apply query_bind (hr.record_eq (j := 3) rfl (by omega))
  apply query_bind (hr.record_eq (j := 4) rfl (by omega))
  apply except_bind (minus_eq hle)
  have hfit : s.recorded 4 - s.recorded 3 < size ↔
      (s.recorded 4).toNat < (s.recorded 3).toNat + size.toNat := by
    rw [lt_iff_toNat_lt, toNat_minus hle]
    omega
  split
  · rename_i hshort
    refine .next (hr.setRecord_ends (j := 5) rfl (by omega) ?_)
    exact .say_bind fun log => pure (.inl ⟨rfl, .inl (hfit.1 hshort), size, log, rfl⟩)
  rename_i hroom
  rw [hfit] at hroom
  -- What a successful allocation does, whatever becomes of the note of a collection.
  have success : ∀ just, (s.eager = true → s.justCollected = true) → Ends (do
      zeroBytes (s.recorded 3) size
      setPartitionFree (← plus (s.recorded 3) size)
      modify fun s => { s with stats := { s.stats with allocations := s.stats.allocations + 1 } }
      return s.recorded 3) { s with justCollected := just } (s.Allocated size.toNat) := by
    intro just hcollected
    generalize hz : s.mem.pokeZeros (s.recorded 3).toNat size.toNat = mem
    have hms : mem.size = s.mem.size := by rw [← hz, size_pokeZeros]
    have hpeek := fun b => peek_pokeZeros (m := s.mem) (a := (s.recorded 3).toNat) (b := b)
      size.toNat (by omega)
    rw [hz] at hpeek
    have hagr : Agrees (fun b => b < (s.recorded 3).toNat ∨
        (s.recorded 3).toNat + size.toNat ≤ b) s.mem mem :=
      ⟨hms, by rw [← hz, order_pokeZeros], fun b hb => by rw [hpeek, if_neg (by omega)]⟩
    have hu : (Store.setMem { s with justCollected := just } mem).Recorded :=
      ⟨hr.aligned, by rw [setMem_mem, hms]; exact hr.inside, by rw [setMem_mem, hms]; exact hsmall⟩
    have hfree : (s.recorded 3 + size).toNat = (s.recorded 3).toNat + size.toNat :=
      toNat_plus (by omega)
    refine .edit_bind (hz ▸ zeroBytes_eq (by omega)) ?_
    apply except_bind (plus_eq (by omega))
    refine .next (hu.setRecord_ends (j := 3) rfl (by omega) ?_)
    apply modify_bind
    refine .pure (.inr ⟨rfl, ⟨.set s _ _ _ _, rfl, ?_, ?_, ?_⟩, fun b hb hb' => ?_⟩)
    · rintro (hshort | ⟨heager, hjust⟩)
      · exact hroom hshort
      · rw [hcollected heager] at hjust
        cases hjust
    · show (((Store.setMem _ mem).setRecorded 3 _).recorded 3).toNat = _
      rw [hu.recorded_setRecorded (by omega), if_pos rfl, hfree]
    · exact (hagr.mono fun b hb => hb.1).pokeWord fun b hb => hb.2
    · refine (peek_pokeWord_ne (a := s.ram.start.toNat + 4 * 3) _ (by omega)).trans ?_
      exact (hpeek b).trans (if_pos ⟨hb, hb'⟩)
  apply get_bind
  split
  · rename_i he
    apply get_bind
    split
    · rename_i hj
      refine .say_bind fun log => ?_
      have hlog : (s.setLog log).Recorded := ⟨hr.aligned, hr.inside, hr.small⟩
      refine .next (hlog.setRecord_ends (j := 5) rfl (by omega) ?_)
      exact .pure (.inl ⟨rfl, .inr ⟨he, by simpa using hj⟩, size, log, rfl⟩)
    · rename_i hj
      apply modify_bind
      exact success _ fun _ => by simpa using hj
  · rename_i he
    exact success s.justCollected fun heager => absurd heager he

end Store

namespace Header

variable {m : Memory} {oop k count : UInt32}

lemma toNat_countWord (hk : k.toNat < 16777216) (hc : count.toNat < 256) :
    (count <<< 24 ||| k).toNat = count.toNat * 16777216 + k.toNat := by
  have h24 : (24 : UInt32).toNat = 24 := rfl
  have hs : (count <<< 24).toNat = 2 ^ 24 * count.toNat := by
    rw [UInt32.toNat_shiftLeft, h24, Nat.shiftLeft_eq]
    show count.toNat * 16777216 % 4294967296 = 16777216 * count.toNat
    omega
  rw [UInt32.toNat_or, hs, ← Nat.two_pow_add_eq_or_of_lt hk]
  omega

lemma toNat_lengthWord (hc : count.toNat < 1073741824) :
    (count <<< 2 ||| 1).toNat = count.toNat * 4 + 1 := by
  have h2 : (2 : UInt32).toNat = 2 := rfl
  have h1 := UInt32.toNat_one
  have hs : (count <<< 2).toNat = 2 ^ 2 * count.toNat := by
    rw [UInt32.toNat_shiftLeft, h2, Nat.shiftLeft_eq]
    show count.toNat * 4 % 4294967296 = 4 * count.toNat
    omega
  rw [UInt32.toNat_or, hs, h1, ← Nat.two_pow_add_eq_or_of_lt (by omega)]
  omega

lemma setClassAndCount_eq (aligned : oop.toNat % 4 = 0) (room : bytes count ≤ oop.toNat)
    (inside : oop.toNat ≤ m.size) (hk4 : k.toNat % 4 = 0) (hk : k.toNat < 16777216)
    (hc : count.toNat < 1073741824) :
    ∃ n, setClassAndCount oop k count m = .ok () n ∧ Holds n oop k count ∧
      Agrees (fun b => b < oop.toNat - bytes count ∨ oop.toNat ≤ b) m n := by
  have := bytes_cases count
  have := oop.toNat_lt
  have hmask : k &&& ~~~classMask = 0 := by
    apply UInt32.toNat_inj.mp
    have hm : (~~~classMask).toNat = (2 ^ 8 - 1) <<< 24 := by decide
    rw [UInt32.toNat_and, hm, Word.and_highMask k.toNat_lt]
    show k.toNat / 2 ^ 24 * 2 ^ 24 = 0
    omega
  have htag : k &&& 3 = 0 := by
    apply UInt32.toNat_inj.mp
    rw [Word.toNat_and_three, hk4]
    rfl
  have hmax : count ≤ maxCount := le_iff_toNat_le.2 (by
    show _ ≤ 1073741823
    omega)
  have hclass : Points oop (-1) (oop.toNat - 4) := .lit (-1) rfl (by omega)
  have hbit : (k &&& ~~~classMask == 0 && k &&& 3 == 0) = true := by rw [hmask, htag]; rfl
  by_cases hs : count.toNat < 255
  · have hlong : count < longCount := lt_iff_toNat_lt.2 hs
    refine ⟨m.pokeWord (oop.toNat - 4) (count <<< 24 ||| k), ?_, ?_, ?_⟩
    · rw [setClassAndCount, lift_ok (a := ()) (by simp [require, hbit]),
        lift_ok (a := ()) (by simp [require, hmax]), if_pos hlong, setClassWord]
      exact setWord_eq hclass (by omega)
    · refine ⟨aligned, room, by simpa using inside, hk, hc, ?_, fun h => absurd h (by omega)⟩
      rw [peekWord_pokeWord_self _ (by omega), toNat_countWord hk (by omega)]
      omega
    · exact ⟨by simp, by simp, fun b hb => peek_pokeWord_ne _ (by omega)⟩
  have : bytes count = 8 := by rw [bytes, if_neg hs]
  have hlong : ¬ count < longCount := fun h => hs (lt_iff_toNat_lt.1 h)
  have hlength : Points oop (-2) (oop.toNat - 8) :=
    .lit (-2) rfl (by omega)
  have : longCount.toNat = 255 := rfl
  refine ⟨(m.pokeWord (oop.toNat - 8) (count <<< 2 ||| 1)).pokeWord (oop.toNat - 4)
    (longCount <<< 24 ||| k), ?_, ?_, ?_⟩
  · rw [setClassAndCount, lift_ok (a := ()) (by simp [require, hbit]),
      lift_ok (a := ()) (by simp [require, hmax]), if_neg hlong,
      bind_ok (setWord_eq hlength (by omega)), setClassWord]
    exact setWord_eq hclass ⟨by omega, (by rw [size_pokeWord]; omega)⟩
  · refine ⟨aligned, room, by simpa using inside, hk, hc, ?_, fun _ => ?_⟩
    · rw [peekWord_pokeWord_self _ (by rw [size_pokeWord]; omega),
        toNat_countWord hk (by omega)]
      omega
    · rw [peekWord_pokeWord_apart _ (by omega), peekWord_pokeWord_self _ (by omega),
        toNat_lengthWord hc]
  · refine ⟨by simp, by simp, fun b hb => ?_⟩
    rw [peek_pokeWord_ne _ (by omega), peek_pokeWord_ne _ (by omega)]

end Header

namespace Store

open Word

variable {s t u : Store} {k count words : UInt32}

/-- An object of `body` bytes was put at the start of what was free, all zero. -/
structure Laid (s t : Store) (oop k count : UInt32) (body : Nat) : Prop where
  first : oop.toNat = (s.recorded 3).toNat + bytes count
  took : s.Took t (s.recorded 3).toNat (bytes count + body)
  header : Holds t.mem oop k count
  zero : ∀ b, oop.toNat ≤ b → b < oop.toNat + body → t.mem.peek b = 0

/-- The answer to a request for an object: the object, or zero if there is no room. -/
def Answer (s : Store) (k count : UInt32) (body : Nat) (oop : UInt32) (t : Store) : Prop :=
  (oop = 0 ∧ s.Refused t (Header.bytes count + body)) ∨ s.Laid t oop k count body

lemma Partition.free_ne (h : s.Partition) : ¬ (s.recorded 3 == 0) = true := by
  have := h.free_low
  rw [beq_iff_eq]
  intro h0
  rw [h0, UInt32.toNat_zero] at this
  omega

lemma Took.laid {oop : UInt32} {body : Nat} (h : s.Partition)
    (ht : s.Took t (s.recorded 3).toNat (bytes count + body)) (kept : t.Kept u)
    (first : oop.toNat = (s.recorded 3).toNat + bytes count)
    (zero : ∀ b, (s.recorded 3).toNat ≤ b →
      b < (s.recorded 3).toNat + (bytes count + body) → t.mem.peek b = 0)
    (header : Holds u.mem oop k count)
    (hm : Agrees (fun b => b < oop.toNat - bytes count ∨ oop.toNat ≤ b)
      t.mem u.mem) : s.Laid u oop k count body where
  first := first
  took := ht.write h kept (hm.mono fun b hb => by omega)
  header := header
  zero b hb hb' := (hm.peek b (.inr hb)).trans (zero b (by omega) (by omega))

/-- Body bytes of an array of `count` elements of `element` bytes. -/
def arrayBytes (element count : UInt32) : Nat := (count.toNat * element.toNat + 3) / 4 * 4

lemma Partition.newArray_ends (h : s.Partition) {element : UInt32}
    (elements : Class.arrayElementSize k s.mem = .ok element) (some : 0 < element.toNat)
    (aligned : k.toNat % 4 = 0) (low : k.toNat < 16777216) :
    Ends (newArray k count) s (s.Answer k count (arrayBytes element count)) := by
  have := bytes_cases count
  have hhead := toNat_sizeForCount count
  have := h.stop_le
  have := h.recorded.small
  have := h.free_aligned
  have : count.toNat ≤ count.toNat * element.toNat := Nat.le_mul_of_pos_right _ some
  have : maxCount.toNat = 1073741823 := rfl
  rw [arrayBytes]
  apply read_bind elements
  generalize count.toNat * element.toNat = n at *
  dsimp only
  split
  · refine .next (h.recorded.setRecord_ends (j := 5) rfl (by omega) ?_)
    exact .pure (.inl ⟨rfl, .inl (by omega), _, s.log, rfl⟩)
  have hbody : n.toUInt32.toNat = n := toNat_nat (by omega)
  have hsum : (n.toUInt32 + sizeForCount count).toNat = n + bytes count := by
    rw [toNat_plus (by omega), hbody, hhead]
  generalize hreq : max (n.toUInt32 + sizeForCount count) 4 = request
  have : request.toNat = n + bytes count := by
    rw [← hreq]
    show (if _ ≤ _ then _ else _ : UInt32).toNat = _
    split
    · rename_i hmax
      have := le_iff_toNat_le.1 hmax
      have := toNat_four
      omega
    · exact hsum
  refine .bind (h.allocate_ends (n := bytes count + (n + 3) / 4 * 4) (by omega)
    (by omega) (by omega)) ?_
  rintro block t (⟨rfl, ht⟩ | ⟨rfl, ht, hz⟩)
  · exact .pure (.inl ⟨rfl, ht⟩)
  rw [if_neg h.free_ne]
  have := ht.fits
  have hoop : (s.recorded 3 + sizeForCount count).toNat =
      (s.recorded 3).toNat + bytes count := by
    rw [toNat_plus (by omega), hhead]
  have := ht.agrees.size
  obtain ⟨mem, hset, hholds, hagr⟩ := @setClassAndCount_eq t.mem
    (s.recorded 3 + sizeForCount count) k count
    (by omega) (by omega) (by omega) aligned low (by omega)
  apply except_bind (plus_eq (by omega))
  apply edit_bind hset
  apply modify_bind
  exact .say_bind fun log => pure (.inr (ht.laid h (.set t _ _ _ _) hoop hz hholds hagr))

lemma Partition.newInstance_ends (h : s.Partition)
    (plain : Class.isArray k s.mem = .ok false) (size : Class.instanceWords k s.mem = .ok words)
    (range : 4 * words.toNat + 8 < 4294967296)
    (known : ¬ s.Short (4 + 4 * words.toNat) → k.toNat < 16777216) :
    Ends (newInstance k) s (s.Answer k 0 (4 * words.toNat)) := by
  have : bytes 0 = 4 := rfl
  have h4 := toNat_four
  have := h.stop_le
  have := h.recorded.small
  have := h.free_aligned
  have hbody : (words * 4).toNat = 4 * words.toNat := by
    rw [UInt32.toNat_mul, h4]
    omega
  have : (words * 4 + 4).toNat = 4 * words.toNat + 4 := by
    rw [toNat_plus (by omega), hbody, h4]
  apply read_bind plain
  apply Ends.except_bind rfl
  apply read_bind size
  apply except_bind (times_eq (by rw [h4]; omega))
  apply except_bind (plus_eq (by omega))
  refine .bind (h.allocate_ends (n := bytes 0 + 4 * words.toNat) (by omega) (by omega)
    (by omega)) ?_
  rintro _ t (⟨rfl, ht⟩ | ⟨rfl, ht, hz⟩)
  · exact .pure (.inl ⟨rfl, ht⟩)
  rw [if_neg h.free_ne]
  have := ht.fits
  have := ht.agrees.size
  have hoop : (s.recorded 3 + 4).toNat = (s.recorded 3).toNat + 4 := toNat_plus (by omega)
  have hword : t.mem.peekWord ((s.recorded 3 + 4).toNat - 4) = 0 :=
    peekWord_zero fun i hi => hz _ (by omega) (by omega)
  have hblank : Holds t.mem (s.recorded 3 + 4) 0 0 :=
    ⟨by omega, by omega, by omega, by decide, by decide,
      by rw [hword]; rfl, fun h => absurd h (by decide)⟩
  obtain ⟨v, hset, hholds⟩ := hblank.setLowBits (known ht.roomy)
  apply except_bind (plus_eq (by omega))
  apply edit_bind hset
  refine .say_bind fun log => pure (.inr (ht.laid h (.set t _ _ _ _) hoop hz hholds ?_))
  exact .poked fun b hb => by omega

/-- A stack chunk of `size` words of class `k` was made. -/
structure Made (s t : Store) (k chunk size : UInt32) : Prop extends s.Kept t where
  first : chunk.toNat = (s.recorded 3).toNat + bytes size
  fits : chunk.toNat + 4 * size.toNat ≤ (s.recorded 4).toNat
  free : (t.recorded 3).toNat = chunk.toNat + 4 * size.toNat
  record : ∀ j < 16, j ≠ 3 → (j ≠ 10 ∨ s.kind = .copying) → t.recorded j = s.recorded j
  header : Holds t.mem chunk k size
  /-- All chunks of the sliding collector are in a list. -/
  listed : (s.kind = .copying ∧ t.mem.peekWord chunk.toNat = chunk) ∨
    (s.kind = .sliding ∧ t.mem.peekWord chunk.toNat = s.recorded 10 ∧ t.recorded 10 = chunk)
  words : ∀ x, 4 ≤ x → x % 4 = 0 → x + 4 ≤ 4 * size.toNat →
    t.mem.peekWord (chunk.toNat + x) = if x = 12 then size else 0
  agrees : Agrees (fun b =>
    (b < (s.recorded 3).toNat ∨ chunk.toNat + 4 * size.toNat ≤ b) ∧
    (b < s.ram.start.toNat ∨ s.ram.start.toNat + 64 ≤ b)) s.mem t.mem

lemma Laid.made {chunk size : UInt32} (h : s.Partition)
    (hu : s.Laid u chunk k size (4 * size.toNat)) (large : 5 ≤ size.toNat) (kept : u.Kept t)
    (hm : Agrees (fun b => (b < chunk.toNat ∨ chunk.toNat + 4 ≤ b) ∧
      (b < chunk.toNat + 12 ∨ chunk.toNat + 16 ≤ b) ∧
      (s.kind = .copying ∨ b < s.ram.start.toNat + 40 ∨ s.ram.start.toNat + 44 ≤ b)) u.mem t.mem)
    (hsize : t.mem.peekWord (chunk.toNat + 12) = size)
    (listed : (s.kind = .copying ∧ t.mem.peekWord chunk.toNat = chunk) ∨
      (s.kind = .sliding ∧ t.mem.peekWord chunk.toNat = s.recorded 10 ∧ t.recorded 10 = chunk)) :
    s.Made t k chunk size := by
  have := h.free_low
  have hfirst := hu.first
  have := hu.took.fits
  have keep : ∀ j < 16, (j ≠ 10 ∨ s.kind = .copying) → t.recorded j = u.recorded j := by
    intro j hj h10
    rw [recorded, recorded, kept.ram, hu.took.ram]
    refine hm.peekWord _ fun i hi => ⟨by omega, by omega, ?_⟩
    rcases h10 with h10 | h10
    · exact .inr (by omega)
    · exact .inl h10
  constructor
  case toKept => exact hu.took.toKept.trans kept
  case first => exact hfirst
  case fits => omega
  case free =>
    rw [keep 3 (by omega) (.inl (by omega)), hu.took.free]
    omega
  case record =>
    intro j hj h3 h10
    rw [keep j hj h10, hu.took.record h hj h3]
  case header => exact hu.header.agrees hm fun b hb hb' => ⟨by omega, by omega, .inr (by omega)⟩
  case listed => exact listed
  case words =>
    intro x hx hx4 hxs
    split
    · rename_i h12
      rw [h12, hsize]
    · rw [hm.peekWord _ fun i hi => ⟨by omega, by omega, .inr (by omega)⟩]
      exact peekWord_zero fun i hi => hu.zero _ (by omega) (by omega)
  case agrees =>
    refine (hu.took.agrees.mono fun b hb => ?_).trans (hm.mono fun b hb => ?_)
    · omega
    · exact ⟨by omega, by omega, .inr (by omega)⟩

lemma Partition.newChunk_ends (h : s.Partition)
    (kind : classNumbered ClassNumber.localArray s = .ok k)
    (element : Class.arrayElementSize k s.mem = .ok 4) (aligned : k.toNat % 4 = 0)
    (low : k.toNat < 16777216) (header : s.exactChunks = true → 5 ≤ words.toNat) :
    Ends (newChunk words) s fun chunk t => ∃ size : UInt32, words.toNat ≤ size.toNat ∧
      size.toNat ≤ max words.toNat 32 ∧
      ((chunk = 0 ∧ s.Refused t (bytes size + 4 * size.toNat)) ∨
        s.Made t k chunk size) := by
  have := h.free_low
  have := h.stop_le
  have := h.recorded.small
  have := h.free_aligned
  apply get_bind
  generalize hsize : (if (!s.exactChunks && words < regularWords) = true then
    regularWords else words) = size
  have hsn : words.toNat ≤ size.toNat ∧ size.toNat ≤ max words.toNat 32 ∧ 5 ≤ size.toNat := by
    have : regularWords.toNat = 32 := rfl
    rw [← hsize]
    split
    · have hlt : words < regularWords := by simp_all
      have := lt_iff_toNat_lt.1 hlt
      omega
    cases he : s.exactChunks with
    | true =>
      have := header he
      omega
    | false =>
      have hlt : ¬ words < regularWords := by simp_all
      rw [lt_iff_toNat_lt] at hlt
      omega
  obtain ⟨hs1, hs2, hs5⟩ := hsn
  have hbody : arrayBytes 4 size = 4 * size.toNat := by
    have h4 := toNat_four
    rw [arrayBytes, h4]
    omega
  apply query_bind kind
  refine .bind (h.newArray_ends element (by decide) aligned low) ?_
  rw [hbody]
  rintro chunk u (⟨rfl, ht⟩ | hu)
  · exact .pure ⟨size, hs1, hs2, .inl ⟨rfl, ht⟩⟩
  have := bytes_cases size
  have := hu.first
  have := hu.took.fits
  have hts := hu.took.agrees.size
  have hram := hu.took.ram
  have hne : ¬ (chunk == 0) = true := by
    rw [beq_iff_eq]
    rintro rfl
    have := UInt32.toNat_zero
    omega
  have point : ∀ {index : Int32} {j : Nat}, index.toInt = j → j < 5 →
      Points chunk index (chunk.toNat + 4 * j) := fun hi hj =>
    .lit _ hi
  -- The size is written last, into a store in which the first word and the list have changed.
  have finish : ∀ v : Store, u.Kept v →
      Agrees (fun b => (b < chunk.toNat ∨ chunk.toNat + 4 ≤ b) ∧
        (s.kind = .copying ∨ b < s.ram.start.toNat + 40 ∨ s.ram.start.toNat + 44 ≤ b))
        u.mem v.mem →
      ((s.kind = .copying ∧ v.mem.peekWord chunk.toNat = chunk) ∨
        (s.kind = .sliding ∧ v.mem.peekWord chunk.toNat = s.recorded 10 ∧ v.recorded 10 = chunk)) →
      Ends (do setSize chunk size; return chunk) v fun chunk t => ∃ size : UInt32,
        words.toNat ≤ size.toNat ∧ size.toNat ≤ max words.toNat 32 ∧
        ((chunk = 0 ∧ s.Refused t (bytes size + 4 * size.toNat)) ∨
          s.Made t k chunk size) := by
    intro v hv hagr hlist
    have := hagr.size
    refine .edit_bind (setWord_eq (point (j := 3) rfl (by omega)) (by omega))
      (.pure ⟨size, hs1, hs2, .inr (hu.made h hs5 (hv.trans (.set v _ _ _ _)) ?_ ?_ ?_)⟩)
    · exact (hagr.mono fun b hb => ⟨hb.1, hb.2.2⟩).pokeWord fun b hb => hb.2.1
    · exact peekWord_pokeWord_self _ (by omega)
    have hvr := hv.ram.trans hram
    have hself := peekWord_pokeWord_apart (m := v.mem) (a := chunk.toNat + 4 * 3)
      (b := chunk.toNat) size (by omega)
    have hroot := peekWord_pokeWord_apart (m := v.mem) (a := chunk.toNat + 4 * 3)
      (b := v.ram.start.toNat + 4 * 10) size (by rw [hvr]; omega)
    rcases hlist with ⟨hk, h1⟩ | ⟨hk, h1, h2⟩
    · exact .inl ⟨hk, hself.trans h1⟩
    · exact .inr ⟨hk, hself.trans h1, hroot.trans h2⟩
  rw [if_neg hne]
  apply modify_bind
  apply get_bind
  generalize hv : ({ u with stats := { u.stats with chunks := u.stats.chunks + 1 } } : Store) = v
  have hkept : u.Kept v := hv ▸ .set u _ _ _ _
  have hvm : v.mem = u.mem := by rw [← hv]
  have hvr := hkept.ram.trans hram
  have poke : ∀ x, Agrees (fun b => b < chunk.toNat ∨ chunk.toNat + 4 ≤ b) u.mem
      (v.mem.pokeWord chunk.toNat x) ∧ (v.mem.pokeWord chunk.toNat x).peekWord chunk.toNat = x := by
    rw [hvm]
    exact fun x => ⟨.poked fun b hb => hb,
      peekWord_pokeWord_self _ (by omega)⟩
  have hroot : v.recorded 10 = s.recorded 10 := by
    rw [← hu.took.record h (by omega) (by omega), Store.recorded, Store.recorded, hkept.ram, hvm]
  split
  · rename_i hk
    have hks : s.kind = .copying := (hkept.kind.trans hu.took.kind).symm.trans hk
    refine .edit_bind (setWord_eq (point (j := 0) rfl (by omega)) ⟨by omega, (by rw [hvm]; omega)⟩)
      ?_
    exact finish _ (hkept.trans (.set v _ _ _ _)) ((poke chunk).1.mono fun b hb => hb.1)
      (.inl ⟨hks, (poke chunk).2⟩)
  rename_i hk
  have hks : s.kind = .sliding := (hkept.kind.trans hu.took.kind).symm.trans hk
  have hrec : ∀ o : Store, o.ram = s.ram → o.mem.size = s.mem.size → o.Recorded := fun o hr hm =>
    ⟨hr ▸ h.recorded.aligned, by rw [hr, hm]; exact h.recorded.inside, by omega⟩
  apply query_bind ((hrec v hvr (by rw [hvm, hts])).root_eq (j := 2) rfl (by omega))
  obtain ⟨hagr, hself⟩ := poke (v.recorded 10)
  refine .edit_bind (setWord_eq
    (point (j := 0) rfl (by omega)) ⟨by omega, (by rw [hvm]; omega)⟩) ?_
  generalize v.mem.pokeWord chunk.toNat (v.recorded 10) = mem at *
  refine .next ((hrec (v.setMem mem) hvr (hagr.size.trans hts)).setRamRoot_ends (j := 2) rfl
    (by omega) ?_)
  have := hagr.size
  refine finish _ (hkept.trans (.set v _ _ _ _))
    ((hagr.mono fun b hb => hb.1).pokeWord fun b hb => ?_) (.inr ⟨hks, ?_, ?_⟩)
  · rw [setMem_ram, hvr]
    exact hb.2.resolve_left (by rw [hks]; decide)
  · refine (peekWord_pokeWord_apart _ ?_).trans (hself.trans hroot)
    rw [setMem_ram, hvr]
    omega
  · exact peekWord_pokeWord_self _ (by rw [setMem_ram, hvr, setMem_mem]; omega)

end Store

end DeviceVm
