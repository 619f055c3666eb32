import DeviceVm.Interpreter.Native.Objects
import DeviceVm.Proofs.Bits
import DeviceVm.Proofs.Interpreter.Execution
import DeviceVm.Proofs.Sample

/-!
Copying between arrays is simultaneous. References are copied one by one, each recorded where stores
are; within one array the last goes first if they move to a later place. All that is done at any
time is a stretch of the target, and no element of it is read again. Other elements are moved as
bytes.
-/

namespace DeviceVm.Exec

open Memory UInt32 BitRange Word Store

/-- An array of class `k` with `count` elements of `item` bytes, all in object memory. -/
structure Arrayed (s : Store) (object : Nat → Prop) (k item : UInt32) (count : Nat)
    (array : UInt32) : Prop where
  kind : Header.classOf array s.mem = .ok k
  counted : ∃ n, Header.elementCount array s.mem = .ok n ∧ n.toNat = count
  aligned : array.toNat % 4 = 0
  inside : array.toNat + item.toNat * count ≤ s.mem.size
  owned : ∀ b, array.toNat ≤ b → b < array.toNat + item.toNat * count → object b

/-- Stretches within two arrays of one class, which may be the same, the second in RAM. Where stores
are recorded, the bits are not in object memory. -/
structure Copies (s : Store) (object : Nat → Prop) (c : Stretches) (k item : UInt32)
    (p q count count' L : Nat) : Prop where
  source : Arrayed s object k item count c.source
  target : Arrayed s object k item count' c.target
  numbered : ∃ number, Class.number k s.mem = .ok number
  element : ∃ e, Class.elementNumber k s.mem = .ok e ∧ Class.elementSize e = item
  sourceStart : c.sourceStart.toInt = p
  targetStart : c.targetStart.toInt = q
  length : c.length.toInt.toNat = L
  source_le : p + L ≤ count
  target_le : q + L ≤ count'
  apart : c.source = c.target ∨ c.source.toNat + item.toNat * count ≤ c.target.toNat ∨
    c.target.toNat + item.toNat * count' ≤ c.source.toNat
  ram : s.ram.contains c.target = .ok true
  rom : s.rom.contains c.target = .ok false
  small : s.mem.size ≤ 16777216
  collecting : s.collecting = false
  bits : s.barrier = true → s.bits.range.Mapped s.mem.size ∧
    (∀ i, 4 * i < item.toNat * count' → s.bits.range.Spans (c.target.toNat + 4 * i)) ∧
    ∀ b, s.bits.range.covers b → ¬ object b

/-- The bytes from `lo` to `hi` behind `target` are those that were as far behind `source`, and no
other byte of an object has changed. -/
structure Moved (object : Nat → Prop) (old mem : Memory) (source target lo hi : Nat) : Prop where
  size : mem.size = old.size
  order : mem.order = old.order
  peek : ∀ b, object b → mem.peek b =
    if target + lo ≤ b ∧ b < target + hi then old.peek (source + (b - target)) else old.peek b

/-- The references from `lo` to `hi` are copied and recorded. -/
structure Partly (s : Store) (object : Nat → Prop) (c : Stretches) (p q lo hi : Nat)
    (mem : Memory) : Prop where
  moved : Moved object s.mem mem (c.source.toNat + 4 * p) (c.target.toNat + 4 * q) (4 * lo) (4 * hi)
  bits : s.barrier = true → ∀ i, lo ≤ i → i < hi →
    s.bits.range.holds mem (c.target.toNat + 4 * (q + i)) = true

/-- With `n` references to go, those from `lo` to `hi` are done. The last one goes first only within
one array, towards a later place. -/
def Stretches.Left (c : Stretches) (p q L : Nat) (backwards : Bool) (n lo hi : Nat) : Prop :=
  if backwards then (lo = n ∧ hi = L ∧ lo ≤ hi) ∧ p < q ∧ c.source = c.target
  else lo = 0 ∧ hi + n = L ∧ (c.source = c.target → q ≤ p)

variable {c : Stretches} {s : Store} {object : Nat → Prop} {k item : UInt32}
  {p q count count' n L x source target lo hi : Nat} {old mem : Memory} {backwards : Bool}

lemma Moved.refl (h : hi ≤ lo) : Moved object old old source target lo hi :=
  ⟨rfl, rfl, fun b _ => (if_neg (by omega)).symm⟩

lemma Partly.next {mem' : Memory} (h : Partly s object c p q lo hi mem)
    (hx : (x + 1 = lo ∨ x = hi) ∧ lo ≤ hi ∧ x < L ∧ hi ≤ L)
    (agrees : Agrees (fun b => (b < c.target.toNat + 4 * (q + x) ∨
      c.target.toNat + 4 * (q + x) + 4 ≤ b) ∧ object b) mem mem')
    (word : mem'.peekWord (c.target.toNat + 4 * (q + x)) =
      s.mem.peekWord (c.source.toNat + 4 * (p + x)))
    (bits : s.barrier = true → ∀ i < L,
      s.bits.range.holds mem' (c.target.toNat + 4 * (q + i)) =
        (decide (c.target.toNat + 4 * (q + i) = c.target.toNat + 4 * (q + x)) ||
          s.bits.range.holds mem (c.target.toNat + 4 * (q + i)))) :
    Partly s object c p q (min lo x) (max hi (x + 1)) mem' := by
  have order := agrees.order.trans h.moved.order
  refine ⟨⟨agrees.size.trans h.moved.size, order, fun b hb => ?_⟩, fun hb i hlo hhi => ?_⟩
  · by_cases hin : c.target.toNat + 4 * (q + x) ≤ b ∧ b < c.target.toNat + 4 * (q + x) + 4
    · have := peek_of_peekWord order word (i := b - (c.target.toNat + 4 * (q + x))) (by omega)
      rw [Nat.add_sub_cancel' hin.1] at this
      rw [if_pos (by omega), this]
      congr 1
      omega
    · rw [agrees.peek b ⟨by omega, hb⟩, h.moved.peek b hb]
      congr 1
      apply propext
      omega
  · rw [bits hb i (by omega), Bool.or_eq_true, decide_eq_true_iff]
    by_cases he : i = x
    · exact .inl (by rw [he])
    · exact .inr (h.bits hb i (by omega) (by omega))

lemma offsetIndex_eq {start i : Int32} (hp : start.toInt = p) (hi : i.toInt = x)
    (h : p + x ≤ 16777216) :
    ∃ index, offsetIndex start i = .ok index ∧ index.toInt = (p + x : Nat) := by
  refine ⟨Int32.ofInt (p + x), ?_, ?_⟩
  · rw [offsetIndex, hp, hi]
    exact if_pos (by omega)
  · rw [Int32.toInt_ofInt_of_le (by omega) (by omega)]
    omega

lemma Copies.next_left (h : Copies s object c k item p q count count' L) (four : item.toNat = 4)
    (hL : c.length.toInt = L) (left : c.Left p q L backwards (n + 1) lo hi) : ∃ x : Nat,
      (if backwards then Int32.ofNat (n + 1) - 1 else c.length - Int32.ofNat (n + 1)).toInt = x ∧
      ((x + 1 = lo ∨ x = hi) ∧ lo ≤ hi ∧ x < L ∧ hi ≤ L) ∧
      c.Left p q L backwards n (min lo x) (max hi (x + 1)) ∧
      ∀ i < 4, ¬ (c.target.toNat + 4 * q + 4 * lo ≤ c.source.toNat + 4 * (p + x) + i ∧
        c.source.toNat + 4 * (p + x) + i < c.target.toNat + 4 * q + 4 * hi) := by
  have := c.length.toInt_lt
  have := h.source_le
  have := h.target_le
  have hapart := h.apart
  rw [four] at hapart
  have hk (hn : n < L) : (Int32.ofNat (n + 1)).toInt = (n + 1 : Nat) :=
    Int32.toInt_ofNat_of_lt (by omega)
  cases backwards with
  | true =>
    obtain ⟨hn, hpq, he⟩ := left
    refine ⟨n, ?_, by omega, ⟨by omega, hpq, he⟩, by rw [he]; omega⟩
    have h1 : (1 : Int32).toInt = 1 := rfl
    rw [if_pos rfl, Int32.toInt_sub, hk (by omega), h1, Int.bmod_eq_of_le] <;> omega
  | false =>
    obtain ⟨rfl, hn, hqp⟩ := left
    refine ⟨hi, ?_, by omega, ⟨by omega, by omega, hqp⟩, fun i _ => ?_⟩
    · rw [if_neg Bool.false_ne_true, Int32.toInt_sub, hk (by omega), hL, Int.bmod_eq_of_le] <;>
        omega
    · by_cases he : c.source = c.target
      · have := hqp he
        rw [he]
        omega
      · have := hapart.resolve_left he
        omega

lemma Copies.copyReferences_ends (h : Copies s object c k item p q count count' L)
    (four : item.toNat = 4) (hL : c.length.toInt = L) (left : c.Left p q L backwards n lo hi)
    (part : Partly s object c p q lo hi mem) :
    Ends (copyReferences c backwards n) (s.setMem mem) fun b t => b = true ∧
      ∃ mem, t = s.setMem mem ∧ Partly s object c p q 0 L mem := by
  have := h.source_le
  have := h.target_le
  have hin := h.source.inside
  have hin' := h.target.inside
  have := h.source.aligned
  have := h.target.aligned
  have := h.small
  rw [four] at hin hin'
  induction n generalizing mem lo hi with
  | zero =>
    obtain ⟨rfl, rfl⟩ : lo = 0 ∧ hi = L := by unfold Stretches.Left at left; split at left <;> omega
    exact .pure ⟨rfl, mem, rfl, part⟩
  | succ n ih =>
    obtain ⟨x, hnext, hx, left, unread⟩ := h.next_left four hL left
    obtain ⟨i, hi, hi'⟩ := offsetIndex_eq h.sourceStart hnext (by omega)
    obtain ⟨j, hj, hj'⟩ := offsetIndex_eq h.targetStart hnext (by omega)
    have hsize := part.moved.size
    have hread : mem.peekWord (c.source.toNat + 4 * (p + x)) =
        s.mem.peekWord (c.source.toNat + 4 * (p + x)) := by
      refine peekWord_congr part.moved.order fun i hi => ?_
      rw [part.moved.peek _ (h.source.owned _ (by omega) (by rw [four]; omega)),
        if_neg (unread i hi)]
    refine .except_bind hi (.read_bind (word_eq (a := c.source.toNat + 4 * (p + x))
      (.lit _ hi' (by omega)) ⟨by omega, show _ ≤ mem.size by omega⟩) (.except_bind hj ?_))
    rw [setMem_mem, hread]
    refine .next (.query_bind (show inRam c.target (s.setMem mem) = .ok true from h.ram) ?_)
    refine .bind (setReferenceInRam_ends object (a := c.target.toNat + 4 * (q + x))
      (.lit _ hj' (by omega)) h.ram (by omega) (show _ ≤ mem.size by omega) h.collecting
      fun hb => ?_) ?_
    · obtain ⟨mapped, spans, covers⟩ := h.bits hb
      exact ⟨hsize ▸ mapped, spans _ (by rw [four]; omega), covers⟩
    · rintro - - ⟨mem', rfl, hword, hagr, hbits⟩
      refine .pure (ih left (part.next hx hagr hword fun hb i hi => ?_))
      refine hbits hb (fun i hi => h.target.owned _ (by omega) ?_) _ ((h.bits hb).2.1 _ ?_) <;>
        rw [four] <;> omega

lemma toNat_toUInt32_of_toInt {i : Int32} (h : i.toInt = x) : i.toUInt32.toNat = x := by
  have hb : i.toInt = i.toBitVec.toInt := rfl
  have : i.toUInt32.toNat = i.toBitVec.toNat := rfl
  rw [hb, BitVec.toInt_eq_toNat_cond] at h
  split at h <;> omega

lemma times_toUInt32 {i : Int32} (h : i.toInt = x) (hx : item.toNat * x < 4294967296) :
    ∃ d, times i.toUInt32 item = .ok d ∧ d.toNat = item.toNat * x := by
  rw [← toNat_toUInt32_of_toInt h, Nat.mul_comm] at hx ⊢
  exact ⟨_, times_eq hx, toNat_times hx⟩

lemma elementAddress_eq {array : UInt32} {index : Int32} (hp : index.toInt = p)
    (h : array.toNat + item.toNat * p < 4294967296) : ∃ addr,
      elementAddress array index item = .ok addr ∧ addr.toNat = array.toNat + item.toNat * p := by
  obtain ⟨d, hd, hd'⟩ := times_toUInt32 hp (show item.toNat * p < 4294967296 by omega)
  rw [← hd'] at h ⊢
  refine ⟨array + d, ?_, toNat_plus h⟩
  rw [elementAddress, hd]
  exact plus_eq h

lemma Copies.copyElements_eq (h : Copies s object c k item p q count count' L)
    (hL : c.length.toInt = L) : ∃ mem, copyElements c item c.length s.mem = .ok () mem ∧
      Moved object s.mem mem (c.source.toNat + item.toNat * p) (c.target.toNat + item.toNat * q) 0
        (item.toNat * L) := by
  have := h.small
  have := h.source.inside
  have := h.target.inside
  have hp := Nat.mul_le_mul_left item.toNat h.source_le
  have hq := Nat.mul_le_mul_left item.toNat h.target_le
  rw [Nat.mul_add] at hp hq
  obtain ⟨source, hs, hs'⟩ := @elementAddress_eq item _ c.source _ h.sourceStart (by omega)
  obtain ⟨target, ht, ht'⟩ := @elementAddress_eq item _ c.target _ h.targetStart (by omega)
  obtain ⟨len, hl, hl'⟩ := @times_toUInt32 item _ _ hL (by omega)
  rw [copyElements, Edit.lift_ok hs, Edit.lift_ok ht, Edit.lift_ok hl, ← hs', ← ht', ← hl']
  by_cases hz : len = 0 ∨ source = target
  · refine ⟨s.mem, by rcases hz with hz | hz <;> simp [copyBytes, hz], rfl, rfl, fun b _ => ?_⟩
    split
    · rename_i hb
      rcases hz with rfl | rfl
      · rw [UInt32.toNat_zero] at hb
        omega
      · congr 1
        omega
    · rfl
  · obtain ⟨hz, hd⟩ := not_or.1 hz
    have fits : source.toNat + len.toNat ≤ s.mem.size ∧ target.toNat + len.toNat ≤ s.mem.size := by
      omega
    exact ⟨_, copyBytes_eq hz hd fits.1 fits.2, size_move fits.1 fits.2, order_move _ _ _,
      fun b _ => peek_move fits.1 fits.2⟩

lemma Copies.isReferenceArray_eq (h : Copies s object c k item p q count count' L) :
    ∃ b, Class.isReferenceArray k s.mem = .ok b ∧ (b = true → item.toNat = 4) := by
  obtain ⟨number, hnumber⟩ := h.numbered
  obtain ⟨e, he, rfl⟩ := h.element
  refine ⟨_, by rw [Class.isReferenceArray, Read.bind_ok hnumber, Read.bind_ok he]; rfl,
    fun hb => ?_⟩
  have hlt : 8 < e.toNat := by
    have : e > ClassNumber.lastPrimitive := by simp_all
    exact this
  have ne : ∀ n : UInt32, n.toNat ≤ 8 → (e == n) = false := fun n hn => by
    refine beq_false_of_ne fun he => ?_
    rw [he] at hlt
    omega
  simp [Class.elementSize, ne, ClassNumber.long, ClassNumber.double, ClassNumber.char,
    ClassNumber.short, ClassNumber.byte, ClassNumber.boolean]

/-- Copying between two arrays of one class, or within one, moves all the elements at once: the
target gets what the source held before, no other byte of an object changes, and each slot that got
a reference is recorded where stores are. -/
theorem copyArray_moves_at_once {m n : Machine} (args : popStretches m = .ok c n)
    (h : Copies n.store object c k item p q count count' L) :
    Gives copyArray m fun r o => r = .proceed ∧ ∃ mem, o = n.setMem mem ∧
      Moved object n.store.mem mem (c.source.toNat + item.toNat * p)
        (c.target.toNat + item.toNat * q) 0 (item.toNat * L) ∧
      (Class.isReferenceArray k n.store.mem = .ok true → n.store.barrier = true → ∀ i, i < L →
        n.store.bits.range.holds mem (c.target.toNat + 4 * (q + i)) = true) := by
  have hL := h.length
  unfold copyArray
  refine .bind (Q := fun a o => a = c ∧ o = n) ⟨c, n, args, rfl, rfl⟩ ?_
  intro a o ho
  rw [ho.1, ho.2]
  by_cases hle : c.length ≤ 0
  · have : c.length.toInt ≤ 0 := Int32.le_iff_toInt_le.mp hle
    obtain rfl : L = 0 := by omega
    exact .pos hle (.pure ⟨rfl, n.store.mem, rfl, .refl (Nat.le_refl _), by omega⟩)
  have hlen : c.length.toInt = L := by
    have : ¬ c.length.toInt ≤ 0 := fun h => hle (Int32.le_iff_toInt_le.mpr h)
    omega
  refine .neg hle (.query_bind (show inRom _ n.store = .ok false from h.rom) ?_)
  refine .neg Bool.false_ne_true (.read_bind h.source.kind ?_)
  obtain ⟨b, hb, hfour⟩ := h.isReferenceArray_eq
  refine .read_bind hb ?_
  cases b with
  | true =>
    have four := hfour rfl
    refine .pos rfl ?_
    rw [hL, four]
    generalize hback : (c.source == c.target && decide (c.sourceStart < c.targetStart)) = backwards
    have start : Partly n.store object c p q (if backwards then L else 0)
        (if backwards then L else 0) n.store.mem :=
      ⟨.refl (Nat.le_refl _), fun _ i hlo hhi => by omega⟩
    refine .run_bind (h.copyReferences_ends four hlen ?_ start) ?_
    · have : c.sourceStart < c.targetStart ↔ p < q := by
        rw [Int32.lt_iff_toInt_lt, h.sourceStart, h.targetStart, Int.ofNat_lt]
      cases backwards <;> simp_all [Stretches.Left]
    · rintro b t ⟨rfl, mem, rfl, part⟩
      exact .pos rfl (.pure
        ⟨rfl, mem, rfl, part.moved, fun _ hb i => part.bits hb i (Nat.zero_le i)⟩)
  | false =>
    obtain ⟨e, he, hitem⟩ := h.element
    obtain ⟨mem, hcopy, moved⟩ := h.copyElements_eq hlen
    refine .neg Bool.false_ne_true ?_
    refine .read_bind (a := item) (by rw [Class.arrayElementSize, Read.bind_ok he, hitem]; rfl) ?_
    refine .edit_bind hcopy (.pure ⟨rfl, mem, rfl, moved, fun href => ?_⟩)
    rw [hb] at href
    cases href

/-- An array of three references from 24 on, the arguments behind it, and then the bits. -/
def copyMachine : Machine where
  store :=
    { mem := .ofWords [0, 21, 0, 0, 9, 0x03000004, 7, 8, 9, 24, 0, 24, 1, 2, 0]
      rom := { start := 0, size := 20 }
      eeprom := {}
      ram := { start := 20, size := 40 }
      bits := { range := { base := 56, first := 24, last := 32 } }
      kind := .sliding
      barrier := true
      eager := false
      exactChunks := false
      trace := ⟨0⟩ }
  sp := 52

lemma copyMachine_arrayed :
    Arrayed copyMachine.store (fun b => 20 ≤ b ∧ b < 36) 4 4 3 24 where
  kind := rfl
  counted := ⟨3, rfl, rfl⟩
  aligned := rfl
  inside := by decide
  owned b hlo hhi := by
    have : b < 24 + 4 * 3 := hhi
    exact ⟨by have : 24 ≤ b := hlo; omega, by omega⟩

/-- Two elements are copied to the place behind the first. -/
theorem copyArray_moves_at_once_overlapping :
    Gives copyArray copyMachine fun r o => r = .proceed ∧
      (∀ b, 28 ≤ b → b < 36 → o.store.mem.peek b = copyMachine.store.mem.peek (b - 4)) ∧
      ∀ i, i < 2 → copyMachine.store.bits.range.holds o.store.mem (24 + 4 * (1 + i)) = true := by
  have h : Copies copyMachine.store (fun b => 20 ≤ b ∧ b < 36) ⟨24, 0, 24, 1, 2⟩ 4 4 0 1 3 3 2 := {
    source := copyMachine_arrayed
    target := copyMachine_arrayed
    numbered := ⟨21, rfl⟩
    element := ⟨9, rfl, rfl⟩
    sourceStart := rfl
    targetStart := rfl
    length := rfl
    source_le := by decide
    target_le := by decide
    apart := .inl rfl
    ram := rfl
    rom := rfl
    small := by decide
    collecting := rfl
    bits _ := by
      refine ⟨⟨by decide, rfl, by decide, by decide⟩, fun i hi => ?_, fun b hb ho => ?_⟩
      · have : 4 * i < 4 * 3 := hi
        refine ⟨?_, ?_, ?_⟩
        · show (24 + 4 * i) % 4 = 0
          omega
        · show 24 ≤ 24 + 4 * i
          omega
        · show 24 + 4 * i ≤ 32
          omega
      · have : 56 ≤ b := hb.1
        omega }
  refine (copyArray_moves_at_once (m := copyMachine) (n := { copyMachine with sp := 32 }) rfl
    h).mono ?_
  rintro r o ⟨hr, mem, rfl, moved, bits⟩
  refine ⟨hr, fun b hlo hhi => ?_, bits rfl rfl⟩
  refine ((moved.peek b ⟨by omega, hhi⟩).trans (if_pos ⟨hlo, hhi⟩)).trans ?_
  show copyMachine.store.mem.peek (24 + (b - 28)) = _
  congr 1
  omega

end DeviceVm.Exec
