import DeviceVm.Image
import DeviceVm.Proofs.Access
import DeviceVm.Proofs.Word
import Mathlib.Data.List.Induction

/-!
Images read back. Writing and reading are inverse to each other in both byte orders: an image that
is read back gives the store it was written from, and an image that is accepted is the one that the
store it gives is written to. Every image is accepted or refused, unless its record gives a segment
an end that does not fit a word.
-/

namespace DeviceVm

open UInt32 List ByteArray

namespace Memory

variable {a b : ByteArray} {order : ByteOrder}

lemma peek_append (i : Nat) : peek ⟨a ++ b, order⟩ i =
    if i < a.size then peek ⟨a, order⟩ i else peek ⟨b, order⟩ (i - a.size) := by
  simp only [peek_eq, data_append, Array.getElem?_append]
  have hs : a.size = a.data.size := rfl
  rw [hs]
  split <;> rfl

lemma peek_extract {m : Memory} {start stop : Nat} (i : Nat) (h : start + i < stop) :
    peek ⟨m.bytes.extract start stop, order⟩ i = m.peek (start + i) := by
  simp only [peek_eq, data_extract, Array.getElem?_extract]
  by_cases hi : i < min stop m.bytes.data.size - start
  · rw [if_pos hi]
  · rw [if_neg hi, Array.getElem?_eq_none (by omega)]

lemma peek_zeros (n i : Nat) : peek ⟨zeros n, order⟩ i = 0 := by
  rw [peek_eq, zeros, Array.getElem?_replicate]
  split <;> rfl

lemma size_zeros (n : Nat) : (zeros n).size = n := Array.size_replicate

end Memory

namespace Image

open Word Memory

variable {bytes rest : ByteArray} {order : ByteOrder} {rom eeprom ram : Region}

/-- The word `i` of an image. -/
def word (bytes : ByteArray) (order : ByteOrder) (i : Nat) : UInt32 :=
  peekWord ⟨bytes, order⟩ (4 * i)

/-! ### The record -/

variable {i : Nat}

lemma size_wordBytes (order : ByteOrder) (v : UInt32) : (wordBytes order v).size = 4 :=
  (size_pokeWord v).trans (size_zeros 4)

lemma word_append (h : 4 * i + 4 ≤ bytes.size) :
    word (bytes ++ rest) order i = word bytes order i :=
  peekWord_congr rfl fun j hj => by rw [peek_append, if_pos (by omega)]

lemma word_append_wordBytes (v : UInt32) (h : bytes.size = 4 * i) :
    word (bytes ++ wordBytes order v) order i = v := by
  have hs : 0 + 4 ≤ (blank 4 order).size := Nat.le_of_eq (size_zeros 4).symm
  have hv := peekWord_pokeWord_self v hs
  have ho : ((blank 4 order).pokeWord 0 v).order = order := order_pokeWord v
  rw [word, wordBytes]
  generalize (blank 4 order).pokeWord 0 v = w at hv ho ⊢
  rw [← hv]
  refine peekWord_congr ho.symm fun j hj => ?_
  rw [peek_append, if_neg (by omega), show 4 * i + j - bytes.size = 0 + j by omega]
  rfl

/-- The bytes of the words, one after the other. -/
def spelled (order : ByteOrder) (ws : List UInt32) : ByteArray :=
  ws.foldl (fun bytes v => bytes ++ wordBytes order v) .empty

lemma spelled_concat (ws : List UInt32) (v : UInt32) :
    spelled order (ws ++ [v]) = spelled order ws ++ wordBytes order v := by
  rw [spelled, foldl_append]
  rfl

lemma size_spelled (ws : List UInt32) : (spelled order ws).size = 4 * ws.length := by
  induction ws using reverseRecOn with
  | nil => rfl
  | append_singleton ws v ih =>
    rw [spelled_concat, size_append, ih, size_wordBytes, length_append]
    rfl

lemma word_spelled (ws : List UInt32) (hi : i < ws.length) :
    word (spelled order ws ++ rest) order i = ws.getD i 0 := by
  rw [word_append (by rw [size_spelled]; omega)]
  induction ws using reverseRecOn with
  | nil => exact absurd hi (Nat.not_lt_zero i)
  | append_singleton ws v ih =>
    rw [length_append, length_singleton] at hi
    rw [spelled_concat]
    by_cases he : i = ws.length
    · subst he
      rw [word_append_wordBytes v (size_spelled ws)]
      simp
    · rw [word_append (by rw [size_spelled]; omega), ih (by omega),
        getD_append _ _ _ _ (by omega)]

lemma word_zero : word bytes order 0 = order.word (peek ⟨bytes, .big⟩ 0) (peek ⟨bytes, .big⟩ 1)
    (peek ⟨bytes, .big⟩ 2) (peek ⟨bytes, .big⟩ 3) := rfl

lemma orderOf_eq_ok : orderOf (word bytes .big 0) = .ok order ↔ word bytes order 0 = magic := by
  have : reversedMagic ≠ magic := by decide
  have : word bytes .big 0 = reversedMagic ↔ word bytes .little 0 = magic := by
    rw [word_zero, word_zero]
    constructor <;> intro h
    · obtain ⟨h0, h1, h2, h3⟩ := @bytes_of_word _ _ _ _ 0x57 0x19 2 3 h
      rw [h0, h1, h2, h3]
      rfl
    · obtain ⟨h0, h1, h2, h3⟩ := @bytes_of_word _ _ _ _ 3 2 0x19 0x57 h
      rw [h0, h1, h2, h3]
      rfl
  unfold orderOf
  cases order <;> grind

lemma order_unique {o o' : ByteOrder} (h : word bytes o 0 = magic)
    (h' : word bytes o' 0 = magic) : o = o' :=
  Except.ok.inj ((orderOf_eq_ok.2 h).symm.trans (orderOf_eq_ok.2 h'))

/-! ### Reading -/

/-- What reading can end in: something accepted, a refusal, or a sum that does not fit a word. -/
def Answers {α : Type} (x : Except Fault α) (accepted : α → Prop) (refused overflow : Prop) :
  Prop :=
  match x with
  | .ok a => accepted a
  | .error (.image _) => refused
  | .error .io => refused
  | .error .broken => overflow
  | .error _ => False

namespace Answers

variable {α β : Type} {x : Except Fault α} {f : α → Except Fault β} {P : α → Prop} {Q : β → Prop}
  {refused refused' wide wide' : Prop}

lemma bind (hx : Answers x P refused' wide') (hr : refused' → refused) (ho : wide' → wide)
    (hf : ∀ a, x = .ok a → P a → Answers (f a) Q refused wide) :
    Answers (x >>= f) Q refused wide := by
  cases x with
  | ok a => exact hf a rfl hx
  | error e => cases e <;> first | exact hr hx | exact ho hx | exact hx

lemma refuse {e : ImageError} {p : Prop} [Decidable p] {y : Except Fault β} (hp : p → refused)
    (hy : ¬ p → Answers y Q refused wide) :
    Answers (if p then throw (.image e) >>= fun _ : Unit => y else y) Q refused wide := by
  by_cases h : p
  · rw [if_pos h]
    exact hp h
  · rw [if_neg h]
    exact hy h

end Answers

def finish (r : Region) : Nat := r.start.toNat + r.size.toNat

lemma stop_answers (r : Region) :
    Answers r.stop (fun v => v.toNat = finish r) False (4294967296 ≤ finish r) := by
  by_cases h : r.start.toNat + r.size.toNat < 4294967296
  · rw [Region.stop, plus_eq h]
    exact toNat_plus h
  · rw [Region.stop, plus, if_neg h]
    exact Nat.le_of_not_lt h

/-- Segments that are not empty, on whole words, one behind the other and below 16 MiB. -/
structure Placed (rom eeprom ram : Region) : Prop where
  behind_zero : rom.start ≠ 0
  large : ∀ r ∈ [rom, eeprom, ram], 64 ≤ r.size.toNat
  aligned : ∀ r ∈ [rom, eeprom, ram], r.start.toNat % 4 = 0 ∧ r.size.toNat % 4 = 0
  rom_eeprom : finish rom ≤ eeprom.start.toNat
  eeprom_ram : finish eeprom ≤ ram.start.toNat
  low : finish ram < 16777216

def Overflows (rom eeprom ram : Region) : Prop :=
  ∃ r ∈ [rom, eeprom, ram], 4294967296 ≤ finish r

lemma Placed.start_le (h : Placed rom eeprom ram) : rom.start.toNat + 64 ≤ finish ram := by
  have := h.large _ (.head _)
  have := h.rom_eeprom
  have := h.eeprom_ram
  unfold finish at *
  omega

lemma Placed.not_overflows (h : Placed rom eeprom ram) : ¬ Overflows rom eeprom ram := by
  rintro ⟨r, hr, hover⟩
  have := h.rom_eeprom
  have := h.eeprom_ram
  have := h.low
  simp only [mem_cons, not_mem_nil, or_false] at hr
  unfold finish at *
  rcases hr with rfl | rfl | rfl <;> omega

lemma checkLayout_answers (rom eeprom ram : Region) :
    Answers (checkLayout rom eeprom ram) (fun _ => Placed rom eeprom ram)
      (¬ Placed rom eeprom ram) (Overflows rom eeprom ram) := by
  have : Header.classMask.toNat = 16777215 := rfl
  have small : ([rom, eeprom, ram].any (·.size < SegmentRecord.bytes)) = true ↔
      ¬ ∀ r ∈ [rom, eeprom, ram], 64 ≤ r.size.toNat := by
    simp [UInt32.lt_iff_toNat_lt, SegmentRecord.bytes]
    grind
  have unaligned : ([rom, eeprom, ram].any fun r => r.start % 4 != 0 || r.size % 4 != 0) = true ↔
      ¬ ∀ r ∈ [rom, eeprom, ram], r.start.toNat % 4 = 0 ∧ r.size.toNat % 4 = 0 := by
    simp [← UInt32.toNat_inj]
    grind
  refine .refuse (fun h placed => placed.behind_zero (beq_iff_eq.1 h)) fun hzero =>
    .refuse (fun h placed => small.1 h placed.large) fun hlarge =>
    .refuse (fun h placed => unaligned.1 h placed.aligned) fun haligned => ?_
  refine (stop_answers rom).bind False.elim (fun h => ⟨rom, by simp, h⟩) fun v _ hv =>
    .refuse (fun h placed => ?_) fun hrom => ?_
  · exact absurd (lt_iff_toNat_lt.1 h) (hv ▸ Nat.not_lt.2 placed.rom_eeprom)
  refine (stop_answers eeprom).bind False.elim (fun h => ⟨eeprom, by simp, h⟩) fun v' _ hv' =>
    .refuse (fun h placed => ?_) fun heeprom => ?_
  · exact absurd (lt_iff_toNat_lt.1 h) (hv' ▸ Nat.not_lt.2 placed.eeprom_ram)
  refine (stop_answers ram).bind False.elim (fun h => ⟨ram, by simp, h⟩) fun v'' _ hv'' =>
    .refuse (fun h placed => ?_) fun hram => ?_
  · exact absurd (lt_iff_toNat_lt.1 h)
      (hv'' ▸ Nat.not_lt.2 (Nat.le_of_lt_succ placed.low))
  simp only [lt_iff_toNat_lt, hv''] at hrom heeprom hram
  exact ⟨fun h => hzero (beq_iff_eq.2 h), not_not.1 (mt small.2 hlarge),
    not_not.1 (mt unaligned.2 haligned), by omega, by omega, by omega⟩

lemma placed_of_layout (h : checkLayout rom eeprom ram = .ok ()) : Placed rom eeprom ram := by
  have := checkLayout_answers rom eeprom ram
  rwa [h] at this

lemma mapM_wordAt (bytes : ByteArray) (order : ByteOrder) (l : List Nat) :
    l.mapM (wordAt bytes order) = if ∀ i ∈ l, 4 * i + 4 ≤ bytes.size
      then .ok (l.map (word bytes order)) else .error .io := by
  induction l with
  | nil => rfl
  | cons i l ih =>
    rw [mapM_cons, wordAt, ih]
    simp only [forall_mem_cons]
    split_ifs <;> first | rfl | grind

def segment (bytes : ByteArray) (order : ByteOrder) (i : Nat) : Region :=
  { start := word bytes order i, size := word bytes order (i + 1) }

/-- How many bytes the segments span that the image describes. -/
def extent (bytes : ByteArray) (order : ByteOrder) : Nat :=
  finish (segment bytes order 6) - (segment bytes order 2).start.toNat

/-- What a reader asks of an image. -/
structure Sound (bytes : ByteArray) (order : ByteOrder) : Prop where
  magic : word bytes order 0 = magic
  version : word bytes order 1 = version
  placed : Placed (segment bytes order 2) (segment bytes order 4) (segment bytes order 6)
  whole : 32 + extent bytes order ≤ bytes.size

/-- The store has the segments of the image and the bytes behind its record, with zeros below. -/
def Given (bytes : ByteArray) (order : ByteOrder) (s : Store) : Prop :=
  (s.rom = segment bytes order 2 ∧ s.eeprom = segment bytes order 4 ∧
    s.ram = segment bytes order 6) ∧
  s.mem = ⟨zeros s.rom.start.toNat ++ bytes.extract 32 (32 + extent bytes order), order⟩

lemma orderOf_answers : Answers (orderOf (word bytes .big 0))
    (fun order => word bytes order 0 = magic) (∀ order, word bytes order 0 ≠ magic) False := by
  cases h : orderOf (word bytes .big 0) with
  | ok order => exact orderOf_eq_ok.1 h
  | error e =>
    have none : ∀ order, word bytes order 0 ≠ magic := fun order hm => by
      rw [orderOf_eq_ok.2 hm] at h
      cases h
    rw [orderOf] at h
    split at h
    · cases h
    · split at h <;> cases h
      exact none

lemma read_answers (bytes : ByteArray) (settings : Settings) (log : Log) :
    Answers (read bytes settings log) (fun s => ∃ order, Sound bytes order ∧ Given bytes order s)
      (∀ order, ¬ Sound bytes order)
      (∃ order, word bytes order 0 = magic ∧ Overflows (segment bytes order 2)
        (segment bytes order 4) (segment bytes order 6)) := by
  have h32 : ∀ order, Sound bytes order → 32 ≤ bytes.size := fun order h => by
    have := h.whole
    omega
  unfold read
  rw [wordAt]
  by_cases h4 : 4 * 0 + 4 ≤ bytes.size
  swap
  · rw [if_neg h4]
    exact fun order h => h4 (Nat.le_trans (by decide) (h32 order h))
  rw [if_pos h4]
  refine orderOf_answers.bind (fun h order sound => h order sound.magic) False.elim
    fun order _ hmagic => ?_
  have only : ¬ Sound bytes order → ∀ o, ¬ Sound bytes o := fun h o sound =>
    h (order_unique sound.magic hmagic ▸ sound)
  rw [mapM_wordAt]
  by_cases hsize : ∀ i ∈ range recordWords, 4 * i + 4 ≤ bytes.size
  swap
  · rw [if_neg hsize]
    refine fun o sound => hsize fun i hi => ?_
    have := h32 o sound
    have : i < 8 := mem_range.1 hi
    omega
  rw [if_pos hsize]
  refine .refuse (fun h => only fun sound => bne_iff_ne.1 h sound.version) fun hversion => ?_
  refine (checkLayout_answers _ _ _).bind (fun h => only fun sound => h sound.placed)
    (fun h => ⟨order, hmagic, h⟩) fun _ _ placed => ?_
  have placed : Placed (segment bytes order 2) (segment bytes order 4)
    (segment bytes order 6) := placed
  refine (stop_answers _).bind False.elim
    (fun h => ⟨order, hmagic, _, .tail _ (.tail _ (.head _)), h⟩)
    fun stop _ hstop => ?_
  have hn : (stop - (segment bytes order 2).start).toNat = extent bytes order := by
    have hstop : stop.toNat = finish (segment bytes order 6) := hstop
    have := placed.start_le
    rw [toNat_minus (by omega), hstop, extent]
  refine .refuse (fun h => only fun sound => bne_iff_ne.1 h ?_) fun hfound => ?_
  · refine Nat.min_eq_left (Nat.le_trans (Nat.le_of_eq hn) ?_)
    exact Nat.le_sub_of_add_le' sound.whole
  have : min (stop - (segment bytes order 2).start).toNat (bytes.size - 32) =
    (stop - (segment bytes order 2).start).toNat := not_not.1 (mt bne_iff_ne.2 hfound)
  have : 32 ≤ bytes.size := hsize 7 (by decide)
  refine ⟨order, ⟨hmagic, not_not.1 (mt bne_iff_ne.2 hversion), placed, by omega⟩,
    ⟨rfl, rfl, rfl⟩, ?_⟩
  rw [← hn]
  rfl

/-! ### Writing -/

/-- The eight words that every image begins with. -/
def record (s : Store) : List UInt32 :=
  [magic, version, s.rom.start, s.rom.size, s.eeprom.start, s.eeprom.size, s.ram.start, s.ram.size]

/-- The image of the store. -/
def written (s : Store) : ByteArray :=
  spelled s.mem.order (record s) ++ s.mem.bytes.extract s.rom.start.toNat (finish s.ram)

section

variable {s : Store} (placed : Placed s.rom s.eeprom s.ram) (inside : finish s.ram ≤ s.mem.size)

lemma word_written {i : Nat} (hi : i < 8) :
    word (written s) s.mem.order i = (record s).getD i 0 := word_spelled _ hi

lemma segments_written : segment (written s) s.mem.order 2 = s.rom ∧
    segment (written s) s.mem.order 4 = s.eeprom ∧ segment (written s) s.mem.order 6 = s.ram := by
  simp only [segment, word_written, Nat.reduceAdd, Nat.reduceLT]
  exact ⟨rfl, rfl, rfl⟩

lemma peek_written (i : Nat) (hi : s.rom.start.toNat + i < finish s.ram) :
    peek ⟨written s, order⟩ (32 + i) = s.mem.peek (s.rom.start.toNat + i) := by
  have h32 : (spelled s.mem.order (record s)).size = 32 := size_spelled _
  rw [written, peek_append, h32, if_neg (by omega), Nat.add_sub_cancel_left, peek_extract i hi]

include inside

lemma size_written : (written s).size = 32 + (finish s.ram - s.rom.start.toNat) := by
  rw [written, size_append, size_spelled, size_extract]
  congr 2
  exact Nat.min_eq_left inside

include placed

lemma written_sound : Sound (written s) s.mem.order := by
  obtain ⟨rom, eeprom, ram⟩ := @segments_written s
  refine ⟨word_written (by omega), word_written (by omega), ?_, ?_⟩
  · rw [rom, eeprom, ram]
    exact placed
  · rw [extent, rom, ram, size_written inside]

lemma write_eq : write s = .ok (written s) := by
  have hlow := placed.low
  have := placed.start_le
  have : (s.ram.start + s.ram.size).toNat = finish s.ram :=
    toNat_plus (Nat.lt_trans hlow (by decide))
  have hsum : s.rom.start.toNat + (s.ram.start + s.ram.size - s.rom.start).toNat =
      finish s.ram := by
    rw [toNat_minus] <;> omega
  have hslice : slice s.rom.start (s.ram.start + s.ram.size - s.rom.start) s.mem =
      .ok (s.mem.bytes.extract s.rom.start.toNat (finish s.ram)) := by
    rw [slice, Read.lift_ok (plus_eq (by omega)), toNat_plus (by omega), hsum]
    exact if_pos inside
  unfold write
  rw [Region.stop, plus_eq (Nat.lt_trans hlow (by decide))]
  show (minus _ _ >>= _) = _
  rw [minus_eq (by omega)]
  show (slice _ _ _ >>= _) = _
  rw [hslice]
  rfl

end

variable {s t : Store}

lemma peek_of_size_le {m : Memory} (h : m.size ≤ i) : m.peek i = 0 := by
  rw [peek_eq, Array.getElem?_eq_none h]
  rfl

lemma Given.size (h : Given bytes order s) (sound : Sound bytes order) :
    s.mem.size = finish s.ram := by
  have := sound.whole
  have := sound.placed.start_le
  rw [h.2, h.1.1, h.1.2.2, Memory.size, ByteArray.size_append, size_zeros, ByteArray.size_extract]
  unfold extent at *
  omega

lemma Given.peek_behind (h : Given bytes order s) (hi : i < extent bytes order) :
    s.mem.peek (s.rom.start.toNat + i) = peek ⟨bytes, order⟩ (32 + i) := by
  rw [h.2, peek_append, size_zeros, if_neg (by omega), Nat.add_sub_cancel_left,
    peek_extract (m := ⟨bytes, order⟩) i (by omega)]

lemma Given.peek_eq (h : Given (written s) s.mem.order t)
    (below : ∀ a < s.rom.start.toNat, s.mem.peek a = 0) {a : Nat} (ha : a < finish s.ram) :
    t.mem.peek a = s.mem.peek a := by
  obtain ⟨rom, -, ram⟩ := @segments_written s
  have hrom := h.1.1.trans rom
  by_cases hlow : a < s.rom.start.toNat
  · rw [h.2, peek_append, size_zeros, hrom, if_pos hlow, peek_zeros, below a hlow]
  have hi : a - s.rom.start.toNat < extent (written s) s.mem.order := by
    rw [extent, rom, ram]
    omega
  have := h.peek_behind hi
  rwa [hrom, peek_written _ (by omega), show s.rom.start.toNat + (a - s.rom.start.toNat) = a by
    omega] at this

lemma Given.written_eq (h : Given bytes order s) (sound : Sound bytes order)
    (size : bytes.size = 32 + (finish s.ram - s.rom.start.toNat)) : written s = bytes := by
  have horder : s.mem.order = order := by
    rw [h.2]
  have hrecord : record s = (range 8).map (word bytes order) := by
    rw [record, h.1.1, h.1.2.1, h.1.2.2, ← sound.magic, ← sound.version]
    rfl
  have : extent bytes order = finish s.ram - s.rom.start.toNat := by
    rw [extent, h.1.1, h.1.2.2]
  have hsize : (written s).size = bytes.size :=
    (size_written (h.size sound).ge).trans size.symm
  refine congrArg Memory.bytes (@ext_peek ⟨bytes, order⟩ ⟨written s, order⟩ rfl hsize fun i => ?_)
  by_cases hi : i < 32
  · have hw :
        peekWord ⟨written s, order⟩ (4 * (i / 4)) = peekWord ⟨bytes, order⟩ (4 * (i / 4)) := by
      have := @word_written s (i / 4) (by omega)
      rw [horder, hrecord, getD_eq_getElem?_getD, getElem?_map,
        getElem?_range (by omega)] at this
      exact this
    have := peek_of_peekWord (n := ⟨written s, order⟩) (m := ⟨bytes, order⟩) rfl hw
      (Nat.mod_lt i (by decide))
    rwa [Nat.div_add_mod] at this
  by_cases hb : bytes.size ≤ i
  · rw [peek_of_size_le (m := ⟨bytes, order⟩) hb,
      peek_of_size_le (m := ⟨written s, order⟩) (hsize.trans_le hb)]
  · rw [show i = 32 + (i - 32) by omega, peek_written _ (by omega), h.peek_behind (by omega)]

/-- Writing and reading images undo each other. A store whose layout is accepted and that holds
nothing below ROM comes back in its byte order, with its segments and the bytes of its address
space, which is all of memory if memory ends with RAM. An image that is accepted and has nothing
behind its last segment is what the store it gives is written to. -/
theorem images_read_back (settings : Settings) (log : Log) :
    (∀ s : Store, checkLayout s.rom s.eeprom s.ram = .ok () → finish s.ram ≤ s.mem.size →
      (∀ a, a < s.rom.start.toNat → s.mem.peek a = 0) →
      ∃ bytes t, write s = .ok bytes ∧ read bytes settings log = .ok t ∧
        t.mem.order = s.mem.order ∧ (t.rom = s.rom ∧ t.eeprom = s.eeprom ∧ t.ram = s.ram) ∧
        (t.mem.size = finish s.ram ∧ ∀ a, a < finish s.ram → t.mem.peek a = s.mem.peek a) ∧
        (finish s.ram = s.mem.size → t.mem = s.mem)) ∧
    ∀ bytes t, read bytes settings log = .ok t →
      bytes.size = 32 + (finish t.ram - t.rom.start.toNat) → write t = .ok bytes := by
  refine ⟨fun s layout inside below => ?_, fun bytes t hread size => ?_⟩
  · have placed := placed_of_layout layout
    have sound := written_sound placed inside
    have hread := read_answers (written s) settings log
    cases hr : read (written s) settings log with
    | error e =>
      rw [hr] at hread
      refine absurd hread ?_
      cases e with
      | broken =>
        rintro ⟨order, hmagic, hover⟩
        rw [order_unique hmagic sound.magic] at hover
        exact sound.placed.not_overflows hover
      | image | io => exact fun h => h _ sound
      | endless | fatal | settings => exact id
    | ok t =>
      rw [hr] at hread
      obtain ⟨order, sound', given⟩ := hread
      obtain rfl := order_unique sound.magic sound'.magic
      obtain ⟨rom, eeprom, ram⟩ := @segments_written s
      have horder : t.mem.order = s.mem.order := by rw [given.2]
      have hram : t.ram = s.ram := given.1.2.2.trans ram
      have size : t.mem.size = finish s.ram := (given.size sound).trans (by rw [hram])
      refine ⟨written s, t, write_eq placed inside, hr, horder,
        ⟨given.1.1.trans rom, given.1.2.1.trans eeprom, hram⟩,
        ⟨size, fun a ha => given.peek_eq below ha⟩, ?_⟩
      refine fun hs => ext_peek horder (size.trans hs) fun a => ?_
      by_cases ha : a < finish s.ram
      · exact given.peek_eq below ha
      · rw [peek_of_size_le (m := t.mem) (by omega), peek_of_size_le (m := s.mem) (by omega)]
  · have := read_answers bytes settings log
    rw [hread] at this
    obtain ⟨order, sound, given⟩ := this
    have hsize := given.size sound
    have placed := sound.placed
    rw [← given.1.1, ← given.1.2.1, ← given.1.2.2] at placed
    rw [write_eq placed hsize.ge, given.written_eq sound size]

def sampleStore : Store :=
  .ofMemory ((blank 196 .big).pokeWord 100 0x01020304) ⟨4, 64⟩ ⟨68, 64⟩ ⟨132, 64⟩ {} {}

theorem images_read_back_sample :
    checkLayout sampleStore.rom sampleStore.eeprom sampleStore.ram = .ok () ∧
    ∃ bytes t, write sampleStore = .ok bytes ∧ read bytes {} {} = .ok t ∧ t.mem = sampleStore.mem ∧
      bytes.size = 224 ∧ write t = .ok bytes := by
  have layout : checkLayout sampleStore.rom sampleStore.eeprom sampleStore.ram = .ok () := by decide
  have size : sampleStore.mem.size = 196 :=
    (size_pokeWord (m := blank 196 .big) _).trans (size_zeros 196)
  have below : ∀ a, a < sampleStore.rom.start.toNat → sampleStore.mem.peek a = 0 := by
    intro a (ha : a < 4)
    exact (peek_pokeWord_ne (m := blank 196 .big) _ (.inl (by omega))).trans (peek_zeros 196 a)
  obtain ⟨there, back⟩ := images_read_back {} {}
  obtain ⟨bytes, t, hw, hr, -, ⟨rom, -, ram⟩, -, hm⟩ := there sampleStore layout size.ge below
  have hb : bytes.size = 224 := by
    rw [write_eq (placed_of_layout layout) size.ge] at hw
    rw [← Except.ok.inj hw]
    exact size_written size.ge
  refine ⟨layout, bytes, t, hw, hr, hm size.symm, hb, back bytes t hr ?_⟩
  rw [rom, ram]
  exact hb

/-- Every image is accepted, with segments that are not empty, on whole words, in order, apart and
below 16 MiB, or refused, unless the record gives a segment an end that does not fit a word. -/
theorem image_accepted_or_refused (bytes : ByteArray) (settings : Settings) (log : Log) :
    (∃ s, read bytes settings log = .ok s ∧ Placed s.rom s.eeprom s.ram) ∨
    (∃ cause, read bytes settings log = .error (.image cause)) ∨
    read bytes settings log = .error .io ∨
    (read bytes settings log = .error .broken ∧ ∃ order i, word bytes order 0 = magic ∧
      (i = 2 ∨ i = 4 ∨ i = 6) ∧
        4294967296 ≤ (word bytes order i).toNat + (word bytes order (i + 1)).toNat) := by
  have h := read_answers bytes settings log
  cases hr : read bytes settings log with
  | ok s =>
    rw [hr] at h
    obtain ⟨order, sound, ⟨rom, eeprom, ram⟩, -⟩ := h
    refine .inl ⟨s, rfl, ?_⟩
    rw [rom, eeprom, ram]
    exact sound.placed
  | error e =>
    rw [hr] at h
    cases e with
    | image cause => exact .inr (.inl ⟨cause, rfl⟩)
    | io => exact .inr (.inr (.inl rfl))
    | broken =>
      obtain ⟨order, hmagic, r, hr, hover⟩ := h
      refine .inr (.inr (.inr ⟨rfl, order, ?_⟩))
      simp only [List.mem_cons, List.not_mem_nil, or_false] at hr
      rcases hr with rfl | rfl | rfl
      · exact ⟨2, hmagic, .inl rfl, hover⟩
      · exact ⟨4, hmagic, .inr (.inl rfl), hover⟩
      · exact ⟨6, hmagic, .inr (.inr rfl), hover⟩
    | endless | fatal | settings => exact h.elim

end Image

end DeviceVm
