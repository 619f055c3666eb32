import DeviceVm.Proofs.Tracing

/-!
A small store, to which the laws of the collectors are applied. Its ROM holds four classes: arrays
of references, arrays of integers, stack chunks and associations. There is a method as well, and a
frame of it. The words of RAM are free.
-/

namespace DeviceVm

open Memory UInt32 Word List Header Store Read Query DeviceVm.Class

namespace Memory

def wordBytes (w : UInt32) : List UInt8 :=
  [w.toUInt8, (w >>> 8).toUInt8, (w >>> 16).toUInt8, (w >>> 24).toUInt8]

def ofWords (ws : List UInt32) : Memory :=
  { bytes := ⟨(ws.flatMap wordBytes).toArray⟩, order := .little }

variable {ws : List UInt32}

lemma length_wordBytes : (ws.flatMap wordBytes).length = 4 * ws.length := by
  induction ws with
  | nil => rfl
  | cons w ws ih =>
    rw [flatMap_cons, length_append, ih, length_cons]
    have : (wordBytes w).length = 4 := rfl
    omega

lemma size_ofWords : (ofWords ws).size = 4 * ws.length := by
  exact length_wordBytes

lemma peek_ofWords (k i : Nat) (hi : i < 4) :
    (ofWords ws).peek (4 * k + i) = (wordBytes (ws.getD k 0)).getD i 0 := by
  have hp : (ofWords ws).peek (4 * k + i) = (ws.flatMap wordBytes).getD (4 * k + i) 0 := by
    rw [peek_eq, getD_eq_getElem?_getD]
    exact congrArg (Option.getD · 0) getElem?_toArray
  rw [hp]
  clear hp
  induction ws generalizing k with
  | nil =>
    have : ∀ i < 4, (wordBytes 0).getD i 0 = 0 := by decide
    simpa using (this i hi).symm
  | cons w ws ih =>
    have h4 : (wordBytes w).length = 4 := rfl
    rw [flatMap_cons]
    cases k with
    | zero =>
      rw [getD_eq_getElem?_getD, getElem?_append_left (by omega)]
      simp
    | succ k =>
      rw [getD_eq_getElem?_getD, getElem?_append_right (by omega), h4,
        show 4 * (k + 1) + i - 4 = 4 * k + i by omega, ← getD_eq_getElem?_getD, ih k]
      rfl

lemma peekWord_ofWords (k : Nat) : (ofWords ws).peekWord (4 * k) = ws.getD k 0 := by
  have h0 := @peek_ofWords ws k 0 (by omega)
  have h1 := @peek_ofWords ws k 1 (by omega)
  have h2 := @peek_ofWords ws k 2 (by omega)
  have h3 := @peek_ofWords ws k 3 (by omega)
  rw [Nat.add_zero] at h0
  rw [peekWord, h0, h1, h2, h3]
  exact word_of_bytes (ws.getD k 0)

lemma pokeWord_ofWords {k : Nat} (v : UInt32) (hk : k < ws.length) :
    (ofWords ws).pokeWord (4 * k) v = ofWords (ws.set k v) := by
  have inside : 4 * k + 4 ≤ (ofWords ws).size := by
    rw [size_ofWords]
    omega
  have words : ∀ j, ((ofWords ws).pokeWord (4 * k) v).peekWord (4 * j) =
      (ofWords (ws.set k v)).peekWord (4 * j) := by
    intro j
    rw [peekWord_pokeWord v (by omega) (by omega) inside, peekWord_ofWords, peekWord_ofWords,
      getD_eq_getElem?_getD, getD_eq_getElem?_getD]
    by_cases h : j = k
    · rw [h, if_pos rfl, getElem?_set_self hk, Option.getD_some]
    · rw [if_neg (by omega), getElem?_set_ne (Ne.symm h)]
  have order : ((ofWords ws).pokeWord (4 * k) v).order = (ofWords (ws.set k v)).order :=
    order_pokeWord v
  refine ext_peek order ?_ fun b => ?_
  · rw [size_pokeWord, size_ofWords, size_ofWords, length_set]
  · have h4 : b % 4 < 4 := Nat.mod_lt b (by decide)
    have := peek_of_peekWord order (words (b / 4)) h4
    rwa [Nat.div_add_mod] at this

end Memory

lemma Store.classNumbered_eq {s : Store} {number table suite classes k : UInt32} (h0 : number ≠ 0)
    (ht : suiteTable s = .ok table) (ht0 : table ≠ 0)
    (hs : word table (number >>> 8).toInt32 s.mem = .ok suite) (hs0 : suite ≠ 0)
    (hc : Memory.word suite 0 s.mem = .ok classes)
    (hk : Memory.word classes (number &&& 0xff).toInt32 s.mem = .ok k) (hk0 : k ≠ 0)
    (hn : Class.number k s.mem = .ok number) : classNumbered number s = .ok k := by
  have ok : ∀ b, b = true → require b = .ok () := fun b hb => by rw [hb]; rfl
  rw [classNumbered, Query.lift_ok (ok _ (by simpa using h0)), Query.bind_ok ht,
    Query.lift_ok (ok _ (by simpa using ht0)), Query.bind_ok hs,
    Query.lift_ok (ok _ (by simpa using hs0)), Query.bind_ok hc,
    Query.bind_ok hk, Query.lift_ok (ok _ (by simpa using hk0)),
    Query.bind_ok hn, Query.lift_ok (ok _ (by simp))]
  rfl

namespace Sample

/-- Words from one position on, and zero up to the next. -/
def table : List (Nat × List UInt32) → (k : Nat) → (length : Nat) → List UInt32
  | [], k, n => replicate (n - k) 0
  | (j, ws) :: rest, k, n => replicate (j - k) 0 ++ ws ++ table rest (j + ws.length) n

/-- ROM: the roots, the table of the only suite, the suite, its classes, and what these need. -/
def rom : List UInt32 := table [
  (10, [64]), (15, [0x010000c0, 72, 0, 80, 0x1b0000c0]),
  (20 + 17, [256]), (20 + 21, [192]), (20 + 23, [320]), (20 + 26, [384]),
  (48, [21, 0, 0, 9]), (64, [17, 0, 0, 5]), (80, [23, 0, 0, 5]), (96, [26, 0, 0, 0, 5]),
  (108, [452]), (112, [0x01000100, 7, 6, 0x30620101])] 0 116

def arrays : UInt32 := 192
def integers : UInt32 := 256
def chunks : UInt32 := 320
def associations : UInt32 := 384

/-- A store with the given words of RAM, which starts at 464. -/
def store (kind : CollectorKind) (ram : List UInt32) : Store where
  mem := .ofWords (rom ++ ram)
  rom := { start := 0, size := 464 }
  eeprom := {}
  ram := { start := 464, size := ofNat (4 * ram.length) }
  kind
  eager := false
  exactChunks := false
  trace := ⟨0⟩

def fixed (b : Nat) : Prop := b < 464

variable {ram : List UInt32} {m n : Memory} {k : Nat} {t : Store}

lemma length_rom : rom.length = 116 := by decide

lemma getD_rom (hk : k < 116) : (rom ++ ram).getD k 0 = rom.getD k 0 := by
  rw [getD_eq_getElem?_getD, getElem?_append_left (by exact hk),
    ← getD_eq_getElem?_getD]

lemma getD_ram (k : Nat) : (rom ++ ram).getD (116 + k) 0 = ram.getD k 0 := by
  rw [getD_eq_getElem?_getD, getElem?_append_right (by rw [length_rom]; omega), length_rom,
    Nat.add_sub_cancel_left, ← getD_eq_getElem?_getD]

lemma peekWord_rom (h : Agrees fixed (.ofWords (rom ++ ram)) n) (hk : k < 116) :
    n.peekWord (4 * k) = rom.getD k 0 := by
  rw [h.peekWord (4 * k) (fun i hi => by show _ < 464; omega), peekWord_ofWords,
    getD_rom hk]

lemma peekWord_ram (k : Nat) :
    (ofWords (rom ++ ram)).peekWord (464 + 4 * k) = ram.getD k 0 := by
  rw [show 464 + 4 * k = 4 * (116 + k) by omega, peekWord_ofWords, getD_ram]

lemma pokeWord_ram {k : Nat} (v : UInt32) (hk : k < ram.length) :
    (ofWords (rom ++ ram)).pokeWord (464 + 4 * k) v = ofWords (rom ++ ram.set k v) := by
  have hl := length_rom
  rw [show 464 + 4 * k = 4 * (116 + k) by omega,
    pokeWord_ofWords v (by rw [length_append]; omega), set_append_right _ _ (by omega), hl,
    Nat.add_sub_cancel_left]

lemma size_words : (ofWords (rom ++ ram)).size = 464 + 4 * ram.length := by
  rw [size_ofWords, length_append, length_rom]
  omega

section

variable (h : Agrees fixed (.ofWords (rom ++ ram)) n)
include h

lemma size_le : 464 ≤ n.size := by
  rw [h.size, size_words]
  omega

lemma word_rom {base : UInt32} {index : Int32} (hp : Points base index (4 * k) ∧ k < 116) :
    word base index n = .ok (rom.getD k 0) := by
  have := size_le h
  rw [word_eq hp.1 (by omega), peekWord_rom h hp.2]

lemma holds_rom {oop low count : UInt32} (hk : oop.toNat = 4 * k ∧ 0 < k ∧ k ≤ 116)
    (hw : (rom.getD (k - 1) 0).toNat = count.toNat * 16777216 + low.toNat ∧ count.toNat < 255 ∧
      low.toNat < 16777216) :
    Holds n oop low count := by
  have := size_le h
  refine ⟨by omega, ?_, by omega, hw.2.2, by omega, ?_, fun h => absurd h (by omega)⟩
  · rw [Header.bytes, if_pos (by omega)]
    omega
  · rw [show oop.toNat - 4 = 4 * (k - 1) by omega, peekWord_rom h (by omega), hw.1]
    omega

end

lemma suiteTable_eq (he : t.eeprom.start = 0)
    (h : Agrees fixed (.ofWords (rom ++ ram)) t.mem) : suiteTable t = .ok 64 := by
  obtain ⟨i, hi, hx⟩ := @rootWord_eq Root.suites 2 rfl (by omega)
  have hr : root .eeprom Root.suites t = .ok 64 := by
    rw [Store.root, Query.lift_ok hi]
    refine word_rom h (k := 10) ⟨.lit 10 hx ⟨by omega, ?_, by omega⟩, by omega⟩
    rw [region, he]
    rfl
  rw [suiteTable, bind_ok hr]
  rfl

lemma classNumbered_chunks (he : t.eeprom.start = 0)
    (h : Memory.Agrees fixed (.ofWords (rom ++ ram)) t.mem) :
    classNumbered ClassNumber.localArray t = .ok chunks := by
  have suites := suiteTable_eq he h
  refine @Store.classNumbered_eq t _ 64 72 80 _ (by decide) suites (by decide) ?_ (by decide) ?_ ?_
    (by decide) ?_
  · exact word_rom h (k := 16) (by decide)
  · exact word_rom h (k := 18) (by decide)
  · exact word_rom h (k := 43) (by decide)
  · exact word_rom h (k := 80) (by decide)

/-! ### Objects -/

def array (oop count : UInt32) : Cell where
  oop
  kind := arrays
  count
  body := 4 * count.toNat
  shape := .references count
  slots := count.toNat
  refs _ := true
  frames := []

def integerArray (oop count : UInt32) : Cell where
  oop
  kind := integers
  count
  body := 4 * count.toNat
  shape := .primitive
  slots := 0
  refs _ := false
  frames := []

def chunk (oop count : UInt32) (frames : List Activation) : Cell where
  oop
  kind := chunks
  count
  body := 4 * count.toNat
  shape := .stackChunk
  slots := 0
  refs _ := false
  frames

def association (oop : UInt32) : Cell where
  oop
  kind := associations
  count := 0
  body := 20
  shape := .record 452 5
  slots := 5
  refs i := i < 3
  frames := []

section

variable {oop low count : UInt32}

lemma bodySizeAs_words {k e : UInt32} (he : elementNumber k n = .ok e) (h0 : e ≠ 0)
    (h4 : elementSize e = 4) (hh : Header.Holds n oop low count) :
    ∃ r, Header.bodySizeAs oop k n = .ok r ∧ r.toNat = 4 * count.toNat := by
  have := hh.count_lt
  have ha : Class.isArray k n = .ok true := by
    rw [Class.isArray, Read.bind_ok he]
    show Except.ok (e != 0) = _
    rw [bne_iff_ne.2 h0]
  have hs : arrayElementSize k n = .ok 4 := by
    rw [arrayElementSize, bind_ok he]
    exact congrArg _ h4
  have : (count * 4).toNat = count.toNat * 4 := toNat_times (by
    show count.toNat * 4 < 4294967296
    omega)
  rw [Header.bodySizeAs, Read.bind_ok ha, if_pos rfl, Read.bind_ok hh.elementCount, Read.bind_ok hs,
    Read.lift_ok (times_eq (by show count.toNat * 4 < 4294967296; omega))]
  obtain ⟨r, hr, hn⟩ := roundUp4_eq (n := count * 4) (by omega)
  exact ⟨r, hr, by omega⟩

lemma isArray_eq {k e : UInt32} (he : elementNumber k n = .ok e) :
    Class.isArray k n = .ok (e != 0) := by
  rw [Class.isArray, Read.bind_ok he]
  rfl

lemma shape_eq {k e number : UInt32} (he : elementNumber k n = .ok e) (h0 : e ≠ 0)
    (hk : Class.number k n = .ok number) (hg : number ≠ ClassNumber.globalArray)
    (hh : Header.Holds n oop low count) :
    Shape.of oop k n = .ok (if number = ClassNumber.localArray then .stackChunk
      else if e > ClassNumber.lastPrimitive then .references count else .primitive) := by
  have hr : isReferenceArray k n =
      .ok (decide (e > ClassNumber.lastPrimitive) && number != ClassNumber.localArray &&
        number != ClassNumber.globalArray) := by
    rw [isReferenceArray, bind_ok hk, bind_ok he]
    rfl
  rw [Shape.of, Read.bind_ok (isArray_eq he), bne_iff_ne.2 h0]
  rw [if_neg (show ¬ (!true) = true from Bool.false_ne_true), bind_ok hk]
  by_cases hl : number = ClassNumber.localArray
  · rw [if_pos (by simpa using hl), if_pos hl]
    rfl
  · have hl' : (number != ClassNumber.localArray) = true := by simpa using hl
    rw [if_neg (by simpa using hl), if_neg hl, if_neg (by simpa using hg), bind_ok hr, hl',
      bne_iff_ne.2 hg, Bool.and_true, Bool.and_true]
    by_cases hp : e > ClassNumber.lastPrimitive
    · rw [if_pos (by simpa using hp), if_pos hp, Read.bind_ok hh.elementCount]
      rfl
    · rw [if_neg (by simpa using hp), if_neg hp]
      rfl

lemma array_typed {k e number : UInt32} {c : Cell}
    (he : ∀ n, Memory.Agrees fixed m n → elementNumber k n = .ok e) (h0 : e ≠ 0)
    (h4 : elementSize e = 4)
    (hk : ∀ n, Memory.Agrees fixed m n → Class.number k n = .ok number)
    (hg : number ≠ ClassNumber.globalArray) (hk0 : k ≠ 0) (hk4 : k.toNat % 4 = 0)
    (kind : c.kind = k) (body : c.body = 4 * c.count.toNat)
    (shape : c.shape = if number = ClassNumber.localArray then .stackChunk
      else if e > ClassNumber.lastPrimitive then .references c.count else .primitive)
    (slots_le : c.slots ≤ c.count.toNat) (slots : ∀ n, c.SlotsRead n) : c.Typed fixed m where
  kind_ne := kind ▸ hk0
  kind_aligned := kind ▸ hk4
  body_aligned := by omega
  slots_le := by omega
  size n oop low hn hh := by
    rw [kind, body]
    exact bodySizeAs_words (he n hn) h0 h4 hh
  shape n oop low hn hh _ := by
    rw [kind, shape]
    exact shape_eq (he n hn) h0 (hk n hn) hg hh
  slots n _ := slots n

@[simp]
lemma typed_array (oop count : UInt32) :
    (array oop count).Typed fixed (.ofWords (rom ++ ram)) :=
  @array_typed _ arrays 9 21 _
    (fun _ h => word_rom h (k := 51) (by decide)) (by decide)
    (by decide)
    (fun _ h => word_rom h (k := 48) (by decide)) (by decide)
    (by decide) (by decide) rfl rfl rfl (Nat.le_refl _) fun _ => ⟨rfl, fun _ _ => rfl⟩

@[simp]
lemma typed_integerArray (oop count : UInt32) :
    (integerArray oop count).Typed fixed (.ofWords (rom ++ ram)) :=
  @array_typed _ integers 5 17 _
    (fun _ h => word_rom h (k := 67) (by decide)) (by decide)
    (by decide)
    (fun _ h => word_rom h (k := 64) (by decide)) (by decide)
    (by decide) (by decide) rfl rfl rfl (Nat.zero_le _) fun _ => rfl

@[simp]
lemma typed_chunk (oop count : UInt32) (frames : List Activation) :
    (chunk oop count frames).Typed fixed (.ofWords (rom ++ ram)) :=
  @array_typed _ chunks 5 23 _
    (fun _ h => word_rom h (k := 83) (by decide)) (by decide)
    (by decide)
    (fun _ h => word_rom h (k := 80) (by decide)) (by decide)
    (by decide) (by decide) rfl rfl rfl (Nat.zero_le _) fun _ => rfl

lemma byte_rom (h : Agrees fixed (.ofWords (rom ++ ram)) n) {base : UInt32}
    {index : Int32} {i : Nat} (hp : (base + index.toUInt32).toNat = 4 * k + i) (hk : k < 116)
    (hi : i < 4) :
    byte base index n = .ok ((wordBytes (rom.getD k 0)).getD i 0) := by
  have := size_le h
  have hf : fixed (4 * k + i) := by
    show _ < 464
    omega
  rw [byte, readAt, readable, hp, h.peek _ hf,
    peek_ofWords k i hi, getD_rom hk, if_pos (by simpa using by omega)]

@[simp]
lemma typed_association (oop : UInt32) :
    (association oop).Typed fixed (.ofWords (rom ++ ram)) where
  kind_ne := show associations ≠ 0 by decide
  kind_aligned := show associations.toNat % 4 = 0 by decide
  body_aligned := show 20 % 4 = 0 by omega
  slots_le := show 4 * 5 ≤ 20 by omega
  size n oop low h _ := by
    have he : elementNumber associations n = .ok 0 :=
      word_rom h (k := 99) (by decide)
    have hw : instanceWords associations n = .ok 5 :=
      word_rom h (k := 100) (by decide)
    refine ⟨20, ?_, rfl⟩
    show bodySizeAs oop associations n = _
    rw [Header.bodySizeAs, Read.bind_ok (isArray_eq he), if_neg (by decide), Read.bind_ok hw]
    rfl
  shape n oop low h _ _ := by
    have he : elementNumber associations n = .ok 0 :=
      word_rom h (k := 99) (by decide)
    have hw : instanceWords associations n = .ok 5 :=
      word_rom h (k := 100) (by decide)
    have hm : referenceMap associations n = .ok 452 :=
      word_rom h (k := 108) (by decide)
    have hc : classWord 452 n = .ok 0x01000100 :=
      word_rom h (k := 112) (by decide)
    have hr : resolve 452 n = .ok 452 := by
      rw [resolve, if_neg (by decide), isForwarded, bind_assoc, bind_ok hc]
      rfl
    show Shape.of oop associations n = _
    rw [Shape.of, Read.bind_ok (isArray_eq he), if_pos (by decide), Read.bind_ok hm,
      bind_ok hr, bind_ok hw]
    rfl
  slots n h := by
    refine ⟨rfl, fun i hi => ?_⟩
    have hcases : i = 0 ∨ i = 1 ∨ i = 2 ∨ i = 3 ∨ i = 4 := by
      have : i.toNat < 5 := UInt32.lt_iff_toNat_lt.1 hi
      simp only [← UInt32.toNat_inj]
      show i.toNat = 0 ∨ i.toNat = 1 ∨ i.toNat = 2 ∨ i.toNat = 3 ∨ i.toNat = 4
      omega
    have hb : byte 452 (0 : UInt32).toInt32 n = .ok 7 :=
      byte_rom h (k := 113) (i := 0) (by decide) (by omega) (by omega)
    rcases hcases with rfl | rfl | rfl | rfl | rfl
    all_goals exact (bind_ok hb).trans rfl

lemma words_ram {c : Cell} (hl : 464 ≤ c.oop.toNat) (h4 : c.oop.toNat % 4 = 0) {x : Nat}
    (hx : x % 4 = 0) :
    c.words (.ofWords (rom ++ ram)) x = ram.getD ((c.oop.toNat - 464 + x) / 4) 0 := by
  rw [Cell.words, show c.oop.toNat + x = 464 + 4 * ((c.oop.toNat - 464 + x) / 4) by omega,
    peekWord_ram]

/-- The words of RAM have the header of a short object. -/
def Laid (ram : List UInt32) (c : Cell) : Prop :=
  (468 ≤ c.oop.toNat ∧ c.oop.toNat % 4 = 0) ∧ c.oop.toNat ≤ 464 + 4 * ram.length ∧
  c.count.toNat < 255 ∧ c.kind.toNat < 16777216 ∧
  (ram.getD ((c.oop.toNat - 468) / 4) 0).toNat = c.count.toNat * 16777216 + c.kind.toNat

instance (c : Cell) : Decidable (Laid ram c) := inferInstanceAs (Decidable (_ ∧ _))

lemma Laid.holds {c : Cell} (h : Laid ram c) :
    Holds (.ofWords (rom ++ ram)) c.oop c.kind c.count := by
  obtain ⟨hl, hs, hc, hk, hw⟩ := h
  have he : c.oop.toNat - 4 = 464 + 4 * ((c.oop.toNat - 468) / 4) := by omega
  refine ⟨hl.2, ?_, ?_, hk, by omega, ?_, fun h => absurd h (by omega)⟩
  · rw [Header.bytes, if_pos (by omega)]
    omega
  · rw [size_words]
    omega
  · rw [he, peekWord_ram, hw]
    omega

/-- The words of RAM have an object that is no stack chunk, with references among `values`. -/
def Plain (ram values : List UInt32) (c : Cell) : Prop :=
  Laid ram c ∧ c.stop ≤ 464 + 4 * ram.length ∧
  (match c.shape with | .stackChunk => false | .classState _ => false | _ => true) = true ∧
  c.frames.length = 0 ∧
  ∀ i < c.slots, c.refs i = true → ram.getD ((c.oop.toNat - 464 + 4 * i) / 4) 0 ∈ values

instance (values : List UInt32) (c : Cell) : Decidable (Plain ram values c) :=
  inferInstanceAs (Decidable (_ ∧ _))

lemma readable {kept : Nat → Prop} {legal : UInt32 → Prop} {c : Cell} {values : List UInt32}
    (hm : m = .ofWords (rom ++ ram)) (plain : Plain ram values c) (typed : c.Typed fixed m)
    (hf : ∀ b < 464, kept b)
    (kept_header : ∀ b, c.start ≤ b → b < c.oop.toNat → kept b)
    (kept_body : c.shape ≠ .primitive → ∀ b, c.oop.toNat ≤ b → b < c.stop → kept b)
    (refs : ∀ v ∈ values, legal v) : c.Readable kept m legal := by
  obtain ⟨laid, high, shape, frames, values⟩ := plain
  have hplain : ∀ k, c.shape ≠ .stackChunk ∧ c.shape ≠ .classState k := by
    refine fun k => ⟨fun hs => ?_, fun hs => ?_⟩ <;> simp [hs] at shape
  have hc : ¬ c.isChunk := (hplain 0).1
  have low := laid.1
  constructor
  case typed => exact typed.mono hf
  case header => exact hm ▸ laid.holds
  case kept_header => exact kept_header
  case inside =>
    rw [hm, size_words]
    omega
  case kept_body => exact kept_body
  case legal =>
    intro x hx
    rw [Cell.Slot, if_neg hc] at hx
    obtain ⟨i, hi, hr, rfl⟩ := hx
    rw [hm, words_ram (by omega) low.2 (by omega)]
    exact refs _ (values i hi hr)
  case room => exact fun h => absurd h hc
  case frames => exact fun h => absurd h hc
  case idle => exact fun h => absurd h hc
  case methods =>
    rw [length_eq_zero_iff.1 frames]
    exact fun f hf => absurd hf not_mem_nil
  case owner => exact fun k h => absurd h (hplain k).2

/-- A frame of the method in ROM, which has one local, a reference, and room for two operands. The
first instruction has entered it, the next is the second. -/
def frame : Activation := ⟨40, 456, 6, true, 1, fun i => i == 0⟩

lemma reads_frame (h : Agrees fixed (.ofWords (rom ++ ram)) n) : frame.Reads n := by
  have header : byte 456 0 n = .ok 6 :=
    byte_rom h (k := 114) (i := 0) (by decide) (by omega) (by omega)
  have locals : byte 456 4 n = .ok 1 :=
    byte_rom h (k := 115) (i := 0) (by decide) (by omega) (by omega)
  have map : byte (456 + Method.mapOffset) (0 : UInt32).toInt32 n = .ok 1 :=
    byte_rom h (k := 115) (i := 1) (by decide) (by omega) (by omega)
  refine ⟨by decide, Read.bind_ok header, Read.bind_ok locals, fun i hi => ?_⟩
  have h0 : i.toNat = 0 := Nat.lt_one_iff.1 (lt_iff_toNat_lt.1 hi)
  obtain rfl : i = 0 := UInt32.toNat_inj.1 h0
  exact Read.bind_ok map

lemma frames_of_words {w : Nat → UInt32} {body : Nat} (room : 44 ≤ body) (method : w 20 = 456)
    (ip : w 24 = 463) (offset : w 36 = 28) : Frames w body 40 40 [frame] := by
  have stands : frame.Stands w body := by
    refine ⟨rfl, Nat.le_refl _, room, method, ?_⟩
    show true = (w 24 - 456 != 6)
    rw [ip]
    rfl
  have above : 72 = frame.pos + (w (frame.pos - 4)).toNat + 4 := by
    rw [show w (frame.pos - 4) = 28 from offset]
    rfl
  exact .entered stands rfl (Nat.le_refl _) above (fun h => absurd h (by decide)) (by decide)
    (.nil (by decide))

end

end Sample

end DeviceVm
