import DeviceVm.Proofs.Sample
import DeviceVm.Proofs.Stack.Running

/-!
Scenes over the sample store, to which the laws of running contexts are applied. The words of RAM
from some address on are fixed, as those of ROM are: classes, methods and other objects that a
context reads.
-/

namespace DeviceVm

open Sample Method Opcode Memory UInt32 Read Stack Word

variable {ram : List UInt32} {low : Nat} {n : Memory} {k i : Nat} {addr mp : UInt32}

namespace Sample

def reserved (low b : Nat) : Prop := b < 464 ∨ low ≤ b

/-- The bytes from one address to another are reserved ones of a small RAM. -/
def Reserves (ram : List UInt32) (low start stop : Nat) : Prop :=
  464 ≤ low ∧ low ≤ start ∧ stop ≤ 464 + 4 * ram.length ∧ ram.length < 1000000

instance (start stop : Nat) : Decidable (Reserves ram low start stop) :=
  inferInstanceAs (Decidable (_ ∧ _))

def byteOf (ram : List UInt32) (a : Nat) : UInt8 :=
  (wordBytes (ram.getD ((a - 464) / 4) 0)).getD ((a - 464) % 4) 0

def halfOf (ram : List UInt32) (a : Nat) : UInt16 :=
  ByteOrder.big.half (byteOf ram a) (byteOf ram (a + 1))

def rowOf (ram : List UInt32) (a : Nat) : Handler :=
  ⟨(halfOf ram a).toUInt32, (halfOf ram (a + 2)).toUInt32, (halfOf ram (a + 4)).toUInt32,
    (halfOf ram (a + 6)).toUInt32⟩

def rowsOf (ram : List UInt32) : (a : Nat) → (count : Nat) → List Handler
  | _, 0 => []
  | a, count + 1 => rowOf ram a :: rowsOf ram (a + 8) count

section

variable (agrees : Agrees (reserved low) (.ofWords (rom ++ ram)) n)
include agrees

lemma size_of_agrees : n.size = 464 + 4 * ram.length := by
  rw [agrees.size, size_words]

lemma word_of_agrees {base : UInt32} {index : Int32}
    (reads : Points base index (464 + 4 * k) ∧ Reserves ram low (464 + 4 * k) (464 + 4 * k + 4)) :
    word base index n = .ok (ram.getD k 0) := by
  obtain ⟨hp, -, hl, hh, -⟩ := reads
  have := size_of_agrees agrees
  rw [word_eq hp (by omega), agrees.peekWord _ fun j _ => .inr (by omega),
    peekWord_ram]

lemma classOf_of_agrees {oop kind : UInt32} (address : oop.toNat = 464 + 4 * (k + 1))
    (inside : Reserves ram low (464 + 4 * k) (464 + 4 * k + 4)) (header : ram.getD k 0 = kind)
    (aligned : kind.toNat % 4 = 0) (range : kind.toNat < 16777216) (some_class : kind ≠ 0) :
    Header.classOf oop n = .ok kind := by
  obtain ⟨h4, hl, hh, -⟩ := inside
  have := size_of_agrees agrees
  have := UInt32.toNat_zero
  have holds : Header.Holds n oop kind 0 := by
    refine ⟨by omega, ?_, by omega, range, by omega, ?_, fun h => absurd h (by omega)⟩
    · rw [Header.bytes, if_pos (by omega)]
      omega
    · rw [show oop.toNat - 4 = 464 + 4 * k by omega, agrees.peekWord _ fun j _ => .inr (by omega),
        peekWord_ram, header]
      omega
  exact holds.classOf aligned some_class

lemma peek_of_agrees {a stop : Nat} (inside : Reserves ram low a stop) :
    n.peek a = byteOf ram a := by
  obtain ⟨h4, hl, -, -⟩ := inside
  have ha : a = 4 * (116 + (a - 464) / 4) + (a - 464) % 4 := by omega
  have hp := @peek_ofWords (rom ++ ram) (116 + (a - 464) / 4) ((a - 464) % 4)
    (Nat.mod_lt _ (by decide))
  rw [← ha, getD_ram] at hp
  exact (agrees.peek _ (.inr hl)).trans hp

lemma code8_of_agrees (inside : Reserves ram low addr.toNat (addr.toNat + 1)) :
    code8 addr n = .ok (byteOf ram addr.toNat) := by
  have := size_of_agrees agrees
  have := inside.2.2.1
  rw [Memory.code8, Memory.readAt, Memory.readable, if_pos (by simpa using by omega),
    peek_of_agrees agrees inside]

lemma code16_of_agrees (inside : Reserves ram low addr.toNat (addr.toNat + 2)) :
    code16 addr n = .ok (halfOf ram addr.toNat) := by
  have := size_of_agrees agrees
  obtain ⟨h4, hl, hh, small⟩ := id inside
  have next : Reserves ram low (addr.toNat + 1) (addr.toNat + 2) := ⟨h4, by omega, hh, small⟩
  rw [Memory.code16, Memory.readAt, Memory.readable, if_pos (by simpa using by omega),
    peek_of_agrees agrees inside, peek_of_agrees agrees next, halfOf]

lemma byte_of_agrees {index : Int32} (hi : index.toUInt32.toNat = i)
    (inside : Reserves ram low mp.toNat (mp.toNat + i + 1)) :
    byte mp index n = .ok (byteOf ram (mp.toNat + i)) := by
  obtain ⟨h4, hl, hh, small⟩ := inside
  have hsum : (mp + index.toUInt32).toNat = mp.toNat + i := by
    rw [toNat_plus (by omega), hi]
  rw [← hsum]
  exact code8_of_agrees agrees ⟨h4, by omega, by omega, small⟩

lemma row_of_agrees (inside : Reserves ram low addr.toNat (addr.toNat + 8)) :
    Handler.readAt addr n = .ok (rowOf ram addr.toNat) := by
  obtain ⟨h4, hl, hh, small⟩ := inside
  have plus : ∀ d : UInt32, d.toNat ≤ 6 → plus addr d = .ok (addr + d) := fun d hd =>
    plus_eq (by omega)
  have half : ∀ d : UInt32, d.toNat ≤ 6 →
      code16 (addr + d) n = .ok (halfOf ram (addr.toNat + d.toNat)) := by
    intro d hd
    have hsum : (addr + d).toNat = addr.toNat + d.toNat := toNat_plus (by omega)
    rw [← hsum]
    exact code16_of_agrees agrees ⟨h4, by omega, by omega, small⟩
  rw [Handler.readAt, bind_ok (code16_of_agrees agrees ⟨h4, hl, by omega, small⟩),
    lift_ok (plus 2 (by decide)), bind_ok (half 2 (by decide)),
    lift_ok (plus 4 (by decide)), bind_ok (half 4 (by decide)),
    lift_ok (plus 6 (by decide)), bind_ok (half 6 (by decide))]
  rfl

lemma rows_of_agrees {first j : UInt32} {count : Nat}
    (inside : Reserves ram low mp.toNat (mp.toNat + first.toNat + 8 * (j.toNat + count))) :
    handlersFrom mp first count j n =
      .ok (rowsOf ram (mp.toNat + first.toNat + 8 * j.toNat) count) := by
  obtain ⟨h4, hl, hh, small⟩ := inside
  induction count generalizing j with
  | zero => rfl
  | succ count ih =>
    have := toNat_one
    have h8 : handlerSize.toNat = 8 := rfl
    have hj : (j + 1).toNat = j.toNat + 1 := toNat_plus (by omega)
    have htimes : (j * handlerSize).toNat = 8 * j.toNat := by
      rw [UInt32.toNat_mul, h8]
      omega
    have hfirst : (mp + first).toNat = mp.toNat + first.toNat := toNat_plus (by omega)
    have haddr : (mp + first + j * handlerSize).toNat =
        mp.toNat + first.toNat + 8 * j.toNat := by
      rw [toNat_plus (by omega), hfirst, htimes]
    have hrow : Handler.readAt (mp + first + j * handlerSize) n =
        .ok (rowOf ram (mp + first + j * handlerSize).toNat) :=
      row_of_agrees agrees ⟨h4, by omega, by omega, small⟩
    have hread : handler mp first j n =
        .ok (rowOf ram (mp.toNat + first.toNat + 8 * j.toNat)) := by
      rw [handler, lift_ok (plus_eq (by omega)), lift_ok (times_eq (by rw [h8]; omega)),
        lift_ok (plus_eq (by omega)), hrow, haddr]
    have hrest := ih (j := j + 1) (by omega)
    rw [handlersFrom, bind_ok hread, bind_ok hrest, hj, rowsOf]
    rfl

end

lemma handlers_of_words (first : UInt32) (count : Nat)
    (offset : handlersOffset (byteOf ram (mp.toNat + 4)).toUInt32 = .ok first)
    (rows : (minusSaturating (byteOf ram mp.toNat).toUInt32 first / handlerSize).toNat = count)
    (h5 : 5 ≤ first.toNat)
    (inside : Reserves ram low mp.toNat (mp.toNat + first.toNat + 8 * count)) :
    Settled (reserved low) (.ofWords (rom ++ ram)) (handlers mp)
      (rowsOf ram (mp.toNat + first.toNat) count) := by
  intro n hn
  obtain ⟨h4, hl, hh, small⟩ := id inside
  have hlocals : localCount mp n = .ok (byteOf ram (mp.toNat + 4)).toUInt32 := by
    rw [localCount, bind_ok (byte_of_agrees (i := 4) hn rfl ⟨h4, hl, by omega, small⟩)]
    rfl
  have hheader : headerSize mp n = .ok (byteOf ram mp.toNat).toUInt32 := by
    rw [headerSize, bind_ok (byte_of_agrees (i := 0) hn rfl ⟨h4, hl, by omega, small⟩)]
    rfl
  have hrows : handlerRows mp n = .ok ⟨first,
      minusSaturating (byteOf ram mp.toNat).toUInt32 first / handlerSize⟩ := by
    rw [handlerRows, bind_ok hlocals, lift_ok offset, bind_ok hheader]
    rfl
  rw [handlers, bind_ok hrows]
  have h0 := UInt32.toNat_zero
  have hread : handlersFrom mp first count 0 n =
      .ok (rowsOf ram (mp.toNat + first.toNat + 8 * (0 : UInt32).toNat) count) :=
    rows_of_agrees hn (by rwa [h0, Nat.zero_add])
  rw [rows]
  rwa [h0, Nat.mul_zero, Nat.add_zero] at hread

lemma instructs_of_words {op : Opcode} (inside : Reserves ram low addr.toNat (addr.toNat + 1))
    (hop : ofByte? (byteOf ram addr.toNat) = some op) :
    Instructs (reserved low) (.ofWords (rom ++ ram)) addr op := by
  have := inside.2.2
  exact ⟨by omega, _, fun _ hn => code8_of_agrees hn inside, hop⟩

/-- The form of a method is in three bytes of its head and in its first instruction. -/
lemma reads_of_bytes {fixed : Nat → Prop} {m : Memory} {f : Form} {j : Fin 16}
    {header parameters locals : UInt8}
    (form : f = ⟨header.toNat, parameters.toNat, locals.toNat, j.val⟩)
    (le : f.parameters ≤ f.locals) (range : mp.toNat + f.header + 2 < 4294967296)
    (h0 : Settled fixed m (byte mp 0) header) (h3 : Settled fixed m (byte mp 3) parameters)
    (h4 : Settled fixed m (byte mp 4) locals)
    (code : Instructs fixed m (mp + ofNat f.header) (.extend j)) : Reads fixed m mp f := by
  subst form
  have range : mp.toNat + header.toNat + 2 < 4294967296 := range
  have hword : ∀ b : UInt8, ofNat b.toNat = b.toUInt32 := fun b => by simp
  have := header.toNat_lt
  have hsmall : (ofNat header.toNat).toNat = header.toNat := toNat_nat (by omega)
  have hsize : Settled fixed m (headerSize mp) (ofNat header.toNat) := fun n hn => by
    rw [headerSize, bind_ok (h0 n hn), hword]
    rfl
  constructor
  case header => exact hsize
  case parameters =>
    intro n hn
    rw [parameterCount, bind_ok (h3 n hn), hword]
    rfl
  case locals =>
    intro n hn
    rw [localCount, bind_ok (h4 n hn), hword]
    rfl
  case operands =>
    intro n hn
    obtain ⟨byte, hb, hop⟩ := code.code
    have hentry : entry mp n = .ok (mp + ofNat header.toNat) := by
      rw [entry, bind_ok (hsize n hn)]
      exact plus_eq (by omega)
    rw [operandWords, bind_ok hentry, bind_ok (hb n hn), hop]
    rfl
  case header_lt => exact header.toNat_lt
  case parameters_le => exact le
  case locals_lt => exact locals.toNat_lt
  case operands_lt => exact Nat.lt_trans j.isLt (by decide)
  case range => exact range
  case extend => exact .inl ⟨j, code, rfl⟩

lemma reads_of_words {f : Form} {j : Fin 16} (h5 : 5 ≤ f.header)
    (inside : Reserves ram low mp.toNat (mp.toNat + f.header + 1))
    (form : f = ⟨(byteOf ram mp.toNat).toNat, (byteOf ram (mp.toNat + 3)).toNat,
      (byteOf ram (mp.toNat + 4)).toNat, j.val⟩)
    (le : f.parameters ≤ f.locals)
    (code : ofByte? (byteOf ram (mp.toNat + f.header)) = some (.extend j)) :
    Reads (reserved low) (.ofWords (rom ++ ram)) mp f := by
  obtain ⟨h4, hl, hh, small⟩ := inside
  have hentry : (mp + ofNat f.header).toNat = mp.toNat + f.header := by
    have hsmall : (ofNat f.header).toNat = f.header := toNat_nat (by omega)
    rw [toNat_plus (by omega), hsmall]
  have reads : ∀ (index : Int32) (i : Nat), index.toUInt32.toNat = i → i < 5 →
      Settled (reserved low) (.ofWords (rom ++ ram)) (byte mp index)
        (byteOf ram (mp.toNat + i)) := fun index i hi hi5 n hn =>
    byte_of_agrees hn hi ⟨h4, by omega, by omega, small⟩
  exact reads_of_bytes form le (by omega) (reads 0 0 rfl (by omega)) (reads 3 3 rfl (by omega))
    (reads 4 4 rfl (by omega))
    (instructs_of_words ⟨h4, by omega, by omega, small⟩ (hentry ▸ code))

/-- The method in ROM. -/
lemma reads_method : Reads (reserved low) (.ofWords (rom ++ ram)) 456 ⟨6, 0, 1, 2⟩ := by
  have reads : ∀ (base : UInt32) (index : Int32) (k i : Nat),
      (base + index.toUInt32).toNat = 4 * k + i → k < 116 → i < 4 →
      Settled (reserved low) (.ofWords (rom ++ ram)) (byte base index)
        ((wordBytes (rom.getD k 0)).getD i 0) := fun base index k i hp hk hi n hn =>
    byte_rom (hn.mono fun b hb => .inl hb) hp hk hi
  have code : Instructs (reserved low) (.ofWords (rom ++ ram)) 462 (.extend 2) :=
    ⟨by decide, 0x62, reads 462 0 115 2 rfl (by omega) (by omega), by decide +kernel⟩
  exact reads_of_bytes rfl (by decide) (by decide) (reads 456 0 114 0 rfl (by omega) (by omega))
    (reads 456 3 114 3 rfl (by omega) (by omega)) (reads 456 4 115 0 rfl (by omega) (by omega)) code

end Sample

namespace Stack.Scene

open Sample (reserved)

variable {isMethod : UInt32 → Prop} {form : UInt32 → Form} {isClass : UInt32 → Prop}

/-- The scene with the given words of RAM, of which those from `low` on are fixed. -/
def ofWords (ram : List UInt32) (low : Nat) (isMethod : UInt32 → Prop)
    (form : UInt32 → Form) (isClass : UInt32 → Prop) : Scene where
  rom := { start := 0, size := 464 }
  eeprom := {}
  ram := { start := 464, size := ofNat (4 * ram.length) }
  mem := .ofWords (Sample.rom ++ ram)
  fixed := reserved low
  chunkClass := chunks
  isMethod := isMethod
  form := form
  isClass := isClass

lemma ok_of_words (ram : List UInt32) (low : Nat) (hlow : 528 ≤ low) (h16 : 16 ≤ ram.length)
    (small : ram.length < 1000000)
    (method : ∀ mp, isMethod mp →
      Method.Reads (reserved low) (.ofWords (Sample.rom ++ ram)) mp (form mp))
    (number : ∀ k, isClass k → ∃ number,
      Settled (reserved low) (.ofWords (Sample.rom ++ ram)) (Class.number k) number) :
    (ofWords ram low isMethod form isClass).Ok := by
  have : (ofWords ram low isMethod form isClass).mem.size = 464 + 4 * ram.length :=
    Sample.size_of_agrees (.refl _ : Memory.Agrees (reserved low) _ _)
  have hstart : (ofWords ram low isMethod form isClass).ram.start.toNat = 464 := rfl
  constructor
  case record_aligned => rw [hstart]
  case record_inside => omega
  case mem_size => omega
  case fixed_record =>
    intro b hb
    have : b < 464 ∨ low ≤ b := hb
    omega
  case chunkClass =>
    intro t _ he _ h
    exact classNumbered_chunks (by rw [he]; rfl) (h.mono fun b hb => .inl hb)
  case chunkClass_aligned => exact (by decide : chunks.toNat % 4 = 0)
  case chunkClass_lt => exact (by decide : chunks.toNat < 16777216)
  case element =>
    intro n h
    have hn : Class.elementNumber chunks n = .ok 5 :=
      word_rom (h.mono fun b hb => .inl hb) (k := 83) (by decide)
    exact bind_ok hn
  case method => exact method
  case number => exact number

lemma ready_of_words (ram : List UInt32) (low : Nat) (aligned : (ram.getD 3 0).toNat % 4 = 0)
    (hlow : 528 ≤ (ram.getD 3 0).toNat)
    (hle : (ram.getD 3 0).toNat ≤ (ram.getD 4 0).toNat) (hfix : (ram.getD 4 0).toNat ≤ low)
    (hin : (ram.getD 4 0).toNat ≤ 464 + 4 * ram.length) :
    (ofWords ram low isMethod form isClass).Ready (store .copying ram) := by
  have hrec : ∀ j, (store .copying ram).recorded j = ram.getD j 0 := peekWord_ram
  have hsize : (ofWords ram low isMethod form isClass).mem.size = 464 + 4 * ram.length :=
    Sample.size_of_agrees (.refl _ : Memory.Agrees (reserved low) _ _)
  have hstart : (ofWords ram low isMethod form isClass).ram.start.toNat = 464 := rfl
  constructor
  case agrees => exact .refl _
  case free_aligned => rw [hrec]; exact aligned
  case free_low => rw [hrec, hstart]; exact hlow
  case free_le => rw [hrec, hrec]; exact hle
  case stop_le => rw [hrec, hsize]; exact hin
  case fixed_free =>
    intro b hb
    have : b < 464 ∨ low ≤ b := hb
    rw [hrec, hrec]
    omega
  all_goals rfl

end Stack.Scene

end DeviceVm
