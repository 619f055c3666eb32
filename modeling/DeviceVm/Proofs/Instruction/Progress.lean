import DeviceVm.Instruction.Decoder
import Mathlib.Tactic.Lemma

/-!
The decoder goes forward. Each instruction takes at least one byte and ends inside the code, so
decoding ends after at most as many instructions as there are bytes, and what it finds tiles the
code from its start on. Only a switch whose upper bound lies below its lower one is a fault.
-/

namespace DeviceVm

namespace Cursor

variable {α β : Type} {code : ByteArray} {pos q : Nat}
  {op : Opcode} {n size : Nat} {a : Unit} {low high : Int32}

lemma bind_apply (x : Cursor α) (f : α → Cursor β) (code : ByteArray) (pos : Nat) :
    (x >>= f) code pos = (x code pos).bind fun p => f p.1 code p.2 := rfl

lemma bind_eq_ok {x : Cursor α} {f : α → Cursor β} {r : β × Nat}
    (h : (x >>= f) code pos = .ok r) : ∃ a q, x code pos = .ok (a, q) ∧ f a code q = .ok r := by
  rw [bind_apply] at h
  cases hx : x code pos with
  | error e =>
    rw [hx] at h
    cases h
  | ok p => exact ⟨p.1, p.2, rfl, by rwa [hx] at h⟩

lemma bind_eq_error {x : Cursor α} {f : α → Cursor β} {e : DecodeStop}
    (h : (x >>= f) code pos = .error e) :
    x code pos = .error e ∨ ∃ a q, x code pos = .ok (a, q) ∧ f a code q = .error e := by
  rw [bind_apply] at h
  cases hx : x code pos with
  | error d =>
    rw [hx] at h
    exact .inl (congrArg _ (Except.error.inj h))
  | ok p => exact .inr ⟨p.1, p.2, rfl, by rwa [hx] at h⟩

/-- The cursor does not go back or leave the code, and at worst the code ends. -/
class Calm (x : Cursor α) : Prop where
  bounds : ∀ {code pos a q}, x code pos = .ok (a, q) → pos ≤ code.size → pos ≤ q ∧ q ≤ code.size
  unbroken : ∀ {code pos}, x code pos ≠ .error .broken

instance (a : α) : Calm (pure a) where
  bounds h hpos := by
    cases h
    exact ⟨Nat.le_refl _, hpos⟩
  unbroken h := by cases h

instance : Calm (throw .ended : Cursor α) where
  bounds h := by cases h
  unbroken h := by cases h

instance (x : Cursor α) (f : α → Cursor β) [hx : Calm x] [hf : ∀ a, Calm (f a)] :
    Calm (x >>= f) where
  bounds h hpos := by
    obtain ⟨a, q, ha, h⟩ := bind_eq_ok h
    have h1 := hx.bounds ha hpos
    have h2 := (hf a).bounds h h1.2
    exact ⟨Nat.le_trans h1.1 h2.1, h2.2⟩
  unbroken h := by
    rcases bind_eq_error h with h | ⟨a, q, -, h⟩
    · exact hx.unbroken h
    · exact (hf a).unbroken h

lemma skip_bounds (h : skip n code pos = .ok (a, q)) :
    pos ≤ q ∧ q ≤ code.size := by
  unfold skip at h
  split at h <;> cases h
  exact ⟨Nat.le_add_right _ _, by assumption⟩

lemma skip_unbroken : skip n code pos ≠ .error .broken := by
  unfold skip
  split <;> exact fun h => by cases h

instance (n : Nat) : Calm (skip n) := ⟨fun h _ => skip_bounds h, skip_unbroken⟩

lemma byte_bounds {b : UInt8} (h : byte code pos = .ok (b, q)) : pos < q ∧ q ≤ code.size := by
  unfold byte at h
  split at h <;> cases h
  exact ⟨Nat.lt_succ_self _, by assumption⟩

instance : Calm byte where
  bounds h _ := ⟨Nat.le_of_lt (byte_bounds h).1, (byte_bounds h).2⟩
  unbroken h := by
    unfold byte at h
    split at h <;> cases h

instance (n : Nat) (acc : UInt64) : Calm (number n acc) := by
  induction n generalizing acc with
  | zero => exact inferInstanceAs (Calm (pure acc))
  | succ n ih => exact inferInstanceAs (Calm (byte >>= fun b => number n _))

instance : Calm opcode := by
  unfold opcode
  have (o : Option Opcode) : Calm (match o with | some op => pure op | none => throw .ended) := by
    cases o <;> infer_instance
  infer_instance

lemma opcode_bounds (h : opcode code pos = .ok (op, q)) :
    pos < q ∧ q ≤ code.size := by
  obtain ⟨b, r, hb, h⟩ := bind_eq_ok h
  cases hop : Opcode.ofByte? b <;> simp only [hop] at h <;> cases h
  exact byte_bounds hb

/-! ### Operands -/

/-- The default and the bounds of a switch whose first byte has been read. -/
def switchHead : Opcode.OperandShape → Cursor (Int32 × Int32 × Int32)
  | .halfSwitch padded => do
    if padded then skip 1
    return (← int16, ← int32, ← int32)
  | .wordSwitch => return (← int32, ← int32, ← int32)
  | _ => throw .ended

instance (shape : Opcode.OperandShape) : Calm (switchHead shape) := by
  unfold switchHead int16 int32
  split
  · split <;> infer_instance
  · infer_instance
  · infer_instance

lemma skipArms_bounds
    (h : skipArms size low high code pos = .ok (a, q)) : pos ≤ q ∧ q ≤ code.size := by
  unfold skipArms at h
  split at h
  · cases h
  split at h
  · cases h
  · exact skip_bounds h

lemma skipArms_broken
    (h : skipArms size low high code pos = .error .broken) : high.toInt < low.toInt := by
  unfold skipArms at h
  split at h
  · cases h
  split at h
  · omega
  · exact absurd h skip_unbroken

lemma operand_cases (op : Opcode) : Calm (operand op) ∨ ∃ size, operand op =
    switchHead op.operandShape >>= fun b =>
      skipArms size b.2.1 b.2.2 >>= fun _ => pure (.switch b.1 b.2.1 b.2.2) := by
  unfold operand switchHead
  cases op.operandShape with
  | halfSwitch padded => exact .inr ⟨2, by cases padded <;> simp⟩
  | wordSwitch => exact .inr ⟨4, by simp⟩
  | _ =>
    unfold int8 int16 char16 int32 int64
    exact .inl inferInstance

lemma operand_bounds {a : Operand} (h : operand op code pos = .ok (a, q))
    (hpos : pos ≤ code.size) : pos ≤ q ∧ q ≤ code.size := by
  rcases operand_cases op with hc | ⟨size, hx⟩
  · exact hc.bounds h hpos
  · rw [hx] at h
    obtain ⟨b, r, hb, h⟩ := bind_eq_ok h
    obtain ⟨_, r', hs, h⟩ := bind_eq_ok h
    cases h
    have h1 := Calm.bounds hb hpos
    have h2 := skipArms_bounds hs
    exact ⟨Nat.le_trans h1.1 h2.1, h2.2⟩

/-- After the opcode comes the rest of a switch whose upper bound lies below its lower one. -/
def Reversed (op : Opcode) (code : ByteArray) (pos : Nat) : Prop :=
  ∃ default low high q, switchHead op.operandShape code pos = .ok ((default, low, high), q) ∧
    high.toInt < low.toInt

lemma operand_broken (h : operand op code pos = .error .broken) :
    Reversed op code pos := by
  rcases operand_cases op with hc | ⟨size, hx⟩
  · exact absurd h hc.unbroken
  · rw [hx] at h
    rcases bind_eq_error h with h | ⟨⟨default, low, high⟩, r, hs, h⟩
    · exact absurd h Calm.unbroken
    · rcases bind_eq_error h with h | ⟨_, _, _, h⟩
      · exact ⟨default, low, high, r, hs, skipArms_broken h⟩
      · cases h

/-- What stands behind an opcode: the rest of an instruction, or one that the opcode widens. -/
def partsFrom (op : Opcode) : Cursor (Opcode × Option Opcode × Operand) :=
  match op with
  | .wideHalf => do
    let next ← opcode
    return (next, some op, .int (← int16))
  | .wideFull => do
    let next ← opcode
    return (next, some op, .int (← int32))
  | .wide high => do
    let next ← opcode
    return (next, some op, .int (twelveBits high (← byte)))
  | _ => do return (op, none, ← operand op)

lemma parts_eq : parts = opcode >>= partsFrom := rfl

lemma partsFrom_cases (op : Opcode) : Calm (partsFrom op) ∨
    partsFrom op = operand op >>= fun operand => pure (op, none, operand) := by
  unfold partsFrom int16 int32
  split
  · exact .inl inferInstance
  · exact .inl inferInstance
  · exact .inl inferInstance
  · exact .inr rfl

end Cursor

open Cursor

namespace Decoder

variable {code : ByteArray} {pos stop : Nat} {found : List (Instruction × Nat)}

lemma next_cases :
    (next ⟨code, pos⟩ = .error .broken ∧ ∃ op q, opcode code pos = .ok (op, q) ∧ Reversed op code q)
      ∨
      next ⟨code, pos⟩ = .ok (none, ⟨code, code.size⟩) ∨
      ∃ i q, next ⟨code, pos⟩ = .ok (some i, ⟨code, q⟩) ∧ i.offset = pos ∧ 0 < i.length ∧
        pos + i.length = q ∧ q ≤ code.size := by
  unfold next
  split
  · rename_i op widened operand q heq
    obtain ⟨first, r, hop, h⟩ := bind_eq_ok (parts_eq ▸ heq)
    have hr : pos < r ∧ r ≤ code.size := opcode_bounds hop
    have hq : r ≤ q ∧ q ≤ code.size := by
      rcases partsFrom_cases first with hc | hx
      · exact hc.bounds h hr.2
      · rw [hx] at h
        obtain ⟨_, _, ho, h⟩ := bind_eq_ok h
        cases h
        exact operand_bounds ho hr.2
    refine .inr (.inr ⟨_, q, rfl, rfl, ?_, ?_, hq.2⟩)
    · exact Nat.sub_pos_of_lt (Nat.lt_of_lt_of_le hr.1 hq.1)
    · exact Nat.add_sub_of_le (by omega)
  · exact .inr (.inl rfl)
  · rename_i heq
    refine .inl ⟨rfl, ?_⟩
    rcases bind_eq_error (parts_eq ▸ heq) with h | ⟨op, q, hop, h⟩
    · exact absurd h Calm.unbroken
    refine ⟨op, q, hop, ?_⟩
    rcases partsFrom_cases op with hc | hx
    · exact absurd h hc.unbroken
    · rw [hx] at h
      rcases bind_eq_error h with h | ⟨_, _, _, h⟩
      · exact operand_broken h
      · cases h

/-- The instructions that are found one behind the other from one position to another, each with the
position after it. -/
def Tiles (code : ByteArray) : Nat → List (Instruction × Nat) → Nat → Prop
  | pos, [], stop => pos = stop
  | pos, (i, q) :: rest, stop =>
    next ⟨code, pos⟩ = .ok (some i, ⟨code, q⟩) ∧ i.offset = pos ∧ 0 < i.length ∧
      pos + i.length = q ∧ q ≤ code.size ∧ Tiles code q rest stop

lemma Tiles.length_le (h : Tiles code pos found stop) : pos + found.length ≤ stop := by
  induction found generalizing pos with
  | nil => exact Nat.le_of_eq h
  | cons x rest ih =>
    obtain ⟨-, -, hlen, hq, -, h⟩ := h
    have := ih h
    rw [List.length_cons]
    omega

lemma Tiles.allFrom_eq (h : Tiles code pos found stop) (fuel : Nat) :
    allFrom ⟨code, pos⟩ (found.length + fuel) =
      (allFrom ⟨code, stop⟩ fuel).map fun r => (found ++ r.1, r.2) := by
  induction found generalizing pos with
  | nil =>
    cases (show pos = stop from h)
    rw [List.length_nil, Nat.zero_add]
    cases allFrom _ fuel <;> rfl
  | cons x rest ih =>
    obtain ⟨hnext, -, -, -, -, h⟩ := h
    rw [List.length_cons, Nat.add_right_comm, allFrom, hnext]
    show (allFrom ⟨code, x.2⟩ _ >>= _) = _
    rw [ih h]
    cases allFrom ⟨code, stop⟩ fuel <;> rfl

lemma exists_tiles (h : pos ≤ code.size) : ∃ found stop, Tiles code pos found stop ∧
    stop ≤ code.size ∧ ((next ⟨code, stop⟩ = .error .broken ∧
        ∃ op q, opcode code stop = .ok (op, q) ∧ Reversed op code q) ∨
      next ⟨code, stop⟩ = .ok (none, ⟨code, code.size⟩)) := by
  induction hn : code.size - pos using Nat.strongRecOn generalizing pos with
  | ind n ih =>
    rcases @next_cases code pos with hb | he | ⟨i, q, hnext, ho, hlen, hq, hle⟩
    · exact ⟨[], pos, rfl, h, .inl hb⟩
    · exact ⟨[], pos, rfl, h, .inr he⟩
    · obtain ⟨rest, stop, ht, hstop⟩ := ih (code.size - q) (by omega) hle rfl
      exact ⟨(i, q) :: rest, stop, ⟨hnext, ho, hlen, hq, hle, ht⟩, hstop⟩

lemma next_size (code : ByteArray) :
    next ⟨code, code.size⟩ = .ok (none, ⟨code, code.size⟩) := by
  rcases @next_cases code code.size with ⟨-, op, q, hop, -⟩ | he | ⟨i, q, -, -, h⟩
  · have := opcode_bounds hop
    omega
  · exact he
  · omega

/-- Decoding goes forward by whole instructions and ends: at the end of the code with no instruction
more, however often it is called there, or at a switch with reversed bounds. -/
theorem decoding_tiles_code (code : ByteArray) :
    next ⟨code, code.size⟩ = .ok (none, ⟨code, code.size⟩) ∧
    ∃ found stop, Tiles code 0 found stop ∧ stop ≤ code.size ∧ found.length ≤ code.size ∧
      ((all code = .ok (found, ⟨code, code.size⟩) ∧
          next ⟨code, stop⟩ = .ok (none, ⟨code, code.size⟩)) ∨
        (all code = .error .broken ∧ next ⟨code, stop⟩ = .error .broken ∧
          ∃ op q, opcode code stop = .ok (op, q) ∧ Reversed op code q)) := by
  obtain ⟨found, stop, ht, hstop, hend⟩ := exists_tiles (Nat.zero_le code.size)
  have := ht.length_le
  have hall := ht.allFrom_eq (code.size - found.length + 1)
  rw [show found.length + (code.size - found.length + 1) = code.size + 1 by omega] at hall
  refine ⟨next_size code, found, stop, ht, hstop, by omega, ?_⟩
  rcases hend with ⟨hb, hrev⟩ | he
  · exact .inr ⟨hall.trans (by rw [allFrom, hb]; rfl), hb, hrev⟩
  · refine .inl ⟨hall.trans ?_, he⟩
    rw [allFrom, he]
    exact congrArg (fun l => Except.ok (l, _)) (List.append_nil found)

end Decoder

end DeviceVm
