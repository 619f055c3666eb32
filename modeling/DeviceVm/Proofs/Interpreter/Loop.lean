import DeviceVm.Interpreter.Loop
import DeviceVm.Proofs.Access
import DeviceVm.Proofs.Instruction.Progress
import DeviceVm.Proofs.Interpreter.Execution

/-!
The rounds of the interpreter loop. An instruction is read, its line is put into the log, which can
only fault at a switch, and it is executed.
-/

namespace DeviceVm

open UInt32 Memory Read Opcode Cursor Word ByteArray

/-- The opcode is neither a prefix nor that of a switch. -/
def Opcode.isPlain : Opcode → Bool
  | .wide _ | .wideHalf | .wideFull | .tableswitch | .stableswitch | .stableswitchPad => false
  | _ => true

lemma Decoder.next_ok {code : ByteArray} {op : Opcode} (h0 : 0 < code.size)
    (hop : ofByte? code[0] = some op) (plain : op.isPlain = true) :
    ∃ r, Decoder.next { code, pos := 0 } = .ok r := by
  have hcode : opcode code 0 = .ok (op, 1) := by
    have hb : Cursor.byte code 0 = .ok (code[0], 1) := by simp [Cursor.byte, h0]
    rw [opcode, bind_apply, hb, Except.bind]
    simp only [hop]
    rfl
  rcases @Decoder.next_cases code 0 with ⟨-, _, _, hop, _, _, _, _, hs, -⟩ | h | ⟨_, _, h, -⟩
  · rw [hcode] at hop
    cases hop
    cases op <;> first | cases hs | cases plain
  · exact ⟨_, h⟩
  · exact ⟨_, h⟩

namespace Exec

variable {byte : UInt8} {op : Opcode} {m n : Machine}

lemma instructionText_ok {mem : Memory} {ip : UInt32} (hb : Memory.code8 ip mem = .ok byte)
    (hop : Opcode.ofByte? byte = some op) (plain : op.isPlain = true)
    (small : mem.size ≤ 16777216) : ∃ text, instructionText ip mem = .ok text := by
  have hin : ip.toNat + 1 ≤ mem.size ∧ mem.peek ip.toNat = byte := by
    unfold Memory.code8 readAt readable at hb
    split at hb
    · rename_i h
      exact ⟨by simpa using h, Except.ok.inj hb⟩
    · cases hb
  have hsize : mem.size.toUInt32.toNat = mem.size :=
    toNat_nat (by omega)
  generalize hlen : min 16 (minusSaturating mem.size.toUInt32 ip) = len
  have hle : ip ≤ mem.size.toUInt32 := le_iff_toNat_le.2 (by omega)
  have : (mem.size.toUInt32 - ip).toNat = mem.size - ip.toNat := by
    rw [toNat_minus (by omega), hsize]
  have : 0 < len.toNat ∧ ip.toNat + len.toNat ≤ mem.size := by
    rw [← hlen, minusSaturating, if_pos hle]
    show 0 < (if _ ≤ _ then _ else _ : UInt32).toNat ∧
      _ + (if _ ≤ _ then _ else _ : UInt32).toNat ≤ _
    have : (16 : UInt32).toNat = 16 := rfl
    split
    · rename_i h
      have := le_iff_toNat_le.1 h
      omega
    · omega
  have hsum : (ip + len).toNat = ip.toNat + len.toNat := toNat_plus (by omega)
  have hslice : slice ip len mem =
      .ok (mem.bytes.extract ip.toNat (ip.toNat + len.toNat)) := by
    rw [slice, lift_ok (plus_eq (by omega)), if_pos (by omega), hsum]
  have : mem.bytes.size = mem.size := rfl
  have h0 : 0 < (mem.bytes.extract ip.toNat (ip.toNat + len.toNat)).size := by
    rw [size_extract]
    omega
  have hfirst : (mem.bytes.extract ip.toNat (ip.toNat + len.toNat))[0] = byte := by
    rw [← hin.2, peek, dif_pos (by omega)]
    exact getElem_extract h0
  obtain ⟨r, hr⟩ := Decoder.next_ok h0 (hfirst ▸ hop) plain
  refine ⟨r.1.map (·.text), ?_⟩
  have hread : (read : Read Memory) mem = .ok mem := rfl
  unfold instructionText
  rw [bind_ok hread, hlen, bind_ok hslice, lift_ok hr]
  rfl

lemma Gives.traceInstruction (hb : Memory.code8 m.ip m.store.mem = .ok byte)
    (hop : Opcode.ofByte? byte = some op) (plain : op.isPlain = true)
    (small : m.store.mem.size ≤ 16777216) {P : Unit → Machine → Prop}
    (hp : ∀ log, P () (m.setLog log)) : Gives Exec.traceInstruction m P := by
  obtain ⟨text, ht⟩ := instructionText_ok hb hop plain small
  apply get_bind
  apply get_bind
  apply get_bind
  apply read_bind ht
  exact say hp

/-! ### One instruction -/

lemma step_eq (hb : Memory.code8 m.ip m.store.mem = .ok byte)
    (hop : Opcode.ofByte? byte = some op) (plain : op.isPlain = true)
    (range : m.ip.toNat + 1 < 4294967296) :
    Exec.step m = execute m.ip none op { m with ip := m.ip + 1 } := by
  rw [Exec.step, get_bind_eq, bind_eq (code8_eq hb range), hop]
  refine congrFun ?_ _
  split
  · rename_i heq
    cases heq
  · rename_i heq
    cases Option.some.inj heq
    cases plain
  · rename_i heq
    cases Option.some.inj heq
    cases plain
  · rename_i heq
    cases Option.some.inj heq
    cases plain
  · rename_i heq
    cases Option.some.inj heq
    rfl

/-- What an instruction came to is dealt with. Gives why the run ends, if it does. -/
def settle : Step → Exec (Option Suspension)
  | .proceed => return none
  | .call call => do
    callSupport call
    return none
  | .suspend reason => return some reason

/-- One instruction with all that the loop does about it. -/
def turn : Exec (Option Suspension) := do
  modify fun s => { s with instructions := s.instructions + 1 }
  if ← traces TraceFlags.instructions then traceInstruction
  settle (← step)

/-- The loop goes on unless it was suspended. -/
def runOn (budget : Nat) : Option Suspension → Exec Suspension
  | none => runFor budget
  | some reason => return reason

lemma runFor_succ (budget : Nat) : runFor (budget + 1) = turn >>= runOn budget := by
  have hstep : (do
      match ← step with
      | .proceed => runFor budget
      | .call call => do
        callSupport call
        runFor budget
      | .suspend reason => return reason) = step >>= settle >>= runOn budget := by
    rw [bind_assoc]
    congr 1
    funext r
    cases r <;> simp [settle, runOn]
  rw [runFor, turn]
  simp only [bind_assoc]
  congr 1
  funext u
  congr 1
  funext b
  split
  · rw [bind_assoc]
    congr 1
    funext u
    exact hstep
  · exact hstep

lemma runFor_of_turn (h : turn m = .ok none n) (budget : Nat) :
    runFor (budget + 1) m = runFor budget n := by
  rw [runFor_succ]
  show EStateM.bind turn (runOn budget) m = _
  simp only [EStateM.bind, h, runOn]

lemma runFor_of_turn_some {reason : Suspension} (h : turn m = .ok (some reason) n)
    (budget : Nat) : runFor (budget + 1) m = .ok reason n := by
  rw [runFor_succ]
  show EStateM.bind turn (runOn budget) m = _
  simp only [EStateM.bind, h]
  rfl

section

variable {m : Machine} (hb : Memory.code8 m.ip m.store.mem = .ok byte)
  (hop : Opcode.ofByte? byte = some op) (plain : op.isPlain = true)
  (range : m.ip.toNat + 1 < 4294967296) (small : m.store.mem.size ≤ 16777216)
include hb hop plain range small

lemma turn_eq :
    ∃ log, turn m = (execute m.ip none op >>= settle) (Machine.setLog
      { m with ip := m.ip + 1, instructions := m.instructions + 1 } log) := by
  generalize hm : ({ m with instructions := m.instructions + 1 } : Machine) = n
  have hb' : Memory.code8 n.ip n.store.mem = .ok byte := hm ▸ hb
  have hstep : ∀ log, (step >>= settle) (n.setLog log) = (execute m.ip none op >>= settle)
      (Machine.setLog { m with ip := m.ip + 1, instructions := m.instructions + 1 } log) := by
    intro log
    subst hm
    exact bind_congr_eq (step_eq hb hop plain range)
  have htraces : traces TraceFlags.instructions n =
      .ok (n.store.trace.contains TraceFlags.instructions) n := rfl
  rw [turn, modify_bind_eq, hm, bind_eq htraces]
  split
  · obtain ⟨_, _, htrace, log, rfl⟩ := Gives.traceInstruction
      (P := fun _ n' => ∃ log, n' = n.setLog log)
      hb' hop plain (hm ▸ small) fun log => ⟨log, rfl⟩
    exact ⟨log, (bind_eq htrace).trans (hstep log)⟩
  · exact ⟨n.store.log, hstep n.store.log⟩

lemma Gives.turn {P : Option Suspension → Machine → Prop}
    (hx : ∀ log, Gives (execute m.ip none op >>= settle)
      (Machine.setLog { m with ip := m.ip + 1, instructions := m.instructions + 1 } log) P) :
    Gives Exec.turn m P := by
  obtain ⟨log, heq⟩ := turn_eq hb hop plain range small
  rw [Gives, heq]
  exact hx log

end

end Exec

end DeviceVm
