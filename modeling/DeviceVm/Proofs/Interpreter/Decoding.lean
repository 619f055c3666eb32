import DeviceVm.Proofs.Interpreter.Loop
import DeviceVm.Proofs.Interpreter.Straight
import DeviceVm.Proofs.Sample

/-!
The decoder and the interpreter read the same instructions. What the interpreter fetches the decoder
finds in the bytes from there on, with the same operand and as many bytes, and an instruction that
does not transfer control goes on right behind them. There is one exception: the operand of a method
identifier is skipped by the interpreter without a look, so it may lie outside memory.
-/

namespace DeviceVm

open UInt32 Memory Opcode Cursor ByteArray

/-! ### Big-endian numbers -/

namespace Cursor

def behind (acc : UInt64) (b : UInt8) : UInt64 := acc <<< 8 ||| b.toUInt64

lemma toNat_behind (acc : UInt64) (b : UInt8) (h : acc.toNat < 2 ^ 56) :
    (behind acc b).toNat = acc.toNat * 256 + b.toNat := by
  have hb := b.toNat_lt
  show (acc.toNat <<< 8 % 2 ^ 64) ||| b.toNat = _
  rw [Nat.mod_eq_of_lt (by omega), Nat.shiftLeft_eq, Nat.mul_comm,
    ← Nat.two_pow_add_eq_or_of_lt hb]

lemma half_eq (a b : UInt8) : (behind (behind 0 a) b).toUInt16 = ByteOrder.big.half a b := by
  simp [behind, ByteOrder.half]

lemma word_eq (a b c d : UInt8) :
    (behind (behind (behind (behind 0 a) b) c) d).toUInt32 = ByteOrder.big.word a b c d := by
  have h2 (x : UInt32) : x <<< 8 <<< 8 = x <<< 16 :=
    (shiftLeft_add (by decide) (by decide) (by decide)).symm
  have h3 (x : UInt32) : x <<< 16 <<< 8 = x <<< 24 :=
    (shiftLeft_add (by decide) (by decide) (by decide)).symm
  simp [behind, ByteOrder.word, shiftLeft_or, h2, h3]

lemma toUInt64_word (a b c d : UInt8) : (ByteOrder.big.word a b c d).toUInt64 =
    behind (behind (behind (behind 0 a) b) c) d := by
  have := a.toNat_lt
  have := b.toNat_lt
  have := c.toNat_lt
  have := d.toNat_lt
  have : (0 : UInt64).toNat = 0 := rfl
  have := toNat_behind 0 a (by omega)
  have := toNat_behind (behind 0 a) b (by omega)
  have := toNat_behind (behind (behind 0 a) b) c (by omega)
  have := toNat_behind (behind (behind (behind 0 a) b) c) d (by omega)
  rw [← word_eq]
  apply UInt64.toNat_inj.mp
  rw [toNat_toUInt64, UInt64.toNat_toUInt32]
  omega

lemma long_eq (a b c d e f g h : UInt8) :
    behind (behind (behind (behind (behind (behind (behind (behind 0 a) b) c) d) e) f) g) h =
      ByteOrder.big.long (ByteOrder.big.word a b c d) (ByteOrder.big.word e f g h) := by
  have h2 (x : UInt64) : x <<< 8 <<< 8 = x <<< 16 :=
    (UInt64.shiftLeft_add (by decide) (by decide) (by decide)).symm
  have h3 (x : UInt64) : x <<< 16 <<< 8 = x <<< 24 :=
    (UInt64.shiftLeft_add (by decide) (by decide) (by decide)).symm
  have h4 (x : UInt64) : x <<< 24 <<< 8 = x <<< 32 :=
    (UInt64.shiftLeft_add (by decide) (by decide) (by decide)).symm
  generalize hacc : behind (behind (behind (behind 0 a) b) c) d = acc
  rw [ByteOrder.long, toUInt64_word, toUInt64_word, hacc]
  simp [behind, UInt64.shiftLeft_or, h2, h3, h4, UInt64.or_assoc]

/-- The number that `k` bytes spell, the highest first, behind what was read before. -/
def numberAt (mem : Memory) : (a k : Nat) → (acc : UInt64) → UInt64
  | _, 0, acc => acc
  | a, k + 1, acc => numberAt mem (a + 1) k (behind acc (mem.peek a))

section

variable {mem : Memory} {base stop a : Nat}

lemma byte_extract (low : base ≤ a) (high : a < stop) (inside : a < mem.bytes.size) :
    byte (mem.bytes.extract base stop) (a - base) = .ok (mem.peek a, a + 1 - base) := by
  have hsize : a - base < (mem.bytes.extract base stop).size := by
    rw [size_extract]
    omega
  rw [byte, dif_pos hsize, peek, dif_pos inside, getElem_extract]
  simp only [show base + (a - base) = a by omega, show a - base + 1 = a + 1 - base by omega]

lemma number_extract (k : Nat) (acc : UInt64) (low : base ≤ a) (high : a + k ≤ stop)
    (inside : a + k ≤ mem.bytes.size) :
    number k acc (mem.bytes.extract base stop) (a - base) =
      .ok (numberAt mem a k acc, a + k - base) := by
  induction k generalizing a acc with
  | zero => rfl
  | succ k ih =>
    rw [number, bind_apply, byte_extract low (by omega) (by omega), Except.bind]
    rw [ih _ (by omega) (by omega) (by omega), show a + 1 + k - base = a + (k + 1) - base by omega]
    rfl

end

end Cursor

/-! ### What is fetched is decoded -/

namespace Exec

/-- What `x` reads of the code, the cursor `c` reads of the bytes around it, and they go equally
far. -/
def Follows {α : Type} (x : Exec α) (c : Cursor α) (m : Machine) : Prop :=
  ∀ a n, x m = .ok a n → n = { m with ip := n.ip } ∧ m.ip.toNat ≤ n.ip.toNat ∧
    ∀ base stop, base ≤ m.ip.toNat → n.ip.toNat ≤ stop →
      c (m.store.mem.bytes.extract base stop) (m.ip.toNat - base) = .ok (a, n.ip.toNat - base)

namespace Follows

variable {α β : Type} {m : Machine} {k : UInt32} {size : Nat} {op : Opcode}

lemma pure (a : α) : Follows (Pure.pure a) (Pure.pure a) m := by
  intro a n h
  cases h
  exact ⟨rfl, Nat.le_refl _, fun _ _ _ _ => rfl⟩

lemma bind {x : Exec α} {c : Cursor α} {f : α → Exec β} {d : α → Cursor β} (hx : Follows x c m)
    (hf : ∀ a n, x m = .ok a n → Follows (f a) (d a) n) : Follows (x >>= f) (c >>= d) m := by
  intro b o h
  obtain ⟨a, n, ha, hb⟩ := bind_eq_ok.1 h
  obtain ⟨hn, hle, hc⟩ := hx a n ha
  obtain ⟨ho, hle', hd⟩ := hf a n ha b o hb
  refine ⟨?_, by omega, fun base stop hbase hstop => ?_⟩
  · rw [ho, hn]
  · rw [bind_apply, hc base stop hbase (by omega), Except.bind]
    have hstore : n.store = m.store := by rw [hn]
    exact hstore ▸ hd base stop (by omega) hstop

lemma map {x : Exec α} {c : Cursor α} (f : α → β) (hx : Follows x c m) :
    Follows (x >>= fun a => Pure.pure (f a)) (c >>= fun a => Pure.pure (f a)) m :=
  hx.bind fun _ _ _ => pure _

lemma throw {c : Cursor α} {e : Fault} : Follows (MonadExcept.throw e) c m := by
  intro a n h
  cases h

lemma read {get : Memory → Nat → α} {c : Cursor α} (hk : k.toNat = size)
    (hc : ∀ (mem : Memory) base stop a, base ≤ a → a + size ≤ stop → a + size ≤ mem.bytes.size →
      c (mem.bytes.extract base stop) (a - base) = .ok (get mem a, a + size - base)) :
    Follows (take k fun ip => readAt ip size get) c m := by
  intro a n h
  obtain ⟨hr, hlt, rfl⟩ := take_eq_ok.1 h
  rw [readAt] at hr
  split at hr
  · rename_i hin
    cases hr
    have hip : (m.ip + k).toNat = m.ip.toNat + size := by rw [Word.toNat_plus hlt, hk]
    refine ⟨rfl, ?_, fun base stop hbase hstop => ?_⟩
    · show _ ≤ (m.ip + k).toNat
      omega
    · have hstop : m.ip.toNat + size ≤ stop := hip ▸ hstop
      rw [hc _ _ _ _ hbase hstop (of_decide_eq_true hin), ← hip]
  · cases hr

lemma code8 : Follows code8 byte m :=
  read rfl fun _ _ _ _ low high inside => byte_extract low high inside

lemma number {get : Memory → Nat → α} {of : UInt64 → α}
    (hk : k.toNat = size) (hget : ∀ mem a, of (numberAt mem a size 0) = get mem a) :
    Follows (take k fun ip => Memory.readAt ip size get) (of <$> Cursor.number size 0) m := by
  refine read hk fun mem base stop a low high inside => ?_
  show (Cursor.number size 0 _ _).map _ = _
  rw [Cursor.number_extract size 0 low high inside, ← hget]
  rfl

lemma code16 : Follows code16 (UInt64.toUInt16 <$> Cursor.number 2 0) m :=
  number rfl fun _ _ => Cursor.half_eq _ _

lemma code32 : Follows code32 (UInt64.toUInt32 <$> Cursor.number 4 0) m :=
  number rfl fun _ _ => Cursor.word_eq _ _ _ _

lemma code64 : Follows code64 (id <$> Cursor.number 8 0) m :=
  number rfl fun _ _ => Cursor.long_eq _ _ _ _ _ _ _ _

lemma int16 : Follows (do return (← Exec.code16).toInt16.toInt32) Cursor.int16 m := by
  have h := code16.map (m := m) fun v => v.toInt16.toInt32
  rwa [bind_map_left] at h

lemma char16 : Follows (do return (← Exec.code16).toUInt32.toInt32) Cursor.char16 m := by
  have h := code16.map (m := m) fun v => v.toUInt32.toInt32
  rwa [bind_map_left] at h

lemma int32 : Follows (do return (← Exec.code32).toInt32) Cursor.int32 m := by
  have h := code32.map (m := m) fun v => v.toInt32
  rwa [bind_map_left] at h

lemma int64 : Follows (do return (← Exec.code64).toInt64) Cursor.int64 m := by
  have h := code64.map (m := m) fun v => v.toInt64
  rwa [bind_map_left] at h

lemma fetchOperand (hw : op.operandShape ≠ .wordSwitch)
    (hh : ∀ padded, op.operandShape ≠ .halfSwitch padded) :
    Follows (fetchOperand op.operandShape) (operand op) m := by
  unfold Cursor.operand
  split <;> rename_i shape
  · rw [shape]
    exact pure _
  · rw [shape]
    exact code8.map _
  · rw [shape]
    have h := (code8.map (m := m) fun b => b.toInt8.toInt32).map Operand.int
    rwa [bind_assoc] at h
  · rw [shape]
    have h := (int16 (m := m)).map Operand.int
    rwa [bind_assoc] at h
  · rw [shape]
    have h := (char16 (m := m)).map Operand.int
    rwa [bind_assoc] at h
  · rw [shape]
    have h := (int32 (m := m)).map Operand.int
    rwa [bind_assoc] at h
  · rw [shape]
    have h := (int64 (m := m)).map Operand.long
    rwa [bind_assoc] at h
  · exact absurd shape (hh _)
  · exact absurd shape hw

lemma fetchWidened (widener : Opcode) {x : Exec Int32} {c : Cursor Int32}
    (hx : ∀ m, Follows x c m) :
    Follows (fetchWidened widener x) (do
      let next ← opcode
      return (next, some widener, .int (← c))) m := by
  unfold Exec.fetchWidened opcode
  rw [bind_assoc]
  refine code8.bind fun b n _ => ?_
  cases hop : (ofByte? b).filter (·.acceptsWide) with
  | none => exact throw
  | some op =>
    simp only [(Option.filter_eq_some_iff.1 hop).1]
    exact (hx n).map fun v => (op, some widener, Operand.int v)

lemma fetchFrom (hw : op.operandShape ≠ .wordSwitch)
    (hh : ∀ padded, op.operandShape ≠ .halfSwitch padded) :
    Follows (fetchFrom op) (partsFrom op) m := by
  cases op
  case wide high =>
    have h := fetchWidened (m := m) (.wide high) fun _ =>
      code8.map (twelveBits high)
    simp only [bind_assoc] at h
    exact h
  case wideHalf =>
    have h := fetchWidened (m := m) .wideHalf fun _ => int16
    exact h
  case wideFull =>
    have h := fetchWidened (m := m) .wideFull fun _ => int32
    exact h
  all_goals exact (fetchOperand hw hh).map _

lemma fetch (plain : ∀ byte op, Memory.code8 m.ip m.store.mem = .ok byte →
      ofByte? byte = some op → op.operandShape ≠ .wordSwitch ∧
        ∀ padded, op.operandShape ≠ .halfSwitch padded) :
    Follows fetch parts m := by
  rw [parts_eq, opcode, bind_assoc]
  refine code8.bind fun b n hb => ?_
  cases hop : ofByte? b with
  | none => exact throw
  | some op =>
    obtain ⟨hw, hh⟩ := plain b op ((take_eq_ok).1 hb).1 hop
    exact fetchFrom hw hh

end Follows

/-! ### What is executed is decoded -/

lemma shape_of_fetch {m n : Machine} {op : Opcode} {widener : Option Opcode} {operand : Operand}
    (h : fetch m = .ok (op, widener, operand) n) (stays : m.Stays op operand) {byte : UInt8}
    {first : Opcode} (hbyte : Memory.code8 m.ip m.store.mem = .ok byte)
    (hfirst : Opcode.ofByte? byte = some first) :
    first.operandShape ≠ .wordSwitch ∧ ∀ padded, first.operandShape ≠ .halfSwitch padded := by
  obtain ⟨b, o, hb, h⟩ := bind_eq_ok.1 h
  obtain ⟨hr, -, -⟩ := (take_eq_ok).1 hb
  cases hbyte.symm.trans hr
  rw [hfirst] at h
  cases first
  case tableswitch =>
    cases h
    cases stays
  case stableswitch =>
    cases h
    cases stays
  case stableswitchPad =>
    cases h
    cases stays
  all_goals exact ⟨nofun, nofun⟩

/-- The machine goes on behind the instruction that it is about to execute. -/
def FallsThrough (m : Machine) : Prop :=
  ∀ op widener operand n, fetch m = .ok (op, widener, operand) n → m.Stays op operand

/-- The decoder and the interpreter agree. An instruction that is executed and goes on behind itself
is decoded from the bytes that start with it: the interpreter has gone as far as the instruction is
long, its prefix included, and has done what the decoded opcode does with the decoded operand. The
operand of a method identifier, which is not looked at, has to be in memory. -/
theorem decoder_agrees {m n : Machine} (hstep : step m = .ok .proceed n) (falls : FallsThrough m)
    (inside : Memory.code8 m.ip m.store.mem = .ok Opcode.methodid.toByte →
      m.ip.toNat + 5 ≤ m.store.mem.size) {stop : Nat} (hstop : n.ip.toNat ≤ stop) :
    ∃ i d, Decoder.next { code := m.store.mem.bytes.extract m.ip.toNat stop } = .ok (some i, d) ∧
      i.offset = 0 ∧ d.pos = i.length ∧ m.ip.toNat + i.length = n.ip.toNat ∧
      fetch m = .ok (i.op, i.widened, i.operand) { m with ip := n.ip } ∧
      perform m.ip i.op i.operand { m with ip := n.ip } = .ok .proceed n := by
  obtain ⟨op, widener, operand, o, hfetch, hperform⟩ := step_split hstep inside
  have stays := falls op widener operand o hfetch
  obtain ⟨ho, hle, hparts⟩ := Follows.fetch
    (fun _ _ hbyte hfirst => shape_of_fetch hfetch stays hbyte hfirst) _ _ hfetch
  have hip : n.ip = o.ip := by
    have hs : o.Stays op operand := by
      rw [ho]
      exact stays
    exact ip_of_perform hs hperform
  have hdec := hparts m.ip.toNat stop (Nat.le_refl _) (hip ▸ hstop)
  rw [hip, ← ho]
  refine ⟨⟨0, o.ip.toNat - m.ip.toNat, op, widener, operand⟩,
    ⟨m.store.mem.bytes.extract m.ip.toNat stop, o.ip.toNat - m.ip.toNat⟩,
    ?_, rfl, rfl, ?_, hfetch, hperform⟩
  · rw [Nat.sub_self] at hdec
    simp only [Decoder.next, hdec]
    rfl
  · show m.ip.toNat + (o.ip.toNat - m.ip.toNat) = o.ip.toNat
    omega

-- The table of opcodes is long.
set_option maxRecDepth 2048

def codeMachine (bytes : List UInt8) : Machine where
  store := (Sample.store .copying []).setMem ⟨⟨bytes.toArray⟩, .big⟩
  sp := 4
  branchesLeft := 2

/-- A branch with a prefix that gives it a wide offset. -/
def widenedBranch : Machine :=
  codeMachine [wideHalf.toByte, (branch (.zero .eq)).toByte, 1, 2, 0, 0, 0, 1]

lemma widenedBranch_step : step widenedBranch =
    .ok .proceed { widenedBranch with ip := 4, sp := 0, branchesLeft := 1 } :=
  rfl

lemma widenedBranch_falls : FallsThrough widenedBranch := by
  intro op widener operand n h
  have hfetch : fetch widenedBranch = .ok (.branch (.zero .eq), some .wideHalf, .int 258)
    { widenedBranch with ip := 4 } := rfl
  cases hfetch.symm.trans h
  rintro ⟨v, hv, ht⟩
  have hw : wordAt widenedBranch.sp widenedBranch.store.mem = .ok 1 := rfl
  cases hw.symm.trans hv
  exact absurd ht (by decide)

/-- The branch that is not taken: four bytes, with the wide operand. -/
theorem decoder_agrees_widenedBranch :
    step widenedBranch = .ok .proceed { widenedBranch with ip := 4, sp := 0, branchesLeft := 1 } ∧
      FallsThrough widenedBranch ∧
      ∃ i d, Decoder.next { code := widenedBranch.store.mem.bytes.extract 0 8 } = .ok (some i, d) ∧
        i.offset = 0 ∧ d.pos = i.length ∧ 0 + i.length = 4 ∧
        fetch widenedBranch = .ok (i.op, i.widened, i.operand) { widenedBranch with ip := 4 } ∧
        perform 0 i.op i.operand { widenedBranch with ip := 4 } =
          .ok .proceed { widenedBranch with ip := 4, sp := 0, branchesLeft := 1 } :=
  ⟨widenedBranch_step, widenedBranch_falls,
    decoder_agrees widenedBranch_step widenedBranch_falls (fun h => by cases h) (by decide)⟩

/-- An instruction that is never executed, as the last byte. -/
def lastMethodid : Machine := codeMachine [methodid.toByte]

/-- A method identifier whose operand lies outside memory is executed and not decoded. -/
theorem methodid_not_decoded : ∃ m n : Machine,
    Memory.code8 m.ip m.store.mem = .ok Opcode.methodid.toByte ∧
      (∀ operand, m.Stays .methodid operand) ∧ FallsThrough m ∧
      step m = .ok .proceed n ∧ n.ip = m.ip + 5 ∧
      ∀ i d, Decoder.next
        { code := m.store.mem.bytes.extract m.ip.toNat m.store.mem.size } ≠ .ok (some i, d) := by
  refine ⟨lastMethodid, { lastMethodid with ip := 5 }, rfl, fun _ => trivial, ?_, rfl, rfl, ?_⟩
  · intro op widener operand n h
    have hfetch : fetch lastMethodid = .error .broken { lastMethodid with ip := 1 } := rfl
    cases hfetch.symm.trans h
  · intro i d h
    have hnone : Decoder.next { code := lastMethodid.store.mem.bytes.extract 0 1 } =
        .ok (none, ⟨lastMethodid.store.mem.bytes.extract 0 1, 1⟩) := rfl
    cases hnone.symm.trans h

end Exec

end DeviceVm
