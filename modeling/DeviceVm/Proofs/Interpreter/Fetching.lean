import DeviceVm.Interpreter.Execution
import DeviceVm.Proofs.Outcome
import DeviceVm.Proofs.Word

/-!
Execution as reading and doing. `fetch` reads an instruction with its prefix and its operand, and
`perform` does what an instruction with a given operand does, without a look at the code. An
instruction that is executed is one that is fetched and performed, wherever among its other work
the interpreter reads the operand. Switches read their arms themselves and count as instructions
without an operand here.
-/

namespace DeviceVm

open Memory Store

namespace Operand

def index : Operand → Int32
  | .byte b => b.toUInt32.toInt32
  | .int v => v
  | _ => 0

def number : Operand → UInt8
  | .byte b => b
  | _ => 0

def twoWords : Operand → UInt64
  | .long v => v.toUInt64
  | _ => 0

end Operand

namespace Exec

/-! ### Reading -/

/-- The operand of an instruction by its shape. Those of switches are read by the instruction
itself. -/
def fetchOperand : Opcode.OperandShape → Exec Operand
  | .nothing | .halfSwitch _ | .wordSwitch => return .nothing
  | .byte => return .byte (← code8)
  | .int8 => return .int (← code8).toInt8.toInt32
  | .int16 => return .int (← code16).toInt16.toInt32
  | .char16 => return .int (← code16).toUInt32.toInt32
  | .int32 => return .int (← code32).toInt32
  | .int64 => return .long (← code64).toInt64

/-- The instruction behind a prefix, whose operand the prefix has widened. -/
def fetchWidened (widener : Opcode) (operand : Exec Int32) :
    Exec (Opcode × Option Opcode × Operand) := do
  match (Opcode.ofByte? (← code8)).filter (·.acceptsWide) with
  | none => throw .broken
  | some op => return (op, some widener, .int (← operand))

def fetchFrom : Opcode → Exec (Opcode × Option Opcode × Operand)
  | .wide n => fetchWidened (.wide n) do return Cursor.twelveBits n (← code8)
  | .wideHalf => fetchWidened .wideHalf do return (← code16).toInt16.toInt32
  | .wideFull => fetchWidened .wideFull do return (← code32).toInt32
  | op => return (op, none, ← fetchOperand op.operandShape)

/-- The instruction at the instruction pointer with its operand, as it is executed. -/
def fetch : Exec (Opcode × Option Opcode × Operand) := do
  match Opcode.ofByte? (← code8) with
  | none => throw .broken
  | some op => fetchFrom op

/-! ### Doing -/

def performLong (byte : UInt8) : Exec Step :=
  match LongOp.ofByte? byte with
  | some op => longOperation op
  | none => fatal (.badLongOpcode byte)

def performFloat (byte : UInt8) : Exec Step :=
  match FloatOp.ofByte? byte with
  | some op => do
    floatOperation op
    return .proceed
  | none => fatal (.badFloatOpcode byte)

def performAdd (index : Int32) (delta : UInt32) : Exec Step := do
  let lp := (← get).lp
  let v ← word lp index
  setWord lp index (v + delta)
  return .proceed

def performInvoke (slot : UInt8) : InvokeKind → Exec Step
  | .virtual => invokeVirtual slot.toUInt32
  | .super => invokeSuper slot.toUInt32
  | .static | .init => invokeStatic slot.toUInt32.toInt32
  | .interface => invokeInterface slot.toUInt32.toInt32
  | .native => do
    let _ ← pop
    invokeNative slot

def performGetField (index : Int32) (subject : Subject) (width : LoadWidth) : Exec Step := do
  let obj ← fieldOwner subject
  if obj == 0 then return ← raise .nullPointerException
  match width with
  | .long => pushLong (← longAtWord obj index)
  | _ => push (← loadValue width obj index)
  return .proceed

def performPutFieldBy (index : Int32) (subject : Subject)
    (write : (obj : UInt32) → (index : Int32) → Run Bool) : Exec Step := do
  let obj ← fieldOwner subject
  if obj == 0 then return ← raise .nullPointerException
  if ← write obj index then return .proceed else raise .illegalStoreException

def performPutField (index : Int32) (subject : Subject) : StoreWidth → Exec Step
  | .ref => do
    let v ← pop
    performPutFieldBy index subject fun obj index => setReference obj index v
  | .long => do
    let v ← popLong
    performPutFieldBy index subject fun obj index => writeTo obj (setLongAtWord obj index v)
  | width => do
    let v ← pop
    performPutFieldBy index subject fun obj index => writeTo obj (storeValue width obj index v)

def performGetStatic (index : Int32) (subject : Subject) (width : StaticWidth) : Exec Step := do
  let k ← staticOwner subject
  let state ← findClassState k
  if state != 0 then
    match width with
    | .long => pushLong (← longAtWord state index)
    | .word | .ref => push (← word state index)
    return .proceed
  pushInt index
  push k
  return .call (if width == .long then .getStaticLong else .getStatic)

def performPutStatic (index : Int32) (subject : Subject) (width : StaticWidth) : Exec Step := do
  let k ← staticOwner subject
  match width with
  | .long =>
    let v ← popLong
    let state ← findClassState k
    if state != 0 then
      setLongAtWord state index v
      return .proceed
    pushLong v
    pushInt index
    push k
    return .call .putStaticLong
  | .word | .ref =>
    let v ← pop
    let state ← findClassState k
    if state != 0 then
      if width == .ref then setReferenceInRam state index v
      else setWord state index v
      return .proceed
    push v
    pushInt index
    push k
    return .call (if width == .ref then .putStaticObj else .putStatic)

/-- What the instruction at `start` does, given its operand. -/
def perform (start : UInt32) (op : Opcode) (operand : Operand) : Exec Step :=
  match op with
  | .constByte | .constShort | .constChar | .constInt | .constFloat => do
    pushInt operand.index
    return .proceed
  | .constLong | .constDouble => do
    pushLong operand.twoWords
    return .proceed
  | .objectAt => do
    pushObject operand.index
    return .proceed
  | .classAt => do
    pushClass operand.index
    return .proceed
  | .loadAt => loadLocal operand.index
  | .storeAt => storeLocal operand.index
  | .extendBy => extendFrame start operand.number.toUInt32
  | .inc => performAdd operand.index 1
  | .dec => performAdd operand.index 0xffffffff
  | .loadLong => do
    pushLong (← longAtWord (← get).lp operand.index)
    return .proceed
  | .storeLong => do
    let v ← popLong
    setLongAtWord (← get).lp operand.index v
    return .proceed
  | .longOp => performLong operand.number
  | .floatOp => performFloat operand.number
  | .invoke kind _ => performInvoke operand.number kind
  | .getstatic subject width => performGetStatic operand.index subject width
  | .putstatic subject width => performPutStatic operand.index subject width
  | .getfield subject width => performGetField operand.index subject width
  | .putfield subject width => performPutField operand.index subject width
  | .branch test => branchOn test (some operand.index)
  | .methodid => return .proceed
  | op => execute start none op

/-! ### Results that carry over -/

/-- Whenever the first ends without an error, the second does the same. -/
def Below {α : Type} (x y : Exec α) : Prop := ∀ m a n, x m = .ok a n → y m = .ok a n

variable {α β : Type} {m n : Machine} {start : UInt32} {op : Opcode} {k : UInt32} {r : Step}

lemma bind_eq_ok {x : Exec α} {f : α → Exec β} {o : Machine} {b : β} :
    (x >>= f) m = .ok b o ↔ ∃ a n, x m = .ok a n ∧ f a n = .ok b o := by
  show EStateM.bind x f m = .ok b o ↔ _
  cases hx : x m with
  | ok a n => simp [EStateM.bind, hx]
  | error e n => simp [EStateM.bind, hx]

namespace Below

lemma of_eq {x y : Exec α} (h : x = y) : Below x y := by
  subst h
  exact fun _ _ _ hx => hx

lemma trans {x y z : Exec α} (hxy : Below x y) (hyz : Below y z) : Below x z :=
  fun m a n hx => hyz m a n (hxy m a n hx)

lemma bind {x : Exec α} {f g : α → Exec β} (h : ∀ a, Below (f a) (g a)) :
    Below (x >>= f) (x >>= g) := by
  intro m b o hr
  obtain ⟨a, n, hx, hf⟩ := bind_eq_ok.1 hr
  exact bind_eq_ok.2 ⟨a, n, hx, h a n b o hf⟩

lemma fatal {cause : FatalCause} {y : Exec α} :
    Below (liftM (fatal cause : Run α) : Exec α) y := by
  intro m a n h
  cases h

end Below

lemma read_eq_ok {r : Read α} {a : α} :
    (liftM r : Exec α) m = .ok a n ↔ r m.store.mem = .ok a ∧ n = m := by
  simp only [liftM, monadLift, MonadLift.monadLift]
  cases r m.store.mem with
  | ok b =>
    constructor
    · intro h
      cases h
      exact ⟨rfl, rfl⟩
    · rintro ⟨h, rfl⟩
      cases h
      rfl
  | error e => simp

lemma except_eq_ok {e : Except Fault α} {a : α} :
    (liftM e : Exec α) m = .ok a n ↔ e = .ok a ∧ n = m := by
  cases e with
  | ok b =>
    show EStateM.Result.ok b m = .ok a n ↔ _
    simp [eq_comm]
  | error e =>
    simp

/-! ### Operands in the code and on the stack -/

def take (k : UInt32) (r : UInt32 → Read α) : Exec α := do
  let v ← r (← get).ip
  skip k
  return v

lemma skip_eq_ok {u : Unit} : skip k m = .ok u n ↔
      m.ip.toNat + k.toNat < 4294967296 ∧ n = { m with ip := m.ip + k } := by
  show (do
    let ip ← (liftM (Word.plus m.ip k) : Exec UInt32)
    modify fun s : Machine => { s with ip }) m = EStateM.Result.ok () n ↔ _
  simp only [bind_eq_ok, except_eq_ok, Word.plus]
  constructor
  · rintro ⟨ip, _, ⟨hp, rfl⟩, hm⟩
    split at hp
    · cases hp
      cases hm
      exact ⟨‹_›, rfl⟩
    · cases hp
  · rintro ⟨hlt, rfl⟩
    exact ⟨_, _, ⟨if_pos hlt, rfl⟩, rfl⟩

lemma take_eq_ok {r : UInt32 → Read α} {a : α} :
    take k r m = .ok a n ↔ r m.ip m.store.mem = .ok a ∧
      m.ip.toNat + k.toNat < 4294967296 ∧ n = { m with ip := m.ip + k } := by
  show (do
    let v ← (liftM (r m.ip) : Exec α)
    skip k
    return v) m = .ok a n ↔ _
  simp only [bind_eq_ok, read_eq_ok]
  constructor
  · rintro ⟨v, _, ⟨hr, rfl⟩, _, o, ho, hp⟩
    cases hp
    exact ⟨hr, skip_eq_ok.1 ho⟩
  · rintro ⟨hr, hn⟩
    exact ⟨a, m, ⟨hr, rfl⟩, (), n, skip_eq_ok.2 hn, rfl⟩

lemma operand_eq_ok {r : Read α} {sp : UInt32} {v : α} :
    (do
      let v ← (liftM r : Exec α)
      modify fun s : Machine => { s with sp }
      return v : Exec α) m = .ok v n ↔ r m.store.mem = .ok v ∧ n = { m with sp } := by
  simp only [bind_eq_ok, read_eq_ok]
  constructor
  · rintro ⟨_, _, ⟨hv, rfl⟩, _, _, hm, hp⟩
    cases hm
    cases hp
    exact ⟨hv, rfl⟩
  · rintro ⟨hv, rfl⟩
    exact ⟨v, m, ⟨hv, rfl⟩, (), _, rfl, rfl⟩

lemma pop_eq_ok {v : UInt32} :
    pop m = .ok v n ↔ wordAt m.sp m.store.mem = .ok v ∧ n = { m with sp := m.sp - 4 } :=
  operand_eq_ok

lemma popLong_eq_ok {v : UInt64} :
    popLong m = .ok v n ↔ longAtWord (m.sp - 4) 0 m.store.mem = .ok v ∧
      n = { m with sp := m.sp - 4 - 4 } :=
  operand_eq_ok

/-- The work takes operands from the stack and has nothing to do with the code. -/
def TakesOperands (x : Exec α) : Prop :=
  ∀ m a n, x m = .ok a n → ∃ sp, n = { m with sp } ∧
    ∀ ip, x { m with ip } = .ok a { m with ip, sp }

lemma TakesOperands.pop : TakesOperands pop := by
  intro m a n h
  obtain ⟨hv, hn⟩ := pop_eq_ok.1 h
  exact ⟨_, hn, fun ip => pop_eq_ok.2 ⟨hv, rfl⟩⟩

lemma TakesOperands.popLong : TakesOperands popLong := by
  intro m a n h
  obtain ⟨hv, hn⟩ := popLong_eq_ok.1 h
  exact ⟨_, hn, fun ip => popLong_eq_ok.2 ⟨hv, rfl⟩⟩

lemma TakesOperands.fieldOwner (subject : Subject) : TakesOperands (fieldOwner subject) := by
  cases subject with
  | operand => exact .pop
  | current =>
    intro m a n h
    obtain ⟨hv, hn⟩ := read_eq_ok.1 (show (liftM (word m.lp 0) : Exec UInt32) m = .ok a n from h)
    exact ⟨m.sp, hn, fun ip => (read_eq_ok).2 ⟨hv, rfl⟩⟩

lemma Below.take_first {γ : Type} {r : UInt32 → Read β} {x : Exec α}
    {f : α → β → Exec γ} (hx : TakesOperands x) :
    Below (x >>= fun a => take k r >>= fun b => f a b)
      (take k r >>= fun b => x >>= fun a => f a b) := by
  intro m c p hr
  obtain ⟨a, n, ha, hr⟩ := bind_eq_ok.1 hr
  obtain ⟨b, o, hb, hr⟩ := bind_eq_ok.1 hr
  obtain ⟨sp, rfl, hip⟩ := hx m a n ha
  obtain ⟨hread, hlt, rfl⟩ := take_eq_ok.1 hb
  refine bind_eq_ok.2 ⟨b, _, take_eq_ok.2 ⟨hread, hlt, rfl⟩, ?_⟩
  exact bind_eq_ok.2 ⟨a, _, hip _, hr⟩

/-! ### An instruction is fetched and performed -/

lemma codeIndex_bind (f : Int32 → Exec α) :
    codeIndex >>= f = code8 >>= fun b => f (Operand.byte b).index := by
  simp only [codeIndex, bind_assoc, pure_bind, Operand.index]

lemma Below.code8_first {x : Exec α} {f : α → UInt8 → Exec β} (hx : TakesOperands x) :
    Below (x >>= fun a => code8 >>= fun b => f a b) (code8 >>= fun b => x >>= fun a => f a b) :=
  take_first hx

lemma loadField_below (subject : Subject) (width : LoadWidth) :
    Below (loadField subject width)
      (code8 >>= fun b => performGetField (Operand.byte b).index subject width) := by
  unfold loadField
  simp only [codeIndex_bind]
  exact .code8_first (.fieldOwner subject)

lemma storeFieldBy_below (subject : Subject) (write : UInt32 → Int32 → Run Bool) :
    Below (storeFieldBy subject write)
      (code8 >>= fun b => performPutFieldBy (Operand.byte b).index subject write) := by
  unfold storeFieldBy
  simp only [codeIndex_bind]
  exact .code8_first (.fieldOwner subject)

lemma storeField_below (subject : Subject) (width : StoreWidth) :
    Below (storeField subject width)
      (code8 >>= fun b => performPutField (Operand.byte b).index subject width) := by
  cases width with
  | ref => exact (Below.bind fun v => storeFieldBy_below subject _).trans (.code8_first .pop)
  | long => exact (Below.bind fun v => storeFieldBy_below subject _).trans (.code8_first .popLong)
  | byte => exact (Below.bind fun v => storeFieldBy_below subject _).trans (.code8_first .pop)
  | short => exact (Below.bind fun v => storeFieldBy_below subject _).trans (.code8_first .pop)
  | word => exact (Below.bind fun v => storeFieldBy_below subject _).trans (.code8_first .pop)

lemma invoke_below (kind : InvokeKind) :
    Below (invoke kind) (code8 >>= fun b => performInvoke b kind) := by
  cases kind with
  | virtual => exact .of_eq rfl
  | super => exact .of_eq rfl
  | static => exact .of_eq (codeIndex_bind _)
  | init => exact .of_eq (codeIndex_bind _)
  | interface => exact .of_eq (codeIndex_bind _)
  | native => exact .code8_first .pop

lemma execute_below (h : op ≠ .methodid) :
    Below (execute start none op) (fetchOperand op.operandShape >>= perform start op) := by
  cases op
  all_goals simp only [Opcode.operandShape, fetchOperand, pure_bind, bind_assoc]
  case methodid => exact absurd rfl h
  case getfield subject width => exact loadField_below subject width
  case putfield subject width => exact storeField_below subject width
  case invoke kind size => exact invoke_below kind
  case branch test =>
    simp only [execute, branchOn, branchOffset, bind_assoc, pure_bind]
    exact .of_eq rfl
  all_goals first
    | exact .of_eq rfl
    | exact .of_eq (codeIndex_bind _)

lemma execute_wide (h : op.acceptsWide = true) (v : Int32) :
    execute start (some v) op = perform start op (.int v) := by
  cases op
  case objectAt => rfl
  case classAt => rfl
  case branch test => rfl
  all_goals cases h

lemma widened_below (widener : Opcode) {operand : Exec Int32} : Below (widened start operand)
      (fetchWidened widener operand >>= fun i => perform start i.1 i.2.2) := by
  unfold widened fetchWidened
  rw [bind_assoc]
  refine .bind fun b => ?_
  cases hop : (Opcode.ofByte? b).filter (·.acceptsWide) with
  | none => exact .fatal
  | some op =>
    have hw := (Option.filter_eq_some_iff.1 hop).2
    simp only [bind_assoc, pure_bind, execute_wide hw]
    exact .of_eq rfl

lemma toByte_methodid {byte : UInt8} (h : Opcode.ofByte? byte = some .methodid) :
    Opcode.methodid.toByte = byte := by
  have hall : Opcode.table.toList.zipIdx.all (fun p =>
      p.1 != .methodid || Opcode.methodid.toByte == UInt8.ofNat p.2) = true := by
    decide +kernel
  have hmem : (Opcode.methodid, byte.toNat) ∈ Opcode.table.toList.zipIdx :=
    List.mk_mem_zipIdx_iff_getElem?.2 (Array.getElem?_toList.trans h)
  simpa using List.all_eq_true.1 hall _ hmem

lemma methodid_split (h : execute start none .methodid m = .ok r n)
    (inside : m.ip.toNat + 4 ≤ m.store.mem.size) :
    (fetchOperand Opcode.methodid.operandShape >>= perform start .methodid) m = .ok r n := by
  obtain ⟨_, o, ho, hp⟩ := bind_eq_ok.1 (show (skip 4 >>= fun _ => pure Step.proceed) m = _ from h)
  have hread : Memory.code32 m.ip m.store.mem = .ok (Memory.bigWord m.store.mem m.ip.toNat) :=
    if_pos (decide_eq_true inside)
  have htake : code32 m = .ok _ o := (take_eq_ok).2 ⟨hread, skip_eq_ok.1 ho⟩
  simp only [Opcode.operandShape, fetchOperand, bind_assoc, pure_bind]
  exact bind_eq_ok.2 ⟨_, o, htake, hp⟩

def executeFrom (start : UInt32) : Opcode → Exec Step
  | .wide n => widened start do return Cursor.twelveBits n (← code8)
  | .wideHalf => widened start do return (← code16).toInt16.toInt32
  | .wideFull => widened start do return (← code32).toInt32
  | op => execute start none op

lemma executeFrom_split (h : executeFrom start op m = .ok r n)
    (inside : op = .methodid → m.ip.toNat + 4 ≤ m.store.mem.size) :
    (fetchFrom op >>= fun i => perform start i.1 i.2.2) m = .ok r n := by
  unfold executeFrom at h
  split at h
  · rw [fetchFrom]
    exact widened_below _ _ _ _ h
  · rw [fetchFrom]
    exact widened_below _ _ _ _ h
  · rw [fetchFrom]
    exact widened_below _ _ _ _ h
  rename_i hwide hhalf hfull
  have hx : (fetchOperand op.operandShape >>= perform start op) m = .ok r n := by
    by_cases hid : op = .methodid
    · subst hid
      exact methodid_split h (inside rfl)
    · exact execute_below hid _ _ _ h
  unfold fetchFrom
  split
  · exact absurd rfl (hwide _)
  · exact absurd rfl hhalf
  · exact absurd rfl hfull
  · simp only [bind_assoc]
    exact hx

lemma step_split (h : step m = .ok r n)
    (inside : Memory.code8 m.ip m.store.mem = .ok Opcode.methodid.toByte →
      m.ip.toNat + 5 ≤ m.store.mem.size) :
    ∃ op widener operand o, fetch m = .ok (op, widener, operand) o ∧
      perform m.ip op operand o = .ok r n := by
  suffices hs : (fetch >>= fun i => perform m.ip i.1 i.2.2) m = .ok r n by
    obtain ⟨⟨op, widener, operand⟩, o, hf, hp⟩ := bind_eq_ok.1 hs
    exact ⟨op, widener, operand, o, hf, hp⟩
  obtain ⟨_, _, hg, h⟩ := bind_eq_ok.1 h
  cases hg
  obtain ⟨byte, n1, hbyte, h⟩ := bind_eq_ok.1 h
  unfold fetch
  rw [bind_assoc]
  refine bind_eq_ok.2 ⟨byte, n1, hbyte, ?_⟩
  cases hop : Opcode.ofByte? byte with
  | none =>
    rw [hop] at h
    exact Below.fatal _ _ _ h
  | some op =>
    have h : executeFrom m.ip op n1 = .ok r n := by
      rw [hop] at h
      cases op <;> exact h
    refine executeFrom_split h ?_
    rintro rfl
    obtain ⟨hread, hlt, rfl⟩ := (take_eq_ok).1 hbyte
    have := inside (toByte_methodid hop ▸ hread)
    have : (m.ip + 1).toNat = m.ip.toNat + 1 := Word.toNat_plus hlt
    show (m.ip + 1).toNat + 4 ≤ m.store.mem.size
    omega

end Exec

end DeviceVm
