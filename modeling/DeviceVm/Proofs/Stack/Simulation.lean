import DeviceVm.Proofs.Stack.SampleScene
import DeviceVm.Proofs.Stack.Instructions
import DeviceVm.Proofs.Stack.Starting
import DeviceVm.Proofs.Stack.Unwinding

/-!
The interpreter runs the calls of a context. `Scene.Moves` says what an instruction makes of the
calls, without chunks, and `Scene.Represents` that a machine has the calls of a context, wherever
their frames are. Every move is made by one round of the interpreter loop; the only other thing
that can happen is that a frame has to move and no chunk can be had for it. The context is then
saved as it was before the instruction.
-/

namespace DeviceVm.Stack

open UInt32 List Exec Memory Sample Word

variable {S : Scene} {s : Store} {m : Machine} {w : Placement} {σ τ ρ : Calls} {c : Call}
  {cs : List Call} {ip : UInt32}

namespace Scene

variable (S)

/-- The code of a method goes on at `next` when its frame has been extended. -/
inductive Begins (mp : UInt32) : UInt32 → Prop
  | short {k : Fin 16} (code : Instructs S.fixed S.mem (S.entry mp) (.extend k)) :
      Begins mp (S.entry mp + 1)
  | long (code : Instructs S.fixed S.mem (S.entry mp) .extendBy) : Begins mp (S.entry mp + 2)

/-- What one instruction makes of the calls of a context. -/
inductive Moves : Calls → Calls → Prop
  /-- The locals behind the parameters are zero and there are no operands. -/
  | extend {c : Call} {cs : List Call} {next : UInt32} (begins : S.Begins c.method next) :
      Moves ⟨c, false, cs⟩
        ⟨{ c.grown ((S.form c.method).locals - c.locals.length) with ip := next }, true, cs⟩
  | acts {c d : Call} {cs : List Call} {op : Opcode} (code : Instructs S.fixed S.mem c.ip op)
      (acts : S.Acts op { c with ip := c.ip + 1 } d) (behind : d.ip ≠ S.entry c.method) :
      Moves ⟨c, true, cs⟩ ⟨d, true, cs⟩
  /-- The operands are the arguments of the callee, and its class where the instruction takes it
  from the stack. -/
  | invoke {c : Call} {cs : List Call} {kind : InvokeKind} {size : ResultSize} {slot : UInt8}
      {args : List UInt32} {k mp : UInt32} (code : Instructs S.fixed S.mem c.ip (.invoke kind size))
      (operand : Settled S.fixed S.mem (code8 (c.ip + 1)) slot)
      (range : c.ip.toNat + 2 < 4294967296) (behind : c.ip + 2 ≠ S.entry c.method)
      (resolves : S.Resolves kind slot c.operands args k mp) (method : S.isMethod mp)
      (owner : S.isClass k) (count : args.length = (S.form mp).parameters) :
      Moves ⟨c, true, cs⟩
        ⟨⟨mp, S.entry mp, k, args, []⟩, false, c.waiting (c.ip + 2) :: cs⟩
  | invokeNull {c : Call} {cs : List Call} {kind : InvokeKind} {size : ResultSize} {slot : UInt8}
      {k mp : UInt32} (code : Instructs S.fixed S.mem c.ip (.invoke kind size))
      (operand : Settled S.fixed S.mem (code8 (c.ip + 1)) slot)
      (range : c.ip.toNat + 2 < 4294967296) (behind : c.ip + 2 ≠ S.entry c.method)
      (none : S.NoReceiver kind c.operands) (supports : S.Supports .nullPointerException k mp)
      (method : S.isMethod mp) (owner : S.isClass k) (count : (S.form mp).parameters = 0) :
      Moves ⟨c, true, cs⟩ ⟨⟨mp, S.entry mp, k, [], []⟩, false, c.waiting (c.ip + 2) :: cs⟩
  /-- The caller goes on where it was, with the returned words as its operands. -/
  | ret {c d : Call} {cs : List Call} {size : ResultSize} {rest results : List UInt32}
      (code : Instructs S.fixed S.mem c.ip (.ret size)) (operands : c.operands = rest ++ results)
      (count : results.length = words size)
      (room : results.length ≤ (S.form d.method).operands) :
      Moves ⟨c, true, d :: cs⟩ ⟨{ d with operands := results }, true, cs⟩
  | throw {c : Call} {cs : List Call} {rest : List UInt32} {exception k : UInt32} {τ : Calls}
      (code : Instructs S.fixed S.mem c.ip .throwTop) (operands : c.operands = rest ++ [exception])
      (some_exception : exception ≠ 0)
      (kind : Settled S.fixed S.mem (Header.classOf exception) k)
      (unwinds : S.Unwinds k exception ({ c with ip := c.ip + 1, operands := rest } :: cs) τ) :
      Moves ⟨c, true, cs⟩ τ
  | throwNull {c : Call} {cs : List Call} {rest : List UInt32} {k mp : UInt32}
      (code : Instructs S.fixed S.mem c.ip .throwTop) (operands : c.operands = rest ++ [0])
      (behind : c.ip + 1 ≠ S.entry c.method) (supports : S.Supports .nullPointerException k mp)
      (method : S.isMethod mp) (owner : S.isClass k) (count : (S.form mp).parameters = 0) :
      Moves ⟨c, true, cs⟩ ⟨⟨mp, S.entry mp, k, [], []⟩, false, c.waiting (c.ip + 1) :: cs⟩

/-- So many steps of calls. -/
inductive Runs : Nat → Calls → Calls → Prop
  | refl (σ : Calls) : Runs 0 σ σ
  | cons {n : Nat} {σ ρ τ : Calls} (first : S.Moves σ ρ) (rest : Runs n ρ τ) : Runs (n + 1) σ τ

/-- The machine is where the innermost call goes on, with the frames of all calls in its memory. -/
def Represents (m : Machine) (σ : Calls) : Prop :=
  ∃ w, S.Standing m σ w ∧ m.ip = σ.top.ip ∧
    (σ.entered = true ↔ σ.top.ip ≠ S.entry σ.top.method)

/-- `n` instructions lead from the calls `σ` to the calls `τ`. The run ends early only where a call
was started whose frame has to move and no chunk can be had; the context is then saved as it was
before the instruction. -/
def Carries (m : Machine) (n : Nat) (σ τ : Calls) : Prop :=
  (∃ m', S.Represents m' τ ∧ ∀ budget, runFor (budget + n) m = runFor budget m') ∨
  ∃ i ρ m₁ m₂ w w', i < n ∧ S.Runs i σ ρ ∧ S.Runs (n - i) ρ τ ∧ ρ.entered = false ∧
    S.Represents m₁ ρ ∧ (∀ budget, runFor (budget + i) m = runFor budget m₁) ∧
    S.Standing m₁ ρ w ∧ S.Stuck m₁ w ρ.top ∧ S.Saved m₂.store ρ w' ∧
    ∀ budget, runFor (budget + i + 1) m = .ok (.collect w'.room.chunk) m₂

/-- What a round of the loop makes of a context: the move, or the context is saved because there
is no chunk for the frame of a call that was started. -/
def Turns (m : Machine) (σ τ : Calls) (r : Option Suspension) (n : Machine) : Prop :=
  (r = none ∧ S.Represents n τ) ∨
  (σ.entered = false ∧ ∃ w w', S.Standing m σ w ∧ S.Stuck m w σ.top ∧ S.Saved n.store σ w' ∧
    r = some (.collect w'.room.chunk))

variable {S}

lemma Standing.turn (ok : S.Ok) (h : S.Standing m σ w) {op : Opcode}
    (code : Instructs S.fixed S.mem m.ip op) (plain : op.isPlain = true)
    {P : Option Suspension → Machine → Prop}
    (hx : ∀ o : Machine, S.Standing o σ w → o.ip = m.ip + 1 →
      (S.Stuck o w σ.top → S.Stuck m w σ.top) → m.store.Onward o.store →
      Gives (execute m.ip none op >>= settle) o P) : Gives turn m P := by
  obtain ⟨byte, hb, hop⟩ := code.code
  refine .turn (hb _ h.rests.ready.agrees) hop plain code.range (h.size ok) fun log => ?_
  refine hx _ ?_ rfl (fun hs => ⟨hs.crowded, hs.spare, hs.short⟩) ((Store.Onward.refl _).setLog log)
  have h1 : S.Standing { m with ip := m.ip + 1, instructions := m.instructions + 1 } σ w :=
    h.congr rfl rfl rfl rfl rfl rfl
  exact h1.setLog log

lemma Standing.turn_extend (ok : S.Ok) (h : S.Standing m ⟨c, false, cs⟩ w) {o : Machine}
    (ho : S.Standing o ⟨c, false, cs⟩ w) (stuck : S.Stuck o w c → S.Stuck m w c)
    (hip : c.ip = S.entry c.method) {next operands : UInt32} (hnext : o.ip = next)
    (behind : next ≠ S.entry c.method) (hops : operands.toNat = (S.form c.method).operands)
    (onward : m.store.Onward o.store) :
    Gives (Exec.extendFrame c.ip operands >>= settle) o fun r n => S.Turns m ⟨c, false, cs⟩
      ⟨{ c.grown ((S.form c.method).locals - c.locals.length) with ip := next }, true, cs⟩ r n ∧
      m.store.Onward n.store := by
  refine .next (ho.extendFrame ok rfl hip hops (fun n w' h1 h2 h3 => ?_) fun n w' h1 h2 h3 => ?_)
  · exact .pure ⟨.inl ⟨rfl, w', h1.goOn next, h2.trans hnext, by simpa [Call.grown] using behind⟩,
      onward.trans h3⟩
  · exact .pure ⟨.inr ⟨rfl, w, w', h, stuck h1, h2, rfl⟩, onward.trans h3⟩

lemma Moves.turn_extend (ok : S.Ok) (h : S.Represents m ⟨c, false, cs⟩) {next : UInt32}
    (begins : S.Begins c.method next) : Gives turn m fun r n => S.Turns m ⟨c, false, cs⟩
      ⟨{ c.grown ((S.form c.method).locals - c.locals.length) with ip := next }, true, cs⟩ r n ∧
      m.store.Onward n.store := by
  obtain ⟨w, hw, hip, hent⟩ := h
  have hentry : c.ip = S.entry c.method := by simpa using hent
  have hreads : Method.Reads S.fixed S.mem c.method (S.form c.method) :=
    ok.method _ (hw.called rfl).known
  have hO := hreads.operands_lt
  cases begins with
  | @short k code =>
    have hk : k.val = (S.form c.method).operands := by
      rcases hreads.extend with ⟨j, hcode, hj⟩ | ⟨hcode, -⟩
      · cases code.unique hcode
        exact hj
      · cases code.unique hcode
    refine hw.turn ok (show Instructs S.fixed S.mem m.ip _ by rw [hip, hentry]; exact code) rfl
      fun o ho hoip hstuck hon => ?_
    rw [hip]
    refine hw.turn_extend ok ho hstuck hentry (hoip.trans (by rw [hip, hentry])) ?_ ?_ hon
    · simp
    · exact (toNat_nat (by omega)).trans hk
  | long code =>
    rcases hreads.extend with ⟨j, hcode, -⟩ | ⟨-, hbyte⟩
    · cases code.unique hcode
    refine hw.turn ok (show Instructs S.fixed S.mem m.ip _ by rw [hip, hentry]; exact code) rfl
      fun o ho hoip hstuck hon => ?_
    rw [hip, hentry] at hoip
    rw [hip]
    have := hreads.range
    have hH := hreads.header_lt
    have := UInt32.toNat_one
    have hhead : (ofNat (S.form c.method).header).toNat = (S.form c.method).header :=
      toNat_ofNat_of_lt' (by exact Nat.lt_trans hH (by decide))
    have : (S.entry c.method).toNat = c.method.toNat + (S.form c.method).header := by
      rw [Scene.entry, toNat_plus (by omega), hhead]
    unfold Exec.execute
    simp only [bind_assoc]
    refine .code8_bind (hoip ▸ hbyte _ ho.rests.ready.agrees) ?_ ?_
    · rw [hoip, toNat_plus] <;> omega
    · refine hw.turn_extend (o := { o with ip := o.ip + 1 }) ok (ho.congr rfl rfl rfl rfl rfl rfl)
        (fun hs => hstuck ⟨hs.crowded, hs.spare, hs.short⟩) hentry ?_ ?_ ?_ hon
      · grind
      · simp
      · exact UInt8.toNat_ofNat_of_lt' hO

lemma Standing.turn_support (ok : S.Ok) (h : S.Standing m ⟨c.waiting ip, true, cs⟩ w)
    {k mp : UInt32} (supports : S.Supports .nullPointerException k mp) (method : S.isMethod mp)
    (owner : S.isClass k) (count : (S.form mp).parameters = 0)
    (room : 0 < (S.form c.method).operands) (hip : m.ip = ip) (behind : ip ≠ S.entry c.method)
    {n : Machine} (onward : n.store.Onward m.store) :
    Gives (settle (.call .nullPointerException)) m fun r o =>
      S.Turns n σ ⟨⟨mp, S.entry mp, k, [], []⟩, false, c.waiting ip :: cs⟩ r o ∧
      n.store.Onward o.store := by
  refine .next (h.callSupport ok rfl (by decide) supports method owner count.symm room
    (hip ▸ behind) fun n w' h1 h2 h3 => ?_)
  rw [hip] at h1
  exact .pure ⟨.inl ⟨rfl, w', h1, h2, by simp⟩, onward.trans h3⟩

lemma Moves.turn (ok : S.Ok) (h : S.Represents m σ) (move : S.Moves σ τ) :
    Gives turn m fun r n => S.Turns m σ τ r n ∧ m.store.Onward n.store := by
  cases move with
  | extend begins => exact Moves.turn_extend ok h begins
  | @acts c d cs op code acts behind =>
    obtain ⟨w, hw, hip, -⟩ := h
    refine hw.turn ok (hip ▸ code) acts.isPlain fun o ho hoip _ hon => ?_
    have h1 := ho.goOn (c.ip + 1)
    refine h1.acts ok (hoip.trans (by rw [hip])) acts fun n h2 h3 h4 =>
      ⟨.inl ⟨rfl, w, h2, h3, ?_⟩, hon.trans h4⟩
    simpa [acts.method_eq] using behind
  | @invoke c cs kind size slot args k mp code operand range behind resolves method owner count =>
    obtain ⟨w, hw, hip, -⟩ := h
    have hip : m.ip = c.ip := hip
    refine hw.turn ok (hip ▸ code) rfl fun o ho hoip _ hon => ?_
    rw [hip] at hoip
    have := UInt32.toNat_one
    have hnext : o.ip + 1 = c.ip + 2 := by grind
    refine .next (ho.invoke ok rfl (hoip ▸ operand) ?_ (hnext ▸ behind) resolves method owner
      count fun n w' h1 h2 h3 => ?_)
    · rw [hoip, toNat_plus] <;> omega
    · rw [hnext] at h1
      exact .pure ⟨.inl ⟨rfl, w', h1, h2, by simp⟩, hon.trans h3⟩
  | @invokeNull c cs kind size slot k mp code operand range behind none supports method owner
    count =>
    obtain ⟨w, hw, hip, -⟩ := h
    have hip : m.ip = c.ip := hip
    refine hw.turn ok (hip ▸ code) rfl fun o ho hoip _ hon => ?_
    rw [hip] at hoip
    have := UInt32.toNat_one
    have hnext : o.ip + 1 = c.ip + 2 := by grind
    refine .next (ho.invoke_null ok rfl (hoip ▸ operand) ?_ (hnext ▸ behind) none
      fun n h1 h2 h3 => ?_)
    · rw [hoip, toNat_plus] <;> omega
    · rw [hnext] at h1 h2
      exact h1.turn_support ok supports method owner count (ho.room rfl none.operands_pos) h2
        behind (hon.trans h3)
  | @ret c d cs size rest results code operands count room =>
    obtain ⟨w, hw, hip, -⟩ := h
    refine hw.turn ok (hip ▸ code) rfl fun o ho hoip _ hon => ?_
    refine .next (ho.returnFrom ok rfl rfl operands count room fun n w' h1 h2 h3 h4 => ?_)
    exact .pure ⟨.inl ⟨rfl, w', h1, h2, by simpa using h3⟩, hon.trans h4⟩
  | @throw c cs rest exception k _ code operands some_exception kind unwinds =>
    obtain ⟨w, hw, hip, -⟩ := h
    refine hw.turn ok (hip ▸ code) rfl fun o ho hoip _ hon => ?_
    rw [hip] at hoip
    refine .next (ho.throwOperand ok operands some_exception kind (hoip ▸ unwinds)
      fun n w' h1 h2 h3 h4 h5 => ?_)
    exact .pure ⟨.inl ⟨rfl, w', h1, h3, by simpa [h2] using h4⟩, hon.trans h5⟩
  | @throwNull c cs rest k mp code operands behind supports method owner count =>
    obtain ⟨w, hw, hip, -⟩ := h
    refine hw.turn ok (hip ▸ code) rfl fun o ho hoip _ hon => ?_
    rw [hip] at hoip
    have hroom := ho.room rfl (by simp [operands])
    refine .next (ho.throwOperand_null ok operands fun n h1 h2 h3 => ?_)
    exact (h1.goOn (c.ip + 1)).turn_support ok supports method owner count hroom (h2.trans hoip)
      behind
      (hon.trans h3)

/-! ### Runs -/

lemma Moves.runFor (ok : S.Ok) (h : S.Represents m σ) (move : S.Moves σ τ) :
    (∃ n, S.Represents n τ ∧ ∀ budget, runFor (budget + 1) m = runFor budget n) ∨
    (σ.entered = false ∧ ∃ n w w', S.Standing m σ w ∧ S.Stuck m w σ.top ∧ S.Saved n.store σ w' ∧
      ∀ budget, runFor (budget + 1) m = .ok (.collect w'.room.chunk) n) := by
  obtain ⟨r, n, hr, ⟨rfl, hn⟩ | ⟨he, w, w', h1, h2, h3, rfl⟩, -⟩ := move.turn ok h
  · exact .inl ⟨n, hn, fun budget => runFor_of_turn hr budget⟩
  · exact .inr ⟨he, n, w, w', h1, h2, h3, fun budget => runFor_of_turn_some hr budget⟩

lemma Saved.resume (ok : S.Ok) (h : S.Saved m.store σ w)
    (hent : σ.entered = true ↔ σ.top.ip ≠ S.entry σ.top.method) :
    ∃ n, S.Represents n σ ∧
      ∀ budget, resume budget w.room.chunk true m = runFor budget n := by
  obtain ⟨u, n, hr, hn, hip⟩ := h.loadContext (P := fun _ n =>
    S.Standing { n with collectionWorked := true } σ w ∧ n.ip = σ.top.ip) ok
    fun n h1 h2 _ _ _ _ => ⟨h1, h2⟩
  refine ⟨{ n with collectionWorked := true }, ⟨w, hn, hip, hent⟩, fun budget => ?_⟩
  show EStateM.bind (Exec.loadContext w.room.chunk) _ m = _
  simp only [EStateM.bind, hr]
  rfl

lemma Carries.cons {m₁ : Machine} {n : Nat} (h : S.Carries m₁ n ρ τ) (first : S.Moves σ ρ)
    (hrun : ∀ budget, runFor (budget + 1) m = runFor budget m₁) :
    S.Carries m (n + 1) σ τ := by
  rcases h with ⟨m', hm', hbudget⟩ |
    ⟨i, ρ', m₂, m₃, w, w', hi, hr, hr', he, h2, h3, hs, h4, h5, h6⟩
  · exact .inl ⟨m', hm', fun budget => (hrun (budget + n)).trans (hbudget budget)⟩
  · refine .inr ⟨i + 1, ρ', m₂, m₃, w, w', by omega, .cons first hr, ?_, he, h2,
      fun budget => (hrun (budget + i)).trans (h3 budget), hs, h4, h5,
      fun budget => (hrun (budget + i + 1)).trans (h6 budget)⟩
    rwa [Nat.add_sub_add_right]

/-- The interpreter runs the calls of a context wherever their frames are: each move is made by
one instruction, in a chunk, in a spare chunk or in a new one. A context that is saved goes on with
the calls it had, and a new context is one that is saved. -/
theorem run_simulates_calls (ok : S.Ok) (h : S.Represents m σ) {n : Nat} (run : S.Runs n σ τ) :
    S.Carries m n σ τ ∧
    (∀ (m₁ : Machine) ρ w, S.Saved m₁.store ρ w →
      (ρ.entered = true ↔ ρ.top.ip ≠ S.entry ρ.top.method) →
      ∃ m₂, S.Represents m₂ ρ ∧
        ∀ budget, Exec.resume budget w.room.chunk true m₁ = Exec.runFor budget m₂) ∧
    ∀ (m₁ : Machine) call argument k mp args, S.Ready m₁.store → S.Supports call k mp →
      S.isMethod mp → args = (if argument = 0 then [] else [argument]) →
      args.length = (S.form mp).parameters →
      Gives (Exec.newContext call argument) m₁ fun chunk n => (chunk = 0 ∧ S.Ready n.store) ∨
        ∃ w, w.room.chunk = chunk ∧ S.Saved n.store (.start S k mp args) w := by
  refine ⟨?_, fun m₁ ρ w hs he => hs.resume ok he, fun m₁ call argument k mp args ready supports
    method hargs count => (ready.newContext ok supports method hargs count).mono
      fun _ _ h => h.made.imp (fun hc => ⟨hc.1, hc.2.1⟩) id⟩
  induction run generalizing m with
  | refl σ => exact .inl ⟨m, h, fun _ => rfl⟩
  | @cons n σ ρ τ first rest ih =>
    rcases first.runFor ok h with ⟨m₁, h₁, hrun⟩ | ⟨he, m₂, w, w', h1, h2, h3, hrun⟩
    · exact (ih h₁).cons first hrun
    · exact .inr ⟨0, σ, m, m₂, w, w', by omega, .refl σ, .cons first rest, he, h, fun _ => rfl, h1,
        h2, h3, hrun⟩

end Scene

/-! ### A call that moves to a new chunk

A method calls another one, which needs more room than its chunk has. -/

/-- The record, a chunk with the frame of a method, and behind the free memory a class, the table
of its methods and two methods. -/
def sampleRam : List UInt32 := table [
  (3, [600, 740]), (16, [0x11000140, 532, 0, 0, 17, 0, 788, 0, 0, 744, 0, 744]), (70, [1]),
  (79, [784, 800, 0x01000006, 0x30610101, 0x008100cb, 0x00000006, 0x076c0005, 0x000000da])] 0 87

def sampleScene : Scene where
  rom := { start := 0, size := 464 }
  eeprom := {}
  ram := { start := 464, size := 348 }
  mem := .ofWords (rom ++ sampleRam)
  fixed b := b < 464 ∨ 740 ≤ b
  chunkClass := chunks
  isMethod mp := mp = 788 ∨ mp = 800
  form mp := if mp = 788 then ⟨6, 1, 1, 1⟩ else ⟨6, 0, 5, 12⟩
  isClass k := k = 744

def sampleMachine : Machine where
  store := store .copying sampleRam
  ip := 794
  sp := 572
  lp := 572
  cp := 744
  sl := 600

def sampleCalls : Calls := ⟨⟨788, 794, 744, [744], []⟩, false, []⟩

def samplePlacement : Placement := ⟨⟨532, 17⟩, [], [], []⟩

lemma sample_ok : sampleScene.Ok := by
  refine Scene.ok_of_words sampleRam 740 (by decide) (by decide) (by decide) ?_ ?_
  · rintro mp (rfl | rfl)
    · exact reads_of_words (j := 1) (by decide) (by decide) rfl (by decide) (by decide +kernel)
    · exact reads_of_words (j := 12) (by decide) (by decide) rfl (by decide) (by decide +kernel)
  · rintro k rfl
    exact ⟨1, fun n h => word_of_agrees h (k := 70) (by decide)⟩

lemma sample_recorded (j : Nat) : sampleMachine.store.recorded j = sampleRam.getD j 0 :=
  peekWord_ram j

lemma sample_ready : sampleScene.Ready sampleMachine.store :=
  Scene.ready_of_words sampleRam 740 (by decide) (by decide) (by decide) (by decide) (by decide)

lemma sample_chunk (k : Nat) : sampleMachine.store.mem.peekWord (532 + 4 * k) =
    sampleRam.getD (17 + k) 0 := by
  rw [show 532 + 4 * k = 464 + 4 * (17 + k) by omega]
  exact peekWord_ram _

lemma sample_standing : sampleScene.Standing sampleMachine sampleCalls samplePlacement := by
  refine ⟨⟨⟨sample_ready, ?_, ?_, trivial, ?_, ?_⟩, ?_, rfl, rfl, rfl⟩, rfl, rfl, ?_⟩
  · intro r hr
    obtain rfl := mem_singleton.1 hr
    refine ⟨by decide, by decide, ?_, by decide, fun b hb => ?_, ?_⟩
    · rw [show sampleMachine.store.recorded 3 = 600 from sample_recorded 3]
      decide
    · show b < 532 ∨ 600 ≤ b
      have : b < 464 ∨ 740 ≤ b := hb
      omega
    · exact congrArg toNat (sample_chunk 3)
  · exact pairwise_singleton _ _
  · exact sample_chunk 2
  · exact sample_chunk 1
  · exact sample_chunk 4
  · refine ⟨⟨sample_chunk 5, congrArg toNat (sample_chunk 7), sample_chunk 8, sample_chunk 10,
      trivial⟩, .inl rfl, rfl, rfl, rfl, by decide, fun _ => ?_⟩
    decide

lemma sample_represents : sampleScene.Represents sampleMachine sampleCalls :=
  ⟨samplePlacement, sample_standing, rfl, by simp [sampleCalls, Scene.entry, sampleScene]⟩

lemma sample_runs : sampleScene.Runs 6 sampleCalls ⟨⟨788, 798, 744, [744], [7]⟩, true, []⟩ := by
  have code : ∀ (addr : UInt32) (op : Opcode),
      Sample.Reserves sampleRam 740 addr.toNat (addr.toNat + 1) →
      Opcode.ofByte? (byteOf sampleRam addr.toNat) = some op →
      Instructs sampleScene.fixed sampleScene.mem addr op := fun _ _ => instructs_of_words
  have first : sampleScene.Moves sampleCalls ⟨⟨788, 795, 744, [744], []⟩, true, []⟩ :=
    .extend (.short (code 794 (.extend 1) (by decide) (by decide +kernel)))
  have load : sampleScene.Moves ⟨⟨788, 795, 744, [744], []⟩, true, []⟩
      ⟨⟨788, 796, 744, [744], [744]⟩, true, []⟩ :=
    .acts (code 795 (.load 0) (by decide) (by decide +kernel)) (.load rfl (by decide)) (by decide)
  have call : sampleScene.Moves ⟨⟨788, 796, 744, [744], [744]⟩, true, []⟩
      ⟨⟨800, 806, 744, [], []⟩, false, [⟨788, 798, 744, [744], []⟩]⟩ := by
    have found : sampleScene.Resolves .static 0 [744] [] 744 800 := by
      have some_method : (800 : UInt32) ≠ 0 := by decide
      refine @Scene.Resolves.static _ _ _ 784 _ _ [] (.inl rfl) (fun n h => ?_) (fun n h => ?_)
        some_method
      · exact word_of_agrees h (k := 79) (by decide)
      · exact word_of_agrees h (k := 80) (by decide)
    have operand : Settled sampleScene.fixed sampleScene.mem (code8 797) 0 := fun _ h => by
      rw [code8_of_agrees h (by decide),
        show byteOf sampleRam (797 : UInt32).toNat = 0 by decide]
    exact .invoke (code 796 (.invoke .static .one) (by decide) (by decide +kernel))
      operand (by decide) (by decide) found (.inr rfl) rfl rfl
  have second : sampleScene.Moves ⟨⟨800, 806, 744, [], []⟩, false, [⟨788, 798, 744, [744], []⟩]⟩
      ⟨⟨800, 807, 744, [0, 0, 0, 0, 0], []⟩, true, [⟨788, 798, 744, [744], []⟩]⟩ :=
    .extend (.short (code 806 (.extend 12) (by decide) (by decide +kernel)))
  have push : sampleScene.Moves
      ⟨⟨800, 807, 744, [0, 0, 0, 0, 0], []⟩, true, [⟨788, 798, 744, [744], []⟩]⟩
      ⟨⟨800, 808, 744, [0, 0, 0, 0, 0], [7]⟩, true, [⟨788, 798, 744, [744], []⟩]⟩ :=
    .acts (code 807 (.const 7) (by decide) (by decide +kernel)) (.push rfl (by decide)) (by decide)
  have back : sampleScene.Moves
      ⟨⟨800, 808, 744, [0, 0, 0, 0, 0], [7]⟩, true, [⟨788, 798, 744, [744], []⟩]⟩
      ⟨⟨788, 798, 744, [744], [7]⟩, true, []⟩ :=
    .ret (code 808 (.ret .one) (by decide) (by decide +kernel)) (nil_append [7]).symm rfl
      (by decide)
  exact .cons first (.cons load (.cons call (.cons second (.cons push (.cons back (.refl _))))))

theorem run_simulates_sample : sampleScene.Represents sampleMachine sampleCalls ∧
    sampleScene.Carries sampleMachine 6 sampleCalls ⟨⟨788, 798, 744, [744], [7]⟩, true, []⟩ :=
  ⟨sample_represents, (Scene.run_simulates_calls sample_ok sample_represents sample_runs).1⟩

end DeviceVm.Stack
