import DeviceVm.Interpreter.Execution
import DeviceVm.Proofs.Stack.Calling

/-!
Invocation. A method is found from the operands of the caller by way of the classes, which stay
as they are; its frame starts with the arguments.
-/

namespace DeviceVm

open List Memory Header Exec Store

namespace Stack

open Exec Word

variable {S : Scene} {s t : Store} {m : Machine} {mem : Memory} {w : Placement} {r : Room}
  {σ : Calls} {c : Call} {v : UInt32} {vs args : List UInt32}

namespace Scene

/-! ### The frame that was started -/

variable {k mp : UInt32} {kind : InvokeKind} {operands : List UInt32}

lemma Started.congr {n : Machine} (h : S.Started m args w) (store : n.store = m.store)
    (worked : n.collectionWorked = m.collectionWorked) (lp : n.lp = m.lp) (sp : n.sp = m.sp)
    (sl : n.sl = m.sl) : S.Started n args w := by
  obtain ⟨⟨rests, last, hw, hlp, hsl⟩, hprev, hgiven, hsp, hin⟩ := h
  exact ⟨⟨store ▸ rests, store ▸ last, worked ▸ hw, lp ▸ hlp, sl ▸ hsl⟩, store ▸ hprev,
    store ▸ hgiven, sp ▸ hsp, hin⟩

lemma Started.pop (h : S.Started m (args ++ [v]) w)
    {P : UInt32 → Machine → Prop}
    (hp : ∀ n, S.Started n args w → n.ip = m.ip → n.cp = m.cp → m.store = n.store → P v n) :
    Gives pop m P := by
  obtain ⟨hat, hprev, hgiven, hsp, hin⟩ := h
  rw [length_append, length_singleton] at hsp hin
  rw [lists_append] at hgiven
  have := hat.bounds
  have := toNat_four
  have hv : m.store.mem.peekWord m.sp.toNat = v := by
    rw [show m.sp.toNat = w.lp + 4 * args.length by omega]
    exact hgiven.2.1
  apply Gives.get_bind
  apply Gives.read_bind (wordAt_eq (by omega) (by omega))
  apply Gives.modify_bind
  refine .pure ?_
  rw [hv]
  refine hp _ ⟨⟨hat.rests, hat.last, hat.worked, hat.lp, hat.sl⟩, hprev, hgiven.1, ?_, by omega⟩ rfl
    rfl rfl
  rw [toNat_minus] <;> omega

lemma Started.receiver_eq {rest : List UInt32} (h : S.Started m (v :: rest) w) :
    word m.lp 0 m.store.mem = .ok v := by
  have hin := h.inside
  rw [length_cons] at hin
  have := h.stop_le
  have := h.lp
  have := m.lp.toNat_lt
  rw [word_eq (.lit 0 rfl) ⟨h.lp_aligned, by omega⟩]
  exact congrArg _ h.given.1

lemma Started.nullReceiver (ok : S.Ok) (h : S.Started m args (w.push c)) (cp : m.cp = c.owner)
    {P : Step → Machine → Prop}
    (hp : ∀ n, S.Standing n ⟨c, true, w.callers⟩ w → n.ip = m.ip → m.store = n.store →
      P (.call .nullPointerException) n) : Gives nullReceiver m P := by
  have := h.inside
  have hwaits : S.Waits m.store.mem w.room w.lp w.previous c := h.rests.inner.1
  have hrests : S.Rests m.store w :=
    ⟨h.rests.ready, h.rests.rooms, h.rests.apart, h.rests.inner.2, h.rests.below, h.rests.spares⟩
  have hframe := h.frame ok (by omega)
  generalize hpv : m.store.mem.peekWord ((w.push c).lp - 12) = p
  have hpn : p.toNat = w.lp := by
    rw [← hpv]
    exact h.previous
  have hat : S.At { m with lp := p } w := ⟨hrests, h.last, h.worked, hpn, h.sl⟩
  have := hwaits.fits
  have := hwaits.offset
  have := h.size ok
  have hstop := hat.stop_le
  have hframe' := hat.frame ok (by omega)
  unfold Exec.nullReceiver raise clearOperands
  apply Gives.get_bind
  apply Gives.read_bind hframe.previous_eq
  rw [hpv]
  apply Gives.modify_bind
  simp only [bind_assoc]
  apply Gives.get_bind
  apply Gives.read_bind hframe'.stackOffset_eq
  apply Gives.modify_bind
  refine .pure (hp _ ?_ rfl rfl)
  refine At.working ⟨hrests, h.last, h.worked, hpn, h.sl⟩ rfl cp rfl ?_
  refine Waits.works hwaits rfl ?_
  show (p + m.store.mem.peekWord (w.lp - 4)).toNat = w.lp + 4 * (c.locals.length + 4)
  have : w.room.stop ≤ m.store.mem.size := hstop
  rw [toNat_plus] <;> omega

lemma Started.enterIn (ok : S.Ok) (h : S.Started m args w)
    (method : S.isMethod mp) (owner : S.isClass k)
    (count : args.length = (S.form mp).parameters) (inner : w.inner ≠ [])
    {P : Unit → Machine → Prop}
    (hp : ∀ n, S.Standing n ⟨⟨mp, S.entry mp, k, args, []⟩, false, w.callers⟩ w →
      n.ip = S.entry mp → m.store.Onward n.store → P () n) : Gives (enterIn k mp) m P := by
  apply Gives.modify_bind
  exact (h.congr (n := { m with cp := k }) rfl rfl rfl rfl rfl).enterMethod ok method owner count
    inner hp

/-! ### Methods that are found -/

variable (S)

/-- A search gives `a` and leaves the store, as long as the fixed bytes stay. -/
def Looks {α : Type} (x : Run α) (a : α) : Prop :=
  ∀ t : Store, t.rom = S.rom → t.eeprom = S.eeprom → t.ram = S.ram →
    Memory.Agrees S.fixed S.mem t.mem → x t = .ok a t

/-- What an instruction with a slot invokes where the operands are given: the arguments, the class
and the method. -/
inductive Resolves : InvokeKind → UInt8 → List UInt32 → List UInt32 → UInt32 → UInt32 → Prop
  | virtual {slot : UInt8} {receiver class' k mp : UInt32} {args : List UInt32}
      (some_receiver : receiver ≠ 0)
      (kind : Settled S.fixed S.mem (classOf receiver) class')
      (found : S.Looks (findVirtual class' slot.toUInt32) (k, mp)) :
      Resolves .virtual slot (receiver :: args) (receiver :: args) k mp
  | super {slot : UInt8} {class' k mp : UInt32} {args : List UInt32}
      (found : S.Looks (findVirtual class' slot.toUInt32) (k, mp)) :
      Resolves .super slot (args ++ [class']) args k mp
  | static {kind : InvokeKind} {slot : UInt8} {table k mp : UInt32} {args : List UInt32}
      (kinds : kind = .static ∨ kind = .init)
      (table_eq : Settled S.fixed S.mem (Class.staticTable k) table)
      (found : Settled S.fixed S.mem (word table slot.toUInt32.toInt32) mp)
      (some_method : mp ≠ 0) : Resolves kind slot (args ++ [k]) args k mp
  | interface {slot : UInt8} {type number receiver class' place k mp : UInt32}
      {args : List UInt32} (number_eq : Settled S.fixed S.mem (Class.number type) number)
      (some_receiver : receiver ≠ 0)
      (kind : Settled S.fixed S.mem (classOf receiver) class')
      (placed : S.Looks
        (interfaceSlot receiver number slot.toUInt32.toInt32 (S.mem.size + 2) class') place)
      (found : S.Looks (findVirtual class' place) (k, mp)) :
      Resolves .interface slot (receiver :: args ++ [type]) (receiver :: args) k mp

/-- The receiver is missing among the operands of a call. -/
inductive NoReceiver : InvokeKind → List UInt32 → Prop
  | virtual {args : List UInt32} : NoReceiver .virtual (0 :: args)
  | interface {type number : UInt32} {args : List UInt32}
      (number_eq : Settled S.fixed S.mem (Class.number type) number) :
      NoReceiver .interface (0 :: args ++ [type])

/-- The support class `k` has the method `mp` for the call. -/
structure Supports (call : SupportCall) (k mp : UInt32) : Prop where
  root : ∀ t : Store, t.rom = S.rom → t.eeprom = S.eeprom → t.ram = S.ram →
    Memory.Agrees S.fixed S.mem t.mem → root .rom Root.support t = .ok k
  some_class : k ≠ 0
  found : ∃ table, Settled S.fixed S.mem (Class.staticTable k) table ∧
    Settled S.fixed S.mem (word table (Int32.ofNat call.slot)) mp
  some_method : mp ≠ 0

variable {S}

lemma NoReceiver.operands_pos
    (h : S.NoReceiver kind operands) : 0 < operands.length := by
  cases h <;> simp

lemma Resolves.operands_pos {slot : UInt8}
    (h : S.Resolves kind slot operands args k mp) : 0 < operands.length := by
  cases h <;> simp

lemma Standing.room (h : S.Standing m σ w) (he : σ.entered = true)
    (some_operand : 0 < σ.top.operands.length) : 0 < (S.form σ.top.method).operands := by
  have := (h.works he).within
  omega

lemma Supports.supportMethod_eq {call : SupportCall}
    (h : S.Supports call k mp) (ready : S.Ready m.store) {P : UInt32 × UInt32 → Machine → Prop}
    (hp : P (k, mp) m) : Gives (supportMethod call) m P := by
  obtain ⟨table, htable, hfound⟩ := h.found
  apply Gives.query_bind (h.root _ ready.rom ready.eeprom ready.ram ready.agrees)
  refine .neg (by simpa using h.some_class) ?_
  apply Gives.read_bind (htable _ ready.agrees)
  apply Gives.read_bind (hfound _ ready.agrees)
  exact .neg (by simpa using h.some_method) (.pure hp)

lemma Looks.run_bind {α β : Type} {x : Run α} {a : α} {f : α → Exec β}
    {P : β → Machine → Prop} (h : S.Looks x a) (ready : S.Ready m.store)
    (hf : Gives (f a) m P) : Gives (Bind.bind (m := Exec) (Gives.ofRun x) f) m P := by
  refine .run_bind (Q := fun b s => b = a ∧ s = m.store) ?_ ?_
  · exact ⟨a, m.store, h _ ready.rom ready.eeprom ready.ram ready.agrees, rfl, rfl⟩
  · rintro _ _ ⟨rfl, rfl⟩
    exact hf

end Scene

/-- The calls after an invocation, which the caller leaves at `ip`. -/
def Calls.invoke (σ : Calls) (ip : UInt32) (callee : Call) : Calls :=
  ⟨callee, false, σ.top.waiting ip :: σ.callers⟩

namespace Scene

section Invoke

variable {kind : InvokeKind} {slot : UInt8} {k mp : UInt32}

lemma Started.proceed (ok : S.Ok) (h : S.Started m args (w.push c)) (method : S.isMethod mp)
    (owner : S.isClass k) (count : args.length = (S.form mp).parameters)
    {P : Step → Machine → Prop}
    (hp : ∀ n w', S.Standing n ⟨⟨mp, S.entry mp, k, args, []⟩, false, c :: w.callers⟩ w' →
      n.ip = S.entry mp → m.store.Onward n.store → P .proceed n) :
    Gives (do Exec.enterIn k mp; Pure.pure Step.proceed) m P :=
  Gives.next (h.enterIn ok method owner count (cons_ne_nil _ _) fun n hn hip hon =>
    Gives.pure (hp n _ hn hip hon))

section

variable (ok : S.Ok) (h : S.Standing m σ w) (he : σ.entered = true) {P : Unit → Machine → Prop}
  {call : SupportCall}
include ok h he

lemma Standing.invoke (code : Settled S.fixed S.mem (code8 m.ip) slot)
    (range : m.ip.toNat + 1 < 4294967296) (behind : m.ip + 1 ≠ S.entry σ.top.method)
    (resolves : S.Resolves kind slot σ.top.operands args k mp) (method : S.isMethod mp)
    (owner : S.isClass k) (count : args.length = (S.form mp).parameters)
    {P : Step → Machine → Prop}
    (hp : ∀ n w', S.Standing n (σ.invoke (m.ip + 1) ⟨mp, S.entry mp, k, args, []⟩) w' →
      n.ip = S.entry mp → m.store.Onward n.store → P .proceed n) :
    Gives (invoke kind) m P := by
  have room := h.room he resolves.operands_pos
  have hcode := code _ h.rests.ready.agrees
  have hstand : S.Standing { m with ip := m.ip + 1 } σ w := h.congr rfl rfl rfl rfl rfl rfl
  -- All kinds of invocation start a frame first.
  have start : ∀ {f : Unit → Exec Step}, (∀ n,
      S.Started n σ.top.operands (w.push (σ.top.waiting (m.ip + 1))) → m.store.Onward n.store →
      Gives (f ()) n P) → Gives (Exec.pushFrame >>= f) { m with ip := m.ip + 1 } P := fun hf =>
    Gives.next (hstand.pushFrame ok he room behind fun n hn _ _ hon => hf n hn hon)
  have finish : ∀ n, S.Started n args (w.push (σ.top.waiting (m.ip + 1))) →
      m.store.Onward n.store →
      Gives (do enterIn k mp; Pure.pure Step.proceed) n P := fun n hn hon =>
    hn.proceed ok method owner count fun n' w' hn' hip hon' =>
      hp n' w' (by rw [Calls.invoke, h.callers]; exact hn') hip (hon.trans hon')
  generalize hops : σ.top.operands = operands at resolves start
  cases resolves with
  | @virtual slot receiver class' _ _ args some_receiver kind found =>
    refine .code8_bind hcode range ?_
    refine start fun n hn hon => ?_
    have hready := hn.rests.ready
    apply Gives.get_bind
    apply Gives.read_bind hn.receiver_eq
    refine .neg (by simpa using some_receiver) ?_
    apply Gives.read_bind (kind _ hready.agrees)
    exact found.run_bind hready (finish n hn hon)
  | @super slot class' _ _ args found =>
    refine .code8_bind hcode range ?_
    refine start fun n hn hon => ?_
    refine .next (hn.pop fun n' hn' _ _ hs => ?_)
    exact found.run_bind hn'.rests.ready (finish n' hn' (hs ▸ hon))
  | @static kind slot table _ _ args kinds table_eq found some_method =>
    have hgoal : Gives (do invokeStatic (← codeIndex)) m P := by
      refine .codeIndex_bind hcode range ?_
      refine start fun n hn hon => ?_
      refine .next (hn.pop fun n' hn' _ _ hs => ?_)
      have hagr := hn'.rests.ready.agrees
      apply Gives.modify_bind
      refine .read_bind (table_eq _ hagr) ?_
      refine .read_bind (found _ hagr) ?_
      refine .neg (by simpa using some_method) ?_
      have hn'' := hn'.congr (n := { n' with cp := k }) rfl rfl rfl rfl rfl
      refine .next (hn''.enterMethod ok method owner count (cons_ne_nil _ _)
        fun n'' h'' hip hon' => Gives.pure (hp n'' (w.push (σ.top.waiting (m.ip + 1))) ?_ hip
          ((hs ▸ hon).trans hon')))
      rw [Calls.invoke, h.callers]
      exact h''
    rcases kinds with rfl | rfl
    · exact hgoal
    · exact hgoal
  | @interface slot type number receiver class' place _ _ args number_eq some_receiver kind placed
      found =>
    refine .codeIndex_bind hcode range ?_
    refine start fun n hn hon => ?_
    refine .next (hn.pop fun n' hn' _ _ hs => ?_)
    have hready := hn'.rests.ready
    have hagr := hready.agrees
    apply Gives.read_bind (number_eq _ hagr)
    apply Gives.get_bind
    apply Gives.read_bind hn'.receiver_eq
    refine .neg (by simpa using some_receiver) ?_
    apply Gives.read_bind (kind _ hagr)
    apply Gives.read_bind (walkBound_eq _)
    rw [hready.size]
    refine placed.run_bind hready ?_
    apply Gives.read_bind (kind _ hagr)
    exact found.run_bind hready (finish n' hn' (hs ▸ hon))

lemma Standing.invoke_null (code : Settled S.fixed S.mem (code8 m.ip) slot)
    (range : m.ip.toNat + 1 < 4294967296) (behind : m.ip + 1 ≠ S.entry σ.top.method)
    (none : S.NoReceiver kind σ.top.operands) {P : Step → Machine → Prop}
    (hp : ∀ n, S.Standing n ⟨σ.top.waiting (m.ip + 1), true, σ.callers⟩ w → n.ip = m.ip + 1 →
      m.store.Onward n.store → P (.call .nullPointerException) n) :
    Gives (Exec.invoke kind) m P := by
  have room := h.room he none.operands_pos
  have hcode := code _ h.rests.ready.agrees
  have hstand : S.Standing { m with ip := m.ip + 1 } σ w := h.congr rfl rfl rfl rfl rfl rfl
  have start : ∀ {f : Unit → Exec Step}, (∀ n,
      S.Started n σ.top.operands (w.push (σ.top.waiting (m.ip + 1))) → n.ip = m.ip + 1 →
      n.cp = σ.top.owner → m.store.Onward n.store → Gives (f ()) n P) →
      Gives (Exec.pushFrame >>= f) { m with ip := m.ip + 1 } P := fun hf =>
    Gives.next (hstand.pushFrame ok he room behind fun n hn hip hcp hon =>
      hf n hn hip (hcp.trans h.cp) hon)
  have finish : ∀ n {args}, S.Started n args (w.push (σ.top.waiting (m.ip + 1))) →
      n.ip = m.ip + 1 → n.cp = σ.top.owner → m.store.Onward n.store →
      Gives nullReceiver n P :=
    fun n args hn hip hcp hon => hn.nullReceiver ok hcp fun n' hn' hip' hs => by
      refine hp n' ?_ (hip'.trans hip) (hs ▸ hon)
      rw [h.callers]
      exact hn'
  generalize hops : σ.top.operands = operands at none start
  cases none with
  | @virtual args =>
    refine .code8_bind hcode range ?_
    refine start fun n hn hip hcp hon => ?_
    apply Gives.get_bind
    apply Gives.read_bind hn.receiver_eq
    exact .pos rfl (finish n hn hip hcp hon)
  | @interface type number args number_eq =>
    refine .codeIndex_bind hcode range ?_
    refine start fun n hn hip hcp hon => ?_
    refine .next (hn.pop fun n' hn' hip' hcp' hs => ?_)
    apply Gives.read_bind (number_eq _ hn'.rests.ready.agrees)
    apply Gives.get_bind
    apply Gives.read_bind hn'.receiver_eq
    exact .pos rfl (finish n' hn' (hip'.trans hip) (hcp'.trans hcp) (hs ▸ hon))

lemma Standing.startSupport (supports : S.Supports call k mp)
    (method : S.isMethod mp) (owner : S.isClass k)
    (count : σ.top.operands.length = (S.form mp).parameters)
    (room : 0 < (S.form σ.top.method).operands) (behind : m.ip ≠ S.entry σ.top.method)
    {f : Unit → Exec Unit}
    (hf : ∀ n w', S.Standing n (σ.invoke m.ip ⟨mp, S.entry mp, k, σ.top.operands, []⟩) w' →
      n.ip = S.entry mp → m.store.Onward n.store → Gives (f ()) n P) :
    Gives (do
      let (k, mp) ← supportMethod call
      Exec.pushFrame
      modify fun s => { s with cp := k }
      enterMethod mp
      f ()) m P := by
  refine .next (supports.supportMethod_eq h.rests.ready ?_)
  refine .next (h.pushFrame ok he room behind fun n hn _ _ hon => ?_)
  apply Gives.modify_bind
  have hn' := hn.congr (n := { n with cp := k }) rfl rfl rfl rfl rfl
  refine .next (hn'.enterMethod ok method owner count (cons_ne_nil _ _)
    fun n'' h'' hip hon' => hf n'' (w.push (σ.top.waiting m.ip)) ?_ hip (hon.trans hon'))
  rw [Calls.invoke, h.callers]
  exact h''

lemma Standing.callSupport (not_yield : call ≠ .yield)
    (supports : S.Supports call k mp) (method : S.isMethod mp) (owner : S.isClass k)
    (count : σ.top.operands.length = (S.form mp).parameters)
    (room : 0 < (S.form σ.top.method).operands) (behind : m.ip ≠ S.entry σ.top.method)
    (hp : ∀ n w', S.Standing n (σ.invoke m.ip ⟨mp, S.entry mp, k, σ.top.operands, []⟩) w' →
      n.ip = S.entry mp → m.store.Onward n.store → P () n) :
    Gives (callSupport call) m P := by
  have hcall : ¬ (call == SupportCall.yield) = true := by simpa using not_yield
  refine .neg hcall ?_
  refine h.startSupport ok he supports method owner count room behind (f := fun _ => do
    if call == .yield then modify fun s => { s with branchesLeft := Machine.timeSlice }
    Store.say .trace .interpreter fun _ => "support call " ++ call.name) fun n w' h1 hip hon => ?_
  refine .neg hcall ?_
  exact .say fun log => hp _ w' (h1.setLog log) hip (hon.setLog log)

end

end Invoke

end Scene

end Stack

end DeviceVm
