import DeviceVm.Interpreter.Machine
import DeviceVm.Proofs.Execution
import DeviceVm.Proofs.Word

/-!
Runs of the interpreter that end. `Exec.Gives x m P` says that `x` started on the machine `m`
gives a result without a fault and that `P` holds of the result and of the machine it leaves.
Work on the store is taken over from `Ends`.
-/

namespace DeviceVm

namespace Machine

def setStore (m : Machine) (store : Store) : Machine := { m with store }

def setMem (m : Machine) (mem : Memory) : Machine := m.setStore (m.store.setMem mem)

def setLog (m : Machine) (log : Log) : Machine := m.setStore (m.store.setLog log)

end Machine

namespace Exec

/-- The operation ends without an error, and its result and the machine that it leaves satisfy
`P`. -/
def Gives {α : Type} (x : Exec α) (m : Machine) (P : α → Machine → Prop) : Prop :=
  ∃ a n, x m = .ok a n ∧ P a n

namespace Gives

variable {α β : Type} {m : Machine} {P : β → Machine → Prop} {f : α → Exec β}

variable {p : Prop} {g : Machine → Machine} {text : Unit → String} {v : UInt8}

lemma mono {x : Exec β} {P' : β → Machine → Prop} (h : Gives x m P)
    (hp : ∀ b n, P b n → P' b n) : Gives x m P' := by
  obtain ⟨b, n, hr, h⟩ := h
  exact ⟨b, n, hr, hp b n h⟩

lemma pure {b : β} (h : P b m) : Gives (Pure.pure b) m P := ⟨b, m, rfl, h⟩

lemma bind {x : Exec α} {Q : α → Machine → Prop} (hx : Gives x m Q)
    (hf : ∀ a n, Q a n → Gives (f a) n P) : Gives (x >>= f) m P := by
  obtain ⟨a, n, hr, hm⟩ := hx
  obtain ⟨b, o, hq, hp⟩ := hf a n hm
  refine ⟨b, o, ?_, hp⟩
  show EStateM.bind x f m = _
  simp only [EStateM.bind, hr, hq]

lemma both {x : Exec β} {Q : β → Machine → Prop} (h : Gives x m P) (h' : Gives x m Q) :
    Gives x m fun b n => P b n ∧ Q b n := by
  obtain ⟨a, n, hr, hp⟩ := h
  obtain ⟨b, o, hr', hq⟩ := h'
  obtain ⟨rfl, rfl⟩ := EStateM.Result.ok.inj (hr.symm.trans hr')
  exact ⟨a, n, hr, hp, hq⟩

lemma next {x : Exec α} (hx : Gives x m fun a n => Gives (f a) n P) : Gives (x >>= f) m P :=
  bind hx fun _ _ h => h

lemma pure_bind {a : α} (hf : Gives (f a) m P) : Gives (Pure.pure a >>= f) m P := hf

lemma pos [Decidable p] {x y : Exec β} (hp : p) (hx : Gives x m P) :
    Gives (if p then x else y) m P := by
  rwa [if_pos hp]

lemma neg [Decidable p] {x y : Exec β} (hp : ¬ p) (hy : Gives y m P) :
    Gives (if p then x else y) m P := by
  rwa [if_neg hp]

/-! ### Work on the store

The lifts are written with the monads spelled out, as computations have them. -/

abbrev ofRead (r : ReaderT Memory (Except Fault) α) : EStateM Fault Machine α := liftM r

abbrev ofQuery (q : ReaderT Store (Except Fault) α) : EStateM Fault Machine α := liftM q

abbrev ofEdit (e : EStateM Fault Memory α) : EStateM Fault Machine α := liftM e

abbrev ofRun (x : EStateM Fault Store α) : EStateM Fault Machine α := liftM x

abbrev ofExcept (e : Except Fault α) : EStateM Fault Machine α := liftM e

lemma read {r : ReaderT Memory (Except Fault) β} {b : β} (hr : r m.store.mem = .ok b)
    (h : P b m) : Gives (ofRead r) m P := by
  refine ⟨b, m, ?_, h⟩
  simp only [ofRead, liftM, monadLift, MonadLift.monadLift, hr]

lemma run {x : EStateM Fault Store β} (hx : Ends x m.store fun b s => P b (m.setStore s)) :
    Gives (ofRun x) m P := by
  obtain ⟨b, s, hr, hp⟩ := hx
  refine ⟨b, m.setStore s, ?_, hp⟩
  simp only [ofRun, liftM, monadLift, MonadLift.monadLift, hr, Machine.setStore]

lemma query {q : ReaderT Store (Except Fault) β} {b : β} (hq : q m.store = .ok b)
    (h : P b m) : Gives (ofQuery q) m P :=
  run (.query hq h)

lemma edit {e : EStateM Fault Memory β} {b : β} {mem : Memory}
    (he : e m.store.mem = .ok b mem) (h : P b (m.setMem mem)) : Gives (ofEdit e) m P :=
  run (.edit he h)

lemma run_bind {x : EStateM Fault Store α} {Q : α → Store → Prop} (hx : Ends x m.store Q)
    (hf : ∀ a s, Q a s → Gives (f a) (m.setStore s) P) :
    Gives (Bind.bind (m := Exec) (ofRun x) f) m P :=
  next (run (hx.mono hf))

lemma read_bind {r : ReaderT Memory (Except Fault) α} {a : α} (hr : r m.store.mem = .ok a)
    (hf : Gives (f a) m P) : Gives (Bind.bind (m := Exec) (ofRead r) f) m P :=
  next (read hr hf)

lemma query_bind {q : ReaderT Store (Except Fault) α} {a : α} (hq : q m.store = .ok a)
    (hf : Gives (f a) m P) : Gives (Bind.bind (m := Exec) (ofQuery q) f) m P :=
  next (query hq hf)

lemma edit_bind {e : EStateM Fault Memory α} {a : α} {o : Memory} (he : e m.store.mem = .ok a o)
    (hf : Gives (f a) (m.setMem o) P) : Gives (Bind.bind (m := Exec) (ofEdit e) f) m P :=
  next (edit he hf)

lemma except_bind {e : Except Fault α} {a : α} (he : e = .ok a) (hf : Gives (f a) m P) :
    Gives (Bind.bind (m := Exec) (ofExcept e) f) m P := by
  subst he
  obtain ⟨b, n, hq, hp⟩ := hf
  exact ⟨b, n, hq, hp⟩

lemma get_bind {f : Machine → Exec β} (hf : Gives (f m) m P) : Gives (get >>= f) m P := by
  obtain ⟨b, n, hq, hp⟩ := hf
  exact ⟨b, n, hq, hp⟩

lemma modify_bind {f : Unit → Exec β} (hf : Gives (f ()) (g m) P) :
    Gives (modify g >>= f) m P := by
  obtain ⟨b, n, hq, hp⟩ := hf
  exact ⟨b, n, hq, hp⟩

lemma modify {P : Unit → Machine → Prop} (h : P () (g m)) :
    Gives (modify g) m P :=
  ⟨(), g m, rfl, h⟩

/-! ### The log -/

variable {level : LogLevel} {target : LogTarget} {flag : TraceFlags}

lemma say {P : Unit → Machine → Prop}
    (h : ∀ log, P () (m.setLog log)) : Gives (ofRun (Store.say level target text)) m P :=
  run (.say h)

lemma traces_bind {f : Bool → Exec β} (hf : ∀ b, Gives (f b) m P) :
    Gives (traces flag >>= f) m P := by
  apply get_bind
  exact hf _

lemma traced_bind {f : Unit → Exec β}
    (hf : ∀ log, Gives (f ()) (m.setLog log) P) :
    Gives (traces flag >>= fun b =>
      if b = true then Bind.bind (m := Exec) (ofRun (Store.say level target text)) f else f ())
      m P := by
  refine traces_bind fun b => ?_
  split
  · exact next (say hf)
  · exact hf m.store.log

lemma tracedOf {P : PUnit → Machine → Prop} {text : Query String}
    (hq : ∃ line, text m.store = .ok line) (h : ∀ log, P ⟨⟩ (m.setLog log)) :
    Gives (do if ← traces flag then ofRun (Store.sayOf level target text)) m P := by
  refine traces_bind fun b => ?_
  split
  · exact run (.sayOf hq h)
  · exact pure (h m.store.log)

/-! ### Code -/

lemma code8_bind {f : UInt8 → Exec β} (hv : Memory.code8 m.ip m.store.mem = .ok v)
    (range : m.ip.toNat + 1 < 4294967296) (hf : Gives (f v) { m with ip := m.ip + 1 } P) :
    Gives (code8 >>= f) m P := by
  unfold code8 skip
  simp only [bind_assoc]
  apply get_bind
  apply read_bind hv
  apply get_bind
  apply except_bind (Word.plus_eq range)
  apply modify_bind
  exact hf

lemma codeIndex_bind {f : Int32 → Exec β}
    (hv : Memory.code8 m.ip m.store.mem = .ok v) (range : m.ip.toNat + 1 < 4294967296)
    (hf : Gives (f v.toUInt32.toInt32) { m with ip := m.ip + 1 } P) :
    Gives (codeIndex >>= f) m P := by
  unfold codeIndex
  simp only [bind_assoc]
  exact code8_bind hv range hf

end Gives

/-! ### Runs that may fail -/

section

variable {α β : Type} {m n : Machine} {f : α → Exec β}

lemma get_bind_eq {f : Machine → Exec β} : (get >>= f) m = f m m := rfl

lemma modify_bind_eq {g : Machine → Machine} {f : Unit → Exec β} :
    (modify g >>= f) m = f () (g m) := rfl

lemma bind_eq {x : Exec α} {a : α} (h : x m = .ok a n) : (x >>= f) m = f a n := by
  show EStateM.bind x f m = _
  simp only [EStateM.bind, h]

lemma bind_error_eq {x : Exec α} {fault : Fault} (h : x m = .error fault n) :
    (x >>= f) m = .error fault n := by
  show EStateM.bind x f m = _
  simp only [EStateM.bind, h]

lemma bind_congr_eq {x y : Exec α} (h : x m = y n) : (x >>= f) m = (y >>= f) n := by
  show EStateM.bind x f m = EStateM.bind y f n
  simp only [EStateM.bind, h]

lemma read_bind_eq {r : ReaderT Memory (Except Fault) α} {a : α} (h : r m.store.mem = .ok a) :
    (Bind.bind (m := Exec) (Gives.ofRead r) f) m = f a m := by
  obtain ⟨_, _, hr, rfl, rfl⟩ := Gives.read (P := fun b n => b = a ∧ n = m) h ⟨rfl, rfl⟩
  exact bind_eq hr

lemma query_bind_eq {q : ReaderT Store (Except Fault) α} {a : α} (h : q m.store = .ok a) :
    (Bind.bind (m := Exec) (Gives.ofQuery q) f) m = f a m := by
  obtain ⟨_, _, hr, rfl, rfl⟩ := Gives.query (P := fun b n => b = a ∧ n = m) h ⟨rfl, rfl⟩
  exact bind_eq hr

lemma run_bind_eq {x : EStateM Fault Store α} {a : α} {s : Store} (h : x m.store = .ok a s) :
    (Bind.bind (m := Exec) (Gives.ofRun x) f) m = f a (m.setStore s) := by
  obtain ⟨_, _, hr, rfl, rfl⟩ := Gives.run (P := fun b n => b = a ∧ n = m.setStore s)
    ⟨a, s, h, rfl, rfl⟩
  exact bind_eq hr

lemma edit_bind_eq {e : EStateM Fault Memory α} {a : α} {o : Memory}
    (h : e m.store.mem = .ok a o) :
    (Bind.bind (m := Exec) (Gives.ofEdit e) f) m = f a (m.setMem o) := by
  obtain ⟨_, _, hr, rfl, rfl⟩ := Gives.edit (P := fun b n => b = a ∧ n = m.setMem o) h ⟨rfl, rfl⟩
  exact bind_eq hr

lemma traced_bind_eq {level : LogLevel} {target : LogTarget} {flag : TraceFlags}
    {text : Unit → String} {f : Unit → Exec β} :
    ∃ log, (traces flag >>= fun b => if b = true then
      Bind.bind (m := Exec) (Gives.ofRun (Store.say level target text)) f else f ()) m =
      f () (m.setLog log) := by
  unfold traces
  simp only [bind_assoc]
  rw [get_bind_eq, pure_bind]
  split
  · exact ⟨_, run_bind_eq rfl⟩
  · exact ⟨m.store.log, rfl⟩

lemma code8_eq {v : UInt8} (hv : Memory.code8 m.ip m.store.mem = .ok v)
    (range : m.ip.toNat + 1 < 4294967296) : code8 m = .ok v { m with ip := m.ip + 1 } := by
  obtain ⟨_, _, hr, rfl, rfl⟩ := Gives.code8_bind
    (P := fun b n => b = v ∧ n = { m with ip := m.ip + 1 }) hv range (.pure ⟨rfl, rfl⟩)
  rwa [bind_pure] at hr

end

end Exec

end DeviceVm
