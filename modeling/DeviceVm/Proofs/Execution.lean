import DeviceVm.Store.Basic
import Mathlib.Tactic.Simps.Basic

/-!
Runs that end. `Ends x s post` says that `x` started on `s` gives a result without a fault and
that `post` holds of the result and of the store it leaves. The rules follow the ways in which
computations are put together.
-/

namespace DeviceVm

namespace Store

@[simps]
def setMem (s : Store) (mem : Memory) : Store := { s with mem }

@[simps]
def setLog (s : Store) (log : Log) : Store := { s with log }

section

variable {s : Store} {m : Memory}

@[simp] lemma setMem_setMem {n : Memory} : (s.setMem m).setMem n = s.setMem n := rfl
@[simp] lemma setMem_self : s.setMem s.mem = s := rfl

end

end Store

/-- The operation ends without an error, and its result and what it leaves satisfy `post`. -/
def Ends {α : Type} (x : Run α) (s : Store) (post : α → Store → Prop) : Prop :=
  ∃ a t, x s = .ok a t ∧ post a t

namespace Ends

variable {α β : Type} {s : Store} {post : β → Store → Prop} {f : α → Run β}
  {level : LogLevel} {target : LogTarget} {m : Memory} {g : Store → Store} {text : Unit → String}

lemma mono {x : Run β} {post' : β → Store → Prop} (h : Ends x s post)
    (hp : ∀ b t, post b t → post' b t) : Ends x s post' := by
  obtain ⟨b, t, hr, h⟩ := h
  exact ⟨b, t, hr, hp b t h⟩

lemma both {x : Run β} {post' : β → Store → Prop} (h : Ends x s post) (h' : Ends x s post') :
    Ends x s fun b t => post b t ∧ post' b t := by
  obtain ⟨b, t, hr, hp⟩ := h
  obtain ⟨c, u, hr', hq⟩ := h'
  obtain ⟨rfl, rfl⟩ := EStateM.Result.ok.inj (hr.symm.trans hr')
  exact ⟨b, t, hr, hp, hq⟩

lemma pure {b : β} (h : post b s) : Ends (Pure.pure b) s post := ⟨b, s, rfl, h⟩

lemma bind {x : Run α} {Q : α → Store → Prop} (hx : Ends x s Q)
    (hf : ∀ a t, Q a t → Ends (f a) t post) : Ends (x >>= f) s post := by
  obtain ⟨a, t, hr, hm⟩ := hx
  obtain ⟨b, u, hq, hp⟩ := hf a t hm
  refine ⟨b, u, ?_, hp⟩
  show EStateM.bind x f s = _
  simp only [EStateM.bind, hr, hq]

lemma next {x : Run α} (hx : Ends x s fun a t => Ends (f a) t post) : Ends (x >>= f) s post :=
  bind hx fun _ _ h => h

lemma map {x : Run α} {f : α → β} (hx : Ends x s fun a t => post (f a) t) :
    Ends (f <$> x) s post := by
  obtain ⟨a, t, hr, hp⟩ := hx
  refine ⟨f a, t, ?_, hp⟩
  show EStateM.map f x s = _
  simp only [EStateM.map, hr]

/-! ### Reads, queries and edits

The lifts are written with the monads spelled out, as computations have them. -/

abbrev ofRead (r : ReaderT Memory (Except Fault) α) : EStateM Fault Store α := liftM r

abbrev ofQuery (q : ReaderT Store (Except Fault) α) : EStateM Fault Store α := liftM q

abbrev ofEdit (e : EStateM Fault Memory α) : EStateM Fault Store α := liftM e

abbrev ofExcept (e : Except Fault α) : EStateM Fault Store α := liftM e

lemma read {r : ReaderT Memory (Except Fault) β} {b : β} (hr : r s.mem = .ok b)
    (h : post b s) : Ends (ofRead r) s post := by
  refine ⟨b, s, ?_, h⟩
  simp only [ofRead, liftM, monadLift, MonadLift.monadLift, hr]

lemma query {q : ReaderT Store (Except Fault) β} {b : β} (hq : q s = .ok b) (h : post b s) :
    Ends (ofQuery q) s post := by
  refine ⟨b, s, ?_, h⟩
  simp only [ofQuery, liftM, monadLift, MonadLift.monadLift, hq]

lemma edit {e : EStateM Fault Memory β} {b : β} (he : e s.mem = .ok b m)
    (h : post b (s.setMem m)) : Ends (ofEdit e) s post := by
  refine ⟨b, s.setMem m, ?_, h⟩
  simp only [ofEdit, liftM, monadLift, MonadLift.monadLift, he, Store.setMem]

lemma except {e : Except Fault β} {b : β} (he : e = .ok b) (h : post b s) :
    Ends (ofExcept e) s post := by
  subst he
  exact ⟨b, s, rfl, h⟩

lemma read_bind {r : ReaderT Memory (Except Fault) α} {a : α} (hr : r s.mem = .ok a)
    (hf : Ends (f a) s post) : Ends (Bind.bind (m := Run) (ofRead r) f) s post :=
  next (read hr hf)

lemma query_bind {q : ReaderT Store (Except Fault) α} {a : α} (hq : q s = .ok a)
    (hf : Ends (f a) s post) : Ends (Bind.bind (m := Run) (ofQuery q) f) s post :=
  next (query hq hf)

lemma edit_bind {e : EStateM Fault Memory α} {a : α} (he : e s.mem = .ok a m)
    (hf : Ends (f a) (s.setMem m) post) : Ends (Bind.bind (m := Run) (ofEdit e) f) s post :=
  next (edit he hf)

lemma except_bind {e : Except Fault α} {a : α} (he : e = .ok a) (hf : Ends (f a) s post) :
    Ends (Bind.bind (m := Run) (ofExcept e) f) s post := by
  subst he
  obtain ⟨b, u, hq, hp⟩ := hf
  exact ⟨b, u, hq, hp⟩

lemma value_bind {x : Run α} {a : α} (hx : Ends x s fun b t => b = a ∧ t = s)
    (hf : Ends (f a) s post) : Ends (x >>= f) s post :=
  bind hx fun _ _ h => by
    rw [h.1, h.2]
    exact hf

lemma get_bind {f : Store → Run β} (hf : Ends (f s) s post) : Ends (get >>= f) s post := by
  obtain ⟨b, u, hq, hp⟩ := hf
  exact ⟨b, u, hq, hp⟩

lemma modify_bind {f : Unit → Run β} (hf : Ends (f ()) (g s) post) :
    Ends (modify g >>= f) s post := by
  obtain ⟨b, u, hq, hp⟩ := hf
  exact ⟨b, u, hq, hp⟩

lemma modify {post : Unit → Store → Prop} (h : post () (g s)) :
    Ends (modify g) s post :=
  ⟨(), g s, rfl, h⟩

/-! ### The log -/

lemma say_bind
    {f : Unit → Run β} (hf : ∀ log, Ends (f ()) (s.setLog log) post) :
    Ends (Store.say level target text >>= f) s post :=
  modify_bind (hf _)

lemma say {post : Unit → Store → Prop} (h : ∀ log, post () (s.setLog log)) :
    Ends (Store.say level target text) s post :=
  modify (h _)

lemma sayOf {post : Unit → Store → Prop}
    {text : Query String} (hq : ∃ line, text s = .ok line)
    (h : ∀ log, post () (s.setLog log)) : Ends (Store.sayOf level target text) s post := by
  obtain ⟨line, hq⟩ := hq
  apply get_bind
  split
  · apply query_bind hq
    exact say h
  · exact pure (h s.log)

/-! ### Lists -/

lemma forM {l : List α} {f : α → Run PUnit} (inv : List α → Store → Prop)
    (step : ∀ a rest t, inv (a :: rest) t → Ends (f a) t fun _ u => inv rest u)
    (h : inv l s) : Ends (l.forM f) s fun _ t => inv [] t := by
  induction l generalizing s with
  | nil => exact ⟨(), s, rfl, h⟩
  | cons a l ih =>
    exact bind (step a l s h) fun _ t ht => ih ht

/-! ### Work inside the collector -/

lemma insideCollector {x : Run β} (hc : s.collecting = false)
    (hx : Ends x { s with collecting := true } fun b t =>
      t.collecting = true ∧ post b { t with collecting := false, justCollected := true }) :
    Ends (Store.insideCollector x) s post := by
  obtain ⟨b, t, hr, ht, hp⟩ := hx
  have hr' : Store.attempt x { s with collecting := true } = .ok (.ok b) t := by
    simp only [Store.attempt, hr]
  have ha : Ends (Store.attempt x) { s with collecting := true } fun r u => r = .ok b ∧ u = t :=
    ⟨_, _, hr', rfl, rfl⟩
  unfold Store.insideCollector Store.enterCollector Store.leaveCollector
  simp only [bind_assoc]
  apply get_bind
  apply except_bind (a := ()) (by simp [require, hc])
  apply modify_bind
  apply bind ha
  rintro _ _ ⟨rfl, rfl⟩
  apply get_bind
  apply except_bind (a := ()) (by simp [require, ht])
  apply modify_bind
  exact ⟨b, _, rfl, hp⟩

end Ends

end DeviceVm
