import DeviceVm.Proofs.Execution

/-!
What holds whenever a computation gives a result. `Yields x s P` says that `P` holds of every result
of `x` on `s` and of the state it leaves; a computation that faults yields anything. The rules
follow those of `Ends`, where a read need not be known to succeed.
-/

namespace DeviceVm

/-- If the operation ends without an error, its result and what it leaves satisfy `P`. -/
def Yields {ε σ α : Type} (x : EStateM ε σ α) (s : σ) (P : α → σ → Prop) : Prop :=
  ∀ a t, x s = .ok a t → P a t

namespace Yields

section

variable {ε σ α β : Type} {s : σ} {P : β → σ → Prop}

lemma pure {b : β} (h : P b s) : Yields (Pure.pure b : EStateM ε σ β) s P := by
  intro a t hr
  cases hr
  exact h

lemma bind {x : EStateM ε σ α} {f : α → EStateM ε σ β} {Q : α → σ → Prop} (hx : Yields x s Q)
    (hf : ∀ a t, Q a t → Yields (f a) t P) : Yields (x >>= f) s P := by
  intro b u hr
  have hr' : EStateM.bind x f s = .ok b u := hr
  cases hx' : x s with
  | ok a t =>
    simp only [EStateM.bind, hx'] at hr'
    exact hf a t (hx a t hx') b u hr'
  | error e t =>
    simp only [EStateM.bind, hx'] at hr'
    cases hr'

lemma throw {e : ε} : Yields (MonadExcept.throw e : EStateM ε σ β) s P := by
  intro b t hr
  cases hr

lemma get_bind {f : σ → EStateM ε σ β} (hf : Yields (f s) s P) : Yields (get >>= f) s P := hf

lemma modify_bind {g : σ → σ} {f : Unit → EStateM ε σ β} (hf : Yields (f ()) (g s) P) :
    Yields (modify g >>= f) s P := hf

lemma ite {p : Prop} [Decidable p] {x y : EStateM ε σ β} (hx : p → Yields x s P)
    (hy : ¬ p → Yields y s P) : Yields (if p then x else y) s P := by
  split
  · exact hx ‹_›
  · exact hy ‹_›

lemma of_eq {x : EStateM ε σ β} {b : β} {t : σ} (hx : x s = .ok b t) (h : P b t) :
    Yields x s P := by
  intro c u hr
  rw [hx] at hr
  cases hr
  exact h

end

/-! ### Reads, queries and edits of a store -/

section

variable {α β : Type} {s : Store} {P : β → Store → Prop}

lemma of_ends {x : Run β} (h : Ends x s P) : Yields x s P := by
  obtain ⟨b, t, hr, hp⟩ := h
  exact of_eq hr hp

lemma except {e : Except Fault β} (h : ∀ b, e = .ok b → P b s) :
    Yields (Ends.ofExcept e) s P := by
  cases e with
  | ok b => exact pure (h b rfl)
  | error f => exact throw

lemma query {q : ReaderT Store (Except Fault) β} (h : ∀ b, q s = .ok b → P b s) :
    Yields (Ends.ofQuery q) s P := by
  intro b t hr
  cases hq : q s with
  | ok c => exact of_ends (.query hq (h c hq)) b t hr
  | error f =>
    simp only [Ends.ofQuery, liftM, monadLift, MonadLift.monadLift, hq] at hr
    cases hr

lemma read {r : ReaderT Memory (Except Fault) β} (h : ∀ b, r s.mem = .ok b → P b s) :
    Yields (Ends.ofRead r) s P := by
  intro b t hr
  cases hq : r s.mem with
  | ok c => exact of_ends (.read hq (h c hq)) b t hr
  | error f =>
    simp only [Ends.ofRead, liftM, monadLift, MonadLift.monadLift, hq] at hr
    cases hr

lemma edit {e : EStateM Fault Memory β} (h : Yields e s.mem fun b m => P b (s.setMem m)) :
    Yields (Ends.ofEdit e) s P := by
  intro b t hr
  cases he : e s.mem with
  | ok c m => exact of_ends (.edit he (h c m he)) b t hr
  | error f m =>
    simp only [Ends.ofEdit, liftM, monadLift, MonadLift.monadLift, he] at hr
    cases hr

lemma except_bind {e : Except Fault α} {f : α → Run β}
    (hf : ∀ a, e = .ok a → Yields (f a) s P) :
    Yields (Bind.bind (m := Run) (Ends.ofExcept e) f) s P :=
  bind (except hf) fun _ _ h => h

lemma query_bind {q : ReaderT Store (Except Fault) α} {f : α → Run β}
    (hf : ∀ a, q s = .ok a → Yields (f a) s P) :
    Yields (Bind.bind (m := Run) (Ends.ofQuery q) f) s P :=
  bind (query hf) fun _ _ h => h

lemma read_bind {r : ReaderT Memory (Except Fault) α} {f : α → Run β}
    (hf : ∀ a, r s.mem = .ok a → Yields (f a) s P) :
    Yields (Bind.bind (m := Run) (Ends.ofRead r) f) s P :=
  bind (read hf) fun _ _ h => h

lemma say_bind {level : LogLevel} {target : LogTarget} {text : Unit → String}
    {f : Unit → Run β} (hf : ∀ log, Yields (f ()) (s.setLog log) P) :
    Yields (Store.say level target text >>= f) s P :=
  modify_bind (hf _)

end

end Yields

end DeviceVm
