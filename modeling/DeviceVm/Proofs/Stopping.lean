import DeviceVm.Proofs.Allocation
import DeviceVm.Proofs.Outcome

/-!
Work that may be given up. `Stops x s post fail` says that `x` started on `s` gives a result or
ends in a fault, and what holds of the store in either case.
-/

namespace DeviceVm

/-- `x` started on `s` gives a result with `post`, or stops with a fault and `fail`. -/
def Stops {α : Type} (x : Run α) (s : Store) (post : α → Store → Prop)
    (fail : Fault → Store → Prop) : Prop :=
  Ends x s post ∨ ∃ f t, x s = .error f t ∧ fail f t

namespace Stops

variable {α β : Type} {s : Store} {post : β → Store → Prop} {fail : Fault → Store → Prop}
  {f : α → Run β}

lemma of_ends {x : Run β} (h : Ends x s post) : Stops x s post fail := .inl h

lemma pure {b : β} (h : post b s) : Stops (Pure.pure b) s post fail := .inl (.pure h)

lemma mono {x : Run β} {post' : β → Store → Prop} {fail' : Fault → Store → Prop}
    (h : Stops x s post fail) (hp : ∀ b t, post b t → post' b t)
    (hf : ∀ f t, fail f t → fail' f t) : Stops x s post' fail' := by
  rcases h with h | ⟨f, t, hr, h⟩
  · exact .inl (h.mono hp)
  · exact .inr ⟨f, t, hr, hf f t h⟩

lemma bind {x : Run α} {Q : α → Store → Prop} (hx : Stops x s Q fail)
    (hf : ∀ a t, Q a t → Stops (f a) t post fail) : Stops (x >>= f) s post fail := by
  have hbind : (x >>= f) s = EStateM.bind x f s := rfl
  rcases hx with ⟨a, t, hr, hq⟩ | ⟨e, t, hr, he⟩
  · have hrun : (x >>= f) s = f a t := by simp only [hbind, EStateM.bind, hr]
    rcases hf a t hq with ⟨b, u, hr', hp⟩ | ⟨e, u, hr', he⟩
    · exact .inl ⟨b, u, hrun.trans hr', hp⟩
    · exact .inr ⟨e, u, hrun.trans hr', he⟩
  · exact .inr ⟨e, t, by simp only [hbind, EStateM.bind, hr], he⟩

lemma after {x : Run α} {Q : α → Store → Prop} (hx : Ends x s Q)
    (hf : ∀ a t, Q a t → Stops (f a) t post fail) : Stops (x >>= f) s post fail :=
  bind (of_ends hx) hf

lemma read_bind {r : ReaderT Memory (Except Fault) α} {a : α} (hr : r s.mem = .ok a)
    (hf : Stops (f a) s post fail) : Stops (Bind.bind (m := Run) (Ends.ofRead r) f) s post fail :=
  after (Q := fun b t => b = a ∧ t = s) (.read hr ⟨rfl, rfl⟩) fun _ _ h => by
    rw [h.1, h.2]
    exact hf

lemma query_bind {q : ReaderT Store (Except Fault) α} {a : α} (hq : q s = .ok a)
    (hf : Stops (f a) s post fail) : Stops (Bind.bind (m := Run) (Ends.ofQuery q) f) s post fail :=
  after (Q := fun b t => b = a ∧ t = s) (.query hq ⟨rfl, rfl⟩) fun _ _ h => by
    rw [h.1, h.2]
    exact hf

lemma edit_bind {e : EStateM Fault Memory α} {a : α} {m : Memory} (he : e s.mem = .ok a m)
    (hf : Stops (f a) (s.setMem m) post fail) :
    Stops (Bind.bind (m := Run) (Ends.ofEdit e) f) s post fail :=
  after (Q := fun b t => b = a ∧ t = s.setMem m) (.edit he ⟨rfl, rfl⟩) fun _ _ h => by
    rw [h.1, h.2]
    exact hf

lemma except_bind {e : Except Fault α} {a : α} (he : e = .ok a) (hf : Stops (f a) s post fail) :
    Stops (Bind.bind (m := Run) (Ends.ofExcept e) f) s post fail :=
  after (Q := fun b t => b = a ∧ t = s) (.except he ⟨rfl, rfl⟩) fun _ _ h => by
    rw [h.1, h.2]
    exact hf

lemma get_bind {f : Store → Run β} (hf : Stops (f s) s post fail) :
    Stops (get >>= f) s post fail := hf

lemma modify_bind {g : Store → Store} {f : Unit → Run β} (hf : Stops (f ()) (g s) post fail) :
    Stops (modify g >>= f) s post fail := hf

lemma say_bind {level : LogLevel} {target : LogTarget} {text : Unit → String}
    {f : Unit → Run β} (hf : ∀ log, Stops (f ()) (s.setLog log) post fail) :
    Stops (Store.say level target text >>= f) s post fail :=
  modify_bind (hf _)

lemma fatal {cause : FatalCause} (h : ∀ log, fail (.fatal cause) (s.setLog log)) :
    Stops (Store.fatal cause) s post fail :=
  say_bind fun log => .inr ⟨_, _, rfl, h log⟩

end Stops

namespace Store.Same

variable {s t : Store}

lemma symm (h : s.Same t) : t.Same s :=
  ⟨h.rom.symm, h.eeprom.symm, h.ram.symm, h.collecting.symm, h.kind.symm, h.exactChunks.symm⟩

lemma of_setMem (s : Store) (m : Memory) : s.Same (s.setMem m) := ⟨rfl, rfl, rfl, rfl, rfl, rfl⟩

lemma of_setPersistent (s : Store) (m : Memory) (l : Log) (p : PersistentState) :
    s.Same { s with mem := m, log := l, persistent := p } := ⟨rfl, rfl, rfl, rfl, rfl, rfl⟩

end Store.Same

namespace Memory.Agrees

variable {changed : Nat → Prop} {m n : Memory} {source target len : Nat}

lemma move (h : Agrees (fun b => ¬ changed b) m n) (hs : source + len ≤ m.size)
    (ht : target + len ≤ m.size) (hc : ∀ b, target ≤ b → b < target + len → changed b) :
    Agrees (fun b => ¬ changed b) m (n.move source target len) := by
  have hsize := h.size
  refine ⟨(size_move (by omega) (by omega)).trans hsize, (order_move ..).trans h.order, ?_⟩
  intro b hb
  rw [peek_move (by omega) (by omega), if_neg fun hr => hb (hc b hr.1 hr.2)]
  exact h.peek b hb

lemma peek_moved (h : Agrees (fun b => ¬ changed b) m n) (hs : source + len ≤ m.size)
    (ht : target + len ≤ m.size) (hc : ∀ b, source ≤ b → b < source + len → ¬ changed b) {i : Nat}
    (hi : i < len) : (n.move source target len).peek (target + i) = m.peek (source + i) := by
  have := h.size
  rw [peek_move (by omega) (by omega), if_pos (by omega), Nat.add_sub_cancel_left]
  exact h.peek _ (hc _ (by omega) (by omega))

end Memory.Agrees

section

variable {s t : Store} {α : Type}

lemma Ends.and_yields {x : Run α} {post post' : α → Store → Prop} (h : Ends x s post)
    (h' : Yields x s post') : Ends x s fun a t => post a t ∧ post' a t := by
  obtain ⟨a, t, hr, hp⟩ := h
  exact ⟨a, t, hr, hp, h' a t hr⟩

lemma Run.bind_ok {β : Type} {x : Run α} {f : α → Run β} {a : α} (h : x s = .ok a t) :
    (x >>= f) s = f a t := by
  show EStateM.bind x f s = _
  simp only [EStateM.bind, h]

lemma Store.attempt_ok {x : Run α} {a : α} (h : x s = .ok a t) :
    attempt x s = .ok (.ok a) t := by
  rw [attempt, h]

lemma Store.attempt_error {x : Run α} {f : Fault} (h : x s = .error f t)
    (hf : f.isError = true) : attempt x s = .ok (.error f) t := by
  rw [attempt, h]
  exact if_pos hf

end

end DeviceVm
