import DeviceVm.Interpreter.Exceptions
import DeviceVm.Proofs.Stack.Saving

/-!
Throwing. The calls are searched from the innermost outwards for one that catches the exception;
those that do not are left, and the one that does goes on at its handler with the exception as its
only operand.
-/

namespace DeviceVm.Stack

open List Exec Placement

open Exec Word

variable {S : Scene} {m : Machine} {w : Placement} {σ τ : Calls} {c : Call} {cs : List Call}
  {k exception : UInt32}

namespace Scene

variable (S)

/-- The call has a handler for an exception of class `k`. -/
structure Catches (c : Call) (k : UInt32) (handler : Handler) : Prop where
  found : Settled S.fixed S.mem (findHandler c.method k (c.ip - c.method - 1)) (some handler)
  range : c.method.toNat + handler.target.toNat < 4294967296
  behind : c.method + handler.target ≠ S.entry c.method
  room : 0 < (S.form c.method).operands

/-- Calls without a handler for the class are left until one has it. -/
inductive Unwinds (k exception : UInt32) : List Call → Calls → Prop
  | caught {c : Call} {cs : List Call} {handler : Handler} (catches : S.Catches c k handler) :
      Unwinds k exception (c :: cs)
        ⟨{ c with ip := c.method + handler.target, operands := [exception] }, true, cs⟩
  | passed {c : Call} {cs : List Call} {τ : Calls}
      (uncaught : Settled S.fixed S.mem (findHandler c.method k (c.ip - c.method - 1)) none)
      (rest : Unwinds k exception cs τ) : Unwinds k exception (c :: cs) τ

variable {S} {P : Step → Machine → Prop} {fuel : Nat} {rest : List UInt32}

lemma Unwinds.ne_nil (h : S.Unwinds k exception cs τ) : cs ≠ [] := by
  cases h <;> simp

lemma At.isBottomFrame (ok : S.Ok) (h : S.At m w) (inside : w.lp ≤ w.room.stop)
    (previous : (m.store.mem.peekWord (w.lp - 12)).toNat = w.previous) :
    Exec.isBottomFrame m = .ok w.callers.isEmpty m := by
  have hframe := h.frame ok inside
  have hready := h.rests.ready
  have := UInt32.toNat_zero
  rw [Exec.isBottomFrame, get_bind_eq, read_bind_eq hframe.previous_eq]
  cases hw : w.inner with
  | cons c cs =>
    have hne : (m.store.mem.peekWord (w.lp - 12) != 0) = true := by
      rw [bne_iff_ne]
      intro hz
      have := @Room.above_ge w.room cs
      have : w.room.frame (c :: cs) = w.room.above cs := rfl
      rw [hz, Placement.previous, hw] at previous
      omega
    rw [if_pos hne, callers, hw]
    rfl
  | nil =>
    have hz : m.store.mem.peekWord (w.lp - 12) = 0 := UInt32.toNat_inj.1 (by
      rw [previous, Placement.previous, hw]
      rfl)
    rw [hz, if_neg (by decide), read_bind_eq (h.ofFrame ok inside previous),
      read_bind_eq (h.rests.holds.within ok hready).prev_eq]
    have hlinked := h.rests.below
    cases hb : w.below with
    | nil =>
      rw [hb] at hlinked
      rw [show m.store.mem.peekWord (w.room.chunk.toNat + 8) = 0 from hlinked, callers,
        hw, hb]
      rfl
    | cons t ts =>
      rw [hb] at hlinked
      have hroom : S.Holds m.store t.room := by
        refine h.rests.rooms _ (mem_cons_of_mem _ (mem_append_left _ ?_))
        rw [hb]
        exact mem_cons_self
      have hne : (t.room.chunk == 0) = false := by
        rw [beq_eq_false_iff_ne]
        intro hz
        have := hroom.low
        rw [hz] at this
        omega
      obtain ⟨c, cs, hc⟩ := exists_cons_of_ne_nil hlinked.2.1.some_call
      rw [hlinked.1, hne, callers, hw, hb, flatMap_cons, hc]
      rfl

lemma Standing.unwind_caught (ok : S.Ok) (h : S.Standing m ⟨c, true, cs⟩ w) (hip : m.ip = c.ip)
    {handler : Handler} (room : 0 < (S.form c.method).operands)
    (found : findHandler c.method k (c.ip - c.method - 1) m.store.mem = .ok (some handler))
    (range : c.method.toNat + handler.target.toNat < 4294967296)
    (hp : ∀ n, S.Standing n ⟨{ c with ip := c.method + handler.target, operands := [exception] },
      true, cs⟩ w → n.ip = c.method + handler.target → m.store.Onward n.store → P .proceed n) :
    Gives (unwind exception k (fuel + 1)) m P := by
  have hmethod := (h.frame ok h.inside).method_eq.trans (congrArg _ h.lies.method)
  apply Gives.get_bind
  refine .read_bind hmethod ?_
  apply Gives.get_bind
  rw [hip]
  refine .read_bind found ?_
  refine .except_bind (plus_eq range) ?_
  apply Gives.modify_bind
  have h1 : S.Standing { m with ip := c.method + handler.target } ⟨c, true, cs⟩ w :=
    h.congr rfl rfl rfl rfl rfl rfl
  refine .next (h1.clearOperands ok rfl fun n h2 h3 hon => ?_)
  refine .next (h2.push ok rfl room fun n' h4 h5 hon' => ?_)
  refine .next (Gives.say fun log => ?_)
  exact .pure (hp _ ((h4.setLog log).goOn _) (h5.trans h3) ((hon.trans hon').setLog log))

lemma Standing.unwind_passed (ok : S.Ok) (h : S.Standing m σ w) (hip : m.ip = σ.top.ip)
    (callers : σ.callers = c :: cs)
    (passed : findHandler σ.top.method k (σ.top.ip - σ.top.method - 1) m.store.mem = .ok none)
    (fuel : Nat) : ∃ n, S.Standing n ⟨c, true, cs⟩ w.back ∧ n.ip = c.ip ∧ m.store.Onward n.store ∧
      unwind exception k (fuel + 1) m = unwind exception k fuel n := by
  have hmethod := (h.frame ok h.inside).method_eq.trans (congrArg _ h.lies.method)
  have hcallers := h.callers.symm.trans callers
  have hbottom := h.toAt.isBottomFrame ok h.inside h.lies.previous
  rw [hcallers] at hbottom
  obtain ⟨⟨⟩, n, hpop, hn, hnip, hon⟩ := h.toAt.popFrame (P := fun _ n =>
    S.Standing n ⟨c, true, cs⟩ w.back ∧ n.ip = c.ip ∧ m.store.Onward n.store) ok h.inside
    h.lies.previous hcallers fun n h1 h2 _ _ _ hon => ⟨h1, h2, hon⟩
  refine ⟨n, hn, hnip, hon, ?_⟩
  rw [unwind, get_bind_eq, read_bind_eq hmethod, get_bind_eq, hip, read_bind_eq passed]
  dsimp only
  rw [bind_eq hbottom, isEmpty_cons, if_neg Bool.false_ne_true, bind_eq hpop]

lemma Standing.unwind (ok : S.Ok) (h : S.Standing m ⟨c, true, cs⟩ w) (hip : m.ip = c.ip)
    (unwinds : S.Unwinds k exception (c :: cs) τ) (enough : cs.length < fuel)
    (hp : ∀ n w', S.Standing n τ w' → τ.entered = true → n.ip = τ.top.ip →
      τ.top.ip ≠ S.entry τ.top.method → m.store.Onward n.store → P .proceed n) :
    Gives (unwind exception k fuel) m P := by
  generalize hcs : c :: cs = calls at unwinds
  induction unwinds generalizing m c cs w fuel with
  | @caught _ _ handler catches =>
    obtain ⟨rfl, rfl⟩ := cons.inj hcs
    rcases fuel with _ | fuel
    · omega
    exact h.unwind_caught ok hip catches.room (catches.found _ h.rests.ready.agrees) catches.range
      fun n h1 h2 hon => hp n w h1 rfl h2 catches.behind hon
  | @passed _ _ τ uncaught rest ih =>
    obtain ⟨rfl, rfl⟩ := cons.inj hcs
    rcases fuel with _ | fuel
    · omega
    -- Somebody catches the exception, so there is a caller.
    obtain ⟨d, ds, rfl⟩ := exists_cons_of_ne_nil rest.ne_nil
    obtain ⟨n, h1, h2, hon, heq⟩ := h.unwind_passed ok hip rfl (uncaught _ h.rests.ready.agrees)
      fuel
    rw [length_cons] at enough
    rw [Gives, heq]
    exact ih h1 h2 (by omega) (fun n' w'' h3 h4 h5 h6 hon' =>
      hp n' w'' h3 h4 h5 h6 (hon.trans hon')) rfl

lemma Standing.throwOperand (ok : S.Ok) (h : S.Standing m ⟨c, true, cs⟩ w)
    (operands : c.operands = rest ++ [exception]) (some_exception : exception ≠ 0)
    (kind : Settled S.fixed S.mem (Header.classOf exception) k)
    (unwinds : S.Unwinds k exception ({ c with ip := m.ip, operands := rest } :: cs) τ)
    (hp : ∀ n w', S.Standing n τ w' → τ.entered = true → n.ip = τ.top.ip →
      τ.top.ip ≠ S.entry τ.top.method → m.store.Onward n.store → P .proceed n) :
    Gives throwOperand m P := by
  have : 20 * cs.length + 40 ≤ m.store.mem.size := h.length_le
  apply Gives.get_bind
  refine .pos h.worked ?_
  refine .next (h.pop rfl operands fun n h1 h2 hon => ?_)
  have : n.store.mem.size = m.store.mem.size := by rw [h1.rests.ready.size, h.rests.ready.size]
  refine .neg (by simpa using some_exception) ?_
  apply Gives.read_bind (kind _ h1.rests.ready.agrees)
  apply Gives.read_bind (Memory.walkBound_eq _)
  have h4 := h1.goOn m.ip
  exact h4.unwind ok h2 unwinds (by show cs.length < _; omega) fun n' w' h5 h6 h7 h8 hon' =>
    hp n' w' h5 h6 h7 h8 (hon.trans hon')

lemma Standing.throwOperand_failed (ok : S.Ok)
    (h : S.Standing { m with collectionWorked := true } σ w) (failed : m.collectionWorked = false)
    (word : m.store.mem.peekWord (w.lp - 16) = σ.top.ip)
    (root : Store.root .ram Root.outOfMemory m.store = .ok exception)
    (some_exception : exception ≠ 0) :
    ∃ n, S.Standing n σ w ∧ n.ip = σ.top.ip ∧ m.store.Onward n.store ∧
      n.store.mem = m.store.mem ∧ Exec.throwOperand m = Exec.throwObject exception n := by
  have hframe := h.frame ok h.inside
  have hip : Frame.ip m.lp m.store.mem = .ok σ.top.ip := hframe.ip_eq.trans (congrArg _ word)
  have hzero : ¬ (exception == 0) = true := by simpa using some_exception
  have hlog : Gives (Gives.ofRun
      (Store.say .debug .interpreter fun _ => "throwing OutOfMemoryError"))
      { m with ip := σ.top.ip, collectionWorked := true } fun _ n => ∃ log, n = Machine.setLog
        { m with ip := σ.top.ip, collectionWorked := true } log :=
    Gives.say fun log => ⟨log, rfl⟩
  obtain ⟨_, _, hsay, log, rfl⟩ := hlog
  refine ⟨Machine.setLog { m with ip := σ.top.ip, collectionWorked := true } log, ?_, rfl,
    (Store.Onward.refl _).setLog log, rfl, ?_⟩
  · have h1 : S.Standing { m with ip := σ.top.ip, collectionWorked := true } σ w :=
      h.congr rfl rfl rfl rfl rfl rfl
    exact h1.setLog log
  · rw [Exec.throwOperand, get_bind_eq, if_neg (by simp [failed]), get_bind_eq, read_bind_eq hip]
    dsimp only
    rw [modify_bind_eq, query_bind_eq (m := { m with ip := σ.top.ip, collectionWorked := true })
      root, if_neg hzero, bind_eq hsay, pure_bind, if_neg hzero]

lemma Standing.throwOperand_null (ok : S.Ok) (h : S.Standing m ⟨c, true, cs⟩ w)
    (operands : c.operands = rest ++ [0])
    (hp : ∀ n, S.Standing n ⟨{ c with operands := [] }, true, cs⟩ w → n.ip = m.ip →
      m.store.Onward n.store → P (.call .nullPointerException) n) :
    Gives Exec.throwOperand m P := by
  apply Gives.get_bind
  refine .pos h.worked ?_
  refine .next (h.pop rfl operands fun n h1 h2 hon => ?_)
  refine .pos rfl ?_
  refine .next (h1.clearOperands ok rfl fun n' h3 h4 hon' => ?_)
  exact .pure (hp n' h3 (h4.trans h2) (hon.trans hon'))

end Scene

end DeviceVm.Stack
