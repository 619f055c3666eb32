import DeviceVm.Proofs.Stack.Simulation

/-!
How far a call that extended its frame can write. Its operands and the frames of its callees stay in
its chunk. Only a frame without operands that fills its chunk to the end leaves no room for a
callee, which the check behind the start of a frame finds.
-/

namespace DeviceVm.Stack

open Exec Word

variable {S : Scene} {m n : Machine} {w : Placement} {σ : Calls} {r : Room} {k mp v : UInt32}

/-- Only bytes of the chunk change, and the limit of the stack stays. -/
structure Room.Confines (r : Room) (m n : Machine) : Prop where
  memory : Memory.Agrees (fun b => ¬ r.Has b) m.store.mem n.store.mem
  limit : n.sl = m.sl

lemma Room.agrees_poke {mem : Memory} {a : Nat} (low : r.chunk.toNat ≤ a)
    (high : a + 4 ≤ r.stop) :
    Memory.Agrees (fun b => ¬ r.Has b) mem (mem.pokeWord a v) := by
  refine .poked fun b hb => ?_
  rw [Room.Has] at hb
  omega

namespace Scene

/-- The frame reserves no operands and ends where its chunk does. -/
def Fills (S : Scene) (w : Placement) (c : Call) : Prop :=
  (S.form c.method).operands = 0 ∧ w.lp + 4 * (c.locals.length + 5) = w.room.stop

lemma Standing.push_confined (ok : S.Ok) (h : S.Standing m σ w) (he : σ.entered = true)
    (room : σ.top.operands.length < (S.form σ.top.method).operands) :
    Gives (Exec.push v) m fun _ n =>
      S.Standing n (σ.withOperands (σ.top.operands ++ [v])) w ∧ w.room.Confines m n := by
  have := (h.works he).fits
  have := h.bounds
  have := h.sp_next ok he
  obtain ⟨_, n, hr, hn⟩ := h.push (P := fun _ n => S.Standing n _ w) ok he room
    fun n hn _ _ => hn
  refine ⟨(), n, hr, hn, ?_⟩
  obtain rfl := (EStateM.Result.ok.inj ((h.push_eq ok he room).symm.trans hr)).2
  exact ⟨Room.agrees_poke (by omega) (by omega), rfl⟩

lemma Standing.linked_confined (h : S.Standing m σ w) (he : σ.entered = true) :
    Memory.Agrees (fun b => ¬ w.room.Has b) m.store.mem
      (linked m w.lp (w.lp + 4 * (σ.top.locals.length + 5))) := by
  have := (h.works he).fits
  have := h.bounds
  exact (Room.agrees_poke (by omega) (by omega)).trans (Room.agrees_poke (by omega) (by omega))

section

variable (ok : S.Ok) (h : S.Standing m σ w) (he : σ.entered = true)
include ok h he

lemma Standing.pushFrame_fills (fills : S.Fills w σ.top) :
    ∃ n, Exec.pushFrame m = .error .broken n ∧ w.room.Confines m n := by
  obtain ⟨next, log, hnext, heq⟩ := h.pushFrame_eq ok he
  have hlt : ¬ next < m.sl := by
    rw [UInt32.lt_iff_toNat_lt, hnext, h.sl, fills.2]
    omega
  rw [decide_eq_false hlt] at heq
  exact ⟨_, heq, h.linked_confined he, rfl⟩

lemma Standing.pushFrame_confined (room : ¬ S.Fills w σ.top) :
    Gives Exec.pushFrame m fun _ n => n.lp.toNat = w.lp + 4 * (σ.top.locals.length + 5) ∧
      n.lp < n.sl ∧ S.Ready n.store ∧ w.room.Confines m n := by
  have := (h.works he).fits
  have := h.bounds
  obtain ⟨next, log, hnext, heq⟩ := h.pushFrame_eq ok he
  have hlt : next < m.sl := by
    rw [UInt32.lt_iff_toNat_lt, hnext, h.sl]
    rw [Fills] at room
    omega
  rw [decide_eq_true hlt] at heq
  have hagr := h.linked_confined he
  exact ⟨(), _, heq, hnext, hlt,
    (h.rests.holds.ready_write h.rests.ready hagr).congr rfl rfl rfl rfl rfl, hagr, rfl⟩

/-- What a call that extended its frame does stays in its chunk, unless the frame fills it and
another one is started. -/
structure Contained (S : Scene) (m : Machine) (σ : Calls) (w : Placement) : Prop where
  push : ∀ v, σ.top.operands.length < (S.form σ.top.method).operands →
    Gives (Exec.push v) m fun _ n =>
      S.Standing n (σ.withOperands (σ.top.operands ++ [v])) w ∧ w.room.Confines m n
  start : ¬ S.Fills w σ.top → Gives Exec.pushFrame m fun _ n => n.lp < n.sl ∧ w.room.Confines m n ∧
    ∀ sp k mp, S.isClass k → S.isMethod mp → Gives (Exec.enterIn k mp) { n with sp } fun _ o =>
      o.lp = n.lp ∧ w.room.Confines m o
  full : S.Fills w σ.top → ∃ n, Exec.pushFrame m = .error .broken n ∧ w.room.Confines m n

lemma Standing.contained : S.Contained m σ w where
  push _ room := h.push_confined ok he room
  full fills := h.pushFrame_fills ok he fills
  start room := by
    refine (h.pushFrame_confined ok he room).mono ?_
    rintro - n ⟨hlp, hlt, ready, confined⟩
    refine ⟨hlt, confined, fun sp k mp owner method => ?_⟩
    have := h.bounds
    have : n.lp.toNat < w.room.stop := by
      rw [← h.sl, ← confined.limit]
      exact UInt32.lt_iff_toNat_lt.1 hlt
    have hframe : Frame.Within n.store.mem n.lp n.lp.toNat := by
      have := confined.memory.size
      exact ⟨rfl, by omega, by omega, by omega, by have := h.size ok; omega⟩
    have hagr : Memory.Agrees (fun b => ¬ w.room.Has b) n.store.mem
        (chosen { n with sp, cp := k } n.lp.toNat mp) :=
      (Room.agrees_poke (by omega) (by omega)).trans (Room.agrees_poke (by omega) (by omega))
    apply Gives.modify_bind
    refine (enterMethod_gives ok (m := { n with sp, cp := k }) hframe
      (h.rests.holds.ready_write ready hagr) method owner).mono ?_
    rintro - _ ⟨log, rfl⟩
    exact ⟨rfl, confined.memory.trans hagr, confined.limit⟩

end

/-- Wherever a method goes on in a frame that it extended, in the chunk where it was called or in
another, its operands and the frames of its callees are inside that chunk. A frame is refused only
above one without operands that fills its chunk. -/
theorem callee_frames_stay_in_chunk (ok : S.Ok) (h : S.Standing m σ w) (he : σ.entered = false)
    {start operands : UInt32} (hstart : start = S.entry σ.top.method)
    (hops : operands.toNat = (S.form σ.top.method).operands) :
    Gives (Exec.extendFrame start operands) m fun step n =>
      (∃ chunk, step = .suspend (.collect chunk)) ∨
      (step = .proceed ∧ ∃ τ w', S.Standing n τ w' ∧ τ.top.method = σ.top.method ∧
        ∀ o vs, S.Standing o (τ.withOperands vs) w' → S.Contained o (τ.withOperands vs) w') := by
  refine h.extendFrame ok he hstart hops (fun n w' hn _ _ => .inr ⟨rfl, _, w', hn, rfl, ?_⟩)
    fun n w' _ _ _ => .inl ⟨_, rfl⟩
  exact fun o vs ho => ho.contained ok rfl

end Scene

/-- The method has room for its frame where it was called, goes on there, and its operands and
callees stay in that chunk. -/
theorem callee_frames_stay_in_chunk_sample :
    sampleScene.Standing sampleMachine sampleCalls samplePlacement ∧
    Gives (Exec.extendFrame 794 1) sampleMachine fun step n => step = .proceed ∧
      ∃ τ w', sampleScene.Standing n τ w' ∧ τ.top.method = 788 ∧ sampleScene.Contained n τ w' := by
  have goesOn : Gives (Exec.extendFrame 794 1) sampleMachine fun step _ => step = .proceed := by
    refine sample_standing.extendFrame sample_ok rfl (by decide) rfl (fun _ _ _ _ _ => rfl) ?_
    intro n w' stuck
    exact absurd stuck.crowded (by decide)
  have frames : Gives (Exec.extendFrame 794 1) sampleMachine _ :=
    Scene.callee_frames_stay_in_chunk sample_ok sample_standing rfl (by decide) rfl
  refine ⟨sample_standing, (goesOn.both frames).mono ?_⟩
  rintro step n ⟨rfl, ⟨chunk, suspended⟩ | ⟨-, τ, w', stands, method, contained⟩⟩
  · cases suspended
  · exact ⟨rfl, τ, w', stands, method, contained n τ.top.operands stands⟩

end DeviceVm.Stack
