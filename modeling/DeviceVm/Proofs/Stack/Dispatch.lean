import DeviceVm.Proofs.Interpreter.Handlers
import DeviceVm.Proofs.Stack.SampleScene
import DeviceVm.Proofs.Stack.Unwinding
import Mathlib.Logic.Function.Iterate

/-!
Dispatch of exceptions. `Call.handler` is what the table of its method has for a call: the first row
that covers the byte in front of where the call goes on and names the class of the exception or one
of its superclasses. An exception goes to the innermost call that has a handler, wherever the frames
are; it is fatal exactly where no call has one.
-/

namespace DeviceVm.Stack

open List UInt32 Header Placement Exec Word

variable {S : Scene} {m n : Machine} {mem : Memory} {w : Placement} {r : Room} {σ : Calls}
  {c : Call}
  {cs inner outer : List Call} {k exception number : UInt32} {numbers : List UInt32}
  {table : UInt32 → List Handler} {row : Handler} {chunk : UInt32}

/-! ### Chunks that are left -/

namespace Placement

lemma mem_rooms_back (hr : r ∈ w.rooms) : r ∈ w.back.rooms := by
  obtain ⟨room, inner, below, spares⟩ := w
  rw [rooms, others] at hr ⊢
  cases inner with
  | cons c cs => exact hr
  | nil =>
    rcases below with - | ⟨⟨next, calls⟩, ts⟩
    · exact hr
    cases calls with
    | nil => exact hr
    | cons c cs =>
      simp only [back, map_cons, mem_cons, mem_append] at hr ⊢
      tauto

lemma mem_rooms_leave (k : Nat) (hr : r ∈ w.rooms) : r ∈ (back^[k] w).rooms := by
  induction k generalizing w with
  | zero => exact hr
  | succ k ih => exact ih (mem_rooms_back hr)

/-- The chunks with frames. -/
def used (w : Placement) : List Room := w.room :: w.below.map (·.room)

lemma mem_rooms_of_used (hr : r ∈ w.used) : r ∈ w.rooms := by
  rcases mem_cons.1 hr with rfl | hr
  · exact mem_cons_self
  · exact mem_cons_of_mem _ (mem_append_left _ hr)

lemma mem_spares (hr : r ∈ w.rooms) (unused : r ∉ w.used) : r ∈ w.spares := by
  rcases mem_cons.1 hr with rfl | hr
  · exact absurd mem_cons_self unused
  · rcases mem_append.1 hr with hr | hr
    · exact absurd (mem_cons_of_mem _ hr) unused
    · exact hr

end Placement

lemma Scene.Spare.last {rs : List Room} (h : Scene.Spare mem chunk rs)
    (hr : r ∈ rs) : mem.peekWord (r.chunk.toNat + 16) = 0 := by
  induction rs generalizing chunk with
  | nil => cases hr
  | cons r' rs ih =>
    rcases mem_cons.1 hr with rfl | hr
    · exact h.2.1
    · exact ih h.2.2 hr

/-! ### Handlers of calls -/

/-- The handler that a call has for an exception of classes with these numbers, the class of the
exception and its superclasses. -/
def Call.handler (table : UInt32 → List Handler) (numbers : List UInt32) (c : Call) :
    Option Handler :=
  (table c.method).find? (·.catches (c.ip - c.method - 1) numbers)

def Calls.all (σ : Calls) : List Call := σ.top :: σ.callers

/-- The call as its handler finds it. -/
def Call.handling (c : Call) (row : Handler) (exception : UInt32) : Call :=
  { c with ip := c.method + row.target, operands := [exception] }

namespace Scene

variable (S)

/-- The exception tables and the superclasses that the search for a handler reads. -/
structure Dispatches (σ : Calls) (table : UInt32 → List Handler) (k : UInt32)
    (numbers : List UInt32) : Prop where
  classes : Class.Ascends S.fixed S.mem k numbers
  tables : ∀ c ∈ σ.all, Settled S.fixed S.mem (Method.handlers c.method) (table c.method)
  room : ∀ c ∈ σ.all, 0 < (S.form c.method).operands
  /-- A method that has not extended its frame is not at an instruction that a row could cover. -/
  entered : σ.entered = false → σ.top.handler table numbers = none

/-- The machine goes on in the frame of `c`, which is the innermost in `w'`, at a handler. The calls
inside of it have been left; they were placed by `w`. -/
structure Caught (w w' : Placement) (c : Call) (outer : List Call) (row : Handler)
    (exception : UInt32) (n : Machine) : Prop where
  standing : S.Standing n ⟨c.handling row exception, true, outer⟩ w'
  ip : n.ip = c.method + row.target
  lp : n.lp.toNat = w'.lp
  sl : n.sl.toNat = w'.room.stop
  cp : n.cp = c.owner
  locals : n.store.mem.Lists w'.lp c.locals
  operand : n.store.mem.peekWord n.sp.toNat = exception
  only : n.sp.toNat = w'.lp + 4 * (c.locals.length + 5)
  unused : ∀ r ∈ w.used, r ∉ w'.used → n.store.mem.peekWord (r.chunk.toNat + 16) = 0

variable {S}

lemma Dispatches.found (h : S.Dispatches σ table k numbers) (hc : c ∈ σ.all) :
    Settled S.fixed S.mem (findHandler c.method k (c.ip - c.method - 1))
      (c.handler table numbers) :=
  findHandler_eq h.classes (h.tables c hc)

lemma Dispatches.back (h : S.Dispatches σ table k numbers) (callers : σ.callers = c :: cs) :
    S.Dispatches ⟨c, true, cs⟩ table k numbers := by
  have hmem : ∀ d ∈ (⟨c, true, cs⟩ : Calls).all, d ∈ σ.all := fun d hd =>
    mem_cons_of_mem _ (callers ▸ hd)
  exact ⟨h.classes, fun d hd => h.tables d (hmem d hd), fun d hd => h.room d (hmem d hd), nofun⟩

lemma Dispatches.range (h : S.Dispatches σ table k numbers) (ok : S.Ok)
    (known : S.isMethod σ.top.method) (caught : σ.top.handler table numbers = some row) :
    σ.top.method.toNat + row.target.toNat < 4294967296 := by
  have hread := (h.tables _ mem_cons_self).here
  have := Method.target_lt_of_handlers hread (mem_of_find?_eq_some caught)
  have := Method.lt_size_of_headerSize (ok.method _ known).header.here
  have := ok.mem_size
  omega

section

variable (ok : S.Ok) (h : S.Standing m σ w) (hip : m.ip = σ.top.ip) {fuel : Nat}
include ok h hip

lemma Standing.caught (dispatches : S.Dispatches σ table k numbers)
    (caught : σ.top.handler table numbers = some row) (fuel : Nat) :
    Gives (Exec.unwind exception k (fuel + 1)) m fun step n => step = .proceed ∧
      S.Standing n ⟨σ.top.handling row exception, true, σ.callers⟩ w ∧
      n.ip = σ.top.method + row.target := by
  have he : σ.entered = true := by
    cases he : σ.entered with
    | true => rfl
    | false =>
      rw [dispatches.entered he] at caught
      cases caught
  obtain ⟨top, entered, callers⟩ := σ
  subst he
  have hfound := dispatches.found mem_cons_self _ h.rests.ready.agrees
  refine h.unwind_caught ok hip (dispatches.room _ mem_cons_self) (caught ▸ hfound)
    (dispatches.range ok (h.works rfl).known caught) fun n h1 h2 _ => ⟨rfl, h1, h2⟩

lemma Standing.unwind_to_handler (dispatches : S.Dispatches σ table k numbers)
    (split : σ.all = inner ++ c :: outer) (passed : ∀ d ∈ inner, d.handler table numbers = none)
    (caught : c.handler table numbers = some row) (enough : inner.length < fuel) :
    Gives (Exec.unwind exception k fuel) m fun step n => step = .proceed ∧
      S.Standing n ⟨c.handling row exception, true, outer⟩ (Placement.back^[inner.length] w) ∧
      n.ip = c.method + row.target := by
  induction inner generalizing m σ w fuel with
  | nil =>
    rcases fuel with _ | fuel
    · omega
    obtain ⟨rfl, rfl⟩ := List.cons.inj split
    exact h.caught ok hip dispatches caught fuel
  | cons d inner ih =>
    rcases fuel with _ | fuel
    · omega
    obtain ⟨rfl, hcallers⟩ := cons.inj split
    -- The call that catches the exception is among the callers.
    obtain ⟨e, es, hes⟩ : ∃ e es, σ.callers = e :: es :=
      exists_cons_of_ne_nil (hcallers ▸ append_ne_nil_of_right_ne_nil _ nofun)
    have hnone := dispatches.found mem_cons_self _ h.rests.ready.agrees
    rw [passed _ List.mem_cons_self] at hnone
    obtain ⟨n, h1, h2, -, heq⟩ := h.unwind_passed ok hip hes hnone fuel
    rw [Gives, heq]
    rw [List.length_cons] at enough
    exact ih h1 h2 (dispatches.back hes) (hes.symm.trans hcallers)
      (fun d hd => passed d (mem_cons_of_mem _ hd)) (by omega)

lemma Standing.unwind_uncaught (dispatches : S.Dispatches σ table k (number :: numbers))
    (passed : ∀ d ∈ σ.all, d.handler table (number :: numbers) = none)
    (enough : σ.callers.length < fuel) :
    ∃ n, Exec.unwind exception k fuel m = .error (.fatal (.uncaught number)) n := by
  generalize hcs : σ.callers = cs at enough
  induction cs generalizing m σ w fuel with
  | nil =>
    rcases fuel with _ | fuel
    · omega
    have hready := h.rests.ready
    have hmethod := (h.frame ok h.inside).method_eq.trans (congrArg _ h.lies.method)
    have hnone := dispatches.found mem_cons_self _ hready.agrees
    rw [passed _ mem_cons_self] at hnone
    have hbottom := h.toAt.isBottomFrame ok h.inside h.lies.previous
    rw [← h.callers, hcs] at hbottom
    cases dispatches.classes with
    | above some_class number_eq up_eq rest =>
      rw [Exec.unwind, get_bind_eq, read_bind_eq hmethod, get_bind_eq, hip, read_bind_eq hnone]
      dsimp only
      rw [bind_eq hbottom, isEmpty_nil, if_pos rfl, read_bind_eq (number_eq _ hready.agrees)]
      exact ⟨_, rfl⟩
  | cons c cs ih =>
    rcases fuel with _ | fuel
    · omega
    have hnone := dispatches.found mem_cons_self _ h.rests.ready.agrees
    rw [passed _ mem_cons_self] at hnone
    obtain ⟨n, h1, h2, -, heq⟩ := h.unwind_passed ok hip hcs hnone fuel
    rw [heq]
    rw [length_cons] at enough
    exact ih h1 h2 (dispatches.back hcs)
      (fun d hd => passed d (mem_cons_of_mem _ (hcs ▸ hd))) rfl (by omega)

end

lemma Standing.caughtAt (h : S.Standing n ⟨c.handling row exception, true, outer⟩
      (back^[inner.length] w)) (hip : n.ip = c.method + row.target) :
    S.Caught w (back^[inner.length] w) c outer row exception n := by
  have hwk := h.works rfl
  have hsp : n.sp.toNat = (back^[inner.length] w).lp + 4 * (c.locals.length + 5) := by
    rw [hwk.sp]
    show _ + 4 * (c.locals.length + 4) + 4 * 1 = _
    omega
  refine ⟨h, hip, h.lp, h.sl, h.cp, hwk.locals, ?_, hsp, fun r hr hu => ?_⟩
  · rw [hsp]
    exact hwk.operands.1
  · exact h.rests.spares.last (mem_spares
      (mem_rooms_leave _ (mem_rooms_of_used hr)) hu)

section

variable (ok : S.Ok) (h : S.Standing m σ w) (hip : m.ip = σ.top.ip)
  (kind : classOf exception m.store.mem = .ok k)
include ok h hip kind

lemma Standing.throw_caught (dispatches : S.Dispatches σ table k numbers)
    (split : σ.all = inner ++ c :: outer) (passed : ∀ d ∈ inner, d.handler table numbers = none)
    (caught : c.handler table numbers = some row) :
    Gives (Exec.throwObject exception) m fun step n => step = .proceed ∧
      S.Caught w (back^[inner.length] w) c outer row exception n := by
  have := h.length_le
  have hshort : inner.length < m.store.mem.size + 1 := by
    have := congrArg length split
    simp only [Calls.all, length_cons, length_append] at this
    omega
  apply Gives.read_bind kind
  apply Gives.read_bind (Memory.walkBound_eq _)
  exact (h.unwind_to_handler ok hip dispatches split passed caught hshort).mono
    fun step n hn => ⟨hn.1, hn.2.1.caughtAt hn.2.2⟩

lemma Standing.throw_uncaught (dispatches : S.Dispatches σ table k (number :: numbers))
    (passed : ∀ d ∈ σ.all, d.handler table (number :: numbers) = none) :
    ∃ n, Exec.throwObject exception m = .error (.fatal (.uncaught number)) n := by
  have := h.length_le
  rw [Exec.throwObject, read_bind_eq kind, read_bind_eq (Memory.walkBound_eq _)]
  exact h.unwind_uncaught ok hip dispatches passed (by omega)

end

end Scene

/-! ### An exception that leaves a chunk

A method without handlers throws. Its caller, which is in another chunk, has a row for a class that
the exception is not of and one for the superclass of its class. -/

def throwing : Call := ⟨800, 807, 744, [], []⟩
end DeviceVm.Stack
