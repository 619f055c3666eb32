import DeviceVm.Proofs.Stack.Layout

/-!
A context that runs. `Scene.Standing` relates the registers and the innermost frame to the
innermost call, which has either extended its frame already or was just called; `Scene.Started`
is what holds between the start of a frame and the choice of its method.
-/

namespace DeviceVm

/-- What was in use stays in use, object memory keeps its end, and stores are recorded as before. -/
structure Store.Onward (s t : Store) : Prop where
  free : (s.recorded 3).toNat ≤ (t.recorded 3).toNat
  stop : t.recorded 4 = s.recorded 4
  bits : t.bits = s.bits
  barrier : t.barrier = s.barrier

namespace Store.Onward

variable {s t u : Store} {mem : Memory} {v : UInt32} {a : Nat}

@[simp] lemma refl (s : Store) : s.Onward s := ⟨Nat.le_refl _, rfl, rfl, rfl⟩

lemma trans (h : s.Onward t) (h' : t.Onward u) : s.Onward u :=
  ⟨Nat.le_trans h.free h'.free, h'.stop.trans h.stop, h'.bits.trans h.bits,
    h'.barrier.trans h.barrier⟩

lemma setLog (h : s.Onward t) (log : Log) : s.Onward (t.setLog log) :=
  ⟨h.free, h.stop, h.bits, h.barrier⟩

lemma write (ha : Memory.Agrees (fun b => b < s.ram.start.toNat + 64) s.mem mem) :
    s.Onward (s.setMem mem) := by
  have hw : ∀ j < 16, (s.setMem mem).recorded j = s.recorded j := fun j hj => by
    rw [recorded, recorded, setMem_mem, setMem_ram]
    exact ha.peekWord _ fun i hi => by omega
  exact ⟨by rw [hw 3 (by omega)], hw 4 (by omega), rfl, rfl⟩

lemma poke (low : s.ram.start.toNat + 64 ≤ a) : s.Onward (s.setMem (s.mem.pokeWord a v)) :=
  write (.poked fun b hb => by omega)

end Store.Onward

end DeviceVm

namespace DeviceVm.Stack

open List Memory Room Exec Store Word

variable {S : Scene} {s t : Store} {m : Machine} {mem : Memory} {w : Placement} {r : Room}
  {σ : Calls} {c : Call} {v : UInt32} {vs : List UInt32}

/-! ### Writes -/

/-- The bytes of the running chunk that do not tell where calls are: its last frame and what
follows the header of the innermost frame. -/
def Placement.Open (w : Placement) (b : Nat) : Prop :=
  w.room.Has b ∧ ((w.room.chunk.toNat + 16 ≤ b ∧ b < w.room.chunk.toNat + 20) ∨ w.lp ≤ b + 20)

namespace Scene

lemma Ready.congr (h : S.Ready s) (rom : t.rom = s.rom) (eeprom : t.eeprom = s.eeprom)
    (ram : t.ram = s.ram) (mem : t.mem = s.mem) (collecting : t.collecting = s.collecting) :
    S.Ready t := by
  have hw : ∀ j, t.recorded j = s.recorded j := fun j => by
    rw [recorded, recorded, ram, mem]
  constructor
  case rom => exact rom.trans h.rom
  case eeprom => exact eeprom.trans h.eeprom
  case ram => exact ram.trans h.ram
  case agrees =>
    rw [mem]
    exact h.agrees
  case collecting => exact collecting.trans h.collecting
  all_goals simp only [hw]
  case free_aligned => exact h.free_aligned
  case free_low => exact h.free_low
  case free_le => exact h.free_le
  case stop_le => exact h.stop_le
  case fixed_free => exact h.fixed_free

lemma Ready.size (h : S.Ready s) : s.mem.size = S.mem.size := h.agrees.size

lemma Ready.bounds (h : S.Ready s) : S.ram.start.toNat + 64 ≤ (s.recorded 3).toNat ∧
    (s.recorded 3).toNat ≤ (s.recorded 4).toNat ∧ (s.recorded 4).toNat ≤ S.mem.size ∧
    s.mem.size = S.mem.size :=
  ⟨h.free_low, h.free_le, h.stop_le, h.size⟩

lemma Ready.recorded (h : S.Ready s) (ok : S.Ok) : s.Recorded where
  aligned := h.ram ▸ ok.record_aligned
  inside := by
    rw [h.ram, h.size]
    exact ok.record_inside
  small := by
    rw [h.size]
    exact ok.mem_size

lemma Ready.write {kept : Nat → Prop} (h : S.Ready s) (ha : Memory.Agrees kept s.mem mem)
    (fixed : ∀ b, S.fixed b → kept b)
    (record : ∀ b, S.ram.start.toNat + 12 ≤ b → b < S.ram.start.toNat + 20 → kept b) :
    S.Ready (s.setMem mem) := by
  have hw : ∀ j, 3 ≤ j → j < 5 → (s.setMem mem).recorded j = s.recorded j := fun j _ hj => by
    rw [Store.recorded, Store.recorded, Store.setMem_mem, Store.setMem_ram, h.ram]
    exact ha.peekWord _ fun i hi => record _ (by omega) (by omega)
  have h3 := hw 3 (by omega) (by omega)
  have h4 := hw 4 (by omega) (by omega)
  constructor
  case rom => exact h.rom
  case eeprom => exact h.eeprom
  case ram => exact h.ram
  case agrees => exact h.agrees.trans (ha.mono fixed)
  case collecting => exact h.collecting
  all_goals simp only [h3, h4]
  case free_aligned => exact h.free_aligned
  case free_low => exact h.free_low
  case free_le => exact h.free_le
  case stop_le => exact h.stop_le
  case fixed_free => exact h.fixed_free

lemma Rests.holds (h : S.Rests s w) : S.Holds s w.room := h.rooms _ mem_cons_self

lemma Rests.not_open {b : Nat} (h : S.Rests s w) (hk : w.Keeps b) : ¬ w.Open b := by
  rintro ⟨⟨h1, h2⟩, ho⟩
  have := w.lp_ge
  rcases hk with hk | hk | ⟨r, hr, hb⟩
  · omega
  · omega
  · have ha := rel_of_pairwise_cons h.apart hr
    rw [Room.Apart] at ha
    have := hb.1
    have := hb.2
    omega

lemma Holds.ready_write (h : S.Holds s r) (ready : S.Ready t)
    (ha : Memory.Agrees (fun b => ¬ r.Has b) t.mem mem) : S.Ready (t.setMem mem) := by
  refine ready.write ha (fun b hb hr => ?_) fun b _ hb hr => ?_
  · have := h.fixed b hb
    have := hr.1
    have := hr.2
    omega
  · have := h.low
    have := hr.1
    omega

lemma Rests.write (h : S.Rests s w) (ha : Memory.Agrees (fun b => ¬ w.Open b) s.mem mem) :
    S.Rests (s.setMem mem) w := by
  have hh := h.holds
  have ready : S.Ready (s.setMem mem) := hh.ready_write h.ready (ha.mono fun b hb ho => hb ho.1)
  have hfree : (s.setMem mem).recorded 3 = s.recorded 3 := by
    rw [recorded, recorded, setMem_mem, setMem_ram, h.ready.ram]
    refine ha.peekWord _ fun i hi ho => ?_
    have := hh.low
    have := ho.1.1
    omega
  exact h.agrees ready (Nat.le_of_eq (congrArg _ hfree.symm)) (ha.mono fun b hb => h.not_open hb)

lemma Rests.congr (h : S.Rests s w) (rom : t.rom = s.rom) (eeprom : t.eeprom = s.eeprom)
    (ram : t.ram = s.ram) (mem : t.mem = s.mem) (collecting : t.collecting = s.collecting) :
    S.Rests t w := by
  refine h.agrees (h.ready.congr rom eeprom ram mem collecting) (Nat.le_of_eq ?_) ?_
  · rw [recorded, recorded, ram, mem]
  · rw [mem]
    exact .refl _

end Scene

/-! ### Registers -/

namespace Scene

variable (S)

/-- The machine runs in the innermost frame of a placement. -/
structure At (m : Machine) (w : Placement) : Prop where
  rests : S.Rests m.store w
  last : m.store.mem.peekWord (w.room.chunk.toNat + 16) = 0
  worked : m.collectionWorked = true
  lp : m.lp.toNat = w.lp
  sl : m.sl.toNat = w.room.stop

/-- A frame was started; the operands of its caller are its first locals. -/
structure Started (m : Machine) (args : List UInt32) (w : Placement) : Prop extends S.At m w where
  previous : (m.store.mem.peekWord (w.lp - 12)).toNat = w.previous
  given : m.store.mem.Lists w.lp args
  sp : m.sp.toNat + 4 = w.lp + 4 * args.length
  inside : w.lp + 4 * args.length ≤ w.room.stop

/-- The registers and the frame of the innermost call, once it has run its first instruction. -/
structure Works (m : Machine) (w : Placement) (c : Call) : Prop
    extends S.Entered m.store.mem w.room w.lp w.previous c where
  operands : m.store.mem.Lists (w.lp + 4 * (c.locals.length + 5)) c.operands
  within : c.operands.length ≤ (S.form c.method).operands
  sp : m.sp.toNat = w.lp + 4 * (c.locals.length + 4) + 4 * c.operands.length

/-- The innermost call is about to extend its frame. Its locals are the arguments so far. -/
structure Called (m : Machine) (w : Placement) (c : Call) : Prop
    extends c.Lies m.store.mem w.lp w.previous where
  known : S.isMethod c.method
  count : c.locals.length = (S.form c.method).parameters
  operands : c.operands = []
  sp : m.sp.toNat + 4 = w.lp + 4 * c.locals.length
  inside : w.lp + 4 * c.locals.length ≤ w.room.stop
  /-- A chunk has room for the first frame that was put into it. -/
  first : w.inner = [] →
    w.lp + 4 * ((S.form c.method).locals + 4 + (S.form c.method).operands) < w.room.stop

/-- The machine has the calls of a context. Where the innermost goes on is left open. -/
structure Standing (m : Machine) (σ : Calls) (w : Placement) : Prop extends S.At m w where
  callers : σ.callers = w.callers
  cp : m.cp = σ.top.owner
  top : if σ.entered then S.Works m w σ.top else S.Called m w σ.top

end Scene

namespace Scene

lemma At.size (h : S.At m w) (ok : S.Ok) : m.store.mem.size ≤ 16777216 := by
  rw [h.rests.ready.size]
  exact ok.mem_size

lemma At.stop_le (h : S.At m w) : w.room.stop ≤ m.store.mem.size := by
  have := h.rests.holds.high
  have := h.rests.ready.bounds
  omega

lemma Holds.above_aligned (h : S.Holds s r) (cs : List Call) : r.above cs % 4 = 0 := by
  induction cs with
  | nil =>
    have := h.aligned
    rw [above, reach]
    omega
  | cons c cs ih =>
    rw [above_cons]
    omega

lemma Holds.stop_aligned (h : S.Holds s r) : r.stop % 4 = 0 := by
  have := h.aligned
  rw [stop]
  omega

lemma At.stop_aligned (h : S.At m w) : w.room.stop % 4 = 0 := h.rests.holds.stop_aligned

lemma At.lp_aligned (h : S.At m w) : w.lp % 4 = 0 := h.rests.holds.above_aligned w.inner

lemma At.lp_ge (_ : S.At m w) : w.room.chunk.toNat + 40 ≤ w.lp := above_ge

lemma At.bounds (h : S.At m w) : (w.room.chunk.toNat + 40 ≤ w.lp ∧ w.lp % 4 = 0) ∧
    w.room.stop ≤ m.store.mem.size ∧ w.room.stop % 4 = 0 :=
  ⟨⟨h.lp_ge, h.lp_aligned⟩, h.stop_le, h.stop_aligned⟩

lemma At.write (h : S.At m w) (ha : Memory.Agrees (fun b => ¬ w.Open b) m.store.mem mem)
    (last : mem.peekWord (w.room.chunk.toNat + 16) = 0) : S.At (m.setMem mem) w where
  __ := h
  rests := h.rests.write ha
  last := last

lemma At.poke {a : Nat} (h : S.At m w) (low : w.lp ≤ a + 20) (high : a + 4 ≤ w.room.stop) :
    S.At (m.setMem (m.store.mem.pokeWord a v)) w := by
  have := h.lp_ge
  refine h.write ?_ ?_
  · refine .poked fun b hb => ?_
    by_contra hc
    exact hb ⟨⟨by omega, by omega⟩, .inr (by omega)⟩
  · rw [peekWord_pokeWord_apart v (by omega)]
    exact h.last

end Scene

/-! ### Operands -/

def Calls.withOperands (σ : Calls) (operands : List UInt32) : Calls :=
  { σ with top := { σ.top with operands } }

namespace Scene

lemma Standing.works (h : S.Standing m σ w) (he : σ.entered = true) : S.Works m w σ.top := by
  have := h.top
  rwa [if_pos he] at this

lemma Standing.called (h : S.Standing m σ w) (he : σ.entered = false) :
    S.Called m w σ.top := by
  have := h.top
  rwa [if_neg (by simp [he])] at this

lemma At.working (h : S.At m w) (callers : σ.callers = w.callers) (cp : m.cp = σ.top.owner)
    (he : σ.entered = true) (top : S.Works m w σ.top) : S.Standing m σ w :=
  ⟨h, callers, cp, by rwa [if_pos he]⟩

lemma At.called (h : S.At m w) (callers : σ.callers = w.callers) (cp : m.cp = σ.top.owner)
    (he : σ.entered = false) (top : S.Called m w σ.top) : S.Standing m σ w :=
  ⟨h, callers, cp, by rwa [if_neg (by simp [he])]⟩

lemma Standing.congr {n : Machine} (h : S.Standing m σ w) (store : n.store = m.store)
    (worked : n.collectionWorked = m.collectionWorked) (lp : n.lp = m.lp) (sp : n.sp = m.sp)
    (cp : n.cp = m.cp) (sl : n.sl = m.sl) : S.Standing n σ w := by
  obtain ⟨⟨rests, last, hw, hlp, hsl⟩, callers, hcp, top⟩ := h
  refine ⟨⟨store ▸ rests, store ▸ last, worked ▸ hw, lp ▸ hlp, sl ▸ hsl⟩, callers, cp ▸ hcp, ?_⟩
  split
  · rename_i he
    rw [if_pos he] at top
    obtain ⟨he, ho, hi, hs⟩ := top
    exact ⟨store ▸ he, store ▸ ho, hi, sp ▸ hs⟩
  · rename_i he
    rw [if_neg he] at top
    obtain ⟨hl, hk, hc, ho, hs, hi, hf⟩ := top
    exact ⟨store ▸ hl, hk, hc, ho, sp ▸ hs, hi, hf⟩

lemma Standing.setLog (h : S.Standing m σ w) (log : Log) : S.Standing (m.setLog log) σ w := by
  obtain ⟨⟨rests, last, hw, hlp, hsl⟩, callers, hcp, top⟩ := h
  refine ⟨⟨rests.congr rfl rfl rfl rfl rfl, last, hw, hlp, hsl⟩, callers, hcp, ?_⟩
  split
  · rename_i he
    rw [if_pos he] at top
    obtain ⟨he, ho, hi, hs⟩ := top
    exact ⟨he, ho, hi, hs⟩
  · rename_i he
    rw [if_neg he] at top
    obtain ⟨hl, hk, hc, ho, hs, hi, hf⟩ := top
    exact ⟨hl, hk, hc, ho, hs, hi, hf⟩

lemma At.low (h : S.At m w) : m.store.ram.start.toNat + 104 ≤ w.lp := by
  have := h.lp_ge
  have := h.rests.holds.low
  rw [h.rests.ready.ram]
  omega

lemma Standing.stack (h : S.Standing m σ w) (he : σ.entered = true) {p : UInt32}
    (ha : Memory.Agrees (fun b => b < w.lp + 4 * (σ.top.locals.length + 5) ∨ w.room.stop ≤ b)
      m.store.mem mem)
    (operands : mem.Lists (w.lp + 4 * (σ.top.locals.length + 5)) vs)
    (within : vs.length ≤ (S.form σ.top.method).operands)
    (hsp : p.toNat = w.lp + 4 * (σ.top.locals.length + 4) + 4 * vs.length) :
    S.Standing (Machine.setMem { m with sp := p } mem) (σ.withOperands vs) w := by
  have hwk := h.works he
  have := h.lp_ge
  have hat : S.At { m with sp := p } w := ⟨h.rests, h.last, h.worked, h.lp, h.sl⟩
  refine At.working (hat.write (ha.mono fun b hb => ?_) ?_) h.callers h.cp he ?_
  · by_contra hc
    exact hb ⟨⟨by omega, by omega⟩, .inr (by omega)⟩
  · rw [ha.peekWord _ fun i hi => by omega]
    exact h.last
  · refine ⟨Entered.like (c := σ.top) ?_ rfl rfl rfl, operands, within, hsp⟩
    exact hwk.toEntered.agrees ha (by omega) fun b hb => by omega

section

variable (ok : S.Ok) (h : S.Standing m σ w) (he : σ.entered = true) {P : Unit → Machine → Prop}
include ok h he

lemma Standing.sp_next :
    (m.sp + 4).toNat = w.lp + 4 * (σ.top.locals.length + 5) + 4 * σ.top.operands.length := by
  have hwk := h.works he
  have := hwk.fits
  have := hwk.within
  have := h.stop_le
  have := h.size ok
  have := toNat_four
  rw [toNat_plus (by rw [hwk.sp]; omega), hwk.sp]
  omega

lemma Standing.push_eq (room : σ.top.operands.length < (S.form σ.top.method).operands) :
    push v m = .ok () (Machine.setMem { m with sp := m.sp + 4 }
      (m.store.mem.pokeWord (m.sp + 4).toNat v)) := by
  have := (h.works he).fits
  have := h.bounds
  have ha := h.sp_next ok he
  have hlt : m.sp + 4 < m.sl := UInt32.lt_iff_toNat_lt.2 (by
    rw [ha, h.sl]
    omega)
  suffices hg : Gives (push v) m fun _ n => n = Machine.setMem { m with sp := m.sp + 4 }
      (m.store.mem.pokeWord (m.sp + 4).toNat v) by
    obtain ⟨_, _, hr, rfl⟩ := hg
    exact hr
  apply Gives.get_bind
  apply Gives.modify_bind
  apply Gives.get_bind
  refine .except_bind (a := ()) (by simp [require, hlt]) ?_
  exact .edit (setWordAt_eq (by omega) (by
    show _ ≤ m.store.mem.size
    omega)) rfl

lemma Standing.push (room : σ.top.operands.length < (S.form σ.top.method).operands)
    (hp : ∀ n, S.Standing n (σ.withOperands (σ.top.operands ++ [v])) w → n.ip = m.ip →
      m.store.Onward n.store → P () n) :
    Gives (push v) m P := by
  have hwk := h.works he
  have := hwk.fits
  have := h.bounds
  have ha := h.sp_next ok he
  refine ⟨(), _, h.push_eq ok he room, hp _ ?_ rfl (.poke (by have := h.low; omega))⟩
  have hagr : Memory.Agrees (fun b => b < (m.sp + 4).toNat ∨ w.room.stop ≤ b) m.store.mem
      (m.store.mem.pokeWord (m.sp + 4).toNat v) :=
    .poked fun b hb => by omega
  have hself : (m.store.mem.pokeWord (m.sp + 4).toNat v).peekWord (m.sp + 4).toNat = v :=
    peekWord_pokeWord_self v (by omega)
  refine h.stack he (hagr.mono fun b hb => by omega) ?_ ?_ ?_
  · refine lists_append.2 ⟨hwk.operands.agrees hagr fun b _ hb => by omega, ?_, trivial⟩
    rw [← ha]
    exact hself
  · rw [length_append]
    exact room
  · rw [ha, length_append, length_singleton]
    omega

omit ok in
lemma Standing.pop (operands : σ.top.operands = vs ++ [v]) {P : UInt32 → Machine → Prop}
    (hp : ∀ n, S.Standing n (σ.withOperands vs) w → n.ip = m.ip → m.store.Onward n.store → P v n) :
    Gives pop m P := by
  have hwk := h.works he
  have hlists := hwk.operands
  have hsp := hwk.sp
  have hin := hwk.within
  have := hwk.fits
  have := h.bounds
  rw [operands, lists_append] at hlists
  rw [operands, length_append, length_singleton] at hsp hin
  have := toNat_four
  have hv : m.store.mem.peekWord m.sp.toNat = v := by
    rw [show m.sp.toNat = w.lp + 4 * (σ.top.locals.length + 5) + 4 * vs.length by omega]
    exact hlists.2.1
  unfold Exec.pop
  apply Gives.get_bind
  apply Gives.read_bind (wordAt_eq (by omega) (by omega))
  apply Gives.modify_bind
  refine .pure ?_
  rw [hv]
  refine hp _ ?_ rfl (.refl _)
  refine h.stack (p := m.sp - 4) he (.refl _) hlists.1 (by omega) ?_
  rw [toNat_minus] <;> omega

lemma Standing.clearOperands
    (hp : ∀ n, S.Standing n (σ.withOperands []) w → n.ip = m.ip → m.store.Onward n.store → P () n) :
    Gives clearOperands m P := by
  have hwk := h.works he
  have := hwk.offset
  have := hwk.fits
  have := h.bounds
  have := h.lp
  have hsize := h.size ok
  have hframe : Frame.Within m.store.mem m.lp w.lp :=
    ⟨h.lp, h.lp_aligned, by omega, by omega, hsize⟩
  apply Gives.get_bind
  apply Gives.read_bind hframe.stackOffset_eq
  refine .modify (hp _ ?_ rfl (.refl _))
  refine h.stack (p := m.lp + _) he (.refl _) trivial (Nat.zero_le _) ?_
  rw [toNat_plus (by omega)]
  show _ = _ + 4 * 0
  omega

end

end Scene

end DeviceVm.Stack
