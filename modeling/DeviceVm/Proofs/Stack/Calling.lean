import DeviceVm.Interpreter.Invocation
import DeviceVm.Proofs.Stack.Running

/-!
Starting frames and going back to the caller.
-/

namespace DeviceVm

open UInt32

/-! ### Two words at once -/

lemma high_of_long (x y : UInt32) :
    ((x.toUInt64 <<< 32 ||| y.toUInt64) >>> 32).toUInt32 = x := by
  apply UInt32.toBitVec_inj.mp
  apply BitVec.eq_of_getLsbD_eq
  intro i hi
  simp only [UInt64.toBitVec_toUInt32, BitVec.getLsbD_setWidth, hi]
  simp [show 32 + i < 64 by omega, show i < 64 by omega]

lemma low_of_long (x y : UInt32) : (x.toUInt64 <<< 32 ||| y.toUInt64).toUInt32 = y := by
  apply UInt32.toBitVec_inj.mp
  apply BitVec.eq_of_getLsbD_eq
  intro i hi
  simp

namespace Memory

variable {m : Memory} {a : Nat} {base : UInt32} {index : Int32}

lemma pokeLong_long (x y : UInt32) :
    m.pokeLong a (m.order.long x y) = (m.pokeWord a x).pokeWord (a + 4) y := by
  cases ho : m.order with
  | big => simp only [pokeLong, ho, ByteOrder.long, high_of_long, low_of_long]
  | little => simp only [pokeLong, ho, ByteOrder.long, high_of_long, low_of_long]

lemma longAtWord_eq (h : Points base index a)
    (hs : a + 8 ≤ m.size) : longAtWord base index m = .ok (m.peekLong a) := by
  obtain ⟨d, hd, ha⟩ := h.scaled
  rw [longAtWord, Read.lift_ok hd, readAt, readable, ha, if_pos (by simpa using hs)]

lemma setLongAtWord_eq {v : UInt64} (h : Points base index a)
    (hs : a + 8 ≤ m.size) : setLongAtWord base index v m = .ok () (m.pokeLong a v) := by
  obtain ⟨d, hd, ha⟩ := h.scaled
  rw [setLongAtWord, Edit.lift_ok hd, writeAt, readable, ha, if_pos (by simpa using hs)]

end Memory

end DeviceVm

namespace DeviceVm.Stack

open List Memory UInt32 Room Exec Chunk Placement DeviceVm.Frame Word

variable {S : Scene} {s t : Store} {m : Machine} {mem : Memory} {w : Placement} {r : Room}
  {σ : Calls} {c : Call} {v : UInt32} {vs args : List UInt32}

/-- A call that has invoked another one goes on at `ip`, and its operands have become parameters. -/
def Call.waiting (c : Call) (ip : UInt32) : Call := { c with ip, operands := [] }

namespace Placement

/-- The innermost frame stays in its chunk, and the next one lies above it. -/
def push (w : Placement) (c : Call) : Placement := { w with inner := c :: w.inner }

variable {cs : List Call}

lemma lp_push : (w.push c).lp = w.lp + 4 * (c.locals.length + 5) := above_cons

/-- The innermost call is left. Where its chunk has no other calls, the chunk becomes a spare of the
one below. -/
def back (w : Placement) : Placement :=
  match w.inner, w.below with
  | _ :: cs, _ => { w with inner := cs }
  | [], ⟨room, _ :: cs⟩ :: ts => ⟨room, cs, ts, w.room :: w.spares⟩
  | [], _ => w

lemma back_within (hw : w.inner = c :: cs) : w.back = { w with inner := cs } := by
  rw [back, hw]

lemma back_below {t : Stretch} {ts : List Stretch} (hw : w.inner = [])
    (hb : w.below = t :: ts) (hc : t.calls = c :: cs) :
    w.back = ⟨t.room, cs, ts, w.room :: w.spares⟩ := by
  obtain ⟨room, calls⟩ := t
  subst hc
  rw [back, hw, hb]

end Placement

namespace Scene

variable {mp lp : UInt32} {cs : List Call}

lemma Rests.push (h : S.Rests s w) (hc : S.Waits s.mem w.room w.lp w.previous c) :
    S.Rests s (w.push c) :=
  ⟨h.ready, h.rooms, h.apart, ⟨hc, h.inner⟩, h.below, h.spares⟩

lemma At.frame (h : S.At m w) (ok : S.Ok) (high : w.lp ≤ w.room.stop) :
    Frame.Within m.store.mem m.lp w.lp := by
  have := h.bounds
  exact ⟨h.lp, h.lp_aligned, by omega, by omega, h.size ok⟩

lemma Entered.above_eq {a previous : Nat} (h : S.Entered mem r a previous c)
    (hf : Frame.Within mem lp a) (hs : r.stop ≤ mem.size) :
    ∃ next, above lp mem = .ok next ∧ next.toNat = a + 4 * (c.locals.length + 5) := by
  have := h.fits
  have := hf.small
  have hoff := h.offset
  have h1 : lp.toNat + (mem.peekWord (a - 4)).toNat < 4294967296 := by
    rw [hf.eq, hoff]
    omega
  have h2 := toNat_plus h1
  rw [hf.eq, hoff] at h2
  have h3 : (lp + mem.peekWord (a - 4)).toNat + (4 : UInt32).toNat < 4294967296 := by
    show _ + 4 < _
    omega
  refine ⟨_, ?_, (toNat_plus h3).trans ?_⟩
  · rw [Frame.above, Read.bind_ok hf.stackOffset_eq, Read.lift_ok (plus_eq h1)]
    exact plus_eq h3
  · show _ + 4 = _
    omega

/-- The memory once a frame is started above one: where that goes on, and the link to it. -/
def linked (m : Machine) (lp next : Nat) : Memory :=
  (m.store.mem.pokeWord (lp - 16) m.ip).pokeWord (next - 12) m.lp

lemma Standing.pushFrame_eq (ok : S.Ok) (h : S.Standing m σ w) (he : σ.entered = true) :
    ∃ next log, next.toNat = w.lp + 4 * (σ.top.locals.length + 5) ∧
      pushFrame m = Gives.ofExcept (require (next < m.sl))
        ({ m with lp := next }.setStore ((m.store.setMem
          (linked m w.lp (w.lp + 4 * (σ.top.locals.length + 5)))).setLog log)) := by
  have hwk := h.works he
  have := hwk.fits
  have hstop := h.stop_le
  have := h.bounds
  have hframe := h.frame ok (by omega)
  obtain ⟨next, habove, hnext⟩ := hwk.toEntered.above_eq hframe hstop
  have hnew : Frame.Within (m.store.mem.pokeWord (w.lp - 16) m.ip) next
      (w.lp + 4 * (σ.top.locals.length + 5)) :=
    Within.resize ⟨hnext, by omega, by omega, by omega, h.size ok⟩ (size_pokeWord _)
  have hlink : setPrevious next m.lp
      (m.setMem (m.store.mem.pokeWord (w.lp - 16) m.ip)).store.mem =
      .ok () (linked m w.lp (w.lp + 4 * (σ.top.locals.length + 5))) := hnew.setPrevious_eq
  unfold Exec.pushFrame
  refine ⟨next, ?_⟩
  rw [get_bind_eq, read_bind_eq habove, get_bind_eq, edit_bind_eq hframe.setIp_eq,
    edit_bind_eq hlink]
  exact traced_bind_eq.imp fun log hlog => ⟨hnext, hlog⟩

variable {P : Unit → Machine → Prop}

lemma Standing.pushFrame (ok : S.Ok) (h : S.Standing m σ w) (he : σ.entered = true)
    (room : 0 < (S.form σ.top.method).operands) (behind : m.ip ≠ S.entry σ.top.method)
    (hp : ∀ n, S.Started n σ.top.operands (w.push (σ.top.waiting m.ip)) → n.ip = m.ip →
      n.cp = m.cp → m.store.Onward n.store → P () n) :
    Gives pushFrame m P := by
  have hwk := h.works he
  have := hwk.fits
  have := hwk.within
  have := h.bounds
  have hlp : (w.push (σ.top.waiting m.ip)).lp = w.lp + 4 * (σ.top.locals.length + 5) :=
    lp_push
  obtain ⟨next, log, hnext, heq⟩ := h.pushFrame_eq ok he
  generalize hm2 : linked m w.lp (w.lp + 4 * (σ.top.locals.length + 5)) = mem2 at heq
  have hlt : next < m.sl := lt_iff_toNat_lt.2 (by
    rw [hnext, h.sl]
    omega)
  rw [decide_eq_true hlt] at heq
  have hagr : Agrees (fun b => (b + 16 < w.lp ∨ w.lp ≤ b + 12) ∧
      (b + 12 < w.lp + 4 * (σ.top.locals.length + 5) ∨
        w.lp + 4 * (σ.top.locals.length + 5) ≤ b + 8)) m.store.mem mem2 := by
    rw [← hm2]
    exact .pokeWord (.poked fun b hb => by omega) fun b hb => by omega
  have honward : m.store.Onward (m.store.setMem mem2) := by
    have := h.low
    exact .write (hagr.mono fun b hb => by omega)
  refine ⟨(), _, heq, hp _ ?_ rfl rfl (honward.setLog log)⟩
  have hrests : S.Rests (m.store.setMem mem2) w := by
    refine h.rests.write (hagr.mono fun b hb => ?_)
    by_contra hc
    exact hb ⟨⟨by omega, by omega⟩, .inr (by omega)⟩
  have hwaits : S.Waits mem2 w.room w.lp w.previous (σ.top.waiting m.ip) := by
    refine ⟨(hwk.toEntered.agrees hagr (by omega) fun b hb => by omega).like rfl rfl rfl, ?_,
      behind, rfl⟩
    rw [← hm2, linked, peekWord_pokeWord_apart _ (by omega)]
    exact peekWord_pokeWord_self _ (by omega)
  constructor
  case toAt =>
    constructor
    case rests => exact (hrests.push hwaits).congr rfl rfl rfl rfl rfl
    case last =>
      show mem2.peekWord (w.room.chunk.toNat + 16) = 0
      rw [hagr.peekWord _ fun i hi => by omega]
      exact h.last
    case worked => exact h.worked
    case lp => exact hnext.trans hlp.symm
    case sl => exact h.sl
  case previous =>
    show (mem2.peekWord ((w.push _).lp - 12)).toNat = w.lp
    rw [hlp, ← hm2, linked, peekWord_pokeWord_self _ (by rw [size_pokeWord]; omega)]
    exact h.lp
  case given =>
    rw [hlp]
    exact hwk.operands.agrees hagr fun b hb _ => by omega
  case sp =>
    show m.sp.toNat + 4 = _
    rw [hlp, hwk.sp]
    omega
  case inside =>
    show (w.push _).lp + _ ≤ w.room.stop
    omega

lemma Ok.entry_eq (ok : S.Ok) (h : S.isMethod mp) :
    Settled S.fixed S.mem (Method.entry mp) (S.entry mp) := by
  intro n hn
  have hr := ok.method mp h
  have := hr.header_lt
  have : (ofNat (S.form mp).header).toNat = (S.form mp).header :=
    toNat_nat (by omega)
  have := hr.range
  rw [Method.entry, Read.bind_ok (hr.header n hn)]
  exact plus_eq (by omega)

/-- The memory with the method and the class of a new frame written. -/
def chosen (m : Machine) (lp : Nat) (mp : UInt32) : Memory :=
  (m.store.mem.pokeWord (lp - 20) mp).pokeWord (lp - 8) m.cp

lemma enterMethod_gives (ok : S.Ok) {lp : Nat} (frame : Frame.Within m.store.mem m.lp lp)
    (ready : S.Ready (m.store.setMem (chosen m lp mp))) (method : S.isMethod mp)
    (owner : S.isClass m.cp) :
    Gives (enterMethod mp) m fun _ n => ∃ log, n = { m with ip := S.entry mp }.setStore
      ((m.store.setMem (chosen m lp mp)).setLog log) := by
  generalize hm1 : m.store.mem.pokeWord (lp - 20) mp = mem1
  have hs1 : mem1.size = m.store.mem.size := by rw [← hm1, size_pokeWord]
  have hm2 : mem1.pokeWord (lp - 8) m.cp = chosen m lp mp := by rw [← hm1, chosen]
  have hreads := ready.agrees
  apply Gives.get_bind
  apply Gives.get_bind
  refine .edit_bind (hm1 ▸ frame.setMethod_eq) ?_
  refine .edit_bind (hm2 ▸ (frame.resize hs1).setClass_eq) ?_
  apply Gives.read_bind (ok.entry_eq method _ hreads)
  apply Gives.modify_bind
  refine .tracedOf ?_ fun log => ⟨log, rfl⟩
  obtain ⟨number, hn⟩ := ok.number _ owner
  have hr := ok.method mp method
  exact ⟨_, (Query.bind_ok (hn _ hreads)).trans ((Query.bind_ok (hr.parameters _ hreads)).trans
    (Query.bind_ok (hr.locals _ hreads)))⟩

lemma Started.enterMethod (ok : S.Ok) (h : S.Started m args w)
    (method : S.isMethod mp) (owner : S.isClass m.cp)
    (count : args.length = (S.form mp).parameters) (inner : w.inner ≠ [])
    (hp : ∀ n, S.Standing n ⟨⟨mp, S.entry mp, m.cp, args, []⟩, false, w.callers⟩ w →
      n.ip = S.entry mp → m.store.Onward n.store → P () n) :
    Gives (enterMethod mp) m P := by
  have := h.bounds
  have := h.inside
  generalize hm2 : chosen m w.lp mp = mem2
  have hat : S.At (m.setMem mem2) w := by
    have h1 := h.toAt.poke (a := w.lp - 20) (v := mp) (by omega) (by omega)
    have h2 := h1.poke (a := w.lp - 8) (v := m.cp) (by omega) (by omega)
    exact hm2 ▸ h2
  have hagr : Agrees (fun b => (b + 20 < w.lp ∨ w.lp ≤ b + 16) ∧
      (b + 8 < w.lp ∨ w.lp ≤ b + 4)) m.store.mem mem2 := by
    rw [← hm2]
    exact .pokeWord (.poked fun b hb => by omega) fun b hb => by omega
  have honward : m.store.Onward (m.store.setMem mem2) := by
    have := h.low
    exact .write (hagr.mono fun b hb => by omega)
  refine (enterMethod_gives ok (h.frame ok (by omega)) (hm2 ▸ hat.rests.ready) method owner).mono ?_
  rintro - _ ⟨log, rfl⟩
  rw [hm2]
  refine hp _ ?_ rfl (honward.setLog log)
  refine At.called ?_ rfl rfl rfl ?_
  · exact ⟨hat.rests.congr rfl rfl rfl rfl rfl, hat.last, h.worked, h.lp, h.sl⟩
  constructor
  case toLies =>
    constructor
    case method =>
      show mem2.peekWord _ = mp
      rw [← hm2, chosen, peekWord_pokeWord_apart _ (by omega)]
      exact peekWord_pokeWord_self _ (by omega)
    case previous =>
      show (mem2.peekWord _).toNat = _
      rw [hagr.peekWord _ fun i hi => by omega]
      exact h.previous
    case owner =>
      show mem2.peekWord _ = m.cp
      rw [← hm2]
      exact peekWord_pokeWord_self _ (by rw [size_pokeWord]; omega)
    case locals => exact h.given.agrees hagr fun b hb _ => by omega
  case known => exact method
  case count => exact count
  case operands => rfl
  case sp => exact h.sp
  case inside => exact h.inside
  case first => exact fun hi => absurd hi inner

/-! ### The chunk of a frame -/

lemma length_le_reach (cs : List Call) : 20 * cs.length ≤ reach cs := by
  induction cs with
  | nil => exact Nat.le_refl _
  | cons c cs ih =>
    rw [reach, length_cons]
    omega

lemma Held.ofFrameWithin {fuel : Nat} (h : S.Held mem r cs)
    (hr : S.Holds s r) (hf : Frame.Within mem lp (r.above cs))
    (previous : (mem.peekWord (r.above cs - 12)).toNat = r.frame cs) (enough : cs.length < fuel) :
    ofFrameWithin fuel lp mem = .ok r.chunk := by
  induction cs generalizing lp fuel with
  | nil =>
    rcases fuel with _ | fuel
    · omega
    have h0 : mem.peekWord (r.above [] - 12) = 0 := UInt32.toNat_inj.1 previous
    have : lp.toNat = r.chunk.toNat + 40 := hf.eq
    have : firstFrameOffset.toNat = 40 := rfl
    rw [Chunk.ofFrameWithin, Read.bind_ok hf.previous_eq, h0]
    rw [minus_eq (by omega)]
    refine congrArg Except.ok (UInt32.toNat_inj.mp ?_)
    rw [toNat_minus] <;> omega
  | cons c cs ih =>
    obtain ⟨fuel, rfl⟩ : ∃ k, fuel = k + 1 := ⟨fuel - 1, by omega⟩
    have := @above_ge r cs
    have := @above_cons r c cs
    have hal := hr.above_aligned cs
    have := hf.high
    generalize hp : mem.peekWord (r.above (c :: cs) - 12) = p at previous
    have hpn : p.toNat = r.above cs := previous
    have hne : ¬ (p == 0) = true := by
      rw [beq_iff_eq]
      rintro rfl
      have := UInt32.toNat_zero
      omega
    rw [Chunk.ofFrameWithin, Read.bind_ok hf.previous_eq, hp, if_neg hne]
    refine ih h.2 ⟨hpn, hal, by omega, by omega, hf.small⟩ h.1.previous ?_
    rw [length_cons] at enough
    omega

lemma At.ofFrame (ok : S.Ok) (h : S.At m w) (inside : w.lp ≤ w.room.stop)
    (previous : (m.store.mem.peekWord (w.lp - 12)).toNat = w.previous) :
    ofFrame m.lp m.store.mem = .ok w.room.chunk := by
  have := length_le_reach w.inner
  have : w.lp = w.room.chunk.toNat + 40 + reach w.inner := rfl
  have := h.stop_le
  rw [Chunk.ofFrame, Read.bind_ok (Memory.walkBound_eq _)]
  exact h.rests.inner.ofFrameWithin h.rests.holds (h.frame ok inside) previous (by omega)

/-! ### Going back to the caller -/

lemma Rests.back {t : Stretch} {ts : List Stretch} (h : S.Rests s w)
    (last : s.mem.peekWord (w.room.chunk.toNat + 16) = 0) (hb : w.below = t :: ts)
    (hc : t.calls = c :: cs) : S.Rests s ⟨t.room, cs, ts, w.room :: w.spares⟩ := by
  have hlinked := h.below
  rw [hb] at hlinked
  obtain ⟨-, hsusp, hlinked⟩ := hlinked
  have hheld := hsusp.held
  rw [hc] at hheld
  have hperm : List.Perm (Placement.rooms ⟨t.room, cs, ts, w.room :: w.spares⟩) w.rooms := by
    rw [Placement.rooms, Placement.others, Placement.rooms, Placement.others, hb]
    exact ((List.perm_middle.cons _).trans (.swap _ _ _)).trans (.refl _)
  constructor
  case ready => exact h.ready
  case rooms => exact fun r hr => h.rooms r (hperm.mem_iff.1 hr)
  case apart => exact (hperm.pairwise_iff fun hab => hab.symm).2 h.apart
  case inner => exact hheld.2
  case below => exact hlinked
  case spares =>
    refine ⟨hsusp.next, last, ?_⟩
    exact h.spares

lemma Waits.works {previous : Nat} (h : S.Waits m.store.mem w.room w.lp previous c)
    (hp : previous = w.previous) (sp : m.sp.toNat = w.lp + 4 * (c.locals.length + 4)) :
    S.Works m w c where
  toEntered := hp ▸ h.toEntered
  operands := by
    rw [h.operands]
    trivial
  within := by
    rw [h.operands]
    exact Nat.zero_le _
  sp := by
    rw [h.operands]
    exact sp

lemma Rests.arrive (ok : S.Ok) (h : S.Rests m.store w) {caller : UInt32}
    (last : m.store.mem.peekWord (w.room.chunk.toNat + 16) = 0)
    (worked : m.collectionWorked = true) (sl : m.sl.toNat = w.room.stop)
    (hc : caller.toNat = w.lp) (waits : S.Waits m.store.mem w.room w.lp w.previous c)
    (sp : m.sp.toNat = w.lp + 4 * (c.locals.length + 4))
    (hp : ∀ n, S.Standing n ⟨c, true, w.callers⟩ w → n.ip = c.ip → n.store.mem = m.store.mem →
      m.store.Onward n.store → P () n) :
    Gives (do
      modify fun s => { s with lp := caller }
      let cp ← classOf caller
      let ip ← ip caller
      modify fun s => { s with cp, ip }
      if ← traces TraceFlags.frames then
        let sp := (← get).sp
        Store.say .trace .interpreter fun _ =>
          "pop frame lp=" ++ Hex.word caller ++ " sp=" ++ Hex.word sp) m P := by
  have := waits.fits
  generalize hn : ({ m with lp := caller } : Machine) = n
  have hat : S.At n w := by
    subst hn
    exact ⟨h, last, worked, hc, sl⟩
  have hmem : n.store.mem = m.store.mem := by rw [← hn]
  have honward : m.store.Onward n.store := by
    rw [← hn]
    exact .refl _
  have hcl : n.lp = caller := by rw [← hn]
  have hframe := hat.frame ok (by omega)
  rw [hcl] at hframe
  apply Gives.modify_bind
  rw [hn]
  apply Gives.read_bind hframe.classOf_eq
  apply Gives.read_bind hframe.ip_eq
  apply Gives.modify_bind
  have hend : ∀ log, P () (Machine.setLog { n with
      cp := n.store.mem.peekWord (w.lp - 8), ip := n.store.mem.peekWord (w.lp - 16) } log) := by
    intro log
    refine hp _ ?_ ?_ hmem (honward.setLog log)
    · refine At.working ?_ rfl ?_ rfl ?_
      · exact ⟨hat.rests.congr rfl rfl rfl rfl rfl, hat.last, hat.worked, hat.lp, hat.sl⟩
      · rw [hmem]
        exact waits.owner
      · refine Waits.works ?_ rfl ?_
        · show S.Waits n.store.mem _ _ _ _
          rw [hmem]
          exact waits
        · rw [← hn]
          exact sp
    · rw [hmem]
      exact waits.ip
  refine .traces_bind fun b => ?_
  split
  · apply Gives.get_bind
    exact .say hend
  · exact .pure (hend n.store.log)

lemma At.popFrame_within (ok : S.Ok) (h : S.At m w) (inside : w.lp ≤ w.room.stop)
    (previous : (m.store.mem.peekWord (w.lp - 12)).toNat = w.previous)
    (hw : w.inner = c :: cs)
    (hp : ∀ n, S.Standing n ⟨c, true, cs ++ w.below.flatMap (·.calls)⟩ { w with inner := cs } →
      n.ip = c.ip → n.store.mem = m.store.mem → m.store.Onward n.store → P () n) :
    Gives popFrame m P := by
  have hframe := h.frame ok inside
  have := @above_ge w.room cs
  have : w.lp = w.room.above cs + 4 * (c.locals.length + 5) := by
    rw [Placement.lp, hw, Room.above_cons]
  generalize hpv : m.store.mem.peekWord (w.lp - 12) = p at previous
  have hpn : p.toNat = w.room.above cs := by
    rw [previous, Placement.previous, hw]
    rfl
  have hne : (p != 0) = true := by
    rw [bne_iff_ne]
    rintro rfl
    have := UInt32.toNat_zero
    omega
  have hinner := h.rests.inner
  rw [hw] at hinner
  have := toNat_four
  have := h.lp
  have h4 : (4 : UInt32).toNat ≤ m.lp.toNat := by omega
  have hrests : S.Rests m.store { w with inner := cs } :=
    ⟨h.rests.ready, h.rests.rooms, h.rests.apart, hinner.2, h.rests.below, h.rests.spares⟩
  apply Gives.get_bind
  apply Gives.read_bind hframe.previous_eq
  rw [hpv]
  refine .pos hne ?_
  apply Gives.except_bind (minus_eq h4)
  apply Gives.modify_bind
  apply Gives.pure_bind
  have hsp : (m.lp - 4).toNat = w.room.above cs + 4 * (c.locals.length + 4) := by
    rw [toNat_minus h4]
    omega
  apply Rests.arrive ok
  exacts [hrests, h.last, h.worked, h.sl, hpn, hinner.1, hsp, hp]

lemma Holds.within (h : S.Holds s r) (ok : S.Ok) (ready : S.Ready s) :
    Chunk.Within s.mem r.chunk r.chunk.toNat := by
  have := h.header
  have := h.high
  have := ready.bounds
  have := ok.mem_size
  have := r.stop_eq
  exact ⟨rfl, h.aligned, by omega, by omega⟩

lemma Holds.limit_eq (h : S.Holds s r) (ok : S.Ok) (ready : S.Ready s) :
    ∃ v, limit r.chunk s.mem = .ok v ∧ v.toNat = r.stop := by
  have hw := h.within ok ready
  have := h.high
  have := ready.bounds
  have := ok.mem_size
  have := r.stop_eq
  have := h.size
  have h4 := toNat_four
  have h1 : (s.mem.peekWord (r.chunk.toNat + 12)).toNat * (4 : UInt32).toNat < 4294967296 := by
    rw [h4]
    omega
  have h2 := toNat_times h1
  rw [h4] at h2
  have h3 : r.chunk.toNat + (s.mem.peekWord (r.chunk.toNat + 12) * 4).toNat < 4294967296 := by
    omega
  refine ⟨_, ?_, (toNat_plus h3).trans ?_⟩
  · rw [limit, Read.bind_ok hw.size_eq, Read.lift_ok (times_eq h1)]
    exact plus_eq h3
  · omega

section

variable (ok : S.Ok) (h : S.At m w) (inside : w.lp ≤ w.room.stop)
  (previous : (m.store.mem.peekWord (w.lp - 12)).toNat = w.previous) {cs : List Call}
include ok h inside previous

lemma At.popFrame_below {t : Stretch} {ts : List Stretch} (hw : w.inner = [])
    (hb : w.below = t :: ts) (hc : t.calls = c :: cs)
    (hp : ∀ n, S.Standing n ⟨c, true, cs ++ ts.flatMap (·.calls)⟩
      ⟨t.room, cs, ts, w.room :: w.spares⟩ → n.ip = c.ip →
      n.store.mem = m.store.mem.pokeWord (t.room.chunk.toNat + 16) 0 → m.store.Onward n.store →
      P () n) :
    Gives popFrame m P := by
  have hframe := h.frame ok inside
  have hback := h.rests.back h.last hb hc
  have hready := h.rests.ready
  have hlinked := h.rests.below
  rw [hb] at hlinked
  obtain ⟨hprev, hsusp, -⟩ := hlinked
  have hheld := hsusp.held
  have hlast := hsusp.last
  rw [hc] at hheld hlast
  have hroom : S.Holds m.store t.room := hback.holds
  have hchunk := h.rests.holds.within ok hready
  have hbefore := hroom.within ok hready
  have hlow := hroom.low
  have h0 : m.store.mem.peekWord (w.lp - 12) = 0 := UInt32.toNat_inj.1 (by
    rw [previous, Placement.previous, hw]
    rfl)
  have hne : ¬ (t.room.chunk == 0) = true := by
    rw [beq_iff_eq]
    intro h0
    have : t.room.chunk.toNat = 0 := by rw [h0]; rfl
    omega
  obtain ⟨sl, hlimit, hsl⟩ := hroom.limit_eq ok hready
  -- The chunk below is no longer suspended.
  generalize hmem : m.store.mem.pokeWord (t.room.chunk.toNat + 16) 0 = mem at hp
  have hsize : mem.size = m.store.mem.size := by rw [← hmem, size_pokeWord]
  have hstop : t.room.chunk.toNat + 20 ≤ t.room.stop := by
    have := hroom.header
    rw [stop]
    omega
  have := @above_ge t.room cs
  have hagr : Agrees (fun b => b < t.room.chunk.toNat + 16 ∨ t.room.chunk.toNat + 20 ≤ b)
      m.store.mem mem := by
    rw [← hmem]
    exact .poked fun b hb => by omega
  have hrests : S.Rests (m.store.setMem mem) ⟨t.room, cs, ts, w.room :: w.spares⟩ := by
    refine hback.write (hagr.mono fun b hb => ?_)
    by_contra hc
    have h1 : t.room.chunk.toNat + 16 ≤ b := by omega
    have h2 : b < t.room.chunk.toNat + 20 := by omega
    exact hb ⟨⟨Nat.le_trans (Nat.le_add_right _ 16) h1, Nat.lt_of_lt_of_le h2 hstop⟩, .inl ⟨h1, h2⟩⟩
  have hwaits : S.Waits mem t.room (t.room.above cs) (t.room.frame cs) c :=
    hheld.1.agrees hagr (by omega) fun b hb _ => by omega
  generalize hcaller : m.store.mem.peekWord (t.room.chunk.toNat + 16) = caller at hlast
  have hcn : caller.toNat = t.room.above cs := hlast
  have := hwaits.fits
  have : t.room.stop ≤ m.store.mem.size := by
    have := hroom.high
    have := hready.bounds
    omega
  have hcallerFrame : Frame.Within mem caller (t.room.above cs) :=
    ⟨hcn, hroom.above_aligned cs, by omega, by omega, hsize ▸ h.size ok⟩
  have := hwaits.offset
  have hsp : (caller + mem.peekWord (t.room.above cs - 4)).toNat =
      t.room.above cs + 4 * (c.locals.length + 4) := by
    have := h.size ok
    rw [toNat_plus] <;> omega
  have honward : m.store.Onward (m.store.setMem mem) := by
    rw [← hready.ram] at hlow
    exact .write (hagr.mono fun b hb => by omega)
  apply Gives.get_bind
  apply Gives.read_bind hframe.previous_eq
  rw [h0]
  refine .neg (by decide) ?_
  apply Gives.read_bind (h.ofFrame ok inside previous)
  apply Gives.read_bind hchunk.prev_eq
  rw [hprev]
  refine .neg hne ?_
  apply Gives.read_bind hlimit
  apply Gives.modify_bind
  refine .read_bind hbefore.lastFrame_eq ?_
  refine .edit_bind (hmem ▸ hbefore.setLastFrame_eq) ?_
  rw [hcaller]
  refine .read_bind hcallerFrame.stackOffset_eq ?_
  apply Gives.modify_bind
  refine .traced_bind fun log => ?_
  apply Gives.pure_bind
  apply Rests.arrive ok
  exacts [hrests.congr rfl rfl rfl rfl rfl, hmem ▸ peekWord_pokeWord_self 0 (by omega),
    h.worked, hsl, hcn, hwaits, hsp, fun n h1 h2 h3 h4 =>
      hp n h1 h2 h3 ((honward.setLog log).trans h4)]

lemma At.popFrame (hc : w.callers = c :: cs)
    (hp : ∀ n, S.Standing n ⟨c, true, cs⟩ w.back → n.ip = c.ip → c.ip ≠ S.entry c.method →
      c.operands = [] → Agrees w.room.Has m.store.mem n.store.mem → m.store.Onward n.store →
      P () n) :
    Gives popFrame m P := by
  cases hw : w.inner with
  | cons d ds =>
    rw [callers, hw] at hc
    obtain ⟨rfl, rfl⟩ := cons.inj hc
    have hinner := h.rests.inner
    rw [hw] at hinner
    refine h.popFrame_within ok inside previous hw fun n hn hip hmem honward => ?_
    rw [← back_within hw] at hn
    exact hp n hn hip hinner.1.behind hinner.1.operands (hmem ▸ .refl _) honward
  | nil =>
    rw [callers, hw, nil_append] at hc
    cases hb : w.below with
    | nil =>
      rw [hb] at hc
      cases hc
    | cons t ts =>
      have hlinked := h.rests.below
      have hmem : t.room ∈ w.others := by
        rw [others, hb]
        exact mem_cons_self
      have hroom := h.rests.rooms t.room (mem_cons_of_mem _ hmem)
      have hapart := rel_of_pairwise_cons h.rests.apart hmem
      rw [hb] at hlinked hc
      cases ht : t.calls with
      | nil => exact absurd ht hlinked.2.1.some_call
      | cons d ds =>
        rw [flatMap_cons, ht] at hc
        obtain ⟨rfl, rfl⟩ := cons.inj hc
        have hheld := hlinked.2.1.held
        rw [ht] at hheld
        refine h.popFrame_below ok inside previous hw hb ht fun n hn hip hmem honward => ?_
        rw [← back_below hw hb ht] at hn
        refine hp n hn hip hheld.1.behind hheld.1.operands ?_ honward
        rw [hmem]
        refine .poked fun b hb => ?_
        have := hb.1
        have := hb.2
        have := hroom.header
        have := t.room.stop_eq
        rw [Apart] at hapart
        omega

end

lemma Standing.pushLong (ok : S.Ok) (h : S.Standing m σ w) (he : σ.entered = true)
    {x y : UInt32} {u : UInt64} (hu : u = m.store.mem.order.long x y)
    (room : σ.top.operands.length + 2 ≤ (S.form σ.top.method).operands)
    (hp : ∀ n, S.Standing n (σ.withOperands (σ.top.operands ++ [x, y])) w → n.ip = m.ip →
      m.store.Onward n.store → P () n) :
    Gives (pushLong u) m P := by
  have hwk := h.works he
  have := hwk.fits
  have := h.bounds
  have := h.size ok
  have := toNat_four
  have := hwk.sp
  have ha :
      (m.sp + 4).toNat = w.lp + 4 * (σ.top.locals.length + 5) + 4 * σ.top.operands.length := by
    rw [toNat_plus] <;> omega
  have hb : (m.sp + 4 + 4).toNat = (m.sp + 4).toNat + 4 := toNat_plus (by omega)
  generalize hmem : (m.store.mem.pokeWord (m.sp + 4).toNat x).pokeWord ((m.sp + 4).toNat + 4) y =
    mem
  have hagr : Agrees (fun b => b < (m.sp + 4).toNat ∨ w.room.stop ≤ b) m.store.mem mem := by
    rw [← hmem]
    exact .pokeWord (.poked fun b hb => by omega) fun b hb => by omega
  have hx : mem.peekWord (m.sp + 4).toNat = x := by
    rw [← hmem, peekWord_pokeWord_apart _ (by omega)]
    exact peekWord_pokeWord_self x (by omega)
  have hy : mem.peekWord ((m.sp + 4).toNat + 4) = y := by
    rw [← hmem]
    exact peekWord_pokeWord_self y (by rw [size_pokeWord]; omega)
  apply Gives.get_bind
  refine .edit_bind (a := ()) (o := mem) ?_ ?_
  · rw [← hmem, ← pokeLong_long, ← hu]
    exact setLongAtWord_eq (.lit 0 rfl) (by omega)
  have honward : m.store.Onward (m.store.setMem mem) := by
    have := h.low
    exact .write (hagr.mono fun b hb => by omega)
  refine .modify (hp _ ?_ rfl honward)
  refine h.stack (p := m.sp + 4 + 4) he (hagr.mono fun b hb => by omega) ?_ ?_ ?_
  · refine lists_append.2 ⟨hwk.operands.agrees hagr fun b _ hb => by omega, ?_⟩
    rw [← ha]
    exact ⟨hx, hy, trivial⟩
  · rw [length_append]
    exact room
  · rw [hb, ha, length_append]
    show _ = _ + 4 * (_ + 2)
    omega

end Scene

/-! ### Returning -/

def words : ResultSize → Nat
  | .none => 0
  | .one => 1
  | .two => 2

namespace Scene

lemma Standing.returnFrom (ok : S.Ok) (h : S.Standing m σ w) (he : σ.entered = true)
    {rest results : List UInt32} {size : ResultSize} {cs : List Call} (hc : σ.callers = c :: cs)
    (operands : σ.top.operands = rest ++ results) (count : results.length = words size)
    (room : results.length ≤ (S.form c.method).operands) {P : Step → Machine → Prop}
    (hp : ∀ n w', S.Standing n ⟨{ c with operands := results }, true, cs⟩ w' → n.ip = c.ip →
      c.ip ≠ S.entry c.method → m.store.Onward n.store → P .proceed n) :
    Gives (returnFrom size) m P := by
  have hwk := h.works he
  have := hwk.fits
  have hin := hwk.within
  have hsp := hwk.sp
  have := h.bounds
  have := h.size ok
  have hlists := hwk.operands
  rw [operands, lists_append] at hlists
  rw [operands, length_append] at hsp hin
  apply Gives.get_bind
  refine .next (h.popFrame ok (by omega) hwk.previous (h.callers.symm.trans hc)
    fun n hn hip hbehind hempty hagr honward => ?_)
  generalize w.back = w' at hn
  -- The words are read from the frame that was left.
  have word : ∀ a, w.lp ≤ a → a + 4 ≤ w.room.stop →
      n.store.mem.peekWord a = m.store.mem.peekWord a := fun a h1 h2 =>
    hagr.peekWord a fun i hi => ⟨by omega, by omega⟩
  have := hagr.size
  have hend : ∀ n', S.Standing n' ((⟨c, true, cs⟩ : Calls).withOperands (c.operands ++ results))
      w' → n'.ip = c.ip → n.store.Onward n'.store → P .proceed n' := by
    intro n' hn' hip hon
    rw [hempty] at hn'
    exact hp n' w' hn' hip hbehind (honward.trans hon)
  cases size with
  | none =>
    obtain rfl := length_eq_zero_iff.1 count
    refine .pure (hend n ?_ hip (.refl _))
    rw [append_nil]
    exact hn
  | one =>
    obtain ⟨v, rfl⟩ := length_eq_one_iff.1 count
    have : [v].length = 1 := rfl
    have hv : n.store.mem.peekWord m.sp.toNat = v := by
      rw [word _ (by omega) (by omega),
        show m.sp.toNat = w.lp + 4 * (σ.top.locals.length + 5) + 4 * rest.length by omega]
      exact hlists.2.1
    refine .read_bind (wordAt_eq (by omega) (by omega)) ?_
    rw [hv]
    refine .bind (hn.push ok rfl ?_ fun n' h1 h2 => hend n' h1 (h2.trans hip))
      fun _ n' h' => Gives.pure h'
    show c.operands.length < _
    rw [hempty]
    exact room
  | two =>
    obtain ⟨x, y, rfl⟩ : ∃ x y, results = [x, y] := by
      match results, count with
      | [x, y], _ => exact ⟨x, y, rfl⟩
    have : [x, y].length = 2 := rfl
    have hx : n.store.mem.peekWord (m.sp.toNat - 4) = x := by
      rw [word _ (by omega) (by omega),
        show m.sp.toNat - 4 = w.lp + 4 * (σ.top.locals.length + 5) + 4 * rest.length by omega]
      exact hlists.2.1
    have hy : n.store.mem.peekWord (m.sp.toNat - 4 + 4) = y := by
      rw [word _ (by omega) (by omega), show m.sp.toNat - 4 + 4 =
        w.lp + 4 * (σ.top.locals.length + 5) + 4 * rest.length + 4 by omega]
      exact hlists.2.2.1
    refine .read_bind (longAtWord_eq (a := m.sp.toNat - 4)
      (.lit (-1) rfl) (by omega)) ?_
    refine .bind (hn.pushLong ok rfl ?_ ?_ fun n' h1 h2 =>
      hend n' h1 (h2.trans hip)) fun _ n' h' => Gives.pure h'
    · rw [peekLong, hx, hy]
    · show c.operands.length + 2 ≤ _
      rw [hempty]
      exact room

end Scene

end DeviceVm.Stack
