import DeviceVm.Proofs.Stack.Calling
import Mathlib.Data.Finset.Card
import Mathlib.Order.Interval.Finset.Nat

/-!
Saving and loading of contexts. `Scene.Saved` says that a store holds the calls of a context that
does not run: its last chunk knows the innermost frame, which knows where it goes on and how far
its operands reach. Loading gives back the registers.
-/

namespace DeviceVm

open List Memory UInt32 Exec Read Chunk DeviceVm.Frame

/-- The time slice is a new one. All but this, the registers and the store is as before. -/
structure Machine.Resumed (m n : Machine) : Prop where
  slice : n.branchesLeft = Machine.timeSlice
  worked : n.collectionWorked = m.collectionWorked
  noYield : n.noYield = m.noYield
  instructions : n.instructions = m.instructions
  startTime : n.startTime = m.startTime
  output : n.output = m.output

namespace Stack

open Exec Word

variable {S : Scene} {s t : Store} {m : Machine} {mem : Memory} {w : Placement} {r : Room}
  {rs : List Room} {σ : Calls} {c : Call} {v : UInt32}

/-! ### The number of calls

Each call takes at least the header of its frame, and chunks do not overlap. -/

/-- The bytes of the chunks. -/
def Room.cover : List Room → Finset Nat
  | [] => ∅
  | r :: rs => Finset.Ico r.chunk.toNat r.stop ∪ cover rs

lemma Room.mem_cover {b : Nat} : b ∈ cover rs ↔ ∃ r ∈ rs, r.Has b := by
  induction rs with
  | nil => simp [cover]
  | cons r rs ih =>
    rw [cover, Finset.mem_union, Finset.mem_Ico, ih]
    simp [Room.Has]

lemma Room.card_cover (h : rs.Pairwise Room.Apart) :
    (cover rs).card = (rs.map fun r => 4 * r.words).sum := by
  induction rs with
  | nil => rfl
  | cons r rs ih =>
    obtain ⟨hr, hrs⟩ := pairwise_cons.1 h
    have hd : Disjoint (Finset.Ico r.chunk.toNat r.stop) (cover rs) := by
      rw [Finset.disjoint_left]
      intro b hb hb'
      obtain ⟨r', hr', h1, h2⟩ := mem_cover.1 hb'
      have := Finset.mem_Ico.1 hb
      have ha := hr r' hr'
      rw [Room.Apart] at ha
      omega
    rw [cover, Finset.card_union_of_disjoint hd, ih hrs, Nat.card_Ico, map_cons,
      sum_cons, Room.stop, Nat.add_sub_cancel_left]

lemma Room.words_le {n : Nat} (h : rs.Pairwise Room.Apart) (hn : ∀ r ∈ rs, r.stop ≤ n) :
    (rs.map fun r => 4 * r.words).sum ≤ n := by
  have hsub : cover rs ⊆ Finset.range n := by
    intro b hb
    obtain ⟨r, hr, h1, h2⟩ := mem_cover.1 hb
    have := hn r hr
    exact Finset.mem_range.2 (by omega)
  have := Finset.card_le_card hsub
  rwa [card_cover h, Finset.card_range] at this

namespace Scene

variable {cs : List Call} {ts : List Stretch}

lemma Held.length_le (h : S.Held mem r cs) (some_call : cs ≠ []) :
    20 * cs.length ≤ 4 * r.words := by
  have h1 := h.above_le some_call
  have := length_le_reach cs
  rw [Room.above, Room.stop] at h1
  omega

lemma Linked.length_le {chunk : UInt32} (h : S.Linked mem chunk ts) :
    20 * (ts.flatMap (·.calls)).length ≤ (ts.map fun t => 4 * t.room.words).sum := by
  induction ts generalizing chunk with
  | nil => exact Nat.le_refl _
  | cons t ts ih =>
    have := h.2.1.held.length_le h.2.1.some_call
    have := ih h.2.2
    rw [flatMap_cons, length_append, map_cons, sum_cons]
    omega

lemma Rests.length_le (h : S.Rests s w) (inside : w.lp ≤ w.room.stop) :
    20 * w.callers.length + 40 ≤ s.mem.size := by
  have hsum : (w.rooms.map fun r => 4 * r.words).sum ≤ s.mem.size := by
    refine Room.words_le h.apart fun r hr => ?_
    have := (h.rooms r hr).high
    have := h.ready.bounds
    omega
  have := length_le_reach w.inner
  have := h.below.length_le
  have : w.lp = w.room.chunk.toNat + 40 + reach w.inner := rfl
  have := w.room.stop_eq
  rw [Placement.rooms, Placement.others, map_cons, sum_cons, map_append,
    sum_append, map_map] at hsum
  rw [Placement.callers, length_append]
  have heq : (w.below.map ((fun r => 4 * r.words) ∘ Stretch.room)).sum =
      (w.below.map fun t => 4 * t.room.words).sum := rfl
  rw [heq] at hsum
  omega

lemma Holds.stop_le (h : S.Holds s r) (ready : S.Ready s) : r.stop ≤ s.mem.size := by
  have := h.high
  have := ready.bounds
  omega

lemma Linked.depthWithin (ok : S.Ok) (ready : S.Ready s)
    {lp d : UInt32} {fuel : Nat} (h : S.Linked s.mem r.chunk ts) (held : S.Held s.mem r cs)
    (holds : S.Holds s r) (rooms : ∀ t ∈ ts, S.Holds s t.room)
    (frame : Frame.Within s.mem lp (r.above cs))
    (previous : (s.mem.peekWord (r.above cs - 12)).toNat = r.frame cs)
    (enough : cs.length + (ts.flatMap (·.calls)).length + 1 < fuel)
    (few : d.toNat + cs.length + (ts.flatMap (·.calls)).length + 1 < 4294967296) :
    ∃ k, depthWithin fuel lp d s.mem = .ok k := by
  induction fuel generalizing r cs ts lp d with
  | zero => omega
  | succ fuel ih =>
    have := @Room.above_ge r cs
    have := frame.eq
    have hsmall := frame.small
    have := UInt32.toNat_zero
    have := toNat_one
    have hne : ¬ (lp == 0) = true := by
      rw [beq_iff_eq]
      rintro rfl
      omega
    have : (d + 1).toNat = d.toNat + 1 := toNat_plus (by omega)
    rw [depthWithin, if_neg hne, lift_ok (plus_eq (by omega)),
      bind_ok frame.previous_eq]
    cases cs with
    | cons c cs =>
      have := @Room.above_ge r cs
      have := @Room.above_cons r c cs
      have := frame.high
      generalize hp : s.mem.peekWord (r.above (c :: cs) - 12) = p at previous ⊢
      have hpn : p.toNat = r.above cs := previous
      have hpne : (p != 0) = true := by
        rw [bne_iff_ne]
        rintro rfl
        omega
      rw [if_pos hpne]
      rw [length_cons] at enough few
      exact ih h held.2 holds rooms ⟨hpn, holds.above_aligned cs, by omega, by omega, hsmall⟩
        held.1.previous (by omega) (by omega)
    | nil =>
      have hp0 : s.mem.peekWord (r.above [] - 12) = 0 := UInt32.toNat_inj.1 previous
      have hof : ofFrame lp s.mem = .ok r.chunk := by
        rw [ofFrame, bind_ok (walkBound_eq _)]
        exact held.ofFrameWithin holds frame previous (by simp)
      have hchunk := holds.within ok ready
      rw [hp0, if_neg (by decide), bind_ok hof, bind_ok hchunk.prev_eq]
      cases ts with
      | nil =>
        have hprev := h
        obtain ⟨fuel, rfl⟩ : ∃ f, fuel = f + 1 := ⟨fuel - 1, by
          omega⟩
        rw [hprev]
        exact ⟨d + 1, rfl⟩
      | cons t ts =>
        have hroom := rooms t mem_cons_self
        have hlow := hroom.low
        have hwithin := hroom.within ok ready
        have := hroom.stop_le ready
        obtain ⟨hprev, hsusp, hrest⟩ := h
        have hheld := hsusp.held
        have hlast := hsusp.last
        have hbne : ¬ (t.room.chunk == 0) = true := by
          rw [beq_iff_eq]
          intro hz
          rw [hz] at hlow
          omega
        rw [hprev, if_neg hbne, bind_ok hwithin.lastFrame_eq]
        cases hc : t.calls with
        | nil => exact absurd hc hsusp.some_call
        | cons c cs =>
          rw [hc] at hheld hlast
          have := hheld.1.fits
          have := @Room.above_ge t.room cs
          rw [flatMap_cons, hc, length_append, length_cons] at enough few
          exact ih hrest hheld.2 hroom (fun u hu => rooms u (mem_cons_of_mem _ hu))
            ⟨hlast, hroom.above_aligned cs, by omega, by omega, hsmall⟩ hheld.1.previous (by omega)
            (by omega)

lemma At.depth (ok : S.Ok) (h : S.At m w) (inside : w.lp ≤ w.room.stop)
    (previous : (m.store.mem.peekWord (w.lp - 12)).toNat = w.previous) :
    ∃ k, depth m.lp m.store.mem = .ok k := by
  have hlen := h.rests.length_le inside
  have := h.size ok
  rw [Placement.callers, length_append] at hlen
  have := UInt32.toNat_zero
  refine h.rests.below.depthWithin ok h.rests.ready h.rests.inner h.rests.holds (fun t ht => ?_)
    (h.frame ok inside) previous (by omega) (by omega)
  exact h.rests.rooms _ (mem_cons_of_mem _ (mem_append_left _ (mem_map_of_mem ht)))

end Scene

/-! ### Saved contexts -/

/-- The innermost call goes on at `ip`. -/
def Calls.goOn (σ : Calls) (ip : UInt32) : Calls := { σ with top := { σ.top with ip } }

namespace Scene

variable (S)

/-- The innermost call is saved between two of its instructions. -/
structure Paused (m : Memory) (w : Placement) (c : Call) : Prop
    extends S.Shaped m w.room w.lp w.previous c where
  operands : m.Lists (w.lp + 4 * (c.locals.length + 5)) c.operands
  within : c.operands.length ≤ (S.form c.method).operands
  offset : (m.peekWord (w.lp - 4)).toNat = 4 * (c.locals.length + 4) + 4 * c.operands.length
  behind : c.ip ≠ S.entry c.method

/-- The innermost call is saved before it extends its frame. -/
structure Pending (m : Memory) (w : Placement) (c : Call) : Prop
    extends c.Lies m w.lp w.previous where
  known : S.isMethod c.method
  count : c.locals.length = (S.form c.method).parameters
  operands : c.operands = []
  inside : w.lp + 4 * c.locals.length ≤ w.room.stop
  first : w.inner = [] →
    w.lp + 4 * ((S.form c.method).locals + 4 + (S.form c.method).operands) < w.room.stop
  offset : m.peekWord (w.lp - 4) = ofNat (4 * c.locals.length) - 4
  start : c.ip = S.entry c.method

/-- The store holds the calls of a context that does not run. -/
structure Saved (s : Store) (σ : Calls) (w : Placement) : Prop where
  rests : S.Rests s w
  last : (s.mem.peekWord (w.room.chunk.toNat + 16)).toNat = w.lp
  callers : σ.callers = w.callers
  ip : s.mem.peekWord (w.lp - 16) = σ.top.ip
  top : if σ.entered then S.Paused s.mem w σ.top else S.Pending s.mem w σ.top

variable {S} {P : Unit → Machine → Prop}

lemma Standing.goOn (h : S.Standing m σ w) (ip : UInt32) : S.Standing m (σ.goOn ip) w := by
  cases he : σ.entered with
  | true =>
    have hwk := h.works he
    exact h.toAt.working h.callers h.cp he
      ⟨hwk.toEntered.like rfl rfl rfl, hwk.operands, hwk.within, hwk.sp⟩
  | false =>
    have hcd := h.called he
    exact h.toAt.called h.callers h.cp he ⟨hcd.toLies.like rfl rfl rfl, hcd.known, hcd.count,
      hcd.operands, hcd.sp, hcd.inside, hcd.first⟩

lemma Standing.lies (h : S.Standing m σ w) : σ.top.Lies m.store.mem w.lp w.previous := by
  cases he : σ.entered with
  | true => exact (h.works he).toLies
  | false => exact (h.called he).toLies

lemma Standing.inside (h : S.Standing m σ w) : w.lp ≤ w.room.stop := by
  cases he : σ.entered with
  | true =>
    have := (h.works he).fits
    omega
  | false =>
    have := (h.called he).inside
    omega

lemma Standing.length_le (h : S.Standing m σ w) : 20 * σ.callers.length + 40 ≤ m.store.mem.size :=
  h.callers ▸ h.rests.length_le h.inside

/-- Memory with the context saved: where it goes on, its operands and which frame is the last. -/
def savedMemory (m : Machine) (w : Placement) (ip : UInt32) : Memory :=
  ((m.store.mem.pokeWord (w.lp - 16) ip).pokeWord (w.lp - 4) (m.sp - m.lp)).pokeWord
    (w.room.chunk.toNat + 16) m.lp

lemma Standing.saveContext (h : S.Standing m σ w) (ip : UInt32) (ok : S.Ok)
    (hip : σ.entered = true ↔ ip ≠ S.entry σ.top.method) {P : UInt32 → Machine → Prop}
    (hp : ∀ n, S.Saved n.store (σ.goOn ip) w → m.store.Onward n.store →
      n = m.setMem (savedMemory m w ip) → P w.room.chunk n) : Gives (saveContext ip) m P := by
  have hin := h.inside
  have hlp := h.lp
  have := h.bounds
  have hms := h.size ok
  have hlies := h.lies
  have hframe := h.frame ok hin
  have hchunk := h.rests.holds.within ok h.rests.ready
  generalize hm1 : m.store.mem.pokeWord (w.lp - 16) ip = mem1
  have hs1 : mem1.size = m.store.mem.size := by rw [← hm1, size_pokeWord]
  generalize hm2 : mem1.pokeWord (w.lp - 4) (m.sp - m.lp) = mem2
  have hs2 : mem2.size = m.store.mem.size := by rw [← hm2, size_pokeWord, hs1]
  generalize hm3 : mem2.pokeWord (w.room.chunk.toNat + 16) m.lp = mem3
  have hat2 : S.At (m.setMem mem2) w := by
    have h1 := h.toAt.poke (a := w.lp - 16) (v := ip) (by omega) (by omega)
    rw [hm1] at h1
    have h2 := h1.poke (a := w.lp - 4) (v := m.sp - m.lp) (by omega) (by omega)
    rwa [show (m.setMem mem1).store.mem = mem1 from rfl, hm2] at h2
  have hagr2 : Agrees (fun b => (b + 16 < w.lp ∨ w.lp ≤ b + 12) ∧ (b + 4 < w.lp ∨ w.lp ≤ b))
      m.store.mem mem2 := by
    rw [← hm2, ← hm1]
    exact .pokeWord (.poked fun b hb => by omega) fun b hb => by omega
  have hprev2 : (mem2.peekWord (w.lp - 12)).toNat = w.previous := by
    rw [hagr2.peekWord _ fun i hi => by omega]
    exact hlies.previous
  have hagr3 : Agrees (fun b => b < w.room.chunk.toNat + 16 ∨ w.room.chunk.toNat + 20 ≤ b)
      mem2 mem3 := by
    rw [← hm3]
    exact .poked fun b hb => by omega
  have hagr : Agrees (fun b => ((b + 16 < w.lp ∨ w.lp ≤ b + 12) ∧ (b + 4 < w.lp ∨ w.lp ≤ b)) ∧
      (b < w.room.chunk.toNat + 16 ∨ w.room.chunk.toNat + 20 ≤ b)) m.store.mem mem3 :=
    (hagr2.mono fun b hb => hb.1).trans (hagr3.mono fun b hb => hb.2)
  apply Gives.get_bind
  refine .edit_bind (hm1 ▸ hframe.setIp_eq) ?_
  apply Gives.get_bind
  refine .edit_bind (hm2 ▸ (hframe.resize hs1).setStackOffset_eq) ?_
  have hof : ofFrame m.lp mem2 = .ok w.room.chunk := by
    have := hat2.ofFrame ok hin
    exact this hprev2
  refine .read_bind hof ?_
  refine .edit_bind (hm3 ▸ (hchunk.resize hs2).setLastFrame_eq) ?_
  have honward : m.store.Onward (m.store.setMem mem3) := by
    have hlow' := h.rests.holds.low
    rw [← h.rests.ready.ram] at hlow'
    exact .write (hagr.mono fun b hb => by omega)
  have hsaved : savedMemory m w ip = mem3 := by rw [savedMemory, hm1, hm2, hm3]
  refine .pure (hp _ ?_ honward (hsaved ▸ rfl))
  have hoffset : mem3.peekWord (w.lp - 4) = m.sp - m.lp := by
    rw [hagr3.peekWord _ fun i hi => by omega, ← hm2]
    exact peekWord_pokeWord_self _ (by omega)
  constructor
  case rests =>
    refine hat2.rests.write (hagr3.mono fun b hb => ?_)
    by_contra hc
    exact hb ⟨⟨by omega, by omega⟩, .inl ⟨by omega, by omega⟩⟩
  case last =>
    show (mem3.peekWord (w.room.chunk.toNat + 16)).toNat = w.lp
    rw [← hm3, peekWord_pokeWord_self _ (by omega)]
    exact hlp
  case callers => exact h.callers
  case ip =>
    show mem3.peekWord (w.lp - 16) = ip
    rw [hagr3.peekWord _ fun i hi => by omega, ← hm2,
      peekWord_pokeWord_apart _ (by omega), ← hm1]
    exact peekWord_pokeWord_self _ (by omega)
  case top =>
    show if σ.entered = true then _ else _
    cases he : σ.entered with
    | true =>
      have hwk := h.works he
      have := hwk.sp
      refine ⟨(hwk.toShaped.agrees hagr (by omega) fun b hb => by omega).like rfl rfl rfl,
        hwk.operands.agrees hagr fun b hb _ => by omega, hwk.within, ?_, hip.1 he⟩
      show (mem3.peekWord (w.lp - 4)).toNat = _
      rw [hoffset, toNat_minus (by omega)]
      show _ = 4 * (σ.top.locals.length + 4) + 4 * σ.top.operands.length
      omega
    | false =>
      have hcd := h.called he
      have hsp := hcd.sp
      refine ⟨(hlies.agrees hagr (by omega) fun b hb => by omega).like rfl rfl rfl, hcd.known,
        hcd.count, hcd.operands, hcd.inside, hcd.first, ?_, ?_⟩
      · show mem3.peekWord (w.lp - 4) = ofNat (4 * σ.top.locals.length) - 4
        have : m.sp + 4 = m.lp + ofNat (4 * σ.top.locals.length) := by
          have hin := hcd.inside
          have := toNat_four
          have hlen : (ofNat (4 * σ.top.locals.length)).toNat = 4 * σ.top.locals.length :=
            toNat_nat (by omega)
          apply UInt32.toNat_inj.mp
          rw [toNat_plus (by omega), toNat_plus (by omega)]
          omega
        grind
      · by_contra hne
        exact absurd (hip.2 hne) (by simp [he])

lemma Standing.collectAndRetry (h : S.Standing m σ w) (ok : S.Ok) {start : UInt32}
    (hip : σ.entered = true ↔ start ≠ S.entry σ.top.method) {P : Step → Machine → Prop}
    (hp : ∀ n, S.Saved n.store (σ.goOn start) w → m.store.Onward n.store →
      P (.suspend (.collect w.room.chunk)) n) : Gives (collectAndRetry start) m P := by
  refine .next (h.saveContext start ok hip fun n hn hon _ => ?_)
  refine .next (Gives.say fun log => Gives.pure (hp _ ?_ (hon.setLog log)))
  exact ⟨hn.rests.congr rfl rfl rfl rfl rfl, hn.last, hn.callers, hn.ip, hn.top⟩

/-! ### Loading -/

lemma Saved.lies (h : S.Saved s σ w) : σ.top.Lies s.mem w.lp w.previous := by
  have htop := h.top
  split at htop
  · exact htop.toLies
  · exact htop.toLies

lemma Saved.inside (h : S.Saved s σ w) : w.lp ≤ w.room.stop := by
  have htop := h.top
  split at htop
  · have := htop.fits
    omega
  · have := htop.inside
    omega

lemma enteredOffset_eq {k : Nat} (hk : k < 256) :
    ∃ v, enteredOffset (ofNat k) = .ok v ∧ v.toNat = 4 * (k + 4) := by
  have : (ofNat k).toNat = k := toNat_nat (by omega)
  have : frameHeaderWords.toNat = 5 := rfl
  have := toNat_one
  have h4 := toNat_four
  have : (ofNat k + frameHeaderWords).toNat = k + 5 := by
    rw [toNat_plus] <;> omega
  have hb : (ofNat k + frameHeaderWords - 1).toNat = k + 4 := by
    rw [toNat_minus] <;> omega
  have hc : (ofNat k + frameHeaderWords - 1).toNat * (4 : UInt32).toNat =
      4 * (k + 4) := by
    rw [hb, h4]
    omega
  refine ⟨(ofNat k + frameHeaderWords - 1) * 4, ?_, ?_⟩
  · rw [enteredOffset, plus_eq (by omega)]
    show (do times (← minus _ 1) 4) = _
    rw [minus_eq (by omega)]
    exact times_eq (by omega)
  · rw [toNat_times (by omega), hc]

lemma Rests.resumes (ok : S.Ok) (h : S.Rests m.store w) {lp : UInt32} (eq : m.lp = lp)
    (hlp : lp.toNat = w.lp) (sl : m.sl.toNat = w.room.stop) (callers : σ.callers = w.callers)
    (cp : m.cp = σ.top.owner)
    (top : if σ.entered then S.Works m w σ.top else S.Called m w σ.top)
    (hp : ∀ n, S.Standing { n with collectionWorked := true } σ w → n = m.setStore n.store →
      n.store.mem.peekWord (w.lp - 16) = m.store.mem.peekWord (w.lp - 16) →
      m.store.Onward n.store →
      Agrees (fun b => b < S.ram.start.toNat + 64) m.store.mem n.store.mem → P () n) :
    Gives (do
      setLastFrame w.room.chunk 0
      if ← traces TraceFlags.frames then
        Store.sayOf .debug .interpreter do
          let depth ← depth lp
          return "resumed chunk " ++ Hex.word w.room.chunk ++ " at lp=" ++ Hex.word lp ++
            s!", depth {depth}") m P := by
  subst eq
  have := w.lp_ge
  have hchunk := h.holds.within ok h.ready
  have := hchunk.high
  have : w.room.chunk.toNat + 20 ≤ w.room.stop := by
    have := h.holds.header
    rw [Room.stop]
    omega
  generalize hmem : m.store.mem.pokeWord (w.room.chunk.toNat + 16) 0 = mem
  have hagr : Agrees (fun b => b < w.room.chunk.toNat + 16 ∨ w.room.chunk.toNat + 20 ≤ b)
      m.store.mem mem := by
    rw [← hmem]
    exact .poked fun b hb => by omega
  have hrests : S.Rests (m.store.setMem mem) w := by
    refine h.write (hagr.mono fun b hb => ?_)
    by_contra hc
    exact hb ⟨⟨by omega, by omega⟩, .inl ⟨by omega, by omega⟩⟩
  have hat : S.At { m.setMem mem with collectionWorked := true } w :=
    ⟨hrests, hmem ▸ peekWord_pokeWord_self 0 (by omega), rfl, hlp, sl⟩
  have hstand : S.Standing { m.setMem mem with collectionWorked := true } σ w := by
    cases he : σ.entered with
    | true =>
      rw [if_pos he] at top
      exact hat.working callers cp he ⟨top.toEntered.agrees hagr (by omega) fun b hb => by omega,
        top.operands.agrees hagr fun b hb _ => by omega, top.within, top.sp⟩
    | false =>
      rw [if_neg (by simp [he])] at top
      exact hat.called callers cp he ⟨top.toLies.agrees hagr (by omega) fun b hb => by omega,
        top.known, top.count, top.operands, top.sp, top.inside, top.first⟩
  have hdepth : ∃ k, depth m.lp mem = .ok k := by
    have := hat.depth ok hstand.inside
    exact this hstand.lies.previous
  refine .edit_bind (hmem ▸ hchunk.setLastFrame_eq) ?_
  obtain ⟨k, hk⟩ := hdepth
  have hrecord : Agrees (fun b => b < S.ram.start.toNat + 64) m.store.mem mem := by
    have := h.holds.low
    exact hagr.mono fun b hb => by omega
  have honward : m.store.Onward (m.store.setMem mem) := .write (h.ready.ram ▸ hrecord)
  refine .tracedOf ⟨_, Query.bind_ok hk⟩ fun log => hp _ ?_ rfl ?_ (honward.setLog log) hrecord
  · exact hstand.setLog log
  · exact hagr.peekWord _ fun i hi => by omega

lemma Saved.loadContext (ok : S.Ok) (h : S.Saved m.store σ w)
    (hp : ∀ n, S.Standing { n with collectionWorked := true } σ w → n.ip = σ.top.ip →
      m.Resumed n →
      n.store.mem.peekWord (w.lp - 16) = σ.top.ip → m.store.Onward n.store →
      Agrees (fun b => b < S.ram.start.toNat + 64) m.store.mem n.store.mem → P () n) :
    Gives (loadContext w.room.chunk) m P := by
  have := h.inside
  have hready := h.rests.ready
  have hholds := h.rests.holds
  have := hholds.stop_le hready
  have := w.lp_ge
  have hsize : m.store.mem.size ≤ 16777216 := by
    rw [hready.size]
    exact ok.mem_size
  have hchunk := hholds.within ok hready
  have hlast := h.last
  have hlies := h.lies
  generalize hlp : m.store.mem.peekWord (w.room.chunk.toNat + 16) = lp at hlast
  have hframe : Frame.Within m.store.mem lp w.lp :=
    ⟨hlast, hholds.above_aligned w.inner, by omega, by omega, hsize⟩
  have hne : ¬ (lp == 0) = true := by
    rw [beq_iff_eq]
    rintro rfl
    have := UInt32.toNat_zero
    omega
  obtain ⟨sl, hlimit, hsl⟩ := hholds.limit_eq ok hready
  generalize hoff : m.store.mem.peekWord (w.lp - 4) = offset
  apply Gives.read_bind hchunk.lastFrame_eq
  rw [hlp]
  refine .neg hne ?_
  apply Gives.read_bind hframe.ip_eq
  apply Gives.read_bind hframe.classOf_eq
  apply Gives.read_bind hframe.stackOffset_eq
  apply Gives.read_bind hlimit
  apply Gives.modify_bind
  rw [h.ip, hlies.owner, hoff]
  generalize hn : ({ m with
    lp, ip := σ.top.ip, cp := σ.top.owner, sp := lp + offset, sl,
    branchesLeft := Machine.timeSlice } : Machine) = n
  have hst : n.store = m.store := by rw [← hn]
  have hnip : n.ip = σ.top.ip := by rw [← hn]
  have hrest : ∀ o, o = n.setStore o.store → m.Resumed o := by
    rintro o ho
    rw [ho, ← hn]
    exact ⟨rfl, rfl, rfl, rfl, rfl, rfl⟩
  have hncp : n.cp = σ.top.owner := by rw [← hn]
  have hnlp : n.lp = lp := by rw [← hn]
  have hnsl : n.sl = sl := by rw [← hn]
  have hnsp : n.sp = lp + offset := by rw [← hn]
  rw [← hst] at hready hframe h hlies
  refine .read_bind (a := σ.top.method) ?_ ?_
  · exact hframe.method_eq.trans (congrArg _ hlies.method)
  have htop := h.top
  cases he : σ.entered with
  | true =>
    rw [if_pos he] at htop
    have hreads := ok.method _ htop.known
    have hcount := htop.count
    have := htop.fits
    obtain ⟨size, hsize', hsizen⟩ := enteredOffset_eq hreads.locals_lt
    refine .read_bind (ok.entry_eq htop.known _ hready.agrees) ?_
    refine .pos (by simpa using htop.behind) ?_
    refine .read_bind (hreads.locals _ hready.agrees) ?_
    refine .except_bind hsize' ?_
    generalize hmem : n.store.mem.pokeWord (w.lp - 4) size = mem
    have hagr : Agrees (fun b => b + 4 < w.lp ∨ w.lp ≤ b) n.store.mem mem := by
      rw [← hmem]
      exact .poked fun b hb => by omega
    have hrests : S.Rests (n.store.setMem mem) w := by
      refine h.rests.write (hagr.mono fun b hb => ?_)
      by_contra hc
      exact hb ⟨⟨by omega, by omega⟩, .inr (by omega)⟩
    have : n.store.mem.size = m.store.mem.size := by rw [hst]
    have hsp : n.sp.toNat = w.lp + 4 * (σ.top.locals.length + 4) + 4 * σ.top.operands.length := by
      have hoffset := htop.offset
      have := htop.within
      rw [hst, hoff] at hoffset
      rw [hnsp, toNat_plus] <;> omega
    refine .edit_bind (hmem ▸ hframe.setStackOffset_eq) ?_
    have hrecord : Agrees (fun b => b < S.ram.start.toNat + 64) m.store.mem mem := by
      have := hholds.low
      exact hst ▸ hagr.mono fun b hb => by omega
    have honward : m.store.Onward (n.store.setMem mem) := by
      rw [← hst]
      exact .write (hready.ram ▸ hst ▸ hrecord)
    refine Rests.resumes (m := n.setMem mem) ok hrests hnlp hlast (hnsl ▸ hsl) h.callers
      hncp ?_ fun n' hn' heq hword hon hrec => hp n' hn' ((congrArg Machine.ip heq).trans hnip)
        (hrest n' heq) (hword.trans ?_) (honward.trans hon) (hrecord.trans hrec)
    swap
    · exact (hagr.peekWord _ fun i hi => by omega).trans h.ip
    rw [if_pos he]
    refine ⟨⟨htop.toShaped.agrees hagr (by omega) fun b hb => by omega, ?_⟩,
      htop.operands.agrees hagr fun b hb _ => by omega, htop.within, hsp⟩
    show (mem.peekWord (w.lp - 4)).toNat = _
    rw [← hmem, peekWord_pokeWord_self _ (by omega), hsizen, hcount]
  | false =>
    rw [if_neg (by simp [he])] at htop
    have hinside := htop.inside
    have hsp : (lp + offset).toNat + 4 = w.lp + 4 * σ.top.locals.length := by
      have : (ofNat (4 * σ.top.locals.length)).toNat = 4 * σ.top.locals.length :=
        toNat_nat (by omega)
      have := toNat_four
      have heq : lp + offset = lp + ofNat (4 * σ.top.locals.length) - 4 := by
        have := htop.offset
        grind
      have : (lp + ofNat (4 * σ.top.locals.length)).toNat =
          w.lp + 4 * σ.top.locals.length := by
        rw [toNat_plus] <;> omega
      rw [heq, toNat_minus] <;> omega
    refine .read_bind (ok.entry_eq htop.known _ hready.agrees) ?_
    refine .neg (by rw [htop.start]; simp) ?_
    refine Rests.resumes ok h.rests hnlp hlast (hnsl ▸ hsl) h.callers hncp ?_
      fun n' hn' heq hword hon hrec => hp n' hn' ((congrArg Machine.ip heq).trans hnip)
        (hrest n' heq) (hword.trans h.ip) (hst ▸ hon) (hst ▸ hrec)
    rw [if_neg (by simp [he])]
    exact ⟨htop.toLies, htop.known, htop.count, htop.operands, hnsp ▸ hsp, hinside, htop.first⟩

end Scene

end Stack

end DeviceVm
