import DeviceVm.Proofs.Stack.Chunks

/-!
Moving of frames. The innermost frame, which has its arguments only, is copied to the first place
of another chunk, the two chunks are linked, and the calls are the same.
-/

namespace DeviceVm

open List

namespace Memory

variable {m : Memory} {a : Nat} {v : UInt32} {l : List (Nat × UInt32)} {fixed : Nat → Prop}

def pokeAll (m : Memory) : List (Nat × UInt32) → Memory
  | [] => m
  | (a, v) :: l => (m.pokeWord a v).pokeAll l

lemma size_pokeAll : (m.pokeAll l).size = m.size := by
  induction l generalizing m with
  | nil => rfl
  | cons p l ih => exact ih.trans (size_pokeWord p.2)

lemma agrees_pokeAll (h : ∀ p ∈ l, ∀ b, fixed b → b < p.1 ∨ p.1 + 4 ≤ b) :
    Agrees fixed m (m.pokeAll l) := by
  induction l generalizing m with
  | nil => exact .refl m
  | cons p l ih =>
    have hp := (Agrees.refl m).pokeWord (v := p.2) (h p mem_cons_self)
    exact hp.trans (ih fun q hq => h q (mem_cons_of_mem _ hq))

lemma peekWord_pokeAll (apart : l.Pairwise fun p q => p.1 + 4 ≤ q.1 ∨ q.1 + 4 ≤ p.1)
    (hl : (a, v) ∈ l) (hs : a + 4 ≤ m.size) : (m.pokeAll l).peekWord a = v := by
  induction l generalizing m with
  | nil => cases hl
  | cons p l ih =>
    obtain ⟨hp, hrest⟩ := pairwise_cons.1 apart
    rw [pokeAll]
    rcases mem_cons.1 hl with rfl | hl
    · have hagr : Agrees (fun b => a ≤ b ∧ b < a + 4) (m.pokeWord a v)
          ((m.pokeWord a v).pokeAll l) := agrees_pokeAll fun q hq b hb => by
        have := hp q hq
        omega
      rw [hagr.peekWord a fun i hi => by omega]
      exact peekWord_pokeWord_self v hs
    · exact ih hrest hl (by rw [size_pokeWord]; exact hs)

lemma copyBytes_lists (source target len : UInt32) {vs : List UInt32}
    (hlen : len.toNat = 4 * vs.length) (h : m.Lists source.toNat vs)
    (hs : source.toNat + len.toNat ≤ m.size) (ht : target.toNat + len.toNat ≤ m.size) :
    ∃ n, copyBytes source target len m = .ok () n ∧ n.Lists target.toNat vs ∧
      Agrees (fun b => b < target.toNat ∨ target.toNat + 4 * vs.length ≤ b) m n := by
  by_cases hz : len = 0
  · have hnil : vs = [] := by
      rw [hz] at hlen
      exact length_eq_zero_iff.1 (by
        have := UInt32.toNat_zero
        omega)
    subst hnil
    exact ⟨m, by simp [copyBytes, hz], trivial, .refl m⟩
  by_cases he : source = target
  · exact ⟨m, by simp [copyBytes, he], he ▸ h, .refl m⟩
  refine ⟨_, copyBytes_eq hz he hs ht, ?_, ?_⟩
  · have word : ∀ vs (i : Nat), m.Lists (source.toNat + i) vs → i + 4 * vs.length ≤ len.toNat →
        (m.move source.toNat target.toNat len.toNat).Lists (target.toNat + i) vs := by
      intro vs
      induction vs with
      | nil => exact fun _ _ _ => trivial
      | cons v vs ih =>
        intro i hl hi
        rw [length_cons] at hi
        refine ⟨?_, ?_⟩
        · rw [peekWord_move_in hs ht i (by omega)]
          exact hl.1
        · have := ih (i + 4) (by rw [← Nat.add_assoc]; exact hl.2) (by omega)
          rwa [← Nat.add_assoc] at this
    exact word vs 0 h (by omega)
  · refine ⟨size_move hs ht, order_move _ _ _, fun b hb => ?_⟩
    rw [peek_move hs ht, if_neg (by omega)]

end Memory

end DeviceVm

namespace DeviceVm.Stack

open List Memory Store Chunk Exec Word

variable {S : Scene} {s : Store} {m : Machine} {mem : Memory} {w : Placement} {r : Room}
  {rs : List Room} {c : Call}

namespace Placement

/-- The innermost frame has gone to the chunk `r`, and `rs` are the spare ones behind it. -/
def move (w : Placement) (r : Room) (rs : List Room) : Placement :=
  ⟨r, [], ⟨w.room, w.inner⟩ :: w.below, rs⟩

/-- No move of the innermost frame to the chunk `r` writes the byte. Of the chunk that it leaves
only two links change, of the other one the next chunk and the size stay. -/
structure Spared (w : Placement) (r : Room) (b : Nat) : Prop where
  target : r.Has b → (r.chunk.toNat + 4 ≤ b ∧ b < r.chunk.toNat + 8) ∨
    (r.chunk.toNat + 12 ≤ b ∧ b < r.chunk.toNat + 16)
  next : b < w.room.chunk.toNat + 4 ∨ w.room.chunk.toNat + 8 ≤ b
  last : b < w.room.chunk.toNat + 16 ∨ w.room.chunk.toNat + 20 ≤ b

lemma Spared.of_apart {x : Room} {b : Nat} (old : w.room.Apart x) (new : r.Apart x)
    (header : 5 ≤ w.room.words) (hb : x.Has b) : w.Spared r b := by
  have := w.room.stop_eq
  have := hb.1
  have := hb.2
  rw [Room.Apart] at old new
  refine ⟨fun hr => ?_, by omega, by omega⟩
  have := hr.1
  have := hr.2
  omega

lemma Spared.of_below {b : Nat} (old : b < w.room.chunk.toNat) (new : b < r.chunk.toNat) :
    w.Spared r b :=
  ⟨fun hr => absurd hr.1 (Nat.not_le.2 new), by omega, by omega⟩

end Placement

namespace Scene

lemma Rests.move (h : S.Rests s w) (offers : S.Offers s w r rs) (alone : w.spares = [])
    (some_call : w.inner ≠ [])
    (ha : Memory.Agrees (w.Spared r) s.mem mem)
    (prev : mem.peekWord (r.chunk.toNat + 8) = w.room.chunk)
    (next : mem.peekWord (w.room.chunk.toNat + 4) = r.chunk)
    (last : (mem.peekWord (w.room.chunk.toNat + 16)).toNat = w.previous) :
    S.Rests (s.setMem mem) (w.move r rs) := by
  have hroom := h.holds
  have hr := offers.holds r mem_cons_self
  have hrooms : w.rooms = w.room :: w.below.map (·.room) := by
    rw [Placement.rooms, Placement.others, alone, List.append_nil]
  have hapart := pairwise_append.1 offers.apart
  have hfar : ∀ x ∈ w.rooms, x.Apart r := fun x hx => hapart.2.2 x hx r mem_cons_self
  have hnear := hfar _ (hrooms ▸ mem_cons_self)
  have := w.room.stop_eq
  have := r.stop_eq
  have := hroom.header
  have := hr.header
  rw [Room.Apart] at hnear
  have stay : ∀ x, w.room.Apart x → r.Apart x → ∀ b, x.Has b → w.Spared r b :=
    fun x h1 h2 b hb => .of_apart h1 h2 hroom.header hb
  have below : ∀ t ∈ w.below, w.room.Apart t.room ∧ r.Apart t.room ∧ S.Holds s t.room := by
    intro t ht
    have hmem : t.room ∈ w.rooms := hrooms ▸ mem_cons_of_mem _ (mem_map_of_mem ht)
    refine ⟨rel_of_pairwise_cons (hrooms ▸ h.apart) (mem_map_of_mem ht),
      (hfar _ hmem).symm, h.rooms _ hmem⟩
  have spares : ∀ x ∈ rs, w.room.Apart x ∧ r.Apart x ∧ S.Holds s x := by
    intro x hx
    exact ⟨hapart.2.2 _ (hrooms ▸ mem_cons_self) x (mem_cons_of_mem _ hx),
      rel_of_pairwise_cons hapart.2.1 hx, offers.holds x (mem_cons_of_mem _ hx)⟩
  have hready : S.Ready (s.setMem mem) := by
    refine h.ready.write ha (fun b hb => ?_) fun b hb hb' => ?_
    · have := hroom.fixed b hb
      have := hr.fixed b hb
      refine ⟨fun hb' => ?_, by omega, by omega⟩
      have := hb'.1
      have := hb'.2
      omega
    · have := hroom.low
      have := hr.low
      exact .of_below (by omega) (by omega)
  have hfree : (s.setMem mem).recorded 3 = s.recorded 3 := by
    rw [recorded, recorded, setMem_mem, setMem_ram, h.ready.ram]
    have := hroom.low
    have := hr.low
    exact ha.peekWord _ fun i hi => .of_below (by omega) (by omega)
  have hfree' : (s.recorded 3).toNat ≤ ((s.setMem mem).recorded 3).toNat := by rw [hfree]
  constructor
  case ready => exact hready
  case rooms =>
    intro x hx
    rcases mem_cons.1 hx with rfl | hx
    · refine hr.agrees ha (fun b hb hb' => ⟨fun _ => .inr ⟨hb, hb'⟩, ?_, ?_⟩) hfree'
      · omega
      · omega
    have hx' := hx
    rcases mem_append.1 hx' with hx | hx
    · rcases mem_cons.1 hx with rfl | hx
      · refine hroom.agrees ha (fun b hb hb' => ⟨fun hb'' => ?_, by omega, by omega⟩) hfree'
        have := hb''.1
        have := hb''.2
        omega
      obtain ⟨t, ht, rfl⟩ := mem_map.1 hx
      obtain ⟨h1, h2, h3⟩ := below t ht
      have := h3.header
      refine h3.agrees ha (fun b hb hb' => stay _ h1 h2 b ⟨by omega, ?_⟩) hfree'
      rw [Room.stop]
      omega
    · obtain ⟨h1, h2, h3⟩ := spares x hx
      have := h3.header
      refine h3.agrees ha (fun b hb hb' => stay _ h1 h2 b ⟨by omega, ?_⟩) hfree'
      rw [Room.stop]
      omega
  case apart =>
    have hperm : List.Perm (w.move r rs).rooms (w.rooms ++ r :: rs) := by
      rw [hrooms]
      exact perm_middle.symm
    exact (hperm.pairwise_iff fun hab => hab.symm).2 offers.apart
  case inner => trivial
  case below =>
    refine ⟨prev, ⟨next, some_call, ?_, ?_⟩, ?_⟩
    · exact last
    · refine h.inner.agrees ha fun b hb hb' => ⟨fun hb'' => ?_, by omega, by omega⟩
      have := h.inner.above_le some_call
      have := hb''.1
      have := hb''.2
      omega
    refine h.below.agrees ha (fun t ht => (below t ht).2.2.header) (fun b hb hb' => ?_)
      fun t ht b hb => stay _ (below t ht).1 (below t ht).2.1 b hb
    refine ⟨fun hb'' => ?_, by omega, by omega⟩
    have := hb''.1
    have := hb''.2
    omega
  case spares =>
    show Spare mem (mem.peekWord (r.chunk.toNat + 4)) rs
    rw [ha.peekWord _ fun i hi => ⟨fun _ => .inl ⟨by omega, by omega⟩, by omega, by omega⟩]
    exact offers.spare.agrees ha (fun x hx => (spares x hx).2.2.header) fun x hx b hb =>
      stay _ (spares x hx).1 (spares x hx).2.1 b hb

/-- The machine has gone on to a placement in which the call `c` has room for its operands. -/
structure Moved (S : Scene) (m : Machine) (w : Placement) (c : Call) (n : Machine)
    (w' : Placement) : Prop where
  stands : S.At n w'
  called : S.Called n w' c
  cp : n.cp = m.cp
  ip : n.ip = m.ip
  callers : w'.callers = w.callers
  fits : w'.lp + 4 * ((S.form c.method).locals + 4 + (S.form c.method).operands) < w'.room.stop
  onward : m.store.Onward n.store

/-- The words that are written when the frame of `c` goes to the chunk `r`: those that link the two
chunks, and those in front of the locals. -/
def headWords (mem : Memory) (w : Placement) (r : Room) (c : Call) : List (Nat × UInt32) :=
  [(r.chunk.toNat + 8, w.room.chunk), (r.chunk.toNat + 16, 0), (w.room.chunk.toNat + 4, r.chunk),
    (w.room.chunk.toNat + 16, mem.peekWord (w.lp - 12)), (r.chunk.toNat + 28, 0),
    (r.chunk.toNat + 20, c.method), (r.chunk.toNat + 24, mem.peekWord (w.lp - 16)),
    (r.chunk.toNat + 32, c.owner)]

lemma headWords_place {p : Nat × UInt32} (hp : p ∈ headWords mem w r c) :
    p.1 = w.room.chunk.toNat + 4 ∨ p.1 = w.room.chunk.toNat + 16 ∨
      (r.chunk.toNat ≤ p.1 ∧ p.1 + 8 ≤ r.chunk.toNat + 40 ∧ p.1 ≠ r.chunk.toNat + 4 ∧
        p.1 ≠ r.chunk.toNat + 12 ∧ p.1 % 4 = r.chunk.toNat % 4) := by
  simp only [headWords, mem_cons, not_mem_nil, or_false] at hp
  rcases hp with rfl | rfl | rfl | rfl | rfl | rfl | rfl | rfl <;> dsimp only <;> omega

/-- The memory `mem` after the head of the frame was written and its arguments were copied. -/
structure Shifted (m : Machine) (w : Placement) (r : Room) (c : Call) (mem : Memory) : Prop where
  agrees : Agrees (w.Spared r) m.store.mem mem
  word : ∀ p ∈ headWords m.store.mem w r c, mem.peekWord p.1 = p.2
  locals : mem.Lists (r.chunk.toNat + 40) c.locals

section

variable (h : S.At m w) (top : S.Called m w c) (offers : S.Offers m.store w r rs)
  (large : 15 + (S.form c.method).locals + (S.form c.method).operands ≤ r.words)
include h offers large

lemma Offers.near : w.room.Apart r ∧ r.chunk.toNat + 60 ≤ r.stop ∧ r.stop ≤ m.store.mem.size := by
  have hmem : w.room ∈ w.rooms := mem_cons_self
  have := (offers.holds r mem_cons_self).high
  have := h.rests.ready.bounds
  have := r.stop_eq
  exact ⟨(pairwise_append.1 offers.apart).2.2 _ hmem r mem_cons_self, by omega, by omega⟩

/-- Writing the head leaves the frame as it was in its old place. -/
lemma At.headWords_old {l : List (Nat × UInt32)} (hl : l ⊆ headWords m.store.mem w r c) :
    Agrees (fun b => w.lp ≤ b + 20 ∧ b < w.room.stop) m.store.mem (m.store.mem.pokeAll l) := by
  obtain ⟨near, _, _⟩ := offers.near h large
  have := h.bounds
  rw [Room.Apart] at near
  refine agrees_pokeAll fun p hp b hb => ?_
  have := headWords_place (hl hp)
  omega

lemma At.headWords_spared :
    Agrees (w.Spared r) m.store.mem (m.store.mem.pokeAll (headWords m.store.mem w r c)) := by
  obtain ⟨_, _, _⟩ := offers.near h large
  refine agrees_pokeAll fun p hp b hb => ?_
  have := headWords_place hp
  have target := hb.target
  have := hb.next
  have := hb.last
  rw [Room.Has] at target
  omega

lemma At.headWords_written : ∀ p ∈ headWords m.store.mem w r c,
    (m.store.mem.pokeAll (headWords m.store.mem w r c)).peekWord p.1 = p.2 := by
  intro p hp
  obtain ⟨near, _, _⟩ := offers.near h large
  have := h.bounds
  have := h.rests.holds.header
  have := w.room.stop_eq
  rw [Room.Apart] at near
  refine peekWord_pokeAll ?_ hp ?_
  · simp only [headWords, pairwise_cons, mem_cons, not_mem_nil, or_false, forall_eq_or_imp,
      forall_eq, List.Pairwise.nil, and_true, IsEmpty.forall_iff, implies_true]
    omega
  · have := headWords_place hp
    omega

end

lemma Called.arguments (ok : S.Ok) (h : S.At m w) (top : S.Called m w c) :
    (m.sp + 4 - m.lp).toNat = 4 * c.locals.length ∧ m.lp.toNat ≤ (m.sp + 4).toNat := by
  have := top.sp
  have := top.inside
  have := h.lp
  have := toNat_four
  have := h.bounds
  have := h.size ok
  have : (m.sp + 4).toNat = m.sp.toNat + 4 := toNat_plus (by omega)
  refine ⟨?_, by omega⟩
  rw [toNat_minus] <;> omega

lemma Shifted.rests (shifted : Shifted m w r c mem) (h : S.At m w) (top : S.Called m w c)
    (offers : S.Offers m.store w r rs) (alone : w.spares = []) (some_call : w.inner ≠ []) :
    S.Rests (m.store.setMem mem) (w.move r rs) := by
  refine h.rests.move offers alone some_call shifted.agrees ?_ ?_ ?_
  · exact shifted.word (_, _) (by simp [headWords])
  · exact shifted.word (_, _) (by simp [headWords])
  · rw [shifted.word (_, m.store.mem.peekWord (w.lp - 12)) (by simp [headWords])]
    exact top.previous

lemma Shifted.onward (shifted : Shifted m w r c mem) (h : S.At m w)
    (offers : S.Offers m.store w r rs) : m.store.Onward (m.store.setMem mem) := by
  have hlow := h.rests.holds.low
  have hrlow := (offers.holds r mem_cons_self).low
  rw [← h.rests.ready.ram] at hlow hrlow
  exact .write (shifted.agrees.mono fun b hb => .of_below (by omega) (by omega))

section

variable (ok : S.Ok) (h : S.At m w) (top : S.Called m w c) (offers : S.Offers m.store w r rs)
  (large : 15 + (S.form c.method).locals + (S.form c.method).operands ≤ r.words)
include ok h offers large

lemma Offers.firstFrame : (r.chunk + firstFrameOffset).toNat = r.chunk.toNat + 40 := by
  have : firstFrameOffset.toNat = 40 := rfl
  obtain ⟨_, _, _⟩ := offers.near h large
  have := h.size ok
  exact toNat_plus (by omega)

include top

lemma Called.shifts : ∃ mem, copyBytes m.lp (r.chunk + firstFrameOffset) (m.sp + 4 - m.lp)
      (m.store.mem.pokeAll (headWords m.store.mem w r c)) = .ok () mem ∧ Shifted m w r c mem := by
  obtain ⟨near, _, _⟩ := offers.near h large
  have hfirst := offers.firstFrame ok h large
  have hlp := h.lp
  have := h.bounds
  have := top.inside
  have := top.count
  have := (ok.method _ top.known).parameters_le
  have hargs := (top.arguments ok h).1
  have hstop := r.stop_eq
  rw [Room.Apart] at near
  have old := h.headWords_old (c := c) offers large (List.Subset.refl _)
  obtain ⟨mem, hcopy, hlists, hagr⟩ := copyBytes_lists
    (m := m.store.mem.pokeAll (headWords m.store.mem w r c)) m.lp (r.chunk + firstFrameOffset)
    (m.sp + 4 - m.lp) hargs
    (by rw [hlp]; exact top.locals.agrees old fun b h1 h2 => ⟨by omega, by omega⟩)
    (by rw [hargs, hlp, size_pokeAll]; omega) (by rw [hargs, hfirst, size_pokeAll]; omega)
  rw [hfirst] at hlists hagr
  refine ⟨mem, hcopy, ?_, fun p hp => ?_, hlists⟩
  · refine (h.headWords_spared offers large).trans (hagr.mono fun b hb => ?_)
    have target := hb.target
    rw [Room.Has] at target
    omega
  · have := headWords_place hp
    rw [hagr.peekWord p.1 fun i hi => by omega]
    exact h.headWords_written offers large p hp

lemma Called.moveFrame_gives (hcopy : copyBytes m.lp (r.chunk + firstFrameOffset)
      (m.sp + 4 - m.lp) (m.store.mem.pokeAll (headWords m.store.mem w r c)) = .ok () mem)
    (size : mem.size = m.store.mem.size) :
    Gives (Exec.moveFrame w.room.chunk r.chunk c.method) m fun _ n =>
      ∃ sl log, sl.toNat = r.stop ∧ n = ({ m with
        sl, lp := r.chunk + firstFrameOffset
        sp := r.chunk + firstFrameOffset + (m.sp + 4 - m.lp) - 4 }.setMem mem).setLog log := by
  obtain ⟨_, _, _⟩ := offers.near h large
  have hready := h.rests.ready
  have hr := offers.holds r mem_cons_self
  have hcur := h.rests.holds.within ok hready
  have hnew := hr.within ok hready
  have hfirst := offers.firstFrame ok h large
  have h40 : firstFrameOffset.toNat = 40 := rfl
  have h4 := toNat_four
  have := h.bounds
  have := h.size ok
  have := top.inside
  have := top.count
  have := (ok.method _ top.known).parameters_le
  have hframe := h.frame ok (by omega)
  obtain ⟨hargs, arguments⟩ := top.arguments ok h
  have := r.stop_eq
  obtain ⟨sl, hlimit, hsl⟩ := hr.limit_eq ok hready
  generalize hwrites : headWords m.store.mem w r c = writes at hcopy
  -- The two chunks and both frames can be accessed after each of the writes.
  have chunk : ∀ k, Chunk.Within (m.store.mem.pokeAll (writes.take k)) r.chunk r.chunk.toNat :=
    fun _ => hnew.resize size_pokeAll
  have current : ∀ k,
      Chunk.Within (m.store.mem.pokeAll (writes.take k)) w.room.chunk w.room.chunk.toNat :=
    fun _ => hcur.resize size_pokeAll
  have frame : ∀ k, Frame.Within (m.store.mem.pokeAll (writes.take k))
      (r.chunk + firstFrameOffset) (r.chunk.toNat + 40) := fun k => by
    have : (m.store.mem.pokeAll (writes.take k)).size = _ := size_pokeAll
    have := hnew.aligned
    exact ⟨hfirst, by omega, by omega, by omega, by omega⟩
  have before : ∀ k, Frame.Within (m.store.mem.pokeAll (writes.take k)) m.lp w.lp := fun _ =>
    hframe.resize size_pokeAll
  have word : ∀ k x, w.lp ≤ x + 20 → x + 4 ≤ w.room.stop →
      (m.store.mem.pokeAll (writes.take k)).peekWord x = m.store.mem.peekWord x := fun k x h1 h2 =>
    (h.headWords_old (c := c) offers large (hwrites ▸ take_subset k writes)).peekWord x
      fun i hi => ⟨by omega, by omega⟩
  subst hwrites
  unfold Exec.moveFrame
  apply Gives.read_bind hlimit
  apply Gives.modify_bind
  apply Gives.get_bind
  refine .edit_bind (chunk 0).setPrev_eq ?_
  refine .edit_bind (chunk 1).setLastFrame_eq ?_
  refine .edit_bind (current 2).setNext_eq ?_
  refine .read_bind (a := m.store.mem.peekWord (w.lp - 12))
    ((before 3).previous_eq.trans (congrArg Except.ok (word 3 _ (by omega) (by omega)))) ?_
  refine .edit_bind (current 3).setLastFrame_eq ?_
  refine .except_bind (plus_eq (by omega)) ?_
  refine .edit_bind (frame 4).setPrevious_eq ?_
  refine .edit_bind (frame 5).setMethod_eq ?_
  refine .read_bind (a := m.store.mem.peekWord (w.lp - 16))
    ((before 6).ip_eq.trans (congrArg Except.ok (word 6 _ (by omega) (by omega)))) ?_
  refine .edit_bind (frame 6).setIp_eq ?_
  refine .read_bind (a := c.owner) ((before 7).classOf_eq.trans
    (congrArg Except.ok ((word 7 _ (by omega) (by omega)).trans top.owner))) ?_
  refine .edit_bind (frame 7).setClass_eq ?_
  apply Gives.get_bind
  apply Gives.except_bind (minus_eq arguments)
  refine .edit_bind (o := mem) hcopy ?_
  have hlp' : (r.chunk + firstFrameOffset).toNat + (m.sp + 4 - m.lp).toNat < 4294967296 := by
    omega
  have hsum := toNat_plus hlp'
  apply Gives.modify_bind
  apply Gives.except_bind (plus_eq hlp')
  apply Gives.except_bind (minus_eq (by omega))
  apply Gives.modify_bind
  exact .tracedOf ⟨_, Query.bind_ok (hnew.resize size).size_eq⟩ fun log => ⟨sl, log, hsl, rfl⟩

lemma Called.moveFrame (alone : w.spares = []) (some_call : w.inner ≠ []) :
    Gives (Exec.moveFrame w.room.chunk r.chunk c.method) m fun _ n =>
      S.Moved m w c n (w.move r rs) := by
  obtain ⟨mem, hcopy, shifted⟩ := top.shifts ok h offers large
  refine (top.moveFrame_gives ok h offers large hcopy shifted.agrees.size).mono ?_
  rintro - _ ⟨sl, log, hsl, rfl⟩
  obtain ⟨_, _, _⟩ := offers.near h large
  have hfirst := offers.firstFrame ok h large
  have hargs := (top.arguments ok h).1
  have hcount := top.count
  have hparams := (ok.method _ top.known).parameters_le
  have := h.size ok
  have := toNat_four
  have := r.stop_eq
  have fits : r.chunk.toNat + 40 +
      4 * ((S.form c.method).locals + 4 + (S.form c.method).operands) < r.stop := by omega
  have hrests := shifted.rests h top offers alone some_call
  refine ⟨⟨hrests.congr rfl rfl rfl rfl rfl, ?_, h.worked, hfirst, hsl⟩, ?_, rfl, rfl, rfl, fits,
    (shifted.onward h offers).setLog log⟩
  · exact shifted.word (r.chunk.toNat + 16, 0) (by simp [headWords])
  constructor
  case toLies =>
    refine ⟨shifted.word (r.chunk.toNat + 20, c.method) (by simp [headWords]), ?_,
      shifted.word (r.chunk.toNat + 32, c.owner) (by simp [headWords]), shifted.locals⟩
    exact congrArg UInt32.toNat (shifted.word (r.chunk.toNat + 28, 0) (by simp [headWords]))
  case known => exact top.known
  case count => exact top.count
  case operands => exact top.operands
  case sp =>
    have hsum : (r.chunk + firstFrameOffset + (m.sp + 4 - m.lp)).toNat = _ := toNat_plus (by omega)
    show (r.chunk + firstFrameOffset + (m.sp + 4 - m.lp) - 4).toNat + 4 = r.chunk.toNat + 40 + _
    rw [toNat_minus] <;> omega
  case inside =>
    show r.chunk.toNat + 40 + _ ≤ r.stop
    omega
  case first => exact fun _ => fits

end

end Scene

end DeviceVm.Stack
