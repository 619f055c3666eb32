import DeviceVm.Proofs.Stack.Growing
import DeviceVm.Proofs.Stack.Invocation

/-!
Contexts are started with the call of a support method, whose frame is the first of a new chunk. It
has its argument and is saved as if it had been called, so that it extends its frame first.
-/

namespace DeviceVm.Stack

open List Memory UInt32 Store Chunk DeviceVm.Frame Exec Word

variable {S : Scene} {s t : Store} {m : Machine} {mem : Memory} {k mp chunk size : UInt32}
  {args : List UInt32}

/-- A context that has not run yet. -/
def Calls.start (S : Scene) (k mp : UInt32) (args : List UInt32) : Calls :=
  ⟨⟨mp, S.entry mp, k, args, []⟩, false, []⟩

/-- The words of the first frame of a chunk, apart from its arguments. -/
def firstWords (a : Nat) (lp k mp start offset : UInt32) : List (Nat × UInt32) :=
  [(a + 28, 0), (a + 36, offset), (a + 20, mp), (a + 32, k), (a + 24, start), (a + 16, lp)]

namespace Scene

lemma Ready.saved_first (h : S.Ready s) (ok : S.Ok) (ht : s.Made t S.chunkClass chunk size)
    (large : S.frameWords mp ≤ size.toNat) (method : S.isMethod mp)
    (count : args.length = (S.form mp).parameters)
    (listed : mem.Lists (chunk.toNat + 40) args)
    (ha : Agrees (fun b => b < chunk.toNat + 40 ∨ chunk.toNat + 44 ≤ b) t.mem mem) :
    S.Saved (t.setMem (mem.pokeAll (firstWords chunk.toNat (chunk + firstFrameOffset) k mp
      (S.entry mp) (ofNat (4 * args.length) - 4)))) (.start S k mp args)
      ⟨⟨chunk, size.toNat⟩, [], [], []⟩ := by
  have hlater := h.made ht
  have hready := h.later ok hlater
  have : S.frameWords mp = 15 + (S.form mp).locals + (S.form mp).operands := rfl
  have hholds := h.holds_new ht (by omega)
  have hlow := hholds.low
  have hhigh := hholds.high
  have := hready.bounds
  have := ok.mem_size
  have hfixed := hholds.fixed
  have := (ok.method _ method).parameters_le
  rw [Room.stop] at hhigh hfixed
  dsimp only at hlow hhigh hfixed
  have h40 : (chunk + firstFrameOffset).toNat = chunk.toNat + 40 :=
    toNat_plus (by show _ + 40 < _; omega)
  generalize chunk + firstFrameOffset = lp at h40 ⊢
  generalize hwrites : firstWords chunk.toNat lp k mp (S.entry mp)
    (ofNat (4 * args.length) - 4) = writes
  have places : ∀ p ∈ writes, chunk.toNat + 16 ≤ p.1 ∧ p.1 + 4 ≤ chunk.toNat + 40 := by
    intro p hp
    simp only [← hwrites, firstWords, mem_cons, not_mem_nil, or_false] at hp
    rcases hp with rfl | rfl | rfl | rfl | rfl | rfl <;> dsimp only <;> omega
  have hagr : Agrees (fun b => b < chunk.toNat + 16 ∨ chunk.toNat + 40 ≤ b) mem
      (mem.pokeAll writes) := by
    refine agrees_pokeAll fun p hp b hb => ?_
    have := places p hp
    omega
  have hall : Agrees (fun b => b < chunk.toNat + 16 ∨ chunk.toNat + 44 ≤ b) t.mem
      (mem.pokeAll writes) :=
    (ha.mono fun b hb => by omega).trans (hagr.mono fun b hb => by omega)
  have hval : ∀ x y, (x, y) ∈ writes → (mem.pokeAll writes).peekWord x = y := by
    intro x y hxy
    refine peekWord_pokeAll ?_ hxy ?_
    · rw [← hwrites]
      simp only [firstWords, pairwise_cons, mem_cons, not_mem_nil, forall_eq_or_imp,
        Pairwise.nil, and_true, IsEmpty.forall_iff, implies_true]
      omega
    · have := places _ hxy
      have := ha.size
      omega
  have hnew : S.Ready (t.setMem (mem.pokeAll writes)) := by
    refine hready.write hall (fun b hb => ?_) fun b h1 h2 => ?_
    · have := hfixed b hb
      omega
    · omega
  have hrec : (t.setMem (mem.pokeAll writes)).recorded 3 = t.recorded 3 := by
    rw [Store.recorded, Store.recorded, Store.setMem_mem, Store.setMem_ram, hready.ram]
    exact hall.peekWord _ fun i hi => by omega
  have hlpw : Placement.lp ⟨⟨chunk, size.toNat⟩, [], [], []⟩ = chunk.toNat + 40 := rfl
  subst hwrites
  constructor
  case rests =>
    constructor
    case ready => exact hnew
    case rooms =>
      intro r hr
      obtain rfl := mem_singleton.1 hr
      refine hholds.agrees hall (fun b _ h2 => .inl ?_) (by rw [hrec])
      exact h2
    case apart => exact pairwise_singleton _ _
    case inner => trivial
    case below =>
      show peekWord _ (chunk.toNat + 8) = 0
      rw [setMem_mem, hall.peekWord _ fun i hi => by omega,
        ht.words 8 (by omega) (by omega) (by omega), if_neg (by omega)]
    case spares =>
      show peekWord _ (chunk.toNat + 4) = 0
      rw [setMem_mem, hall.peekWord _ fun i hi => by omega,
        ht.words 4 (by omega) (by omega) (by omega), if_neg (by omega)]
  case last =>
    rw [setMem_mem, hval _ lp (by simp [firstWords])]
    exact h40
  case callers => rfl
  case ip => exact hval (chunk.toNat + 24) _ (by simp [firstWords, Calls.start])
  case top =>
    show S.Pending _ _ _
    rw [setMem_mem]
    constructor
    case toLies =>
      refine ⟨hval (chunk.toNat + 20) _ (by simp [firstWords, Calls.start]), ?_,
        hval (chunk.toNat + 32) _ (by simp [firstWords, Calls.start]), ?_⟩
      · rw [hlpw, Nat.add_sub_assoc (by omega), hval _ 0 (by simp [firstWords])]
        rfl
      · exact listed.agrees hagr fun b h1 _ => .inr h1
    case known => exact method
    case count => exact count
    case operands => rfl
    case inside =>
      show chunk.toNat + 40 + 4 * args.length ≤ chunk.toNat + 4 * size.toNat
      omega
    case first =>
      intro _
      show chunk.toNat + 40 + 4 * ((S.form mp).locals + 4 + (S.form mp).operands) <
        chunk.toNat + 4 * size.toNat
      omega
    case offset => exact hval (chunk.toNat + 36) _ (by simp [firstWords, Calls.start])
    case start => rfl

/-- There is no room for a chunk that the method can start in. -/
def Cramped (S : Scene) (s : Store) (mp : UInt32) : Prop :=
  ∃ size : UInt32, size.toNat ≤ max (S.frameWords mp) 32 ∧
    s.Short (Header.bytes size + 4 * size.toNat)

/-- A context was made with the call of a method, unless there was no room for its chunk. -/
structure Starts (S : Scene) (m : Machine) (k mp : UInt32) (args : List UInt32) (chunk : UInt32)
    (n : Machine) : Prop where
  onward : m.store.Onward n.store
  same : n = m.setStore n.store
  made : (chunk = 0 ∧ S.Ready n.store ∧ S.Cramped m.store mp) ∨
    ∃ w, w.room.chunk = chunk ∧ S.Saved n.store (.start S k mp args) w

lemma Ready.newContext (ok : S.Ok) (h : S.Ready m.store) {call : SupportCall} {argument : UInt32}
    (supports : S.Supports call k mp) (method : S.isMethod mp)
    (hargs : args = if argument = 0 then [] else [argument])
    (count : args.length = (S.form mp).parameters) :
    Gives (newContext call argument) m (S.Starts m k mp args) := by
  have hreads := ok.method _ method
  have hL := hreads.locals_lt
  have hO := hreads.operands_lt
  have : (ofNat (S.form mp).locals).toNat = (S.form mp).locals :=
    toNat_ofNat_of_lt' (Nat.lt_trans hL (by decide))
  have : (ofNat (S.form mp).operands).toNat = (S.form mp).operands :=
    toNat_ofNat_of_lt' (Nat.lt_trans hO (by decide))
  obtain ⟨words, hwords, hwn⟩ := wordsFor_eq (ofNat (S.form mp).locals)
    (ofNat (S.form mp).operands) (by omega) (by omega)
  refine .next (supports.supportMethod_eq h ?_)
  apply Gives.read_bind (hreads.locals _ h.agrees)
  apply Gives.read_bind (hreads.operands _ h.agrees)
  apply Gives.except_bind hwords
  refine .run_bind (h.newChunk ok (by omega)) ?_
  have : S.frameWords mp = 15 + (S.form mp).locals + (S.form mp).operands := rfl
  rintro chunk t (⟨rfl, ht, size, -, hle, short⟩ | ⟨hne, size, ht, hsize⟩)
  · have hcramped : S.Cramped m.store mp := ⟨size, by omega, short⟩
    exact .pos rfl (.pure ⟨ht.onward, rfl, .inl ⟨rfl, h.later ok ht, hcramped⟩⟩)
  refine .neg (by simpa using hne) ?_
  have hready := h.later ok (h.made ht)
  have hholds := h.holds_new ht (by omega)
  have : chunk.toNat + 4 * size.toNat ≤ (t.recorded 3).toNat := hholds.high
  have hal : chunk.toNat % 4 = 0 := hholds.aligned
  have := hready.bounds
  have := ok.mem_size
  have := toNat_four
  have h40 : (chunk + firstFrameOffset).toNat = chunk.toNat + 40 :=
    toNat_plus (by show _ + 40 < _; omega)
  have hlow : S.ram.start.toNat + 64 ≤ chunk.toNat := hholds.low
  apply Gives.except_bind (plus_eq (show _ + 40 < _ by omega))
  apply Gives.except_bind (minus_eq (show (4 : UInt32).toNat ≤ _ by omega))
  generalize hlp : chunk + firstFrameOffset = lp at h40 ⊢
  have rest : ∀ (sp : UInt32) (n : Machine) (mem : Memory), n = m.setStore (t.setMem mem) →
      sp - lp = ofNat (4 * args.length) - 4 →
      mem.Lists (chunk.toNat + 40) args →
      Agrees (fun b => b < chunk.toNat + 40 ∨ chunk.toNat + 44 ≤ b) t.mem mem →
      Gives (do
        setPrevious lp 0
        setStackOffset lp (sp - lp)
        setMethod lp mp
        setClass lp k
        setIp lp (← Method.entry mp)
        setLastFrame chunk lp
        say .debug .interpreter fun _ =>
          "new context " ++ Hex.word chunk ++ " running " ++ call.name
        return chunk) n (S.Starts m k mp args) := by
    rintro sp _ mem rfl hoffset hlists hagr
    rw [hoffset]
    have : mem.size = t.mem.size := hagr.size
    have hsaved := h.saved_first (k := k) ok ht (by omega) method count hlists hagr
    rw [hlp] at hsaved
    generalize ofNat (4 * args.length) - 4 = offset at hsaved ⊢
    have frame : ∀ j, Frame.Within (mem.pokeAll
        ((firstWords chunk.toNat lp k mp (S.entry mp) offset).take j)) lp (chunk.toNat + 40) :=
      fun j => ⟨h40, by omega, by omega, by rw [size_pokeAll]; omega, by rw [size_pokeAll]; omega⟩
    have hcode : ∀ n : Memory, Agrees (fun b => b < chunk.toNat + 16 ∨
        chunk.toNat + 40 ≤ b) mem n → Method.entry mp n = .ok (S.entry mp) := by
      intro n hn
      refine ok.entry_eq method n (hready.agrees.trans ((hagr.mono fun b hb => ?_).trans
        (hn.mono fun b hb => ?_))) <;>
      · have : b < chunk.toNat ∨ chunk.toNat + 4 * size.toNat ≤ b := hholds.fixed b hb
        omega
    refine .edit_bind (frame 0).setPrevious_eq ?_
    refine .edit_bind (frame 1).setStackOffset_eq ?_
    refine .edit_bind (frame 2).setMethod_eq ?_
    refine .edit_bind (frame 3).setClass_eq ?_
    refine .read_bind (hcode (mem.pokeAll
      ((firstWords chunk.toNat lp k mp (S.entry mp) offset).take 4)) ?_) ?_
    · exact ((((Agrees.refl mem).pokeWord fun b hb => by omega).pokeWord
        fun b hb => by omega).pokeWord fun b hb => by omega).pokeWord fun b hb => by omega
    refine .edit_bind (frame 4).setIp_eq ?_
    refine .edit_bind (Within.setLastFrame_eq (m := mem.pokeAll
      ((firstWords chunk.toNat lp k mp (S.entry mp) offset).take 5)) ⟨rfl, hal, ?_, ?_⟩) ?_
    · rw [size_pokeAll]
      omega
    · rw [size_pokeAll]
      omega
    have honward : m.store.Onward (t.setMem (mem.pokeAll
        (firstWords chunk.toNat lp k mp (S.entry mp) offset))) := by
      have hram : t.ram.start = S.ram.start := congrArg Region.start hready.ram
      rw [← hram] at hlow
      refine (h.made ht).onward.trans (.write ((hagr.mono fun b hb => ?_).trans
        (agrees_pokeAll fun p hp b hb => ?_)))
      · omega
      · simp only [firstWords, mem_cons, not_mem_nil, or_false] at hp
        rcases hp with rfl | rfl | rfl | rfl | rfl | rfl <;> dsimp only <;> omega
    refine .next (Gives.say fun log => Gives.pure ⟨honward.setLog log, rfl,
      .inr ⟨⟨⟨chunk, size.toNat⟩, [], [], []⟩, rfl, ?_⟩⟩)
    exact ⟨hsaved.rests.congr rfl rfl rfl rfl rfl, hsaved.last, hsaved.callers, hsaved.ip,
      hsaved.top⟩
  by_cases hz : argument = 0
  · rw [if_pos hz] at hargs
    subst hargs
    refine .pos (by simpa using hz) (Gives.pure_bind ?_)
    refine rest _ _ t.mem rfl ?_ trivial (.refl _)
    show _ = ofNat 0 - 4
    grind
  · rw [if_neg hz] at hargs
    subst hargs
    refine .neg (by simpa using hz) ?_
    refine .edit_bind (setWordAt_eq (by omega) (by show _ ≤ t.mem.size; omega)) ?_
    refine .pure_bind (rest _ _ (t.mem.pokeWord lp.toNat argument) rfl (by simp)
      ⟨?_, trivial⟩ ?_)
    · rw [h40]
      exact peekWord_pokeWord_self _ (by omega)
    · exact .poked fun b hb => by omega

end Scene

end DeviceVm.Stack
