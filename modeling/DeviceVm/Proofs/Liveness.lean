import DeviceVm.Collection.Liveness
import DeviceVm.Proofs.Objects
import DeviceVm.Proofs.Record

/-!
The loops that decide the fate of associations, for any collector. A collector says by a predicate
what holds while the rest of a queue is undecided, and what one decision does.
-/

namespace DeviceVm.Liveness

open List Memory UInt32 Header Store Association

variable {live : Liveness Run} {s : Store} {tally : QueueTally} {a : UInt32}
  {table : UInt32} {l : List Cell} {fuel n k : Nat}

/-- What is read of an association before its fate is decided. -/
structure Entry where
  current : UInt32
  following : UInt32
  object : UInt32
  inUse : Bool
  hash : UInt32
  flags : UInt32

namespace Entry

/-- The association says something about its object: a hash code, a finalizer or the wish to be
migrated. -/
def informative (e : Entry) : Bool :=
  e.hash != 0 || e.flags &&& (finalizerFlag ||| migratableFlag) != 0

def hasFinalizer (e : Entry) : Bool := e.flags &&& finalizerFlag != 0

/-- The entry is what memory holds; `n` is memory with the link cut. -/
structure Reads (m : Memory) (a : UInt32) (n : Memory) (e : Entry) : Prop where
  current : resolve a m = .ok e.current
  following : next e.current m = .ok e.following
  object : ∃ o, Association.object e.current m = .ok o ∧ resolve o m = .ok e.object
  monitor : ∃ v w, Association.monitor e.current m = .ok v ∧ resolve v m = .ok w ∧
    (if w = 0 then e.inUse = false else monitorInUse w m = .ok e.inUse)
  flags : Association.flags e.current m = .ok e.flags
  cut : setNext e.current 0 m = .ok () n
  hash : hashCode e.current n = .ok e.hash

end Entry

lemma settle_ends {e : Entry} {n : Memory} (r : e.Reads s.mem a n) {alive : Bool}
    {post : UInt32 × QueueTally → Store → Prop}
    (halive : e.inUse = false → Ends (live.alive e.object) (s.setMem n) fun b t =>
      b = alive ∧ t = s.setMem n)
    (stays : (e.inUse || (alive && e.informative)) = true → Ends (do
      let kept ← live.keep a
      let key ← if e.object == 0 then pure 0 else live.keep e.object
      return (e.following, ← enqueue tally key kept)) (s.setMem n) post)
    (finalized : (e.inUse || (alive && e.informative)) = false → e.hasFinalizer = true → Ends (do
      let kept ← live.keep a
      store do
        setNext kept (← finalizationQueue)
        setRamRoot Root.finalization kept
      return (e.following, { tally with finalized := tally.finalized + 1 })) (s.setMem n) post)
    (dropped : (e.inUse || (alive && e.informative)) = false → e.hasFinalizer = false → ∀ log,
      post (e.following, { tally with dropped := tally.dropped + 1 }) ((s.setMem n).setLog log)) :
    Ends (settle live tally a) s post := by
  obtain ⟨o, ho, hobject⟩ := r.object
  obtain ⟨v, w, hv, hw, hinUse⟩ := r.monitor
  refine .read_bind r.current ?_
  refine .read_bind r.following ?_
  refine .value_bind (.read_bind ho (.read hobject ⟨rfl, rfl⟩)) ?_
  refine .value_bind (.read_bind hv (.read hw ⟨rfl, rfl⟩)) ?_
  refine .value_bind (a := e.inUse) ?_ ?_
  · by_cases h0 : w = 0
    · rw [if_pos h0] at hinUse
      rw [if_pos (by simpa using h0)]
      exact .pure ⟨hinUse.symm, rfl⟩
    · rw [if_neg h0] at hinUse
      rw [if_neg (by simpa using h0)]
      exact .read hinUse ⟨rfl, rfl⟩
  refine .read_bind r.flags ?_
  refine .edit_bind r.cut ?_
  refine .read_bind r.hash ?_
  have decided : ∀ b, b = (e.inUse || (alive && e.informative)) → Ends (do
      if b then
        let kept ← live.keep a
        let key ← if e.object == 0 then pure 0 else live.keep e.object
        return (e.following, ← store (enqueue tally key kept))
      if e.flags &&& finalizerFlag != 0 then
        let kept ← live.keep a
        store do
          setNext kept (← finalizationQueue)
          setRamRoot Root.finalization kept
        return (e.following, { tally with finalized := tally.finalized + 1 })
      store <| say .trace .collection fun _ =>
        "association " ++ Hex.word a ++ " of " ++ Hex.word e.object ++ " lost"
      return (e.following, { tally with dropped := tally.dropped + 1 })) (s.setMem n) post := by
    rintro b hb
    cases b with
    | true => exact stays hb.symm
    | false =>
      cases hf : e.hasFinalizer with
      | true =>
        have hf' : (e.flags &&& finalizerFlag != 0) = true := hf
        rw [if_pos hf']
        exact finalized hb.symm hf
      | false =>
        have hf' : ¬ (e.flags &&& finalizerFlag != 0) = true := by
          rw [show (e.flags &&& finalizerFlag != 0) = false from hf]
          exact Bool.false_ne_true
        rw [if_neg hf']
        exact .say_bind fun log => .pure (dropped hb.symm hf log)
  cases hu : e.inUse with
  | true =>
    exact .value_bind (.pure ⟨rfl, rfl⟩) (decided true (by simp [hu]))
  | false =>
    refine .value_bind (.map ((halive hu).mono fun b t h => ?_)) (decided (alive && e.informative)
      (by simp [hu]))
    rw [h.1]
    exact ⟨rfl, h.2⟩

lemma settleQueue_ends (Q : List Cell → QueueTally → UInt32 → Store → Prop)
    (stop : ∀ tally a s, Q [] tally a s → a = 0)
    (step : ∀ q rest tally a s, Q (q :: rest) tally a s →
      a ≠ 0 ∧ Ends (settle live tally a) s fun r t => Q rest r.2 r.1 t) (hfuel : l.length < fuel)
    (h : Q l tally a s) :
    Ends (settleQueue live fuel tally a) s fun tally t => Q [] tally 0 t := by
  induction l generalizing fuel tally a s with
  | nil =>
    rcases fuel with _ | fuel
    · omega
    have h0 := stop _ _ _ h
    subst h0
    exact .pure h
  | cons q rest ih =>
    simp only [length_cons] at hfuel
    rcases fuel with _ | fuel
    · omega
    obtain ⟨hne, hs⟩ := step _ _ _ _ _ h
    rw [settleQueue, if_neg (by simpa using hne)]
    exact .bind hs fun r t ht => ih (by omega) ht

lemma settleQueues_ends (R : Nat → QueueTally → Store → Prop)
    (step : ∀ k tally s, k < 16 → R k tally s → ∃ a n,
      word table (ofNat k).toInt32 s.mem = .ok a ∧
      setWord table (ofNat k).toInt32 0 s.mem = .ok () n ∧
      Ends (settleQueue live (n.size + 1) tally a) (s.setMem n) fun tally t =>
        R (k + 1) tally t) (hk : k + n = 16) (h : R k tally s) :
    Ends (settleQueues live table n (ofNat k) tally) s fun tally t => R 16 tally t := by
  induction n generalizing k tally s with
  | zero =>
    obtain rfl : k = 16 := by omega
    exact .pure h
  | succ n ih =>
    obtain ⟨a, m, hread, hset, hq⟩ := step k tally s (by omega) h
    refine .read_bind hread (.edit_bind hset ?_)
    refine .read_bind (walkBound_eq _) ?_
    refine .bind hq fun tally t ht => ?_
    rw [show ofNat k + 1 = ofNat (k + 1) from (ofNat_add k 1).symm]
    exact ih (by omega) ht

lemma writeHeads_ends (W : Nat → Store → Prop) {heads : List UInt32}
    (step : ∀ k v s, heads[k]? = some v → W k s → ∃ n,
      setWord table (ofNat k).toInt32 v s.mem = .ok () n ∧ W (k + 1) (s.setMem n))
    (h : W 0 s) :
    ∃ n, writeHeads table heads 0 s.mem = .ok () n ∧ W heads.length (s.setMem n) := by
  suffices main : ∀ l k s, heads.drop k = l → k ≤ heads.length → W k s →
      ∃ n, writeHeads table l (ofNat k) s.mem = .ok () n ∧ W heads.length (s.setMem n) from
    main heads 0 s rfl (Nat.zero_le _) h
  intro l
  induction l with
  | nil =>
    intro k s hl hk h
    have := drop_eq_nil_iff.1 hl
    obtain rfl : k = heads.length := by omega
    exact ⟨s.mem, rfl, h⟩
  | cons v l ih =>
    intro k s hl hk h
    have hlt : k < heads.length := by
      have := congrArg length hl
      simp only [length_drop, length_cons] at this
      omega
    have hv : heads[k]? = some v := by
      rw [← head?_drop, hl, head?_cons]
    obtain ⟨n, hset, hn⟩ := step k v s hv h
    obtain ⟨m, hm, hw⟩ := ih (k + 1) (s.setMem n) (by rw [← tail_drop, hl, tail_cons])
      hlt hn
    refine ⟨m, ?_, hw⟩
    rw [writeHeads, Edit.bind_ok hset,
      show ofNat k + 1 = ofNat (k + 1) from (ofNat_add k 1).symm]
    exact hm

lemma checkQueue_ends {queue : UInt32} (Q : List Cell → UInt32 → Prop)
    (stop : ∀ a, Q [] a → a = 0)
    (step : ∀ q rest a, Q (q :: rest) a → a ≠ 0 ∧ ∃ o following,
      Ends (live.alive a) s (fun b t => b = true ∧ t = s) ∧
      Association.object a s.mem = .ok o ∧
      (o ≠ 0 → Ends (live.alive o) s fun b t => b = true ∧ t = s) ∧ queueOf o = queue ∧
      next a s.mem = .ok following ∧ Q rest following) (hfuel : l.length < fuel) (h : Q l a) :
    Ends (checkQueue live queue fuel a) s fun _ t => t = s := by
  induction l generalizing fuel a with
  | nil =>
    rcases fuel with _ | fuel
    · omega
    rw [checkQueue, if_pos (by simp [stop _ h])]
    exact .pure rfl
  | cons q rest ih =>
    simp only [length_cons] at hfuel
    rcases fuel with _ | fuel
    · omega
    obtain ⟨hne, o, following, halive, hobject, hoalive, hqueue, hnext, hrest⟩ := step _ _ _ h
    rw [checkQueue, if_neg (by simpa using hne)]
    refine .value_bind halive ?_
    refine .read_bind hobject ?_
    have rest : Ends (do
        if queueOf o != queue then
          store (fatal (.misplacedAssociation a (queueOf o) queue))
        checkQueue live queue fuel (← store (next a))) s fun _ t => t = s := by
      rw [if_neg (by simp [hqueue])]
      exact .read_bind hnext (ih (by omega) hrest)
    by_cases h0 : o = 0
    · rw [if_neg (by simpa using h0)]
      exact rest
    · rw [if_pos (by simpa using h0)]
      refine .value_bind (hoalive h0) ?_
      exact rest

lemma checkQueuesFrom_ends
    (step : ∀ k < 16, ∃ a, word table (ofNat k).toInt32 s.mem = .ok a ∧
      Ends (checkQueue live (ofNat k) (s.mem.size + 1) a) s fun _ t => t = s) (hk : k + n = 16) :
    Ends (checkQueuesFrom live table n (ofNat k)) s fun _ t => t = s := by
  induction n generalizing k with
  | zero => exact .pure rfl
  | succ n ih =>
    obtain ⟨a, hread, hq⟩ := step k (by omega)
    refine .read_bind hread (.read_bind (walkBound_eq _) ?_)
    refine .bind hq fun _ t ht => ?_
    rw [ht, show ofNat k + 1 = ofNat (k + 1) from (ofNat_add k 1).symm]
    exact ih (by omega)

end DeviceVm.Liveness
