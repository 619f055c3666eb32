import DeviceVm.Proofs.Copying.Table

/-!
The rebuilt queues pass the check at the end of a collection.
-/

namespace DeviceVm.Copying

open Store Word Traversal Association Liveness

variable {S : Scene} {orig : Cell → Nat → UInt32} {table q c : Cell} {queues : Nat → List Cell}
  {g start : Progress} {s : Store} {a v w : UInt32} {kept finalized : List Cell}
  {lists : Nat → List Cell} {x : Nat}

/-- All words of the copies were updated. -/
def AllDone (S : Scene) (g : Progress) : Prop := g.done = (· < S.target + Cell.total g.order)

lemma Inv.still_word (h : Inv S g s) (ok : S.Ok) (home : S.Home g.order q v)
    (hc : ¬ q.isChunk) (hx : x % 4 = 0) (hb : x + 4 ≤ q.body) (hs : S.Still (g.orig q x)) :
    s.mem.peekWord (v.toNat + x) = g.orig q x := by
  rcases h.word_at home.at hc hx hb with hw | ⟨_, hi⟩
  · exact hw
  · exact hi.unique ok h.nodup (.still hs)

lemma Scene.Proper.clear (hp : S.Proper orig v) (ok : S.Ok) (h : Inv S g s)
    (hi : S.Image g.order v w) : S.clear w = true := by
  rw [Scene.clear, decide_eq_true_iff]
  cases hp with
  | outside ho =>
    rw [hi.unique ok h.nodup (.still (.inl ho.outside))]
    exact ho.apart
  | gone hm hr he ho =>
    rw [hi.unique ok h.nodup (.gone hm hr he)]
    exact ho.apart
  | @fresh c hf _ =>
    have := h.placed_bounds ok (hi.placed ok hf)
    have := ok.halves
    have := c.head_cases
    omega

lemma Scene.Home.clear (home : S.Home g.order q v) (ok : S.Ok) (h : Inv S g s) :
    S.clear v = true := by
  rw [Scene.clear, decide_eq_true_iff]
  cases home with
  | copy hp =>
    have := h.placed_bounds ok hp
    have := ok.halves
    have := q.head_cases
    omega
  | pin hc =>
    have := ok.pins q hc
    have := ok.bounds
    omega

lemma Scene.IsAssociation.object_word (ha : S.IsAssociation orig table q) (h : Inv S g s)
    (hdone : AllDone S g) (hsame : g.orig q 0 = orig q 0) (home : S.Home g.order q v) :
    S.Image g.order (orig q 0) (s.mem.peekWord (v.toNat + 0)) := by
  have := ha.room
  cases home with
  | copy hp =>
    have hu := h.updated q v 0 hp rfl (by omega) (by
      rw [hdone]
      have := hp.high
      omega)
    simpa only [Scene.Updated, ha.object_role (h.fresh q hp.mem), hsame] using hu
  | pin hc =>
    rw [h.pinned q 0 hc rfl (by omega), hsame]
    exact .still (.inl (ha.object_pinned hc).outside)

/-- The table of associations while it is checked: its queues hold `lists`, each association in the
queue of the address that its object has now. -/
structure Queued (S : Scene) (orig : Cell → Nat → UInt32) (table : Cell) (lists : Nat → List Cell)
    (g : Progress) : Prop where
  home : S.Home g.order table (g.record 14)
  room : 64 ≤ table.body
  plain : ¬ table.isChunk
  entries : ∀ i < 16, S.Still (g.orig table (4 * i))
  built : ∀ i < 16, S.Built g.order g.orig 0 (g.orig table (4 * i)) (lists i)
  nodup : ∀ i, (lists i).Nodup
  association : ∀ i q, q ∈ lists i → S.IsAssociation orig table q
  cut : ∀ i q, q ∈ lists i → S.Still (g.orig q 4)
  object : ∀ i q, q ∈ lists i → g.orig q 0 = orig q 0
  keyed : ∀ i q, i < 16 → q ∈ lists i → ∃ key, S.Image g.order (orig q 0) key ∧
    (queueOf key).toNat = i

lemma checkQueue_ends (Q : Queued S orig table lists g) (ok : S.Ok) (h : Inv S g s)
    (hdone : AllDone S g) (hh : S.Halves g.record) {k : Nat} (hk : k < 16) :
    Ends (checkQueue (liveness S.space) (UInt32.ofNat k) (s.mem.size + 1) (g.orig table (4 * k))) s
      fun _ t => t = s := by
  have alive : ∀ v, S.clear v = true → Ends ((liveness S.space).alive v) s fun b t =>
      b = true ∧ t = s :=
    fun v hv => (alive_ends ok h hh v).mono fun b t hb => ⟨hb.1.trans hv, hb.2⟩
  refine Liveness.checkQueue_ends (fun l a => S.Built g.order g.orig 0 a l ∧
    ∀ q ∈ l, q ∈ lists k) ?_ ?_ (l := lists k) ?_ ⟨Q.built k hk, fun _ h => h⟩
  · rintro a ⟨hb, _⟩
    cases hb
    rfl
  · rintro q rest a ⟨hb, hm⟩
    cases hb with
    | cons home links =>
      have hq := hm q List.mem_cons_self
      have ha := Q.association k q hq
      have hb := ha.room
      have hobject := ha.object_word h hdone (Q.object k q hq) home
      refine ⟨home.at.ne_zero ok h, s.mem.peekWord (a.toNat + 0), g.orig q 4,
        alive a (home.clear ok h), h.field ok home.at hb (j := 0) rfl (by omega),
        fun _ => alive _ (ha.object.clear ok h hobject), ?_, ?_, links,
        fun p hp => hm p (List.mem_cons_of_mem q hp)⟩
      · obtain ⟨key, hi, hkey⟩ := Q.keyed k q hk hq
        rw [hobject.unique ok h.nodup hi]
        apply UInt32.toNat_inj.mp
        rw [hkey, UInt32.toNat_ofNat']
        omega
      · rw [← h.still_word ok home ha.plain rfl (by omega) (Q.cut k q hq)]
        exact h.field ok home.at hb (j := 1) rfl (by omega)
  · have := Scene.IsAssociation.length_le ok (Q.nodup k) fun p hp => Q.association k p hp
    rw [h.mem_size]
    omega

lemma checkQueues_ends (Q : Queued S orig table lists g) (ok : S.Ok) (h : Inv S g s)
    (hdone : AllDone S g) (hh : S.Halves g.record) :
    Ends (liveness S.space).checkQueues s fun _ t => t = s := by
  have h14 : associationTable s = .ok (g.record 14) := by
    rw [associationTable, (h.recorded ok).root_eq (j := 6) rfl (by omega), h.recorded_eq (by omega)]
  have := h.at_bounds ok Q.home.at
  have := Q.room
  refine .query_bind h14 ?_
  rw [if_pos (by simpa using Q.home.at.ne_zero ok h)]
  refine checkQueuesFrom_ends (fun k hk => ⟨_, ?_, checkQueue_ends Q ok h hdone hh hk⟩) rfl
  have : (UInt32.ofNat k).toNat = k := by
    rw [UInt32.toNat_ofNat']
    omega
  rw [← h.still_word ok Q.home Q.plain (by omega) (by omega) (Q.entries k hk)]
  exact Memory.word_eq (.nat (by omega) (by omega) (by omega)) (by omega)

end DeviceVm.Copying
