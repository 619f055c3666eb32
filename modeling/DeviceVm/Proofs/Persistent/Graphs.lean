import DeviceVm.Proofs.Persistent.Migration

/-!
Copies of object graphs. The references of a copy are read once, in order; what they lead to is
copied when it has no copy yet, and waits to be read in turn. Copying ends with copies that came
out of the gaps, whether there was room for the whole graph or not.
-/

namespace DeviceVm.Persistent

open List Memory Query Store Word

namespace Migration

variable {M : Migration} {s u t : Store} {gs left : List Gap} {made : List Copy} {c : Cell}
  {q : Copy} {copy : UInt32}

/-! ### The references of a copy -/

variable {p : Copy} {w : UInt32}

section

variable (ok : M.Ok s gs) (hu : M.Copied s gs made left u) (hp : p ∈ made) {x : Nat}
include ok hu hp

lemma Copied.inside : p.oop.toNat % 4 = 0 ∧ p.stop ≤ u.mem.size := by
  obtain ⟨g, hg, -, hhigh⟩ := hu.shrunk.block p hp
  have := hu.agrees.size
  have := (ok.listed.chained.inside g hg).1
  exact ⟨(hu.header p hp).aligned, by omega⟩

lemma Copied.write (hx : x + 4 ≤ p.cell.body) (v : UInt32) :
    M.Copied s gs made left (u.setMem (u.mem.pokeWord (p.oop.toNat + x) v)) := by
  have : p.stop = p.oop.toNat + p.cell.body := rfl
  have : p.start = p.oop.toNat - p.cell.head := rfl
  have ha : Memory.Agrees (fun b => b < p.oop.toNat + x ∨ p.oop.toNat + x + 4 ≤ b) u.mem
      (u.mem.pokeWord (p.oop.toNat + x) v) := .poked fun b hb => hb
  have hset := Same.of_setMem u (u.mem.pokeWord (p.oop.toNat + x) v)
  -- what is no gap is not in the copy
  have hout : ∀ b, ¬ touched s gs b → b < p.oop.toNat + x ∨ p.oop.toNat + x + 4 ≤ b := by
    intro b hb
    by_contra hcon
    exact hb (hu.shrunk.copy_touched hp (by omega) (by omega))
  have other : ∀ {d low}, d ∈ M.cells → Header.Holds u.mem d.oop low d.count →
      Header.Holds (u.mem.pokeWord (p.oop.toNat + x) v) d.oop low d.count :=
    fun hd hh => hh.agrees ha fun b hb hlt => hout b (ok.header_untouched hd hb hlt)
  refine { hu with same := hu.same.trans hset, agrees := ?_, header := ?_, leads := ?_, gone := ?_,
                   rest := ?_, listed := ?_ }
  · exact hu.agrees.trans (ha.mono fun b hb => hout b hb.1)
  · intro q hq
    refine (hu.header q hq).agrees ha fun b hb hlt => ?_
    have : q.stop = q.oop.toNat + q.cell.body := rfl
    have : q.start = q.oop.toNat - Header.bytes q.cell.count := rfl
    rcases hu.shrunk.apart p q hp hq with rfl | hap | hap <;> omega
  · exact fun q hq => other (hu.source q hq).1 (hu.leads q hq)
  · exact fun d e hd he => other hd (hu.gone d e hd he)
  · exact fun d hd hg hn => other hd (hu.rest d hd hg hn)
  · refine hu.listed.agrees hset ha fun b hb => ?_
    by_contra hcon
    exact hu.copy_untouched ok hp (by omega) (by omega) hb

/-- The references of the copy are those of the object. -/
def Unread (s : Store) (u : Store) (p : Copy) : Prop :=
  ∀ x, p.cell.Slot x → p.word u.mem x = p.cell.words s.mem x

/-- The references `l` of the copy `p` are still to be read, and all of the copies `ps`. -/
structure Reading (M : Migration) (s : Store) (gs : List Gap) (p : Copy) (l : List UInt32)
    (made ps : List Copy) (left : List Gap) (u : Store) : Prop extends
    M.Copied s gs made left u where
  mem : p ∈ made
  slots : ∀ i ∈ l, p.cell.Slot (4 * i.toNat) ∧
    p.word u.mem (4 * i.toNat) = p.cell.words s.mem (4 * i.toNat)
  once : l.Nodup
  waiting : ∀ q ∈ ps, q ∈ made ∧ Unread s u q
  queue : (p :: ps).Nodup

lemma Copied.slot_le (hx : p.cell.Slot x) : x % 4 = 0 ∧ x + 4 ≤ p.cell.body := by
  have := (ok.typed p.cell (hu.source p hp).1).slots_le
  rw [Cell.Slot, if_neg (hu.persistable p hp).1] at hx
  omega

end

namespace Reading

variable {l : List UInt32} {i : UInt32} {ps : List Copy} {left' : List Gap}

lemma tail (h : Reading M s gs p (i :: l) made ps left u) : Reading M s gs p l made ps left u :=
  { h with
    slots := fun j hj => h.slots j (mem_cons_of_mem _ hj)
    once := (nodup_cons.1 h.once).2 }

lemma write (ok : M.Ok s gs) (h : Reading M s gs p (i :: l) made ps left u) (v : UInt32) :
    Reading M s gs p l made ps left
      (u.setMem (u.mem.pokeWord (p.oop.toNat + 4 * i.toNat) v)) := by
  have hi := h.slots i (mem_cons_self ..)
  have hx := h.slot_le ok h.mem hi.1
  have := (h.inside ok h.mem).1
  refine { h.toCopied.write ok h.mem hx.2 v with
    mem := h.mem, slots := ?_, once := (nodup_cons.1 h.once).2, waiting := ?_,
    queue := h.queue }
  · intro j hj
    have hslot := h.slots j (mem_cons_of_mem _ hj)
    have : i.toNat ≠ j.toNat := fun he =>
      (List.nodup_cons.1 h.once).1 (UInt32.toNat_inj.1 he ▸ hj)
    refine ⟨hslot.1, Eq.trans ?_ hslot.2⟩
    exact peekWord_pokeWord_ne _ (by omega) (by omega) (by omega)
  intro q hq
  obtain ⟨hmade, hunread⟩ := h.waiting q hq
  refine ⟨hmade, fun x hxq => Eq.trans ?_ (hunread x hxq)⟩
  have := h.slot_le ok hmade hxq
  have : p.stop = p.oop.toNat + p.cell.body := rfl
  have : p.start = p.oop.toNat - p.cell.head := rfl
  have : q.stop = q.oop.toNat + q.cell.body := rfl
  have : q.start = q.oop.toNat - q.cell.head := rfl
  refine peekWord_pokeWord_apart _ ?_
  rcases h.shrunk.apart p q h.mem hmade with rfl | hap | hap
  · exact absurd hq (nodup_cons.1 h.queue).1
  · omega
  · omega

lemma add (ok : M.Ok s gs) (h : Reading M s gs p l made ps left u)
    (hq : Adds M s gs made u q left' t) : Reading M s gs p l (q :: made) (q :: ps) left' t := by
  have hnew : q ∉ made := fun hm =>
    (nodup_cons.1 hq.distinct).1 (mem_map_of_mem hm)
  refine { hq with mem := mem_cons_of_mem _ h.mem, slots := ?_, once := h.once,
                   waiting := ?_, queue := ?_ }
  · intro i hi
    obtain ⟨hslot, hword⟩ := h.slots i hi
    exact ⟨hslot, (hq.old p h.mem _ (h.slot_le ok h.mem hslot).2).trans hword⟩
  · intro r hr
    rcases mem_cons.1 hr with rfl | hr
    · refine ⟨mem_cons_self .., fun x hx => hq.new x ?_⟩
      exact (hq.slot_le ok (mem_cons_self ..) hx).2
    · obtain ⟨hmade, hunread⟩ := h.waiting r hr
      exact ⟨mem_cons_of_mem _ hmade, fun x hx =>
        (hq.old r hmade x (h.slot_le ok hmade hx).2).trans (hunread x hx)⟩
  · have hqueue := nodup_cons.1 h.queue
    refine nodup_cons.2 ⟨?_, nodup_cons.2 ⟨?_, hqueue.2⟩⟩
    · intro hm
      rcases mem_cons.1 hm with rfl | hm
      · exact hnew h.mem
      · exact hqueue.1 hm
    · exact fun hm => hnew (h.waiting q hm).1

end Reading

lemma Copied.away_or (ok : M.Ok s gs) (hu : M.Copied s gs made left u) (hc : c ∈ M.cells) :
    (∃ e : UInt32, Header.Holds u.mem c.oop (e + 2) c.count ∧ e.toNat % 4 = 0) ∨
      (M.gone c = none ∧ ∀ p ∈ made, p.cell ≠ c) := by
  cases hg : M.gone c with
  | some e => exact .inl ⟨e, hu.gone c e hc hg, (ok.gone c e hc hg).2⟩
  | none =>
    by_cases hm : ∃ p ∈ made, p.cell = c
    · obtain ⟨p, hp, rfl⟩ := hm
      exact .inl ⟨p.oop, hu.leads p hp, (hu.header p hp).aligned⟩
    · exact .inr ⟨rfl, fun p hp he => hm ⟨p, hp, he⟩⟩

lemma toNat_forward {e : UInt32} (h : e.toNat % 4 = 0) : (e + 2).toNat = e.toNat + 2 := by
  have := e.toNat_lt
  exact toNat_plus (by
    show e.toNat + 2 < 4294967296
    omega)

lemma needsCopy_outside (ordered : u.Ordered) (h : w = 0 ∨ ¬ u.ram.Has w) :
    needsCopy w u = .ok false := by
  rw [needsCopy]
  by_cases h0 : w = 0
  · rw [h0]
    rfl
  · have hb := beq_eq_false_iff_ne.2 h0
    have hr := h.resolve_left h0
    rw [hb, if_neg Bool.false_ne_true, bind_ok (inRam_eq ordered.ram w), decide_eq_false hr]
    rfl

lemma needsCopy_inside (ordered : u.Ordered) (h0 : w ≠ 0) (hr : u.ram.Has w)
    {low count : UInt32} (hh : Header.Holds u.mem w low count) :
    needsCopy w u = .ok (!(low.toNat % 4 == 2)) := by
  have hb := beq_eq_false_iff_ne.2 h0
  rw [needsCopy, hb, if_neg Bool.false_ne_true, bind_ok (inRam_eq ordered.ram w),
    decide_eq_true hr, if_pos rfl]
  exact bind_ok hh.isForwarded

/-- Copying stopped at an object that cannot have a copy, with the copies made by then. -/
def Broken (M : Migration) (s : Store) (gs : List Gap) (made : List Copy) (f : Fault) (t : Store) :
    Prop :=
  (∃ o n, f = .fatal (.classNotPersistable o n)) ∧
    ∃ new left, M.Copied s gs (new ++ made) left t

lemma Broken.mono (new : List Copy) {f : Fault} (h : Broken M s gs (new ++ made) f t) :
    Broken M s gs made f t := by
  obtain ⟨hf, more, left, hu⟩ := h
  exact ⟨hf, more ++ new, left, (append_assoc ..).symm ▸ hu⟩

/-- The references of a copy have been read, or memory has run out. -/
def Visited (M : Migration) (s : Store) (gs : List Gap) (p : Copy) (made ps : List Copy) :
    Option (List UInt32) → Store → Prop
  | none, t => ∃ new left, M.Copied s gs (new ++ made) left t
  | some pending, t => ∃ new left, pending = (new ++ ps).map Copy.oop ∧
    Reading M s gs p [] (new ++ made) (new ++ ps) left t

lemma Visited.mono (new : List Copy) {ps : List Copy} {r : Option (List UInt32)}
    (h : Visited M s gs p (new ++ made) (new ++ ps) r t) :
    Visited M s gs p made ps r t := by
  cases r with
  | none =>
    obtain ⟨more, left, hu⟩ := h
    exact ⟨more ++ new, left, (append_assoc ..).symm ▸ hu⟩
  | some pending =>
    obtain ⟨more, left, he, hu⟩ := h
    refine ⟨more ++ new, left, ?_, ?_⟩
    · rw [append_assoc]
      exact he
    · rw [append_assoc, append_assoc]
      exact hu

lemma Copied.setLog (hu : M.Copied s gs made left u) (log : Log) :
    M.Copied s gs made left (u.setLog log) :=
  { hu with same := hu.same.trans ⟨rfl, rfl, rfl, rfl, rfl, rfl⟩, listed := hu.listed.setLog log }

lemma copyReferences_stops (ok : M.Ok s gs) : (l : List UInt32) → {made ps : List Copy} →
    {left : List Gap} → {u : Store} → Reading M s gs p l made ps left u →
    Stops (copyReferences p.oop l (ps.map Copy.oop)) u (Visited M s gs p made ps)
      (Broken M s gs made)
  | [], made, ps, left, u, h => .pure ⟨[], left, rfl, h⟩
  | i :: l, made, ps, left, u, h => by
    obtain ⟨hslot, hword⟩ := h.slots i (mem_cons_self ..)
    have := h.slot_le ok h.mem hslot
    have := h.inside ok h.mem
    have : p.stop = p.oop.toNat + p.cell.body := rfl
    have := h.listed.small
    have hordered := ok.ordered.same h.same
    have hram := h.same.ram
    have hpoints : Points p.oop i.toInt32 (p.oop.toNat + 4 * i.toNat) :=
      .nat (by omega) rfl (by omega)
    have hread : word p.oop i.toInt32 u.mem = .ok (p.cell.words s.mem (4 * i.toNat)) := by
      rw [← hword]
      exact word_eq hpoints (by omega)
    refine .read_bind hread ?_
    generalize hw : p.cell.words s.mem (4 * i.toNat) = w
    by_cases hout : w = 0 ∨ ¬ u.ram.Has w
    · refine .query_bind (needsCopy_outside hordered hout) ?_
      by_cases h0 : w = 0
      · rw [h0]
        exact copyReferences_stops ok l h.tail
      · rw [if_pos (bne_iff_ne.2 h0)]
        refine .query_bind (inRam_eq hordered.ram w) ?_
        rw [decide_eq_false (hout.resolve_left h0), if_neg Bool.false_ne_true]
        exact copyReferences_stops ok l h.tail
    rw [not_or, not_not] at hout
    obtain ⟨h0, hr⟩ := hout
    obtain ⟨d, hd, rfl⟩ : ∃ d ∈ M.cells, d.oop = w := by
      rw [← hw] at hr ⊢
      exact ok.legal p.cell (h.source p h.mem).1 _ hslot (hram ▸ hr)
    have hwrite : ∀ v {t : Store}, t.mem.size = u.mem.size →
        setWord p.oop i.toInt32 v t.mem =
          .ok () (t.mem.pokeWord (p.oop.toNat + 4 * i.toNat) v) :=
      fun v t ht => setWord_eq hpoints (by omega)
    rcases h.away_or ok hd with ⟨e, he, h4⟩ | ⟨hg, hn⟩
    · have h2 : (e + 2).toNat % 4 = 2 := by
        rw [toNat_forward h4]
        omega
      refine .query_bind (needsCopy_inside hordered h0 hr he) ?_
      rw [h2, if_neg (by decide), if_pos (bne_iff_ne.2 h0)]
      refine .query_bind (inRam_eq hordered.ram d.oop) ?_
      rw [decide_eq_true hr, if_pos rfl]
      exact .read_bind (he.forwardTarget h2) (.edit_bind (hwrite _ rfl)
        (copyReferences_stops ok l (h.write ok _)))
    refine .query_bind (needsCopy_inside hordered h0 hr (h.rest d hd hg hn)) ?_
    rw [(ok.typed d hd).kind_aligned, if_pos (by decide)]
    refine .bind ((h.copyObject_stops ok hd hg hn).mono (fun _ _ hc => hc) fun f t hf => ?_)
      fun copy t ht => ?_
    · obtain ⟨-, ⟨n, hf⟩, log, rfl⟩ := hf
      exact ⟨⟨_, n, hf⟩, [], left, h.setLog log⟩
    obtain ⟨-, ⟨rfl, rfl, -⟩ | ⟨left', ht⟩⟩ := ht
    · exact .pure ⟨[], left, h.toCopied⟩
    rw [beq_eq_false_iff_ne.2 ht.ne_zero, if_neg Bool.false_ne_true]
    refine .edit_bind (hwrite _ (ht.agrees.size.trans h.agrees.size.symm)) ?_
    have hnext := (h.add ok ht).write ok copy
    exact (copyReferences_stops ok l hnext).mono (fun _ _ => Visited.mono [_])
      fun _ _ => Broken.mono [_]

/-! ### The graph -/

lemma mappedWords_eq {map : UInt32} {m : Memory} {refs : Nat → Bool} : (n : Nat) → (i : UInt32) →
    i.toNat + n < 4294967296 →
    (∀ j : UInt32, i.toNat ≤ j.toNat → j.toNat < i.toNat + n →
      Class.mapBit map j m = .ok (refs j.toNat)) →
    ∃ l, mappedWords map n i m = .ok l ∧ l.Nodup ∧
      ∀ j ∈ l, i.toNat ≤ j.toNat ∧ j.toNat < i.toNat + n ∧ refs j.toNat = true
  | 0, i, _, _ => ⟨[], rfl, .nil, fun _ hj => absurd hj not_mem_nil⟩
  | n + 1, i, hlt, h => by
    have : (i + 1).toNat = i.toNat + 1 := toNat_plus (by
      show i.toNat + 1 < 4294967296
      omega)
    obtain ⟨l, hl, hnodup, hin⟩ := mappedWords_eq n (i + 1) (by omega) fun j h1 h2 =>
      h j (by omega) (by omega)
    have hbit := h i (Nat.le_refl _) (by omega)
    rw [mappedWords, Read.bind_ok hbit, Read.bind_ok hl]
    cases hr : refs i.toNat with
    | false =>
      refine ⟨l, rfl, hnodup, fun j hj => ?_⟩
      have := hin j hj
      exact ⟨by omega, by omega, this.2.2⟩
    | true =>
      refine ⟨i :: l, rfl, nodup_cons.2 ⟨fun hi => ?_, hnodup⟩, fun j hj => ?_⟩
      · have := (hin i hi).1
        omega
      · rcases mem_cons.1 hj with rfl | hj
        · exact ⟨Nat.le_refl _, by omega, hr⟩
        · have := hin j hj
          exact ⟨by omega, by omega, this.2.2⟩

lemma Copied.referenceWords_ends (ok : M.Ok s gs) (hu : M.Copied s gs made left u)
    (hp : p ∈ made) :
    Ends (referenceWords p.oop p.cell.kind) u fun l t => t = u ∧ l.Nodup ∧
      ∀ i ∈ l, p.cell.Slot (4 * i.toNat) := by
  have hc := (hu.source p hp).1
  have hcan := hu.persistable p hp
  have hfixed := ok.fixed_of hu.agrees
  have htyped := ok.typed p.cell hc
  have hshape : Shape.of p.oop p.cell.kind u.mem = .ok p.cell.shape :=
    htyped.shape u.mem p.oop p.cell.kind hfixed (hu.header p hp) fun k hk => absurd hk (hcan.2 k)
  have hslots := htyped.slots u.mem hfixed
  have hslot : ∀ i < p.cell.slots, p.cell.refs i = true → p.cell.Slot (4 * i) := by
    intro i hi hr
    rw [Cell.Slot, if_neg hcan.1]
    exact ⟨i, hi, hr, rfl⟩
  refine .read_bind hshape ?_
  rw [Cell.SlotsRead] at hslots
  cases hs : p.cell.shape with
  | stackChunk => exact absurd hs hcan.1
  | classState n => exact absurd hs (hcan.2 n)
  | primitive => exact .pure ⟨rfl, .nil, fun _ hi => absurd hi not_mem_nil⟩
  | references n =>
    rw [hs] at hslots
    have := n.toNat_lt
    have hnat : ∀ i < n.toNat, i.toUInt32.toNat = i := fun i hi =>
      UInt32.toNat_ofNat_of_lt' (by
        show i < 4294967296
        omega)
    refine .pure ⟨rfl, ?_, fun i hi => ?_⟩
    · refine pairwise_map.2 (nodup_range.imp_of_mem fun hi hj hne he => hne ?_)
      rw [← hnat _ (mem_range.1 hi), ← hnat _ (mem_range.1 hj), he]
    · obtain ⟨j, hj, rfl⟩ := mem_map.1 hi
      have hj := mem_range.1 hj
      rw [hnat j hj]
      exact hslot j (by omega) (hslots.2 j (by omega))
  | record map n =>
    rw [hs] at hslots
    have := n.toNat_lt
    obtain ⟨l, hl, hnodup, hin⟩ := @mappedWords_eq map u.mem p.cell.refs n.toNat 0
      (by rw [UInt32.toNat_zero]; omega) fun j _ hj =>
        hslots.2 j (UInt32.lt_iff_toNat_lt.2 (by rw [UInt32.toNat_zero] at hj; omega))
    refine .read hl ⟨rfl, hnodup, fun i hi => ?_⟩
    have := hin i hi
    rw [UInt32.toNat_zero] at this
    exact hslot _ (by omega) this.2.2

lemma copyPending_stops (ok : M.Ok s gs) : (fuel : Nat) → {made ps : List Copy} →
    {left : List Gap} → {u : Store} → M.Copied s gs made left u → ps.Nodup →
    (∀ q ∈ ps, q ∈ made ∧ Unread s u q) →
    Gap.total gs + ps.length < fuel + made.length →
    Stops (copyPending fuel (ps.map Copy.oop)) u
      (fun _ t => ∃ new left, M.Copied s gs (new ++ made) left t) (Broken M s gs made)
  | 0, made, ps, left, u, hu, _, _, hfuel => by
    have := hu.shrunk.total
    have := Copy.length_le_total made
    omega
  | _ + 1, made, [], left, u, hu, _, _, _ => .pure ⟨[], left, hu⟩
  | fuel + 1, made, p :: ps, left, u, hu, hnodup, hwait, hfuel => by
    obtain ⟨hp, hunread⟩ := hwait p (mem_cons_self ..)
    have htyped := ok.typed p.cell (hu.source p hp).1
    refine .read_bind ((hu.header p hp).classOf htyped.kind_aligned htyped.kind_ne)
      (.after (hu.referenceWords_ends ok hp) fun l t ht => ?_)
    obtain ⟨rfl, hl, hslots⟩ := ht
    have hreading : Reading M s gs p l made ps left t :=
      { hu with
        mem := hp
        slots := fun i hi => ⟨hslots i hi, hunread _ (hslots i hi)⟩
        once := hl
        waiting := fun q hq => hwait q (mem_cons_of_mem _ hq)
        queue := hnodup }
    refine .bind (copyReferences_stops ok l hreading) fun r v hv => ?_
    cases r with
    | none => exact .pure hv
    | some pending =>
      obtain ⟨new, left', rfl, hnext⟩ := hv
      rw [length_cons] at hfuel
      refine (copyPending_stops ok fuel hnext.toCopied (nodup_cons.1 hnext.queue).2
        hnext.waiting (by rw [length_append, length_append]; omega)).mono ?_
        fun _ _ => Broken.mono new
      rintro _ w ⟨more, left, hw⟩
      exact ⟨more ++ new, left, (append_assoc ..).symm ▸ hw⟩

/-- The object has a copy as soon as it can have one and a gap has room for it. -/
def Fits (gs : List Gap) (c : Cell) : Prop :=
  c.Persistable ∧ ∃ g ∈ gs, c.size ≤ g.size.toNat

/-- The copies made of a graph: none if the object at its root does not fit. -/
def Made (M : Migration) (s : Store) (gs : List Gap) (c : Cell) (made : List Copy)
    (left : List Gap) (t : Store) : Prop :=
  M.Copied s gs made left t ∧ (made = [] → left = gs) ∧ (made = [] ↔ ¬ Fits gs c)

lemma Copied.made_cons {a : UInt32} {new : List Copy}
    (hu : M.Copied s gs (new ++ [⟨c, a⟩]) left u) : Made M s gs c (new ++ [⟨c, a⟩]) left u := by
  have hp : (⟨c, a⟩ : Copy) ∈ new ++ [⟨c, a⟩] := by simp
  refine ⟨hu, fun h => by simp at h, fun h => by simp at h, fun h => (h ?_).elim⟩
  obtain ⟨g, hg, hlow, hhigh⟩ := hu.shrunk.block _ hp
  refine ⟨hu.persistable _ hp, g, hg, ?_⟩
  have : g.block.toNat + c.head ≤ a.toNat := hlow
  have : a.toNat + c.body ≤ g.block.toNat + g.size.toNat := hhigh
  rw [Cell.size]
  omega

lemma Copied.copyGraph_stops (ok : M.Ok s gs) (hu : M.Copied s gs [] gs u) (hc : c ∈ M.cells)
    (hg : M.gone c = none) :
    Stops (copyGraph c.oop) u (fun _ t => ∃ made left, Made M s gs c made left t)
      (fun f t => (∃ o n, f = .fatal (.classNotPersistable o n)) ∧
        ∃ made left, Made M s gs c made left t) := by
  refine .bind ((hu.copyObject_stops ok hc hg fun _ hp => absurd hp not_mem_nil).mono
    (fun _ _ h => h) ?_) fun copy t ht => ?_
  · rintro f t ⟨hno, ⟨n, hf⟩, log, rfl⟩
    exact ⟨⟨_, n, hf⟩, [], gs, hu.setLog log, fun _ => rfl, fun _ hfits => hno hfits.1,
      fun _ => rfl⟩
  obtain ⟨-, ⟨rfl, rfl, hshort⟩ | ⟨left', ht⟩⟩ := ht
  · refine .pure ⟨[], gs, hu, fun _ => rfl, fun _ hfits => ?_, fun _ => rfl⟩
    obtain ⟨-, g, hgs, hle⟩ := hfits
    have := hshort g hgs
    omega
  have := ok.listed.chained.total_le
  have := ht.agrees.size
  have hstart : Stops (copyPending (t.mem.size + 1) ([(⟨c, copy⟩ : Copy)].map Copy.oop)) t _ _ :=
    copyPending_stops ok (t.mem.size + 1) ht.toCopied
      (nodup_cons.2 ⟨not_mem_nil, .nil⟩) ?_ ?_
  · rw [beq_eq_false_iff_ne.2 ht.ne_zero, if_neg Bool.false_ne_true]
    refine .read_bind (walkBound_eq _) (.bind (hstart.mono (fun _ _ h => h) ?_) ?_)
    · rintro f v ⟨hf, new, left, hv⟩
      exact ⟨hf, _, _, hv.made_cons⟩
    · rintro b v ⟨new, left, hv⟩
      cases b with
      | true => exact .pure ⟨_, _, hv.made_cons⟩
      | false => exact .pure ⟨_, _, hv.made_cons⟩
  · intro q hq
    obtain rfl := mem_singleton.1 hq
    refine ⟨mem_singleton_self _, fun x hx => ht.new x ?_⟩
    exact (ht.slot_le ok (mem_cons_self ..) hx).2
  · omega

end Migration

end DeviceVm.Persistent
