import DeviceVm.Collection.Sliding.Basic
import DeviceVm.Proofs.Sliding.Moving

/-!
Compaction of a space. A pass moves every live object down as far as the forwarding words allow;
if one is held back, the end of the objects drops by that distance, so that passes come to an end.
Behind the last pass the live objects lie one behind the other, which leaves them one way to lie.
-/

namespace DeviceVm.Sliding

open List Memory UInt32 Cell Store Word Layout

variable {S : Scene} {C : Classes} {s t u : Store} {L : List Cell} {tgt : UInt32 → UInt32}
  {f : Forwarding} {stop v : UInt32} {c d : Cell} {b : Nat}

namespace Scene.Heap

section

variable (h : S.Heap s C) (hf : f.Fits (Classes.total C.suites))
include h hf

lemma shift (hl : ∀ c, c ∈ L ↔ S.Live s c)
    (hs : Spread S.space.start.toNat L S.space.stop.toNat)
    (hstop : stop.toNat = settle f.maxDelta.toNat S.space.start.toNat L) :
    S.Shift s L (aim f.maxDelta.toNat S.space.start.toNat L) stop := by
  have cells : ∀ d ∈ L, d.oop.toNat % 4 = 0 ∧ d.body % 4 = 0 := by
    intro d hd
    have hlive := (hl d).1 hd
    exact ⟨h.aligned hlive.mem, (h.typed d (.inl hlive)).body_aligned⟩
  constructor
  case live => exact hl
  case spread => exact hs
  case moved =>
    rw [hstop]
    exact spread_moved hs fun c _ => ⟨rfl, rfl, rfl⟩
  case outside =>
    intro v hv
    refine aim_ne fun c hc he => hv ?_
    rw [← he]
    exact h.ok.has_cell ((hl c).1 hc).mem
  case down => exact fun c hc => (aim_bounds hs hc).2.1
  case aligned => exact fun c hc => aim_aligned hs hc hf.aligned h.ok.start_aligned cells
  case stop_aligned =>
    rw [hstop]
    exact settle_aligned hs hf.aligned h.ok.start_aligned cells
  case stop_le =>
    rw [hstop]
    exact settle_le hs

lemma begun (hs : Spread S.space.start.toNat L S.space.stop.toNat)
    (sh : S.Shift s L (aim f.maxDelta.toNat S.space.start.toNat L) stop) (ht : S.Ready s L t)
    (hu : t.Scans u) (hidle : u.bits.scan.active = false)
    (hfw : Forwarded C f (aim f.maxDelta.toNat S.space.start.toNat L) t.mem L u.mem) :
    S.Begun s L (aim f.maxDelta.toNat S.space.start.toNat L) C f stop u := by
  have := h.ok.bounds
  have := h.ok.last
  have hbits : Agrees s.bits.range.covers t.mem u.mem := by
    refine hfw.agrees.mono fun b hb c hc hin => ?_
    have := hs.high hc
    have := h.ok.bitmap b hb
    omega
  have holds : ∀ a, s.bits.range.Spans a →
      s.bits.range.holds u.mem a = s.bits.range.holds t.mem a := fun a ha =>
    BitRange.holds_congr hbits.order fun i hi =>
      hbits.peek _ (BitRange.Mapped.covers_word ha hi)
  constructor
  case aimed =>
    constructor
    case heap => exact h
    case shift => exact sh
    case fits => exact hf
    case near => exact fun c hc => (aim_bounds hs hc).2.2.1
    case agrees =>
      exact (ht.agrees.mono fun b hb => hb.1).trans (hfw.agrees.mono fun b hb => hb.2)
    case header => exact hfw.header
    case marks =>
      intro a h4 hlo hhi
      rw [holds a ⟨h4, by omega, by omega⟩]
      exact ht.marks a h4 hlo hhi
    case bits =>
      intro a h4 hlo hhi
      rw [holds a ⟨h4, by omega, by omega⟩]
      exact ht.bits a h4 hlo hhi
  case kin => exact ht.kin.trans (.of_scans hu)
  case range => exact hu.range.trans ht.range
  case idle => exact hidle
  case unused => rw [hu.marks]; exact ht.unused

lemma pass_ends (hl : ∀ c, c ∈ L ↔ S.Live s c)
    (hs : Spread S.space.start.toNat L S.space.stop.toNat) {α : Type}
    {rest : Bool → UInt32 → Run α} {post : α → Store → Prop}
    (hrest : ∀ free t, free.toNat = settle f.maxDelta.toNat S.space.start.toNat L →
      S.Shift s L (aim f.maxDelta.toNat S.space.start.toNat L) free →
      S.Moved s L (aim f.maxDelta.toNat S.space.start.toNat L) t → Sized s free t →
      Ends (rest (held f.maxDelta.toNat S.space.start.toNat L) free) t post) :
    Ends (do
      mark S.space
      let hole ← assignTargets f S.space
      redirectAll f S.space
      let free ← moveAll f S.space
      rest hole free) s post := by
  have hlt : settle f.maxDelta.toNat S.space.start.toNat L < 4294967296 :=
    Nat.lt_of_le_of_lt (settle_le hs) S.space.stop.toNat_lt
  have sh := h.shift hf hl hs (toNat_ofNat_of_lt' hlt)
  refine .bind (h.mark_ends hl) ?_
  intro _ t ht
  refine .bind (h.assignTargets_ends hf hl hs ht) ?_
  rintro _ u ⟨hu, hidle, rfl, hfw⟩
  have hb := h.begun hf hs sh ht hu hidle hfw
  refine .bind hb.redirectAll_ends ?_
  rintro _ v ⟨hv, hvidle, hturned⟩
  refine .bind (hb.moveAll_ends rfl hv hvidle hturned) ?_
  rintro free w ⟨hfree, hmoved, hsized⟩
  exact hrest free w hfree (h.shift hf hl hs hfree) hmoved hsized

end

end Scene.Heap

/-- The live objects lie one behind the other, and the partition has its bounds. -/
structure Scene.Packed (S : Scene) (s : Store) (L : List Cell) (tgt : UInt32 → UInt32)
    (free : UInt32) (t : Store) : Prop where
  shift : S.Shift s L tgt free
  moved : S.Moved s L tgt t
  tiles : Tiles S.space.start.toNat (L.map (·.relocate tgt)) free.toNat
  sized : Sized s free t

namespace Scene.Moved

lemma sized (m : S.Moved s L tgt t) {free : UInt32} (h : Sized t free u) : Sized s free u where
  free_eq := h.free_eq
  end_eq := by
    have h5 := m.record 5 (by omega) (by omega) (by omega)
    rw [h.end_eq, m.high_eq, h5, m.kin.idealYoung]

end Scene.Moved

namespace Scene.Heap

lemma compactWithin_ends (h : S.Heap s C) (hf : f.Fits (Classes.total C.suites))
    (sh : S.Shift s L tgt stop) (m : S.Moved s L tgt t) {last : Option UInt32}
    (hlast : ∀ l, last = some l → stop.toNat ≤ l.toNat) {fuel : Nat} (hfuel : stop.toNat < fuel) :
    Ends (compactWithin f S.space.start fuel stop last) t fun _ u =>
      ∃ tgt' free, S.Packed s L tgt' free u := by
  induction fuel generalizing t tgt stop last with
  | zero => omega
  | succ fuel ih =>
    refine .modify_bind ?_
    generalize hw : ({ t with sliding := { t.sliding with passes := t.sliding.passes + 1 } } :
      Store) = w
    have mw : S.Moved s L tgt w := by
      refine m.touch ?_ ?_ ?_ ?_ <;> rw [← hw]
      rfl
    have hheap := mw.heap h sh
    have hlive : ∀ c, c ∈ L.map (·.relocate tgt) ↔ (S.relocate L tgt stop).Live w c := by
      refine fun c => ⟨fun hc => ?_, fun hc => hc.mem⟩
      obtain ⟨d, hd, rfl⟩ := mem_map.1 hc
      exact mw.live h sh ((sh.live d).1 hd)
    have hspread := sh.moved
    refine hheap.pass_ends hf hlive hspread ?_
    intro free u hfree sh' m' hsized
    have shc := sh.trans sh'
    have mc := Moved.trans h sh mw m'
    split
    case isTrue hh =>
      -- An object was held back, so that the end of the objects has dropped.
      have : free.toNat + f.maxDelta.toNat ≤ stop.toNat := by
        rw [hfree]
        exact settle_held hspread hh
      have := hf.positive
      have hprogress : ¬ last.any (· ≤ free) = true := by
        rw [Option.any_eq_true]
        rintro ⟨l, hl, hle⟩
        have := hlast l hl
        have := le_iff_toNat_le.1 (of_decide_eq_true hle)
        omega
      rw [if_neg hprogress]
      refine .say_bind fun log => ?_
      have hlog : Kin u (u.setLog log) := rfl
      refine ih shc (mc.touch hlog rfl rfl rfl) ?_ (by omega)
      intro l hl
      rw [Option.some.inj hl]
    case isFalse hh =>
      have htiles := tiles_moved hspread (Bool.eq_false_iff.2 hh) (g := (·.relocate
        (aim f.maxDelta.toNat S.space.start.toNat (L.map (·.relocate tgt)))))
        fun c _ => ⟨rfl, rfl, rfl⟩
      rw [map_map] at htiles
      refine .pure ⟨_, free, shc, mc, ?_, mw.sized hsized⟩
      rw [hfree]
      refine cast (congrArg (fun l => Tiles _ l _) (map_congr_left fun c _ => ?_)) htiles
      exact relocate_relocate

lemma compact_ends (h : S.Heap s C) (hf : f.Fits (Classes.total C.suites))
    (hl : ∀ c, c ∈ L ↔ S.Live s c) (hs : Spread S.space.start.toNat L S.space.stop.toNat)
    (hk : Kin s t) (hm : t.mem = s.mem) (hb : t.bits = s.bits) (hu : t.marks = s.marks) :
    Ends (compact f S.space) t fun _ u => ∃ tgt free, S.Packed s L tgt free u := by
  refine .read_bind (walkBound_eq _) ?_
  have hmoved : S.Moved s L id s := .refl h fun c hc => ((hl c).1 hc).mem
  refine h.compactWithin_ends hf (.refl h hl hs) (hmoved.touch hk hm hb hu)
    (fun l hl => by cases hl) ?_
  have := h.ok.bounds
  rw [hm]
  omega

end Scene.Heap

/-! ### One way to lie -/

lemma tiles_unique {tgt' : UInt32 → UInt32} {a b' : Nat}
    (h : Tiles a (L.map (·.relocate tgt)) b) (h' : Tiles a (L.map (·.relocate tgt')) b')
    (hc : c ∈ L) : tgt c.oop = tgt' c.oop := by
  induction L generalizing a with
  | nil => cases hc
  | cons d L ih =>
    rcases mem_cons.1 hc with rfl | hc
    · exact UInt32.toNat_inj.1 (h.1.trans h'.1.symm)
    · exact ih h.2 h'.2 hc

namespace Scene.Packed

variable {tgt' : UInt32 → UInt32} {free free' : UInt32}

lemma free_eq (p : S.Packed s L tgt free t) :
    free.toNat = S.space.start.toNat + total L := by
  have h := p.tiles.total_eq
  have ht : ∀ l : List Cell, total (l.map (·.relocate tgt)) = total l := by
    intro l
    induction l with
    | nil => rfl
    | cons c l ih => rw [map_cons, total_cons, total_cons, ih, relocate_size]
  rw [h, ht]

section

variable (h : S.Heap s C) (p : S.Packed s L tgt free t) (p' : S.Packed s L tgt' free' u) {b : Nat}
include h p p'

lemma unique (hv : S.Refers s v) : tgt v = tgt' v := by
  by_cases hin : S.space.has v = true
  · rcases hv.1 with rfl | hn | ⟨c, hc, rfl⟩
    · rw [p.shift.zero, p'.shift.zero]
    · exact absurd (h.ok.has_ram hin) hn
    · have hl := (p.shift.live c).2 (hv.2 c (h.ok.cell_of_has hc hin) rfl)
      exact tiles_unique p.tiles p'.tiles hl
  · rw [p.shift.outside v hin, p'.shift.outside v hin]

lemma words_eq (hc : S.Live s c ∨ c ∈ S.chunks) {x : Nat} (hx : x % 4 = 0) (hb : x + 4 ≤ c.body) :
    tgt c.oop = tgt' c.oop ∧
      t.mem.peekWord ((tgt c.oop).toNat + x) = u.mem.peekWord ((tgt c.oop).toNat + x) := by
  have ho : tgt c.oop = tgt' c.oop := by
    have live : c ∈ L → tgt c.oop = tgt' c.oop := tiles_unique p.tiles p'.tiles
    rcases hc with hc | hc
    · exact live ((p.shift.live c).2 hc)
    · rcases p.shift.chunk_cases h hc with hl | ⟨hm, he⟩
      · exact live hl
      · rw [he, p'.shift.other h.ok hm]
  refine ⟨ho, ?_⟩
  have h1 := (p.moved.landed h p.shift hc).arrived x hx hb
  have h2 := (p'.moved.landed h p'.shift hc).arrived x hx hb
  have himage : c.image tgt s.mem x = c.image tgt' s.mem x :=
    image_congr hx (h.framed hc) ho fun y hy => p.unique h p' (h.slot_refers hc hy)
  rw [← himage] at h2
  have h3 : u.mem.peekWord ((tgt' c.oop).toNat + x) = c.image tgt s.mem x := h2
  rw [← ho] at h3
  exact h1.trans h3.symm

lemma body_eq (hc : S.Live s c ∨ c ∈ S.chunks) (hlo : (tgt c.oop).toNat ≤ b)
    (hhi : b < (tgt c.oop).toNat + c.body) : t.mem.peek b = u.mem.peek b := by
  have := (h.typed c hc).body_aligned
  have ho := p.moved.fixed.order.trans p'.moved.fixed.order.symm
  have hw := (p.words_eq h p' hc (x := (b - (tgt c.oop).toNat) / 4 * 4) (by omega)
    (by omega)).2
  have := peek_of_peekWord ho hw (i := (b - (tgt c.oop).toNat) % 4) (by omega)
  rwa [show (tgt c.oop).toNat + (b - (tgt c.oop).toNat) / 4 * 4 + (b - (tgt c.oop).toNat) % 4 = b
    by omega] at this

lemma bytes_eq (hlo : low s ≤ b) (hhi : b < free.toNat) :
    t.mem.peek b = u.mem.peek b := by
  have ho := p.moved.fixed.order.trans p'.moved.fixed.order.symm
  by_cases hb : b < S.space.start.toNat
  · by_cases hf : S.Fixed s b
    · rw [p.moved.fixed.peek b hf, p'.moved.fixed.peek b hf]
    by_cases ha : ∃ a, S.Field s a ∧ a ≤ b ∧ b < a + 4
    · obtain ⟨a, ha, hin⟩ := ha
      have hw : t.mem.peekWord a = u.mem.peekWord a := by
        rw [p.moved.field a ha, p'.moved.field a ha]
        exact p.unique h p' (h.field_refers ha)
      have := peek_of_peekWord ho hw (i := b - a) (by omega)
      rwa [show a + (b - a) = b by omega] at this
    -- A byte that is written and is no recorded store is one of a chunk.
    obtain ⟨c, hc, hin⟩ : ∃ c ∈ S.chunks, c.oop.toNat ≤ b ∧ b < c.stop := by
      by_contra hn
      refine hf ⟨fun hin => ?_, fun hin => ?_, fun hin => ?_, fun a hfa hin => ?_,
        fun c hc hin => ?_⟩
      · have := h.ok.record_low
        omega
      · omega
      · have := h.ok.bitmap b hin
        have := h.ok.bounds
        omega
      · exact ha ⟨a, hfa, hin⟩
      · exact hn ⟨c, hc, hin⟩
    have he : tgt c.oop = c.oop := by
      rcases p.shift.chunk_cases h hc with hl | ⟨_, he⟩
      · have := p.shift.spread.low hl
        omega
      · exact he
    rw [stop] at hin
    exact p.body_eq h p' (.inr hc) (by rw [he]; omega) (by rw [he]; omega)
  · obtain ⟨c', hc', hlo', hhi'⟩ := p.tiles.cover (by omega) hhi
    obtain ⟨c, hc, rfl⟩ := mem_map.1 hc'
    have hlive := (p.shift.live c).1 hc
    have hlo'' := hlo'
    have hhi'' := hhi'
    by_cases hbody : (tgt c.oop).toNat ≤ b
    · exact p.body_eq h p' (.inl hlive) hbody hhi''
    · have h1 := p.moved.header c hc
      have h2 := p'.moved.header c hc
      rw [← tiles_unique p.tiles p'.tiles hc] at h2
      exact h2.peek_eq h1 ho hlo'' (by omega)

lemma recorded_eq {j : Nat} (hj : j < 16) : t.recorded j = u.recorded j := by
  have hfree : free = free' := UInt32.toNat_inj.1 (p.free_eq.trans p'.free_eq.symm)
  by_cases h8 : 8 ≤ j
  · obtain ⟨k, rfl⟩ : ∃ k, j = k + 8 := ⟨j - 8, by omega⟩
    rw [p.moved.root k (by omega), p'.moved.root k (by omega)]
    exact p.unique h p' (h.root_refers (by omega))
  by_cases h3 : j = 3
  · rw [h3, p.sized.free_eq, p'.sized.free_eq, hfree]
  by_cases h4 : j = 4
  · apply UInt32.toNat_inj.mp
    rw [h4, p.sized.end_eq, p'.sized.end_eq, hfree]
  · rw [p.moved.record j (by omega) h3 h4, p'.moved.record j (by omega) h3 h4]

end

end Scene.Packed

/-! ### Any limit -/

open Classical in

/-- The objects that are found, in the order of their addresses. -/
noncomputable def Scene.survivors (S : Scene) (s : Store) : List Cell :=
  S.cells.filter fun c => S.Live s c

lemma Scene.mem_survivors : c ∈ S.survivors s ↔ S.Live s c := by
  simp only [survivors, mem_filter, decide_eq_true_eq]
  exact ⟨fun h => h.2, fun h => ⟨h.mem, h⟩⟩

/-- The store with no limit on how far objects move in a pass, or with one that was accepted. -/
inductive Limited (s : Store) : Store → Prop
  | never : Limited s { s with sliding := { s.sliding with deltaLimit := none } }
  | accepted {limit : UInt32} {t : Store} (h : limitDelta limit s = .ok () t) : Limited s t

lemma limitDelta_eq {limit : UInt32} (h : limitDelta limit s = .ok () t) :
    (4 ≤ limit.toNat ∧ limit.toNat % 4 = 0) ∧
      t = { s with sliding := { s.sliding with deltaLimit := some limit } } := by
  have hrun : limitDelta limit s = if (limit ≥ 4 && limit % 4 == 0) = true then
      .ok () { s with sliding := { s.sliding with deltaLimit := some limit } }
    else .error .broken s := by
    rw [limitDelta]
    by_cases hc : (limit ≥ 4 && limit % 4 == 0) = true
    · simp only [hc]
      rfl
    · simp only [hc]
      rfl
  rw [hrun] at h
  split at h
  case isTrue hc =>
    rw [Bool.and_eq_true, decide_eq_true_eq, beq_iff_eq] at hc
    refine ⟨⟨le_iff_toNat_le.1 hc.1, ?_⟩, ?_⟩
    · have := congrArg toNat hc.2
      rwa [UInt32.toNat_mod] at this
    · injection h with _ h
      exact h.symm
  case isFalse => cases h

lemma Limited.kin (h : Limited s t) : Forwarding.Accepted t.sliding.deltaLimit ∧
    Kin s t ∧ t.mem = s.mem ∧ t.bits = s.bits ∧ t.marks = s.marks := by
  cases h with
  | never => exact ⟨fun l hl => (nomatch hl), rfl, rfl, rfl, rfl⟩
  | accepted h =>
    obtain ⟨hl, rfl⟩ := limitDelta_eq h
    refine ⟨fun l he => ?_, rfl, rfl, rfl, rfl⟩
    cases he
    exact hl

lemma Scene.Heap.packed_ends (h : S.Heap s C) (hl : Limited s t) :
    Ends (do compact (← Forwarding.ofClasses) S.space) t fun _ u =>
      ∃ tgt free, S.Packed s (S.survivors s) tgt free u := by
  obtain ⟨hacc, hk, hm, hb, hu⟩ := hl.kin
  have hreads : C.Reads t := h.classes t hk.rom hk.eeprom (hm ▸ .refl _)
  refine .bind (Forwarding.ofClasses_ends hreads
    (hreads.total_le (hm ▸ h.ok.recorded.small)) hacc) ?_
  rintro f _ ⟨hf, log, rfl⟩
  have hlog : Kin t (t.setLog log) := rfl
  refine h.compact_ends hf (fun c => mem_survivors) ?_ (hk.trans hlog) hm hb hu
  exact h.ok.spread.sublist filter_sublist

/-- Compaction packs the survivors of every heap, whatever limit there is on how far objects move
in one pass, and the limit makes no difference to what it leaves. -/
theorem compaction_packs_survivors (h : S.Heap s C) {s₁ s₂ : Store} (h₁ : Limited s s₁)
    (h₂ : Limited s s₂) :
    ∃ t₁ t₂ tgt free,
      (do compact (← Forwarding.ofClasses) S.space) s₁ = .ok () t₁ ∧
      (do compact (← Forwarding.ofClasses) S.space) s₂ = .ok () t₂ ∧
      S.Packed s (S.survivors s) tgt free t₁ ∧
      free.toNat = S.space.start.toNat + Cell.total (S.survivors s) ∧
      (∀ b, low s ≤ b → b < free.toNat → t₁.mem.peek b = t₂.mem.peek b) ∧
      ∀ j, j < 16 → t₁.recorded j = t₂.recorded j := by
  obtain ⟨_, t₁, hr₁, tgt, free, p⟩ := h.packed_ends h₁
  obtain ⟨_, t₂, hr₂, tgt', free', p'⟩ := h.packed_ends h₂
  exact ⟨t₁, t₂, tgt, free, hr₁, hr₂, p, p.free_eq, fun b hlo hhi => p.bytes_eq h p' hlo hhi,
    fun j hj => p.recorded_eq h p' hj⟩

/-! ### A small store -/

def sampleClasses : Classes where
  table := 64
  suites := [some { oop := 72, classes := 80, members := (Sample.rom.drop 20).take 27 }]

lemma sampleClasses_suite {S : Suite} (hS : some S ∈ sampleClasses.suites) :
    S = { oop := 72, classes := 80, members := (Sample.rom.drop 20).take 27 } :=
  Option.some.inj (mem_singleton.1 hS)

lemma sampleClasses_member {j : Nat} {k : UInt32}
    (hj : ((Sample.rom.drop 20).take 27)[j]? = some k) : Sample.rom.getD (20 + j) 0 = k := by
  have hlt : j < 27 := (List.getElem?_eq_some_iff.1 hj).1
  rw [getElem?_take_of_lt hlt, getElem?_drop] at hj
  rw [getD_eq_getElem?_getD, hj, Option.getD_some]

open Sample in
lemma sampleClasses_reads (he : t.eeprom.start = 0)
    (h : Agrees Sample.fixed sampleStore.mem t.mem) : sampleClasses.Reads t := by
  constructor
  case table => exact suiteTable_eq he h
  case length =>
    have hh : Header.Holds t.mem 64 192 1 := holds_rom h (k := 16) (by decide) (by decide)
    exact hh.elementCount
  case length_lt => decide
  case suite =>
    intro i S hi
    have h0 : i.toNat = 0 := by
      have := (List.getElem?_eq_some_iff.1 hi).1
      exact Nat.lt_one_iff.1 this
    obtain rfl : i = 0 := UInt32.toNat_inj.1 h0
    obtain rfl := Option.some.inj hi
    exact word_rom h (k := 16) (by decide)
  case suite_ne =>
    intro S hS
    obtain rfl := sampleClasses_suite hS
    decide
  case classes =>
    intro S hS
    obtain rfl := sampleClasses_suite hS
    have hh : Header.Holds t.mem 80 192 27 := holds_rom h (k := 20) (by decide) (by decide)
    exact ⟨word_rom h (k := 18) (by decide),
      hh.elementCount⟩
  case short =>
    intro S hS
    obtain rfl := sampleClasses_suite hS
    decide
  case member =>
    intro S hS j k hj
    obtain rfl := sampleClasses_suite hS
    have hlt : j.toNat < 27 := (List.getElem?_eq_some_iff.1 hj).1
    rw [← sampleClasses_member hj]
    have hp : (80 : UInt32).toNat + 4 * j.toNat = 4 * (20 + j.toNat) := by
      show 80 + 4 * j.toNat = _
      omega
    exact word_rom h ⟨.nat (by omega) hp (by omega), by omega⟩
  case number =>
    intro i j k hk
    obtain ⟨⟨S, hi, hj⟩, hne⟩ := hk
    have h0 : i = 0 := Nat.lt_one_iff.1 (List.getElem?_eq_some_iff.1 hi).1
    obtain rfl := sampleClasses_suite (mem_of_getElem? hi)
    have hlt : j < 27 := (List.getElem?_eq_some_iff.1 hj).1
    have hcases : ∀ j < 27, rom.getD (20 + j) 0 ≠ 0 →
        (rom.getD (20 + j) 0).toNat % 4 = 0 ∧ (rom.getD (20 + j) 0).toNat < 464 ∧
          rom.getD ((rom.getD (20 + j) 0).toNat / 4) 0 = ofNat j ∧ 0 < j := by decide
    have hmem := sampleClasses_member hj
    have hc := hcases j hlt
    rw [hmem] at hc
    obtain ⟨h4, hn, hnum, hpos⟩ := hc hne
    rw [h0, Nat.mul_zero, Nat.zero_add, ← hnum]
    exact ⟨word_rom h ⟨.lit 0 rfl, by omega⟩, hpos⟩
  case few =>
    rw [h.size, sample_size]
    decide

lemma sample_fixed (hb : b < 464) : sampleScene.Fixed sampleStore b := by
  have : sampleStore.ram.start.toNat = 464 := rfl
  have : sampleScene.space.start.toNat = 536 := rfl
  refine ⟨fun h => by omega, fun h => by omega, fun h => ?_, fun a ha h => ?_, fun c hc h => ?_⟩
  · have : 688 ≤ b := h.1
    omega
  · have h1 := ha.low
    rw [sample_low] at h1
    omega
  · obtain rfl := mem_singleton.1 hc
    have : 580 ≤ b := h.1
    omega

lemma sample_rom {n : Memory}
    (h : Agrees (sampleScene.Fixed sampleStore) sampleStore.mem n) :
    Agrees Sample.fixed sampleStore.mem n :=
  h.mono fun _ hb => sample_fixed hb

lemma sample_cells
    (hc : sampleScene.Live sampleStore c ∨ c ∈ sampleScene.chunks) : c ∈ sampleCells := by
  rcases hc with hc | hc
  · exact hc.mem
  · obtain rfl := mem_singleton.1 hc
    simp [sampleCells]

lemma sample_isChunk (hc : c ∈ sampleCells) (hk : c.isChunk) : c = sampleChunk := by
  simp only [sampleCells, mem_cons, not_mem_nil, or_false] at hc
  rcases hc with rfl | rfl | rfl | rfl | rfl
  case inr.inr.inr.inr => rfl
  all_goals exact absurd hk (by decide)

open Sample in
lemma sample_heap : sampleScene.Heap sampleStore sampleClasses := by
  constructor
  case ok => exact sample_ok
  case typed => exact fun c hc => (sample_typed (sample_cells hc)).mono fun _ hb => sample_fixed hb
  case kinds =>
    have h : ∀ c ∈ sampleCells, ∃ j < 27, ((rom.drop 20).take 27)[j]? = some c.kind ∧
        c.kind ≠ 0 := by decide
    intro c hc
    obtain ⟨j, _, hj, hne⟩ := h c hc.mem
    exact ⟨0, j, ⟨_, rfl, hj⟩, hne⟩
  case classes =>
    exact fun t _ he h => sampleClasses_reads (by rw [he]; rfl) (sample_rom h)
  case listed =>
    intro c hc hk
    exact .inl (mem_singleton.2 (sample_isChunk hc.mem hk))
  case methods =>
    intro c f hc hf
    have hframes : ∀ c ∈ sampleCells, c.frames ≠ [] → c.isChunk := by decide
    have hm := sample_cells hc
    obtain rfl := sample_isChunk hm (hframes c hm (ne_nil_of_mem hf))
    obtain rfl := mem_singleton.1 hf
    exact .stays (by decide) fun n h => Sample.reads_frame (sample_rom h)
  case links =>
    intro c x hc hx hb hr
    obtain rfl := mem_singleton.1 hc
    have h : ∀ x < 72, x % 4 = 0 → sampleChunk.role x = .link →
        sampleRam.getD ((116 + x) / 4) 0 = 0 ∨
          580 ≤ (sampleRam.getD ((116 + x) / 4) 0).toNat := by decide
    rw [sample_words hx]
    have : sampleChunk.body = 72 := rfl
    exact h x (by omega) hx hr
  case old =>
    rw [sample_low]
    decide
  case stores =>
    intro a ha
    obtain rfl := sample_field ha
    refine ⟨array 532 1, by simp [sampleScene], fun h => ?_, by decide, by decide⟩
    exact absurd (congrArg oop (mem_singleton.1 h)) (by decide)
  case owners =>
    intro c k hc hk
    have hm : c ∈ sampleCells := hc.mem
    simp only [sampleCells, mem_cons, not_mem_nil, or_false] at hm
    rcases hm with rfl | rfl | rfl | rfl | rfl <;> cases hk
  case associations =>
    rw [sample_recorded]
    decide
  case minimum => rfl
  case young => decide

/-- With a limit of one word it takes two passes to close the gaps of the sample. -/
theorem compaction_packs_sample : ∃ s₁, limitDelta 4 sampleStore = .ok () s₁ ∧
    ∃ t₁ t₂ tgt free,
      (do compact (← Forwarding.ofClasses) sampleScene.space) s₁ = .ok () t₁ ∧
      (do compact (← Forwarding.ofClasses) sampleScene.space) sampleStore = .ok () t₂ ∧
      sampleScene.Packed sampleStore (sampleScene.survivors sampleStore) tgt free t₁ ∧
      free.toNat = 536 + Cell.total (sampleScene.survivors sampleStore) ∧
      (∀ b, low sampleStore ≤ b → b < free.toNat → t₁.mem.peek b = t₂.mem.peek b) ∧
      ∀ j, j < 16 → t₁.recorded j = t₂.recorded j := by
  have h : limitDelta 4 sampleStore = .ok () _ := rfl
  exact ⟨_, h, compaction_packs_survivors sample_heap (.accepted h) .never⟩

end DeviceVm.Sliding
