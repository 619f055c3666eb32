import DeviceVm.Collection.Sliding.Compaction
import DeviceVm.Proofs.Sliding.Forwarding
import DeviceVm.Proofs.Sliding.Heap
import DeviceVm.Proofs.Sliding.Loop

/-!
The first half of a pass of compaction: the live objects are marked, and each of them gets its
forwarding word.
-/

namespace DeviceVm.Sliding

open List Memory Header Store Word Layout

/-- The live objects are marked, and nothing else has changed that a pass reads. -/
structure Scene.Ready (S : Scene) (s : Store) (L : List Cell) (t : Store) : Prop where
  kin : Kin s t
  range : t.bits.range = s.bits.range
  idle : t.bits.scan.active = false
  unused : t.marks.inUse = false
  agrees : Agrees (S.graph s).kept s.mem t.mem
  marks : s.bits.range.Marks t.mem S.space.start.toNat S.space.stop.toNat L
  bits : ∀ a, a % 4 = 0 → low s < a → a ≤ S.space.start.toNat →
    s.bits.range.holds t.mem a = s.bits.range.holds s.mem a

variable {S : Scene} {C : Classes} {s t u : Store} {L : List Cell} {c : Cell}

lemma Kin.of_alike (h : s.Alike t) : Kin s t := by
  unfold Kin
  conv_lhs => rw [h]
  have hs : t.sliding = s.sliding := (congrArg sliding h :)
  rw [hs]

lemma Kin.of_scans (h : s.Scans t) : Kin s t := by
  obtain ⟨m, scan, rfl⟩ :
      ∃ m scan, t = (s.setMem m).setBits { s.bits with scan } := ⟨_, _, h⟩
  rfl

namespace Scene.Heap

lemma mark_ends (h : S.Heap s C) (hl : ∀ c, c ∈ L ↔ S.Live s c) :
    Ends (mark S.space) s fun _ t => S.Ready s L t := by
  refine .bind h.ok.markReachable_ends ?_
  intro _ t ht
  obtain ⟨hr, heq⟩ := h.ok.recorded_of ht.alike.ram ht.agrees
  have htable : ∀ log, associationTable (t.setLog log) = .ok 0 := by
    intro log
    have hr' : (t.setLog log).Recorded := ⟨hr.aligned, hr.inside, hr.small⟩
    rw [associationTable, hr'.root_eq (j := 6) rfl (by omega)]
    show Except.ok (t.recorded 14) = _
    rw [heq 14 (by omega), h.associations]
  have hflag : t.marks.isOverflowed = .ok false := by
    simp only [MarkStack.isOverflowed, ht.inUse, ht.complete]
    rfl
  have hfinish : t.marks.finish = .ok { t.marks with inUse := false } := by
    simp only [MarkStack.finish, ht.inUse]
    rfl
  -- There is nothing to settle, nothing to go through again and nothing to check.
  refine .next (.query_bind (htable t.log) ?_)
  refine .say fun log => ?_
  refine .next (.read_bind (walkBound_eq _) ?_)
  refine .get_bind (.except_bind hflag (.pure ?_))
  refine .next (.query_bind (htable log) ?_)
  refine .pure (Graph.updateMarks_ends hfinish ?_)
  exact { ht with
    kin := Kin.of_alike ((ht.alike.setLog log).setMarks _)
    unused := rfl
    marks := fun a h4 hlo hhi => by
      refine (ht.exact a h4 hlo hhi).trans (exists_congr fun c => ?_)
      rw [hl c]
    bits := fun a h4 hlo hhi => by
      have := h.ok.bounds
      have := h.ok.last
      exact ht.rest a ⟨h4, by omega, by omega⟩ (.inl hhi) }

end Scene.Heap

/-- The objects `pre` have their forwarding words, which is all that has changed. -/
structure Forwarded (C : Classes) (f : Forwarding) (tgt : UInt32 → UInt32) (m : Memory)
    (pre : List Cell) (n : Memory) : Prop where
  agrees : Agrees (fun b => ∀ c ∈ pre, ¬ (c.oop.toNat - 4 ≤ b ∧ b < c.oop.toNat)) m n
  header : ∀ c ∈ pre, ∃ i j, C.At i j c.kind ∧
    Holds n c.oop (f.encode (c.oop - tgt c.oop) (C.denseOf i j)) c.count

variable {f : Forwarding}

lemma Forwarded.snoc {tgt : UInt32 → UInt32} {m n : Memory} {pre : List Cell} {i j : Nat}
    {w : UInt32} (h : Forwarded C f tgt m pre n)
    (hpre : ∀ d ∈ pre, d.oop.toNat + 4 ≤ c.oop.toNat) (hat : C.At i j c.kind)
    (hc : Holds (n.pokeWord (c.oop.toNat - 4) w) c.oop
      (f.encode (c.oop - tgt c.oop) (C.denseOf i j)) c.count) :
    Forwarded C f tgt m (pre ++ [c]) (n.pokeWord (c.oop.toNat - 4) w) := by
  have := hc.four_le
  have hpoke : Agrees (fun b => ¬ (c.oop.toNat - 4 ≤ b ∧ b < c.oop.toNat)) n
      (n.pokeWord (c.oop.toNat - 4) w) :=
    ⟨size_pokeWord w, order_pokeWord w,
      fun b hb => peek_pokeWord_ne w (by omega)⟩
  constructor
  case agrees =>
    refine (h.agrees.mono fun b hb d hd => hb d (mem_append_left _ hd)).trans
      (hpoke.mono fun b hb => hb c (mem_append_right _ (mem_singleton_self c)))
  case header =>
    intro d hd
    rcases mem_append.1 hd with hd | hd
    · obtain ⟨i', j', hat', hh⟩ := h.header d hd
      have := hpre d hd
      exact ⟨i', j', hat', hh.agrees hpoke fun b _ hb hin => by omega⟩
    · rw [mem_singleton.1 hd]
      exact ⟨i, j, hat, hc⟩

namespace Scene.Heap

lemma agrees_fixed (h : S.Heap s C) {pre : List Cell} (hp : ∀ c ∈ pre, c ∈ S.cells)
    {m n : Memory} (hm : Agrees (S.graph s).kept s.mem m) {tgt : UInt32 → UInt32}
    (hn : Forwarded C f tgt m pre n) : Agrees (S.Fixed s) s.mem n := by
  refine (hm.mono fun b hb => hb.kept h.ok).trans (hn.agrees.mono fun b hb c hc hin => ?_)
  have := h.ok.spread.low (hp c hc)
  have := h.ok.spread.high (hp c hc)
  have := c.head_cases
  have := h.ok.stop_le
  exact hb.space ⟨by omega, by omega⟩

lemma aligned (h : S.Heap s C) (hc : c ∈ S.cells) : c.oop.toNat % 4 = 0 :=
  (h.ok.header c (mem_append_left _ hc)).1.aligned

lemma forward_one (h : S.Heap s C) (hf : f.Fits (Classes.total C.suites)) {free : UInt32}
    {hole : Bool} (hc : S.Live s c) (hrom : u.rom = s.rom) (heeprom : u.eeprom = s.eeprom)
    (hu : Agrees (S.Fixed s) s.mem u.mem) (hh : Holds u.mem c.oop c.kind c.count)
    (hfree : free.toNat + c.head ≤ c.oop.toNat) {post : UInt32 × Bool → Store → Prop}
    (hp : ∀ w i j (free' : UInt32), C.At i j c.kind →
      free'.toNat = c.place f.maxDelta.toNat free.toNat + c.body →
      Holds (u.mem.pokeWord (c.oop.toNat - 4) w) c.oop
        (f.encode (c.oop - UInt32.ofNat (c.place f.maxDelta.toNat free.toNat)) (C.denseOf i j))
        c.count →
      post (free', hole || decide (f.maxDelta.toNat < c.oop.toNat - (free.toNat + c.head)))
        (u.setMem (u.mem.pokeWord (c.oop.toNat - 4) w))) :
    Ends (do
      let k ← classOf c.oop
      let length ← bodySizeAs c.oop k
      let wanted ← minus c.oop (← plus free (← size c.oop))
      let delta := min wanted f.maxDelta
      f.forward c.oop k delta
      return (← plus (← minus c.oop delta) length, hole || wanted > f.maxDelta)) u post := by
  have hty := h.typed c (.inl hc)
  have hhead : (sizeForCount c.count).toNat = c.head := toNat_sizeForCount c.count
  obtain ⟨length, hlen, hbody⟩ := hty.size u.mem c.oop c.kind hu hh
  obtain ⟨i, j, hat⟩ := h.kinds c hc
  have hsize : u.mem.size ≤ 16777216 := hu.size ▸ h.ok.recorded.small
  have hcl := h.classes u hrom heeprom hu
  obtain ⟨hdense, _, hle⟩ := hcl.dense (hcl.total_le hsize) hat
  have := place_le f.maxDelta.toNat hfree
  have hat' := toNat_place f.maxDelta.toNat hfree
  have := h.ok.spread.high hc.mem
  have := S.space.stop.toNat_lt
  have hsum : (free + sizeForCount c.count).toNat = free.toNat + c.head := by
    rw [toNat_plus (by omega), hhead]
  have hwanted : (c.oop - (free + sizeForCount c.count)).toNat =
      c.oop.toNat - (free.toNat + c.head) := by rw [toNat_minus (by omega), hsum]
  -- What is put into the word is the way down to the place.
  have hmin : min (c.oop - (free + sizeForCount c.count)) f.maxDelta =
      c.oop - UInt32.ofNat (c.place f.maxDelta.toNat free.toNat) := by
    apply UInt32.toNat_inj.mp
    rw [UInt32.toNat_min, hwanted, toNat_minus (by omega), hat', Cell.place]
    omega
  have hdelta : (c.oop - UInt32.ofNat (c.place f.maxDelta.toNat free.toNat)).toNat =
      c.oop.toNat - c.place f.maxDelta.toNat free.toNat := by
    rw [toNat_minus (by omega), hat']
  have : c.oop.toNat - c.place f.maxDelta.toNat free.toNat ≤ f.maxDelta.toNat := by
    rw [Cell.place]
    omega
  have hend : (c.oop - (c.oop - UInt32.ofNat (c.place f.maxDelta.toNat free.toNat))).toNat =
      c.place f.maxDelta.toNat free.toNat := by
    rw [toNat_minus (by omega), hdelta]
    omega
  have hover : decide (c.oop - (free + sizeForCount c.count) > f.maxDelta) =
      decide (f.maxDelta.toNat < c.oop.toNat - (free.toNat + c.head)) := by
    rw [← hwanted]
    exact decide_eq_decide.2 UInt32.lt_iff_toNat_lt
  refine .read_bind (hh.classOf hty.kind_aligned hty.kind_ne) ?_
  refine .read_bind hlen ?_
  refine .read_bind hh.size ?_
  refine .except_bind (plus_eq (by omega)) ?_
  refine .except_bind (minus_eq (by omega)) ?_
  rw [hmin, hover]
  refine .next (Forwarding.forward_ends hf (by omega) hle hdense hh fun w hw => ?_)
  refine .except_bind (minus_eq (by omega)) ?_
  refine .except_bind (plus_eq (by omega)) ?_
  refine .pure (hp w i j _ hat ?_ hw)
  rw [toNat_plus (by omega), hend, hbody]

lemma assignTargets_ends (h : S.Heap s C) (hf : f.Fits (Classes.total C.suites))
    (hl : ∀ c, c ∈ L ↔ S.Live s c) (hs : Spread S.space.start.toNat L S.space.stop.toNat)
    (ht : S.Ready s L t) :
    Ends (assignTargets f S.space) t fun hole u => t.Scans u ∧ u.bits.scan.active = false ∧
      hole = held f.maxDelta.toNat S.space.start.toNat L ∧
      Forwarded C f (aim f.maxDelta.toNat S.space.start.toNat L) t.mem L u.mem := by
  have cells : ∀ {c}, c ∈ L → c ∈ S.cells := fun hc => ((hl _).1 hc).mem
  refine .bind (foldObjects_ends
    (J := fun pre acc m => acc.1.toNat = settle f.maxDelta.toNat S.space.start.toNat pre ∧
      acc.2 = held f.maxDelta.toNat S.space.start.toNat pre ∧
      Forwarded C f (aim f.maxDelta.toNat S.space.start.toNat L) t.mem pre m)
    hs h.ok.start_aligned h.ok.stop_aligned (fun c hc => h.aligned (cells hc)) ?_ ?_ ?_ ?_
    ht.idle ?_ ?_ ⟨rfl, rfl, .refl _, fun c hc => absurd hc not_mem_nil⟩) ?_
  · rw [ht.range, ht.agrees.size]
    exact h.ok.mapped
  · rw [ht.range]
    have := h.ok.bounds
    omega
  · rw [ht.range, h.ok.last]
    exact h.ok.stop_le
  · rw [ht.range]
    exact ht.marks
  · rintro pre post acc m rfl ⟨_, _, hm⟩
    refine hm.agrees.mono fun b hb c hc hin => ?_
    have := h.ok.spread.high (cells (mem_append_left _ hc))
    have := h.ok.bitmap b (ht.range ▸ hb)
    have := h.ok.stop_le
    omega
  · rintro pre c post ⟨free, hole⟩ u rfl hu ⟨hfree, rfl, hfw⟩
    have hc : c ∈ pre ++ c :: post := mem_append_right _ mem_cons_self
    have hpre : ∀ d ∈ pre, d ∈ S.cells := fun d hd => cells (mem_append_left _ hd)
    have hkept := h.agrees_fixed hpre ht.agrees hfw
    have hroom := (spread_append hs : Spread (settle f.maxDelta.toNat _ pre) _ _).1
    have hh : Holds u.mem c.oop c.kind c.count := by
      refine (h.ok.holds (mem_append_left _ (cells hc)) ht.agrees).agrees hfw.agrees ?_
      intro b hb _ d hd hin
      have := hs.before hd
      have : c.head = bytes c.count := rfl
      omega
    have haim := aim_split f.maxDelta.toNat hs
    refine h.forward_one hf ((hl c).1 hc) (hu.rom.trans ht.kin.rom)
      (hu.eeprom.trans ht.kin.eeprom) hkept hh (hfree ▸ hroom) ?_
    intro w i j free' hat hfree' hw
    refine ⟨_, rfl, ?_, ?_, hfw.snoc (fun d hd => ?_) hat ?_⟩
    · rw [hfree', hfree, settle_append]
      rfl
    · rw [held_append, hfree]
      simp only [held, Bool.or_false]
    · have := hs.before hd
      have := c.head_cases
      omega
    · rw [UInt32.toNat_inj.1 (haim.trans (toNat_place _ hroom).symm), ← hfree]
      exact hw
  · rintro ⟨free, hole⟩ u ⟨hu, hidle, _, hhole, hfw⟩
    exact .pure ⟨hu, hidle, hhole, hfw⟩

end Scene.Heap

end DeviceVm.Sliding
