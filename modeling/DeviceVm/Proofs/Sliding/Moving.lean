import DeviceVm.Proofs.Sliding.Redirection

/-!
The end of a pass of compaction: the objects are moved, from the lowest to the highest, so that
none is overwritten before it has been moved.
-/

namespace DeviceVm.Sliding

open List Memory Header Store Word Layout

/-- Of the objects of `m`, those in `pre` have been moved. -/
structure Slid (start : Nat) (tgt : UInt32 → UInt32) (m : Memory) (pre : List Cell) (n : Memory) :
    Prop where
  agrees : Agrees (fun b => b < start ∨ ∀ d ∈ pre, d.stop ≤ b) m n
  header : ∀ c ∈ pre, Holds n (tgt c.oop) c.kind c.count
  body : ∀ c ∈ pre, ∀ i < c.body,
    n.peek ((tgt c.oop).toNat + i) = m.peek (c.oop.toNat + i)

variable {S : Scene} {C : Classes} {s t u : Store} {L pre post : List Cell}
  {tgt : UInt32 → UInt32} {f : Forwarding} {stop v : UInt32} {m n : Memory} {c d : Cell}

/-- An object has been copied to its place, with its class. -/
structure Copied (tgt : UInt32 → UInt32) (m : Memory) (c : Cell) (n : Memory) : Prop where
  size : n.size = m.size
  order : n.order = m.order
  header : Holds n (tgt c.oop) c.kind c.count
  body : ∀ i < c.body, n.peek ((tgt c.oop).toNat + i) = m.peek (c.oop.toNat + i)
  rest : ∀ b, ¬ ((tgt c.oop).toNat - c.head ≤ b ∧ b < (tgt c.oop).toNat + c.body) →
    ¬ (c.oop.toNat - 4 ≤ b ∧ b < c.oop.toNat) → n.peek b = m.peek b

lemma Slid.snoc (h : Slid S.space.start.toNat tgt m pre n) {n' : Memory}
    (hc : Copied tgt n c n')
    (hlow : S.space.start.toNat + c.head ≤ (tgt c.oop).toNat)
    (hdown : (tgt c.oop).toNat ≤ c.oop.toNat)
    (hpre : ∀ d ∈ pre, d.stop + c.head ≤ c.oop.toNat ∧
      S.space.start.toNat + d.head ≤ (tgt d.oop).toNat ∧
      (tgt d.oop).toNat + d.body + c.head ≤ (tgt c.oop).toNat) :
    Slid S.space.start.toNat tgt m (pre ++ [c]) n' := by
  have := c.head_cases
  have hmem : c ∈ pre ++ [c] := mem_append_right _ (mem_singleton_self c)
  constructor
  case agrees =>
    refine (h.agrees.mono ?_).trans ⟨hc.size, hc.order, ?_⟩
    · rintro b (hb | hb)
      · exact .inl hb
      · exact .inr fun d hd => hb d (mem_append_left _ hd)
    · rintro b (hb | hb)
      · exact hc.rest b (by omega) (by omega)
      · have : c.oop.toNat + c.body ≤ b := hb c hmem
        exact hc.rest b (by omega) (by omega)
  case header =>
    intro d hd
    rcases mem_append.1 hd with hd | hd
    · have := hpre d hd
      have below : Agrees (fun b => b < (tgt d.oop).toNat) _ _ :=
        ⟨hc.size, hc.order, fun b hb => hc.rest b (by omega) (by omega)⟩
      exact (h.header d hd).agrees below fun b _ hb => hb
    · rw [mem_singleton.1 hd]
      exact hc.header
  case body =>
    intro d hd i hi
    rcases mem_append.1 hd with hd | hd
    · have := hpre d hd
      rw [hc.rest _ (by omega) (by omega)]
      exact h.body d hd i hi
    rw [mem_singleton.1 hd] at hi ⊢
    rw [hc.body i hi]
    refine h.agrees.peek _ (.inr fun e he => ?_)
    have := (hpre e he).1
    omega

lemma Copied.of_move {w : UInt32}
    (hh : Holds (m.pokeWord (c.oop.toNat - 4) w) c.oop c.kind c.count)
    (hroom : c.head ≤ (tgt c.oop).toNat) (h4 : (tgt c.oop).toNat % 4 = 0)
    (hdown : (tgt c.oop).toNat ≤ c.oop.toNat) (hin : c.oop.toNat + c.body ≤ m.size) :
    Copied tgt m c ((m.pokeWord (c.oop.toNat - 4) w).move (c.oop.toNat - c.head)
      ((tgt c.oop).toNat - c.head) (c.head + c.body)) := by
  have hbytes : c.head = bytes c.count := rfl
  have := hh.four_le
  have hs : c.oop.toNat - c.head + (c.head + c.body) ≤
      (m.pokeWord (c.oop.toNat - 4) w).size := by
    rw [size_pokeWord]
    omega
  have ht : (tgt c.oop).toNat - c.head + (c.head + c.body) ≤
      (m.pokeWord (c.oop.toNat - 4) w).size := by
    omega
  have hsize := size_move hs ht
  have horder := order_move (m := m.pokeWord (c.oop.toNat - 4) w) (c.oop.toNat - c.head)
    ((tgt c.oop).toNat - c.head) (c.head + c.body)
  constructor
  case size => rw [hsize, size_pokeWord]
  case order => rw [horder, order_pokeWord]
  case header =>
    refine hh.moved horder h4 (by omega) (by omega) ?_
    intro i hi
    rw [peek_move hs ht, if_pos (by omega), ← hbytes,
      show c.oop.toNat - c.head + ((tgt c.oop).toNat - c.head + i - ((tgt c.oop).toNat - c.head)) =
        c.oop.toNat - c.head + i by omega]
  case body =>
    intro i hi
    rw [peek_move hs ht, if_pos (by omega),
      show c.oop.toNat - c.head + ((tgt c.oop).toNat + i - ((tgt c.oop).toNat - c.head)) =
        c.oop.toNat + i by omega]
    exact peek_pokeWord_ne w (by omega)
  case rest =>
    intro b hb ho
    rw [peek_move hs ht, if_neg (by omega)]
    exact peek_pokeWord_ne w (by omega)

lemma Copied.of_stay {w : UInt32}
    (hh : Holds (m.pokeWord (c.oop.toNat - 4) w) c.oop c.kind c.count)
    (he : tgt c.oop = c.oop) : Copied tgt m c (m.pokeWord (c.oop.toNat - 4) w) := by
  have := hh.four_le
  constructor
  case size => exact size_pokeWord w
  case order => exact order_pokeWord w
  case header =>
    rw [he]
    exact hh
  case body =>
    intro i _
    rw [he]
    exact peek_pokeWord_ne w (by omega)
  case rest =>
    intro b _ ho
    exact peek_pokeWord_ne w (by omega)

namespace Scene.Begun

variable {r : Store}

section

variable (h : S.Begun s L tgt C f stop r)
include h

lemma moveObject_ends (hc : c ∈ L) (hrom : u.rom = s.rom) (heeprom : u.eeprom = s.eeprom)
    (hfixed : Agrees (S.Fixed s) s.mem u.mem) {i j : Nat} (hat : C.At i j c.kind)
    (hh : Holds u.mem c.oop (f.encode (c.oop - tgt c.oop) (C.denseOf i j)) c.count) :
    Ends (moveObject f c.oop) u fun out u' =>
      out.1.toNat = (tgt c.oop).toNat + c.body ∧ ∃ n, u' = u.setMem n ∧ Copied tgt u.mem c n := by
  have ha := h.aimed
  have hok := ha.heap.ok
  have hlive := (ha.shift.live c).1 hc
  have hty := ha.heap.typed c (.inl hlive)
  have hdown := ha.shift.down c hc
  have h4 := ha.shift.aligned c hc
  have := (ha.shift.low hc).1
  have := ha.near c hc
  have := hh.aligned
  have := c.head_cases
  have hhead' : (sizeForCount c.count).toNat = c.head := toNat_sizeForCount c.count
  have hsmall : u.mem.size ≤ 16777216 := hfixed.size ▸ hok.recorded.small
  have hin : c.oop.toNat + c.body ≤ u.mem.size := by
    rw [hfixed.size]
    exact (ha.heap.readable (.inl hlive)).inside
  have : (c.oop - tgt c.oop).toNat = c.oop.toNat - (tgt c.oop).toNat := toNat_minus hdown
  have hcl := ha.heap.classes u hrom heeprom hfixed
  obtain ⟨_, hclass, hle⟩ := hcl.dense (hcl.total_le hsmall) hat
  have htarget : f.target c.oop u.mem = .ok (tgt c.oop) := by
    rw [Forwarding.target_eq ha.fits (by omega) hle (by omega) (by omega) hh]
    congr 1
    apply UInt32.toNat_inj.mp
    rw [toNat_minus] <;> omega
  have hkind := (hok.header c (mem_append_left _ hlive.mem)).1.low_lt
  obtain ⟨w, hw, hheld⟩ := hh.setLowBits hkind
  have hclear : Agrees (S.Fixed s) s.mem (u.mem.pokeWord (c.oop.toNat - 4) w) := by
    refine hfixed.trans ⟨size_pokeWord w, order_pokeWord w, fun b hb => ?_⟩
    have := hok.spread.high hlive.mem
    have := hok.stop_le
    have := hb.space
    exact peek_pokeWord_ne w (by omega)
  obtain ⟨length, hlen, hbody⟩ := hty.size _ _ _ hclear hheld
  refine .read_bind htarget ?_
  refine .query_bind (Forwarding.classOf_eq ha.fits (by omega) hle hh hclass) ?_
  refine .edit_bind hw ?_
  refine .read_bind hheld.size ?_
  refine .read_bind hlen ?_
  by_cases he : tgt c.oop = c.oop
  · rw [if_neg (by simpa using he)]
    refine .except_bind (plus_eq (by omega)) (.pure ⟨?_, _, rfl, .of_stay hheld he⟩)
    rw [toNat_plus (by omega), hbody]
  have hsource : (c.oop - sizeForCount c.count).toNat = c.oop.toNat - c.head := by
    rw [toNat_minus (by omega), hhead']
  have hplace : (tgt c.oop - sizeForCount c.count).toNat =
      (tgt c.oop).toNat - c.head := by
    rw [toNat_minus (by omega), hhead']
  have hsum : (sizeForCount c.count + length).toNat = c.head + c.body := by
    rw [toNat_plus (by omega), hhead', hbody]
  have : (tgt c.oop).toNat ≠ c.oop.toNat := fun h => he (UInt32.toNat_inj.1 h)
  rw [if_pos (by simpa using he)]
  refine .except_bind (minus_eq (by omega)) ?_
  refine .except_bind (minus_eq (by omega)) ?_
  refine .except_bind (plus_eq (by omega)) ?_
  have hcopy := @copyBytes_eq (u.mem.pokeWord (c.oop.toNat - 4) w) (sizeForCount c.count + length)
    (c.oop - sizeForCount c.count) (tgt c.oop - sizeForCount c.count)
    (fun h0 => by rw [h0, UInt32.toNat_zero] at hsum; omega)
    (fun h0 => by rw [h0] at hsource; omega)
    (by rw [size_pokeWord]; omega) (by rw [size_pokeWord]; omega)
  rw [hsource, hplace, hsum] at hcopy
  refine .edit_bind hcopy ?_
  refine .except_bind (plus_eq (by omega)) (.pure ⟨?_, _, rfl,
    .of_move hheld (by omega) h4 hdown hin⟩)
  rw [toNat_plus (by omega), hbody]

lemma slid_fixed (hp : ∀ c ∈ pre, c ∈ L) (hm : Agrees (S.Fixed s) s.mem m)
    (hn : Slid S.space.start.toNat tgt m pre n) : Agrees (S.Fixed s) s.mem n := by
  refine hm.trans (hn.agrees.mono fun b hb => ?_)
  have := hb.space
  have := h.aimed.heap.ok.stop_le
  by_cases hlt : b < S.space.start.toNat
  · exact .inl hlt
  · refine .inr fun d hd => ?_
    have := h.aimed.shift.spread.high (hp d hd)
    rw [Cell.stop]
    omega

lemma slid_bits (hp : ∀ c ∈ pre, c ∈ L) (hn : Slid S.space.start.toNat tgt m pre n) :
    Agrees s.bits.range.covers m n := by
  refine hn.agrees.mono fun b hb => .inr fun d hd => ?_
  have := h.aimed.heap.ok.stop_le
  have := h.aimed.shift.spread.high (hp d hd)
  have := h.aimed.heap.ok.bitmap b hb
  rw [Cell.stop]
  omega

lemma moveObjects_ends {cap : Nat} (htgt : tgt = aim cap S.space.start.toNat L) (hs : r.Scans u)
    (hidle : u.bits.scan.active = false) (hu : S.Turned s L tgt C f u.mem) :
    Ends (foldBits S.space.start S.space.stop (S.space.start, 0) fun (_, moved) oop => do
      let (free, didMove) ← moveObject f oop
      return (free, moved + if didMove then 1 else 0)) u fun out t =>
        u.Scans t ∧ t.bits.scan.active = false ∧
          out.1.toNat = settle cap S.space.start.toNat L ∧
          Slid S.space.start.toNat tgt u.mem L t.mem := by
  have ha := h.aimed
  have hok := ha.heap.ok
  have hspread := ha.shift.spread
  have hrange := hs.range.trans h.range
  have := hok.bounds
  refine foldObjects_ends (L := L)
    (J := fun pre (acc : UInt32 × Nat) m => acc.1.toNat = settle cap S.space.start.toNat pre ∧
      Slid S.space.start.toNat tgt u.mem pre m) hspread hok.start_aligned hok.stop_aligned
      (fun c hc => ha.heap.aligned (ha.shift.mem hc)) ?_ ?_ ?_ ?_ hidle ?_ ?_ ?_
  · rw [hrange, hu.fixed.size]
    exact hok.mapped
  · rw [hrange]
    omega
  · rw [hrange, hok.last]
    exact hok.stop_le
  · rw [hrange]
    exact hu.marks
  · rintro pre post _ m he ⟨_, hm⟩
    rw [hrange]
    exact h.slid_bits (fun c hc => he ▸ mem_append_left _ hc) hm
  · rintro pre c post ⟨_, moved⟩ t he ht ⟨_, hm⟩
    have hpre : ∀ d ∈ pre, d ∈ L := fun d hd => he ▸ mem_append_left _ hd
    have hc : c ∈ L := he ▸ mem_append_right _ mem_cons_self
    have hsp := hspread
    have hmoved := ha.shift.moved
    rw [he] at hsp
    rw [he, map_append, map_cons] at hmoved
    obtain ⟨i, j, hat, hh⟩ := hu.header c hc
    have hhead : Holds t.mem c.oop (f.encode (c.oop - tgt c.oop) (C.denseOf i j))
        c.count := by
      refine hh.agrees hm.agrees fun b hb _ => .inr fun d hd => ?_
      have := hsp.before hd
      have : c.head = bytes c.count := rfl
      rw [Cell.stop]
      omega
    refine .bind (h.moveObject_ends hc ((ht.rom.trans hs.rom).trans h.kin.rom)
      ((ht.eeprom.trans hs.eeprom).trans h.kin.eeprom) (h.slid_fixed hpre hu.fixed hm) hat
      hhead) ?_
    rintro ⟨free, didMove⟩ _ ⟨hfree, n, rfl, hn⟩
    refine .pure ⟨n, rfl, ?_, hm.snoc hn (ha.shift.low hc).1 (ha.shift.down c hc) fun d hd => ?_⟩
    · rw [hfree, settle_append, htgt, he, aim_split _ hsp]
      rfl
    · refine ⟨hsp.before hd, (ha.shift.low (hpre d hd)).1, ?_⟩
      exact hmoved.before (mem_map.2 ⟨d, hd, rfl⟩)
  · exact ⟨rfl, .refl _, fun c hc => absurd hc not_mem_nil,
      fun c hc => absurd hc not_mem_nil⟩

lemma moved (hm : S.Turned s L tgt C f m) (hn : Slid S.space.start.toNat tgt m L n)
    (ht : Agrees (fun b => ¬ (s.ram.start.toNat + 12 ≤ b ∧ b < s.ram.start.toNat + 20)) n t.mem)
    (hkin : Kin s t) (hrange : t.bits.range = s.bits.range) (hidle : t.bits.scan.active = false)
    (hunused : t.marks.inUse = false) : S.Moved s L tgt t := by
  have ha := h.aimed
  have hok := ha.heap.ok
  have := hok.bounds
  have hbits := (h.slid_bits (fun c hc => hc) hn).trans
    (ht.mono fun b hb => fun hin => by have := hok.bitmap b hb; omega)
  -- What lies below the space has not moved, and what lies above the record keeps its bytes.
  have below : ∀ a, a + 4 ≤ S.space.start.toNat →
      (a + 4 ≤ s.ram.start.toNat + 12 ∨ s.ram.start.toNat + 20 ≤ a) →
      t.mem.peekWord a = m.peekWord a := by
    intro a hlt hne
    rw [ht.peekWord a fun i hi hin => by omega]
    exact hn.agrees.peekWord a fun i hi => .inl (by omega)
  have object : ∀ c ∈ L, c.Arrived tgt s.mem t.mem := by
    intro c hc x hx hb
    have := (ha.shift.low hc).1
    rw [← hm.body c (.inl hc) x hx hb]
    refine peekWord_congr (ht.order.trans hn.agrees.order) fun i hi => ?_
    show t.mem.peek ((tgt c.oop).toNat + x + i) = _
    rw [ht.peek _ (by omega), Nat.add_assoc, Nat.add_assoc]
    exact hn.body c hc (x + i) (by omega)
  constructor
  case kin => exact hkin
  case range => exact hrange
  case idle => exact hidle
  case unused => exact hunused
  case fixed =>
    refine (h.slid_fixed (fun c hc => hc) hm.fixed hn).trans (ht.mono fun b hb hin => ?_)
    exact hb.record ⟨by omega, by omega⟩
  case header =>
    intro c hc
    refine (hn.header c hc).agrees ht fun b hb _ hin => ?_
    have := (ha.shift.low hc).1
    have : c.head = bytes c.count := rfl
    omega
  case object => exact object
  case chunk =>
    intro c hc
    rcases ha.shift.chunk_cases ha.heap hc with hl | ⟨ho, he⟩
    · exact object c hl
    · intro x hx hb
      have := ha.heap.old_below ho
      rw [← hm.body c (.inr hc) x hx hb, Cell.words, Cell.relocate_oop, he]
      exact below _ (by omega) (by omega)
  case field =>
    intro a hf
    have := hf.low
    rw [← hm.field a hf]
    exact below a (hok.fields a hf).1 (by omega)
  case root =>
    intro k hk
    rw [← hm.root k hk, Store.recorded, hkin.ram]
    exact below _ (by omega) (by omega)
  case record =>
    intro j hj h3 h4
    rw [← hm.record j hj, Store.recorded, hkin.ram]
    exact below _ (by omega) (by omega)
  case bits =>
    intro a h4 hlo hhi
    have hspan : s.bits.range.Spans a := by
      have := hok.last
      exact ⟨h4, by omega, by omega⟩
    rw [← hm.bits a h4 hlo hhi]
    exact BitRange.holds_congr hbits.order fun i hi =>
      hbits.peek _ (BitRange.Mapped.covers_word hspan hi)

end

end Scene.Begun

/-- The partition behind a pass: its objects end at `free`, and what follows them is room for the
allocation that failed and for a young generation, as far as there is memory. -/
structure Sized (s : Store) (free : UInt32) (t : Store) : Prop where
  free_eq : t.recorded 3 = free
  end_eq : (t.recorded 4).toNat = min (free.toNat + (s.recorded 5).toNat +
    (s.sliding.idealYoung.toNat + 3) / 4 * 4) (high s)

namespace Scene.Begun

variable {r : Store}

lemma resize_ends (h : S.Begun s L tgt C f stop r) (hm : S.Turned s L tgt C f m)
    (hslid : Slid S.space.start.toNat tgt m L u.mem) (hkin : Kin s u)
    (hrange : u.bits.range = s.bits.range) (hidle : u.bits.scan.active = false)
    (hunused : u.marks.inUse = false) {free last : UInt32} {text : Unit → String} :
    Ends (do
      setPartitionFree free
      setPartitionEnd last
      if (← associationTable) != 0 then rebuildQueues
      say .trace .collection text
      return free : Run UInt32) u fun out t =>
        out = free ∧ S.Moved s L tgt t ∧ t.recorded 3 = free ∧ t.recorded 4 = last := by
  have ha := h.aimed
  have hok := ha.heap.ok
  have hmoved : S.Moved s L tgt u := h.moved hm hslid (.refl _) hkin hrange hidle hunused
  have hram := hkin.ram
  have hrec := hmoved.recorded hok
  have hrec3 := hrec.setRecorded 3 free
  have hrec4 := hrec3.setRecorded 4 last
  have htable : associationTable ((u.setRecorded 3 free).setRecorded 4 last) = .ok 0 := by
    rw [associationTable, hrec4.root_eq (j := 6) rfl (by omega),
      hrec3.recorded_setRecorded (by omega), hrec.recorded_setRecorded (by omega),
      if_neg (by omega), if_neg (by omega), hmoved.root 6 (by omega), ha.heap.associations,
      ha.shift.zero]
  refine .next (hrec.setRecord_ends (j := 3) rfl (by omega) ?_)
  refine .next (hrec3.setRecord_ends (j := 4) rfl (by omega) ?_)
  refine .query_bind htable ?_
  rw [if_neg (by decide)]
  refine .say_bind fun log => .pure ⟨rfl, ?_, ?_, ?_⟩
  · refine h.moved hm hslid ?_ (hkin.trans rfl) hrange hidle hunused
    refine ⟨?_, ?_, fun b hb => ?_⟩
    · simp only [setLog_mem, setRecorded, setMem_mem, size_pokeWord]
    · simp only [setLog_mem, setRecorded, setMem_mem, order_pokeWord]
    · simp only [setLog_mem, setRecorded, setMem_mem, setMem_ram, hram]
      rw [peek_pokeWord_ne _ (by omega), peek_pokeWord_ne _ (by omega)]
  · show ((u.setRecorded 3 free).setRecorded 4 last).recorded 3 = _
    rw [hrec3.recorded_setRecorded (by omega), hrec.recorded_setRecorded (by omega),
      if_neg (by omega), if_pos rfl]
  · show ((u.setRecorded 3 free).setRecorded 4 last).recorded 4 = _
    rw [hrec3.recorded_setRecorded (by omega), if_pos rfl]

lemma moveAll_ends (h : S.Begun s L tgt C f stop r) {cap : Nat}
    (htgt : tgt = aim cap S.space.start.toNat L) (hs : r.Scans u)
    (hidle : u.bits.scan.active = false) (hu : S.Turned s L tgt C f u.mem) :
    Ends (moveAll f S.space) u fun free t =>
      free.toNat = settle cap S.space.start.toNat L ∧ S.Moved s L tgt t ∧ Sized s free t := by
  have ha := h.aimed
  have hok := ha.heap.ok
  refine .bind (h.moveObjects_ends htgt hs hidle hu) ?_
  rintro ⟨free, count⟩ v ⟨hv, hvidle, hfree, hslid⟩
  have hrange : v.bits.range = s.bits.range := (hv.range.trans hs.range).trans h.range
  have hunused : v.marks.inUse = false := by
    rw [hv.marks, hs.marks]
    exact h.unused
  have hkin : Kin s v := h.kin.trans (.of_scans (hs.trans hv))
  have hm : S.Moved s L tgt v := h.moved hu hslid (.refl _) hkin hrange hvidle hunused
  have hrec := hm.recorded hok
  have hfailed : failedSize v = .ok (s.recorded 5) := by
    rw [failedSize, hrec.record_eq (j := 5) rfl (by omega),
      hm.record 5 (by omega) (by omega) (by omega)]
  have hhigh : (s.recorded 0 + s.recorded 1).toNat = high s := by
    have h1 := hok.high_ram
    have := hok.ram_high
    have := hok.recorded.small
    rw [high] at h1
    exact toNat_plus (by omega)
  have hend : memoryEnd v = .ok (s.recorded 0 + s.recorded 1) := by
    have h1 := hok.high_ram
    have := hok.ram_high
    have := hok.recorded.small
    rw [high] at h1
    rw [← hm.record 0 (by omega) (by omega) (by omega),
      ← hm.record 1 (by omega) (by omega) (by omega)] at h1 ⊢
    exact hrec.memoryEnd_eq (by omega)
  obtain ⟨young, hyoung, hround⟩ := roundUp4_eq ha.heap.young
  refine .query_bind hfailed ?_
  refine .get_bind ?_
  dsimp only
  rw [hkin.idealYoung]
  refine .except_bind hyoung ?_
  refine .query_bind hend ?_
  rw [hkin.minimumHeap, ha.heap.minimum, if_neg Bool.false_ne_true]
  refine .modify_bind ?_
  refine (h.resize_ends hu ?_ ?_ ?_ ?_ ?_).mono ?_
  · exact hslid
  · exact hkin.trans rfl
  · exact hrange
  · exact hvidle
  · exact hunused
  rintro _ t ⟨rfl, hmoved, h3, h4⟩
  refine ⟨hfree, hmoved, h3, ?_⟩
  have := (s.recorded 0 + s.recorded 1).toNat_lt
  rw [h4, UInt32.toNat_min, toNat_plusSaturating, toNat_plusSaturating, hround, hhigh]
  omega

end Scene.Begun

end DeviceVm.Sliding
