import DeviceVm.Proofs.Persistent.Graphs
import DeviceVm.Proofs.Sample

/-!
Copying that fails. The forwarding is taken back, so that RAM is as it was; the copies that were
made are not given back.
-/

namespace DeviceVm.Persistent

open UInt32 List Sample Header Store Word

namespace Migration

variable {M : Migration} {s u t : Store} {gs left : List Gap} {made : List Copy} {c : Cell}
  {p q : Copy} {copy : UInt32}

/-! ### Taking the forwarding back -/

lemma Forwards.setClass_ends (ok : M.Ok s gs) {away : List Copy}
    (hu : M.Forwards s gs made (p :: away) u) (shrunk : Shrunk gs made left)
    (listed : Listed u left) (hp : p ∈ made)
    (hn : ∀ q ∈ away, q ∈ made ∧ q.cell ≠ p.cell) :
    Ends (do
      let copy ← forwardTarget p.cell.oop
      setClass p.cell.oop (← classOf copy) : Run Unit) u fun _ t =>
        M.Forwards s gs made away t ∧ Listed t left := by
  obtain ⟨hc, hg⟩ := hu.source p hp
  have htyped := ok.typed p.cell hc
  have hheader := hu.header p hp
  have hleads := hu.leads p (mem_cons_self ..)
  have h2 : (p.oop + 2).toNat % 4 = 2 := by
    have := hheader.aligned
    rw [toNat_forward hheader.aligned]
    omega
  have hback : p.oop + 2 - 2 = p.oop := UInt32.add_sub_cancel ..
  obtain ⟨w, hw, hset⟩ := hleads.setLowBits hheader.low_lt
  have ha : Memory.Agrees (fun b => b < p.cell.oop.toNat - 4 ∨ p.cell.oop.toNat ≤ b) u.mem
      (u.mem.pokeWord (p.cell.oop.toNat - 4) w) :=
    .poked fun b hb => by
      have := hleads.four_le
      omega
  have hsame := Same.of_setMem u (u.mem.pokeWord (p.cell.oop.toNat - 4) w)
  have other : ∀ {d low}, d ∈ M.cells → d ≠ p.cell → Header.Holds u.mem d.oop low d.count →
      Header.Holds (u.mem.pokeWord (p.cell.oop.toNat - 4) w) d.oop low d.count :=
    fun hd hne hh => hh.agrees ha fun b hb hlt =>
      ok.header_apart hd hc hne hb (by rw [Cell.stop]; omega)
  refine .read_bind (hleads.forwardTarget h2) ?_
  rw [hback]
  refine .read_bind (hheader.classOf htyped.kind_aligned htyped.kind_ne) (.edit hw ⟨?_, ?_⟩)
  · constructor
    case same => exact hu.same.trans hsame
    case agrees => exact hu.agrees.trans (ha.mono fun b hb => hb.2 p.cell hc)
    case source => exact hu.source
    case header =>
      intro q hq
      exact (hu.header q hq).agrees ha fun b hb hlt =>
        ok.touched_apart hc (shrunk.copy_touched hq hb (by rw [Copy.stop]; omega))
    case leads =>
      intro q hq
      exact other (hu.source q (hn q hq).1).1 (hn q hq).2 (hu.leads q (mem_cons_of_mem _ hq))
    case gone =>
      intro d e hd he
      refine other hd ?_ (hu.gone d e hd he)
      rintro rfl
      rw [hg] at he
      cases he
    case rest =>
      intro d hd he hnd
      by_cases hdp : d = p.cell
      · rw [hdp]
        exact hset
      · refine other hd hdp (hu.rest d hd he fun q hq => ?_)
        rcases mem_cons.1 hq with rfl | hq
        · exact fun h => hdp h.symm
        · exact hnd q hq
  · exact listed.agrees hsame ha fun b hb => ok.touched_apart hc (shrunk.touched hu.same hb)

lemma Copied.restoreForwarded_ends (ok : M.Ok s gs) (hu : M.Copied s gs made left u) :
    Ends restoreForwarded u fun _ t => M.Forwards s gs made [] t ∧ Listed t left := by
  have hlist : u.persistent.forwarded.reverse = made.reverse.map fun p => p.cell.oop := by
    rw [hu.forwarded, map_reverse]
  refine .get_bind ?_
  rw [hlist]
  refine (Ends.forM (fun rest t => ∃ away : List Copy, rest = away.map (fun p => p.cell.oop) ∧
    (∀ q ∈ away, q ∈ made) ∧ (away.map Copy.cell).Nodup ∧ M.Forwards s gs made away t ∧
      Listed t left) ?_ ?_).mono ?_
  · rintro oop rest t ⟨away, he, hin, hnodup, hf, hl⟩
    cases away with
    | nil => cases he
    | cons p away =>
      rw [map_cons] at he hnodup
      rw [nodup_cons] at hnodup
      cases he
      refine (hf.setClass_ends ok hu.shrunk hl (hin p (mem_cons_self ..)) fun q hq =>
        ⟨hin q (mem_cons_of_mem _ hq), fun hc => ?_⟩).mono fun _ v hv =>
          ⟨away, rfl, fun q hq => hin q (mem_cons_of_mem _ hq), hnodup.2, hv⟩
      exact hnodup.1 (hc ▸ mem_map_of_mem hq)
  · refine ⟨made.reverse, rfl, fun q hq => mem_reverse.1 hq, ?_, ?_, hu.listed⟩
    · rw [map_reverse]
      exact pairwise_reverse.2 (hu.distinct.imp Ne.symm)
    · exact { hu with
        leads := fun q hq => hu.leads q (mem_reverse.1 hq)
        rest := fun d hd hg hn => hu.rest d hd hg fun q hq => hn q (mem_reverse.2 hq) }
  · rintro _ t ⟨away, he, -, -, hf, hl⟩
    cases away with
    | nil => exact ⟨hf, hl⟩
    | cons p away => cases he

lemma Forwards.restored (ok : M.Ok s gs) (hu : M.Forwards s gs made [] u) :
    Memory.Agrees (fun b => ¬ touched s gs b) s.mem u.mem := by
  refine ⟨hu.agrees.size, hu.agrees.order, fun b hb => ?_⟩
  by_cases hs : M.spared s gs b
  · exact hu.agrees.peek b hs
  obtain ⟨c, hc, hlow, hlt⟩ : ∃ c ∈ M.cells, c.oop.toNat - 4 ≤ b ∧ b < c.oop.toNat := by
    by_contra hcon
    refine hs ⟨hb, fun c hc => ?_⟩
    by_contra hin
    exact hcon ⟨c, hc, by omega, by omega⟩
  have : bytes c.count = c.head := rfl
  have := c.head_cases
  cases hg : M.gone c with
  | none =>
    exact (ok.stays c hc hg).peek_eq
      (hu.rest c hc hg fun q hq => absurd hq not_mem_nil) hu.agrees.order (by omega) hlt
  | some e =>
    exact (ok.gone c e hc hg).1.peek_eq (hu.gone c e hc hg) hu.agrees.order (by omega) hlt

/-! ### Copying that fails -/

/-- What is left when the graph of `c` was not copied: `made` are the copies that were made, and
they are lost. Everything but the gaps is as it was. -/
structure Lost (M : Migration) (s : Store) (gs : List Gap) (c : Cell) (made : List Copy)
    (left : List Gap) (u : Store) : Prop where
  same : s.Same u
  agrees : Memory.Agrees (fun b => ¬ touched s gs b) s.mem u.mem
  listed : Listed u left
  shrunk : Shrunk gs made left
  free : ∃ before after, freeMemory s = .ok before ∧ freeMemory u = .ok after ∧
    after.toNat + Copy.total made = before.toNat
  source : ∀ p, p ∈ made → p.cell ∈ M.cells ∧ p.cell.Persistable
  distinct : (made.map Copy.cell).Nodup
  none_iff : made = [] ↔ ¬ Fits gs c
  kept : made = [] → left = gs

lemma Made.lost (ok : M.Ok s gs) (h : Made M s gs c made left u)
    (ht : M.Forwards s gs made [] t) (listed : Listed t left) : Lost M s gs c made left t := by
  obtain ⟨hu, hkept, hnone⟩ := h
  obtain ⟨before, hbefore, hb⟩ := ok.listed.freeMemory_eq
  obtain ⟨after, hafter, ha⟩ := listed.freeMemory_eq
  have := hu.shrunk.total
  exact { hu with
    same := ht.same
    agrees := ht.restored ok
    listed := listed
    free := ⟨before, after, hbefore, hafter, by omega⟩
    source := fun p hp => ⟨(hu.source p hp).1, hu.persistable p hp⟩
    none_iff := hnone
    kept := hkept }

lemma Lost.congr (h : Lost M s gs c made left u) (same : u.Same t) (hm : t.mem = u.mem) :
    Lost M s gs c made left t := by
  have hall : Memory.Agrees (fun _ => True) u.mem t.mem := hm ▸ .refl _
  have listed : Listed t left := h.listed.agrees same hall fun _ _ => trivial
  obtain ⟨before, after, hbefore, hafter, hsum⟩ := h.free
  obtain ⟨after', hafter', ha'⟩ := listed.freeMemory_eq
  obtain ⟨after'', hafter'', ha''⟩ := h.listed.freeMemory_eq
  have he : after'' = after := Except.ok.inj (hafter''.symm.trans hafter)
  rw [he] at ha''
  exact { h with
    same := h.same.trans same
    agrees := hm ▸ h.agrees
    listed := listed
    free := ⟨before, after', hbefore, hafter', by omega⟩ }

/-- The store when a migration begins to count. -/
def begun (s : Store) : Store :=
  { s with persistent := { s.persistent with bytesCopied := 0, forwarded := [] } }

lemma Ok.begun_copied (ok : M.Ok s gs) : M.Copied s gs [] gs (begun s) where
  same := ⟨rfl, rfl, rfl, rfl, rfl, rfl⟩
  agrees := .refl _
  source _ hp := absurd hp not_mem_nil
  header _ hp := absurd hp not_mem_nil
  leads _ hp := absurd hp not_mem_nil
  gone c e hc he := (ok.gone c e hc he).1
  rest c hc hg _ := ok.stays c hc hg
  listed := ok.listed.agrees ⟨rfl, rfl, rfl, rfl, rfl, rfl⟩
    (Memory.Agrees.refl s.mem : Memory.Agrees (fun _ => True) s.mem s.mem) fun _ _ => trivial
  shrunk := .refl gs
  forwarded := rfl
  bytes := rfl
  distinct := .nil
  persistable _ hp := absurd hp not_mem_nil

lemma makePersistent_eq (ok : M.Ok s gs) (hc : c ∈ M.cells) (hg : M.gone c = none)
    (hr : s.ram.Has c.oop) (migrate : Bool) {r : Except Fault UInt32}
    (h : attempt (copyGraph c.oop) (begun s) = .ok r t) :
    makePersistent c.oop migrate s = conclude c.oop migrate r t := by
  have hstays := ok.stays c hc hg
  have h0 : c.oop ≠ 0 := fun h0 => by
    have := hstays.four_le
    rw [h0, UInt32.toNat_zero] at this
    omega
  have hneeds : needsCopy c.oop (begun s) = .ok true := by
    have := needsCopy_inside (u := begun s) ⟨ok.ordered.rom, ok.ordered.eeprom, ok.ordered.ram⟩ h0
      hr
      hstays
    rw [(ok.typed c hc).kind_aligned] at this
    exact this
  have hrequire : (liftM (require (c.oop != 0)) : Run Unit) s = .ok () s := by
    rw [bne_iff_ne.2 h0]
    rfl
  have hquery : (Ends.ofQuery (needsCopy c.oop) : Run Bool) (begun s) = .ok true (begun s) := by
    simp only [Ends.ofQuery, liftM, monadLift, MonadLift.monadLift, hneeds]
  unfold makePersistent
  rw [Run.bind_ok hrequire]
  refine (Run.bind_ok rfl).trans ((Run.bind_ok hquery).trans ?_)
  rw [if_neg (by decide), Run.bind_ok h]

lemma Made.conclude_ends (ok : M.Ok s gs) (h : Made M s gs c made left t) (oop : UInt32)
    (migrate : Bool) :
    Ends (conclude oop migrate (.ok 0)) t fun a u => a = 0 ∧ Lost M s gs c made left u := by
  refine .bind (h.1.restoreForwarded_ends ok) fun _ u hu => .say_bind fun log => .modify_bind ?_
  exact .pure ⟨rfl, (h.lost ok hu.1 hu.2).congr (Same.of_setPersistent u u.mem log _) rfl⟩

lemma conclude_yields (h0 : copy ≠ 0) (oop : UInt32) (migrate : Bool) :
    Yields (conclude oop migrate (.ok copy)) t fun a _ => a = copy := by
  rw [conclude, beq_eq_false_iff_ne.2 h0, if_neg Bool.false_ne_true]
  refine .ite (fun _ => ?_) fun _ => ?_
  all_goals
    refine .bind (fun _ _ _ => trivial) fun _ _ _ => .modify_bind ?_
    exact .get_bind (.say_bind fun _ => .pure rfl)

lemma Made.conclude_copy_ends (ok : M.Ok s gs) (h : Made M s gs c made left t) (h0 : copy ≠ 0)
    (oop : UInt32) : Ends (conclude oop false (.ok copy)) t fun a _ => a = copy := by
  rw [conclude, beq_eq_false_iff_ne.2 h0, if_neg Bool.false_ne_true, if_neg Bool.false_ne_true]
  refine .bind (h.1.restoreForwarded_ends ok) fun _ _ _ => .modify_bind ?_
  exact .get_bind (.say_bind fun _ => .pure rfl)

/-- Copying that fails takes from persistent memory what the copies made by then have, and nothing
else: not one byte if the object itself does not fit. Copying that does not fail gives the copy. -/
theorem failed_copy_costs_its_copies (ok : M.Ok s gs) (hc : c ∈ M.cells) (hg : M.gone c = none)
    (hr : s.ram.Has c.oop) (migrate : Bool) :
    (∃ u, (makePersistent c.oop migrate s = .ok 0 u ∨
        ∃ o n, makePersistent c.oop migrate s = .error (.fatal (.classNotPersistable o n)) u) ∧
      ∃ made left, Lost M s gs c made left u) ∨
    ∃ copy t, copyGraph c.oop (begun s) = .ok copy t ∧ copy ≠ 0 ∧
      (∀ a u, makePersistent c.oop migrate s = .ok a u → a = copy) ∧
      (migrate = false → ∃ u, makePersistent c.oop migrate s = .ok copy u) := by
  rcases ok.begun_copied.copyGraph_stops ok hc hg with
    ⟨copy, t, hrun, made, left, hmade⟩ | ⟨f, t, hrun, ⟨o, n, rfl⟩, made, left, hmade⟩
  · have heq := makePersistent_eq ok hc hg hr migrate (attempt_ok hrun)
    by_cases h0 : copy = 0
    · left
      subst h0
      obtain ⟨_, u, hend, rfl, hlost⟩ := hmade.conclude_ends ok c.oop migrate
      exact ⟨u, .inl (heq.trans hend), made, left, hlost⟩
    · right
      refine ⟨copy, t, hrun, h0, fun a u hau => ?_, ?_⟩
      · exact conclude_yields h0 c.oop migrate a u (heq ▸ hau)
      · rintro rfl
        obtain ⟨_, u, hend, rfl⟩ := hmade.conclude_copy_ends ok h0 c.oop
        exact ⟨u, heq.trans hend⟩
  · left
    have heq := makePersistent_eq ok hc hg hr migrate (attempt_error hrun rfl)
    obtain ⟨_, u, hrestore, hu, listed⟩ := hmade.1.restoreForwarded_ends ok
    refine ⟨u, .inr ⟨o, n, heq.trans (Run.bind_ok hrestore)⟩, made, left, hmade.lost ok hu listed⟩

/-! ### Persistent memory that has room for half of a graph -/

section

open Sample

/-- The words behind ROM: a free block of 16 bytes, and in RAM an array that refers to another. -/
def tightWords : List UInt32 := table
  [(8, [528]), (16, [7, 16]), (36, [0x020000c0, 624, 0, 0x01000100, 7])] 0 41

def tightStore : Store :=
  { store .sliding tightWords with
    eeprom := { start := 464, size := 80 }, ram := { start := 544, size := 84 } }

def tightGraph : Migration where
  cells := [array 612 2, integerArray 624 1]
  fixed := Sample.fixed
  gone _ := none

lemma tight_word (k : Nat) : tightStore.mem.peekWord (464 + 4 * k) = tightWords.getD k 0 :=
  peekWord_ram k

lemma tight_size : tightStore.mem.size = 628 := size_words.trans (by decide)

lemma tight_listed : Listed tightStore [⟨528, 16⟩] := by
  have hsize := tight_size
  refine ⟨rfl, ?_, by omega, tight_word 8, ⟨⟨rfl, rfl, by decide, ?_, ?_, fun _ => tight_word 17⟩,
    ?_, trivial⟩, ?_, ?_⟩
  · rw [hsize]
    decide
  · rw [hsize]
    decide
  · exact congrArg toNat (tight_word 16)
  · exact fun h hh => absurd hh not_mem_nil
  · intro g hg
    rw [mem_singleton.1 hg]
    decide
  · intro g hg
    rw [mem_singleton.1 hg]
    decide

lemma tight_touched {b : Nat} (h : touched tightStore [⟨528, 16⟩] b) : 464 ≤ b ∧ b < 544 := by
  rcases h with h | ⟨g, hg, h1, h2⟩
  · have : 464 + 32 ≤ b := h.1
    have : b < 464 + 36 := h.2
    omega
  · rw [mem_singleton.1 hg] at h1 h2
    have : 528 ≤ b := h1
    have : b < 528 + 16 := h2
    omega

lemma tight_ok : tightGraph.Ok tightStore [⟨528, 16⟩] := by
  have hsize := tight_size
  have hin : ∀ c ∈ tightGraph.cells, 608 ≤ c.start ∧ c.stop ≤ 628 := by decide
  have hcells : ∀ c ∈ tightGraph.cells, c = array 612 2 ∨ c = integerArray 624 1 := by
    intro c hc
    simpa [tightGraph] using hc
  constructor
  case recorded => exact ⟨rfl, by rw [hsize]; decide, by omega⟩
  case ordered => exact ⟨by decide, by decide, by decide⟩
  case listed => exact tight_listed
  case fixed_spared =>
    intro b hb
    have : b < 464 := hb
    refine ⟨fun ht => ?_, fun c hc => ?_⟩
    · have := tight_touched ht
      omega
    · have := (hin c hc).1
      rw [Cell.start] at this
      omega
  case clear =>
    intro c hc b hb _ ht
    have := tight_touched ht
    have := (hin c hc).1
    omega
  case stop_le =>
    intro c hc
    have := (hin c hc).2
    omega
  case apart =>
    intro c d hc hd
    rcases hcells c hc with rfl | rfl <;> rcases hcells d hd with rfl | rfl
    · exact .inl rfl
    · exact .inr (by decide)
    · exact .inr (by decide)
    · exact .inl rfl
  case typed =>
    intro c hc
    rcases hcells c hc with rfl | rfl
    · exact typed_array _ _
    · exact typed_integerArray _ _
  case number =>
    intro c hc
    rcases hcells c hc with rfl | rfl
    · exact ⟨_, fun m hm =>
        word_rom hm (k := 48) (by decide)⟩
    · exact ⟨_, fun m hm =>
        word_rom hm (k := 64) (by decide)⟩
  case state =>
    intro c hc n hn
    rcases hcells c hc with rfl | rfl <;> cases hn
  case stays =>
    intro c hc _
    rcases hcells c hc with rfl | rfl
    · exact ⟨rfl, by decide, by rw [hsize]; decide, by decide, by decide,
        congrArg toNat (tight_word 36), by decide⟩
    · exact ⟨rfl, by decide, by rw [hsize]; decide, by decide, by decide,
        congrArg toNat (tight_word 39), by decide⟩
  case gone => exact fun c e _ he => by cases he
  case legal =>
    intro c hc x hx hr
    rcases hcells c hc with rfl | rfl
    · obtain ⟨i, hi, -, rfl⟩ := hx
      have : i < 2 := hi
      have hword : (array 612 2).words tightStore.mem (4 * i) = tightWords.getD (37 + i) 0 := by
        show tightStore.mem.peekWord (612 + 4 * i) = _
        rw [show 612 + 4 * i = 464 + 4 * (37 + i) by omega]
        exact tight_word _
      rw [hword] at hr ⊢
      obtain rfl | rfl : i = 0 ∨ i = 1 := by omega
      · exact ⟨integerArray 624 1, by simp [tightGraph], rfl⟩
      · exact absurd hr (by decide)
    · obtain ⟨i, hi, -⟩ := hx
      exact absurd hi (Nat.not_lt_zero i)

theorem failed_copy_costs_its_copies_tight :
    tightGraph.Ok tightStore [⟨528, 16⟩] ∧ Fits [⟨528, 16⟩] (array 612 2) ∧
    ((∃ u, (makePersistent 612 true tightStore = .ok 0 u ∨
        ∃ o n, makePersistent 612 true tightStore =
          .error (.fatal (.classNotPersistable o n)) u) ∧
      ∃ made left, Lost tightGraph tightStore [⟨528, 16⟩] (array 612 2) made left u) ∨
    ∃ copy t, copyGraph 612 (begun tightStore) = .ok copy t ∧ copy ≠ 0 ∧
      (∀ a u, makePersistent 612 true tightStore = .ok a u → a = copy) ∧
      (true = false → ∃ u, makePersistent 612 true tightStore = .ok copy u)) := by
  refine ⟨tight_ok, ⟨⟨by decide, fun n hn => by cases hn⟩, ⟨528, 16⟩, List.mem_singleton_self _,
    by decide⟩, ?_⟩
  exact failed_copy_costs_its_copies (c := array 612 2) tight_ok (by simp [tightGraph]) rfl
    (by decide) true

end

end Migration

end DeviceVm.Persistent
