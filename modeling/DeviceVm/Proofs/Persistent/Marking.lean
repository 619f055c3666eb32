import DeviceVm.Collection.Persistent.Sweep
import DeviceVm.Proofs.Sample
import DeviceVm.Proofs.Tiling
import DeviceVm.Proofs.Tracing

/-!
Marking of persistent memory finds the objects that the roots and the objects in RAM lead to,
whatever room the guest lends for the mark stack. The array that is lent may be empty.
-/

namespace DeviceVm.Persistent

open UInt32 List Memory Header MarkStack Space Store Word

/-- A store to be marked: the persistent space with its objects, the range of RAM with its own, and
the memory that is lent to the mark stack. -/
structure Scene where
  space : Space
  cells : List Cell
  ram : Space
  young : List Cell
  /-- The persistent copy of an object in RAM that was migrated. -/
  gone : Cell → Option UInt32
  stack : UInt32
  stackSize : UInt32

namespace Scene

variable (S : Scene) (s : Store)

/-- The root `k` of persistent memory. -/
def persistentRoot (k : Nat) : UInt32 := s.mem.peekWord (s.eeprom.start.toNat + 4 * (k + 8))

/-- Where the marker starts: the roots of persistent memory other than the free list, the roots of
RAM, the references of objects in RAM, and the copies of those that were migrated. -/
inductive Source : UInt32 → Prop
  | persistentRoot {k : Nat} (hk : k < 8) (hf : k ≠ 0) : Source (persistentRoot s k)
  | root {k : Nat} (hk : k < 8) : Source (s.recorded (k + 8))
  | slot {c : Cell} {x : Nat} (hc : c ∈ S.young) (hg : S.gone c = none) (hx : c.Slot x) :
      Source (c.words s.mem x)
  | copy {c : Cell} {e : UInt32} (hc : c ∈ S.young) (hg : S.gone c = some e) : Source e

abbrev Live : Cell → Prop := Reached S.cells s.mem (S.Source s)

/-- A reference: to nothing, to an object of persistent memory, to an object in RAM or to
something in neither. -/
def Legal (v : UInt32) : Prop :=
  v = 0 ∨ (∃ c ∈ S.cells, c.oop = v) ∨ (∃ c ∈ S.young, c.oop = v) ∨
    (¬ s.eeprom.Has v ∧ ¬ s.ram.Has v)

/-- The persistent copy that a reference into RAM stands for. -/
def copyOf (v : UInt32) : Option UInt32 :=
  (S.young.find? fun c => c.oop == v).bind S.gone

/-- The persistent object that a reference means. It may go by an object in RAM that was
migrated. -/
def lead (v : UInt32) : Option UInt32 :=
  if v = 0 then none
  else if s.eeprom.Has v then (if S.space.has v then some v else none)
  else if s.ram.Has v then (S.copyOf v).filter S.space.has
  else none

/-- What the marker works on. -/
def graph : Graph where
  cells := S.cells
  origin := s
  range := s.bits.range
  bits a := s.bits.range.holds s.mem a
  base := S.stack.toNat
  capacity := S.stackSize.toNat / 4
  lead := S.lead s
  legal := S.Legal s
  live := S.Live s

/-- A store that is ready for marking. No object is at the very end of persistent memory. -/
structure Ok : Prop where
  recorded : s.Recorded
  ram_high : s.ram.start.toNat + s.ram.size.toNat ≤ s.mem.size
  eeprom_aligned : s.eeprom.start.toNat % 4 = 0
  eeprom_record : s.eeprom.start.toNat + 64 ≤ s.mem.size
  eeprom_high : s.eeprom.start.toNat + s.eeprom.size.toNat ≤ s.mem.size
  idle : s.bits.scan.active = false
  unused : s.marks.inUse = false
  mapped : s.bits.range.Mapped s.mem.size
  first : s.bits.range.first.toNat ≤ S.space.start.toNat + 4
  last : S.space.stop.toNat ≤ s.bits.range.last.toNat
  clear : ∀ a, a % 4 = 0 → S.space.start.toNat < a → a ≤ S.space.stop.toNat →
    s.bits.range.holds s.mem a = false
  stack_aligned : S.stack.toNat % 4 = 0
  stack_inside : S.stack.toNat + S.stackSize.toNat ≤ s.mem.size
  apart : ∀ b, s.bits.range.covers b →
    ¬ (S.stack.toNat ≤ b ∧ b < S.stack.toNat + S.stackSize.toNat)
  kept_record : ∀ b, s.ram.start.toNat ≤ b → b < s.ram.start.toNat + 64 → (S.graph s).kept b
  kept_eeprom : ∀ b, s.eeprom.start.toNat ≤ b → b < s.eeprom.start.toNat + 64 →
    (S.graph s).kept b
  start_aligned : S.space.start.toNat % 4 = 0
  stop_aligned : S.space.stop.toNat % 4 = 0
  start_le : S.space.start.toNat ≤ S.space.stop.toNat
  stop_le : S.space.stop.toNat ≤ s.mem.size
  spread : Spread S.space.start.toNat S.cells S.space.stop.toNat
  inside : ∀ c ∈ S.cells, c.oop.toNat % 4 = 0 ∧ s.eeprom.Has c.oop
  readable : ∀ c, S.Live s c → (S.graph s).Readable c
  tiles : Tiles S.ram.start.toNat S.young S.ram.stop.toNat
  tiles_high : S.ram.stop.toNat ≤ s.mem.size
  tiles_apart : S.space.stop.toNat ≤ S.ram.start.toNat ∨ S.ram.stop.toNat ≤ S.space.start.toNat
  stays : ∀ c ∈ S.young, S.gone c = none → (S.graph s).Readable c
  gone : ∀ c e, c ∈ S.young → S.gone c = some e →
    Holds s.mem c.oop (e + 2) c.count ∧ e.toNat % 4 = 0 ∧
      (∀ b, c.start ≤ b → b < c.oop.toNat → (S.graph s).kept b) ∧
      ∃ d ∈ S.cells, d.oop = e ∧ d.body = c.body
  persistentRoots : ∀ k < 8, k ≠ 0 → S.Legal s (persistentRoot s k)
  roots : ∀ k < 8, S.Legal s (s.recorded (k + 8))

end Scene

variable {S : Scene} {s t u : Store} {v : UInt32} {c d : Cell}

namespace Scene.Ok

/-! ### The graph -/

lemma has_cell (h : S.Ok s) (hc : c ∈ S.cells) : S.space.has c.oop = true := by
  have := h.spread.low hc
  have := h.spread.high hc
  have := c.head_cases
  exact Space.has_iff.2 ⟨by omega, by omega⟩

lemma oop_ne (h : S.Ok s) (hc : c ∈ S.cells) : c.oop ≠ 0 := by
  intro h0
  have := (Space.has_iff.1 (h.has_cell hc)).1
  rw [h0, UInt32.toNat_zero] at this
  omega

lemma lead_cell (h : S.Ok s) (hc : c ∈ S.cells) : S.lead s c.oop = some c.oop := by
  rw [lead, if_neg (h.oop_ne hc), if_pos (h.inside c hc).2, if_pos (h.has_cell hc)]

lemma find_eq (h : S.Ok s) (hc : c ∈ S.young) :
    S.young.find? (fun d => d.oop == c.oop) = some c := by
  cases hf : S.young.find? (fun d => d.oop == c.oop) with
  | none =>
    have := find?_eq_none.1 hf c hc
    simp at this
  | some d =>
    have hd := mem_of_find?_eq_some hf
    have he := find?_some hf
    rw [h.tiles.spread.eq_of_oop hd hc (by simpa using he)]

lemma not_has (h : S.Ok s) (hc : c ∈ S.young) : ¬ S.space.has c.oop = true := by
  intro hin
  have := has_iff.1 hin
  have := h.tiles.low hc
  have := h.tiles.high hc
  have := c.head_cases
  have := h.tiles_apart
  omega

lemma lead_cases (hl : S.lead s v = some d.oop) (hd : d ∈ S.cells) :
    v = d.oop ∨ S.Live s d := by
  rw [lead] at hl
  split at hl
  · cases hl
  split at hl
  · split at hl
    · exact .inl (Option.some.inj hl)
    · cases hl
  split at hl
  · obtain ⟨hcopy, _⟩ := Option.filter_eq_some_iff.1 hl
    obtain ⟨c, hf, hg⟩ := Option.bind_eq_some_iff.1 hcopy
    exact .inr (.source hd (.copy (mem_of_find?_eq_some hf) hg))
  · cases hl

lemma graph_ok (h : S.Ok s) : (S.graph s).Ok where
  __ := h
  small := h.recorded.small
  stack_inside := by
    have := h.stack_inside
    show S.stack.toNat + 4 * (S.stackSize.toNat / 4) ≤ s.mem.size
    omega
  apart b hb hc := by
    have hc' : S.stack.toNat ≤ b ∧ b < S.stack.toNat + 4 * (S.stackSize.toNat / 4) := hc
    exact h.apart b hb ⟨hc'.1, by omega⟩
  readable c _ hl := h.readable c hl
  spans c hc := by
    have := has_iff.1 (h.has_cell hc)
    have h2 := (h.inside c hc).1
    have := h.start_aligned
    have := h.first
    have := h.last
    refine ⟨h2, ?_, ?_⟩
    · show s.bits.range.first.toNat ≤ _
      omega
    · show _ ≤ s.bits.range.last.toNat
      omega
  distinct c hc d hd he := h.spread.eq_of_oop hc hd he
  few := by
    have := h.spread.length_le
    have := h.stop_le
    have := h.eeprom_record
    show S.cells.length < s.mem.size
    omega
  lead v hv a ha := by
    have ha' : S.lead s v = some a := ha
    rw [Scene.lead] at ha'
    split at ha'
    · cases ha'
    rename_i h0
    split at ha'
    · split at ha'
      · rename_i hin hhas
        cases ha'
        rcases hv with hv | hv | ⟨c, hc, rfl⟩ | hv
        · exact absurd hv h0
        · exact hv
        · exact absurd hhas (h.not_has hc)
        · exact absurd hin hv.1
      · cases ha'
    split at ha'
    · obtain ⟨hcopy, _⟩ := Option.filter_eq_some_iff.1 ha'
      obtain ⟨c, hf, hg⟩ := Option.bind_eq_some_iff.1 hcopy
      obtain ⟨_, _, _, d, hd, he, _⟩ := h.gone c a (mem_of_find?_eq_some hf) hg
      exact ⟨d, hd, he⟩
    · cases ha'
  closed c hc hl x hx d hd he := by
    rcases lead_cases he hd with he | hlive
    · exact .step hl hx hd he
    · exact hlive

/-! ### Reading while marking runs -/

lemma holds (h : S.Ok s) (hc : c ∈ S.young)
    (hm : Agrees (S.graph s).kept s.mem t.mem) :
    Holds t.mem c.oop (match S.gone c with | none => c.kind | some e => e + 2) c.count := by
  cases hg : S.gone c with
  | none => exact (h.stays c hc hg).holds hm
  | some e =>
    obtain ⟨hh, _, hkept, _⟩ := h.gone c e hc hg
    exact hh.agrees hm hkept

lemma tag (h : S.Ok s) (hc : c ∈ S.young) :
    (match S.gone c with | none => c.kind | some e => e + 2).toNat % 4 =
      if (S.gone c).isSome then 2 else 0 := by
  cases hg : S.gone c with
  | none => exact (h.stays c hc hg).typed.kind_aligned
  | some e =>
    obtain ⟨hh, h4, _⟩ := h.gone c e hc hg
    have h2 : (2 : UInt32).toNat = 2 := rfl
    show (e + 2).toNat % 4 = 2
    rw [UInt32.toNat_add, h2]
    omega

lemma isForwarded_eq (h : S.Ok s) (hc : c ∈ S.young)
    (hm : Agrees (S.graph s).kept s.mem t.mem) :
    isForwarded c.oop t.mem = .ok (S.gone c).isSome := by
  rw [(h.holds hc hm).isForwarded, h.tag hc]
  cases S.gone c <;> rfl

lemma forwardTarget_eq (h : S.Ok s) (hc : c ∈ S.young) {e : UInt32} (hg : S.gone c = some e)
    (hm : Agrees (S.graph s).kept s.mem t.mem) :
    forwardTarget c.oop t.mem = .ok e := by
  have hh := h.holds hc hm
  have ht := h.tag hc
  rw [hg] at hh ht
  rw [hh.forwardTarget ht, UInt32.add_sub_cancel]

lemma inRegion_eq (h : S.Ok s) (ha : s.Alike t) (v : UInt32) :
    inEeprom v t = .ok (decide (s.eeprom.Has v)) ∧ inRam v t = .ok (decide (s.ram.Has v)) := by
  have := h.ram_high
  have := h.eeprom_high
  have := h.recorded.small
  constructor
  · show t.eeprom.contains v = _
    rw [ha.eeprom]
    exact Region.contains_eq (by omega) v
  · show t.ram.contains v = _
    rw [ha.ram]
    exact Region.contains_eq (by omega) v

lemma follows (h : S.Ok s) : (marker S.space).Follows (S.graph s) := by
  intro trace t base index a post ha hm hr hp hpost
  have hlegal : S.Legal s (s.mem.peekWord a) := hr.legal
  have hpost' : Pursues trace t post (S.lead s (s.mem.peekWord a)) := hpost
  refine .read_bind (a := s.mem.peekWord a) (hr.word_eq hm hp) ?_
  generalize s.mem.peekWord a = v at hlegal hpost'
  rw [Scene.lead] at hpost'
  by_cases h0 : v = 0
  · rw [if_pos h0] at hpost'
    rw [if_neg (by simpa using h0)]
    exact .pure hpost'
  rw [if_neg h0] at hpost'
  rw [if_pos (by simpa using h0)]
  obtain ⟨he, hram⟩ := h.inRegion_eq ha v
  refine .query_bind he ?_
  by_cases hin : s.eeprom.Has v
  · rw [if_pos hin] at hpost'
    rw [if_pos (by simpa using hin), markObject]
    by_cases hhas : S.space.has v
    · rw [if_pos hhas] at hpost' ⊢
      exact hpost'
    · rw [if_neg hhas] at hpost' ⊢
      exact .pure hpost'
  rw [if_neg hin] at hpost'
  rw [if_neg (by simpa using hin)]
  refine .query_bind hram ?_
  by_cases hr' : s.ram.Has v
  · rw [if_pos hr'] at hpost'
    rw [if_pos (by simpa using hr')]
    obtain ⟨c, hc, rfl⟩ : ∃ c ∈ S.young, c.oop = v := by
      rcases hlegal with hv | ⟨c, hc, rfl⟩ | hv | hv
      · exact absurd hv h0
      · exact absurd (h.inside c hc).2 hin
      · exact hv
      · exact absurd hr' hv.2
    refine .read_bind (h.isForwarded_eq hc hm) ?_
    rw [copyOf, h.find_eq hc, Option.bind_some] at hpost'
    cases hg : S.gone c with
    | none =>
      rw [hg, Option.filter_none] at hpost'
      exact .pure hpost'
    | some e =>
      rw [hg, Option.filter_some] at hpost'
      rw [if_pos (by simp)]
      refine .read_bind (h.forwardTarget_eq hc hg hm) ?_
      rw [markObject]
      by_cases hhas : S.space.has e
      · rw [if_pos hhas] at hpost' ⊢
        exact hpost'
      · rw [if_neg hhas] at hpost' ⊢
        exact .pure hpost'
  · rw [if_neg hr'] at hpost'
    rw [if_neg (by simpa using hr')]
    exact .pure hpost'

/-! ### The sources -/

lemma source_live (hs : S.Source s v) (hd : d ∈ S.cells) (hl : S.lead s v = some d.oop) :
    S.Live s d := by
  rcases lead_cases hl hd with rfl | hlive
  · exact .source hd hs
  · exact hlive

lemma root_reference {start : UInt32} {k : Nat} (hk : k < 8)
    (h4 : start.toNat % 4 = 0) (hin : start.toNat + 64 ≤ s.mem.size)
    (hkept : ∀ b, start.toNat ≤ b → b < start.toNat + 64 → (S.graph s).kept b)
    (hl : S.Legal s (s.mem.peekWord (start.toNat + 4 * (k + 8))))
    (hs : S.Source s (s.mem.peekWord (start.toNat + 4 * (k + 8)))) :
    (S.graph s).Reference (start.toNat + 4 * (k + 8)) := by
  refine ⟨by omega, ?_, fun i hi => hkept _ (by omega) (by omega), hl,
    fun d hd hl => source_live hs hd hl⟩
  show _ ≤ s.mem.size
  omega

lemma persistentRoots_ends (h : S.Ok s) (ht : (S.graph s).Steady t) :
    Ends (Root.all.forM fun index => do
      if index != Root.freeList then
        (marker S.space).visit s.eeprom.start (SegmentRecord.roots + index)) t fun _ u =>
      (S.graph s).Advances t u ∧
        ∀ k < 8, k ≠ 0 → (S.graph s).Followed (s.eeprom.start.toNat + 4 * (k + 8)) u := by
  have := h.eeprom_record
  have := h.recorded.small
  refine ht.roots_ends h.graph_ok h.follows (by omega) fun k hk => ?_
  by_cases h0 : k = 0
  · subst h0
    exact .inl ⟨rfl, rfl⟩
  · have hne : (Int32.ofNat k != Root.freeList) = true := by
      revert k
      decide
    exact .inr ⟨if_pos hne, root_reference hk h.eeprom_aligned h.eeprom_record h.kept_eeprom
      (h.persistentRoots k hk h0) (.persistentRoot hk h0)⟩

lemma roots_ends (h : S.Ok s) (ht : (S.graph s).Steady t) :
    Ends (Root.all.forM fun index =>
      (marker S.space).visit s.ram.start (SegmentRecord.roots + index)) t fun _ u =>
      (S.graph s).Advances t u ∧
        ∀ k < 8, ¬ False → (S.graph s).Followed (s.ram.start.toNat + 4 * (k + 8)) u := by
  have := h.recorded.inside
  have := h.recorded.small
  exact ht.roots_ends h.graph_ok h.follows (by omega) fun k hk => .inr ⟨rfl,
    root_reference hk h.recorded.aligned h.recorded.inside h.kept_record (h.roots k hk) (.root hk)⟩

/-- What is known of an object in RAM when the walk has passed it. -/
def Passed (S : Scene) (s : Store) (c : Cell) (t : Store) : Prop :=
  (S.gone c = none → (S.graph s).Scanned t c) ∧
    ∀ e, S.gone c = some e → ∀ d ∈ S.cells, d.oop = e → (S.graph s).Marked t d

lemma Passed.mono (hm : ∀ c ∈ S.cells, (S.graph s).Marked t c → (S.graph s).Marked u c)
    (h : Passed S s c t) : Passed S s c u :=
  ⟨fun hg => (h.1 hg).mono hm, fun e hg d hd he => hm d hd (h.2 e hg d hd he)⟩

lemma markFromRam_ends (h : S.Ok s) {l : List Cell} {block : UInt32}
    (hl : Tiles block.toNat l S.ram.stop.toNat) (hsub : ∀ c ∈ l, c ∈ S.young)
    (ht : (S.graph s).Steady t) {fuel : Nat} (hfuel : l.length < fuel) :
    Ends (markFromRam S.space S.ram.stop fuel block) t fun _ u =>
      (S.graph s).Advances t u ∧ ∀ c ∈ l, Passed S s c u := by
  induction l generalizing t fuel block with
  | nil =>
    rcases fuel with _ | fuel
    · omega
    have : block.toNat = S.ram.stop.toNat := hl
    rw [markFromRam, if_neg fun hlt => by
      have := lt_iff_toNat_lt.1 hlt
      omega]
    exact .pure ⟨.refl ht, fun c hc => by cases hc⟩
  | cons c rest ih =>
    rcases fuel with _ | fuel
    · omega
    have hc := hsub c mem_cons_self
    have hm := ht.inv.agrees
    have := c.head_cases
    have := hl.high mem_cons_self
    have := h.tiles_high
    have := h.recorded.small
    have hoop := hl.1
    have hrest : Tiles (c.oop.toNat + c.body) rest S.ram.stop.toNat := by
      rw [hoop, Nat.add_assoc]
      exact hl.2
    have hobj : Block.toObject block t.mem = .ok c.oop :=
      (h.holds hc hm).toObject (by rw [h.tag hc]; split <;> omega) hoop.symm
    simp only [length_cons] at hfuel
    rw [markFromRam, if_pos (lt_iff_toNat_lt.2 (by omega))]
    refine .read_bind hobj (.read_bind (h.isForwarded_eq hc hm) ?_)
    have step : ∀ {len : UInt32} {u}, len.toNat = c.body → (S.graph s).Advances t u →
        Passed S s c u →
        Ends (do markFromRam S.space S.ram.stop fuel (← plus c.oop len)) u fun _ w =>
          (S.graph s).Advances t w ∧ ∀ d ∈ c :: rest, Passed S s d w := by
      intro len u hlen hu hp
      refine .except_bind (plus_eq (by omega)) ?_
      have hnext : (c.oop + len).toNat = c.oop.toNat + c.body := by
        rw [toNat_plus (by omega), hlen]
      refine (ih (hnext ▸ hrest) (fun d hd => hsub d (mem_cons_of_mem c hd)) hu.steady
        (by omega)).mono ?_
      rintro _ w ⟨hw, hall⟩
      refine ⟨hu.trans hw, fun d hd => ?_⟩
      rcases mem_cons.1 hd with rfl | hd
      · exact hp.mono hw.marked
      · exact hall d hd
    cases hg : S.gone c with
    | none =>
      have hread := h.stays c hc hg
      have hh := hread.holds hm
      rw [if_neg (by simp)]
      refine .read_bind (hh.classOf hread.typed.kind_aligned hread.typed.kind_ne) ?_
      have hleads : (S.graph s).Leads c := fun x hx d hd hl =>
        source_live (.slot hc hg hx) hd hl
      refine .bind (ht.scan_ends h.graph_ok h.follows hread hleads) ?_
      rintro _ u ⟨hu, hsc⟩
      have hhu := hread.holds hu.steady.inv.agrees
      obtain ⟨len, hlen, hbody⟩ := hread.typed.size _ _ _ hu.steady.inv.agrees hhu
      refine .read_bind hlen ?_
      refine step hbody hu ⟨fun _ => hsc, fun e he => ?_⟩
      rw [hg] at he
      cases he
    | some e =>
      obtain ⟨_, _, _, d, hd, rfl, hbody⟩ := h.gone c e hc hg
      have hlive : S.Live s d := .source hd (.copy hc hg)
      rw [if_pos (by simp)]
      refine .read_bind (h.forwardTarget_eq hc hg hm) ?_
      rw [markObject, if_pos (h.has_cell hd)]
      refine .bind (ht.mark_ends h.graph_ok h.follows hd hlive) ?_
      rintro _ u ⟨hu, hmark⟩
      have hread := h.readable d hlive
      have hhu := hread.holds hu.steady.inv.agrees
      obtain ⟨block', head, len, hext⟩ := hread.typed.extent hu.steady.inv.agrees hhu
      refine .read_bind hext.bodySize ?_
      refine step (hext.len_eq.trans hbody) hu ⟨fun hn => ?_, fun e he d' hd' he' => ?_⟩
      · rw [hg] at hn
        cases hn
      · rw [hg] at he
        cases he
        exact h.spread.eq_of_oop hd' hd he' ▸ hmark

lemma covers (h : S.Ok s) : (S.graph s).Covers S.space.start S.space.stop where
  before_aligned := h.start_aligned
  last_aligned := h.stop_aligned
  le := h.start_le
  low := h.first
  high := h.last
  cells c hc := has_iff.1 (h.has_cell hc)
  clean a hspan hlo hhi hb := by
    have hb' : s.bits.range.holds s.mem a = true := hb
    rw [h.clear a hspan.1 hlo hhi] at hb'
    cases hb'

lemma start_ends (h : S.Ok s) {rest : Run Unit} {post : Unit → Store → Prop}
    (hrest : ∀ t, (S.graph s).Steady t → t.bits.scan.active = false → Ends rest t post) :
    Ends (do
      let stackEnd ← plus S.stack S.stackSize
      updateMarks (·.setup S.stack stackEnd)
      rest) s post := by
  have := h.stack_inside
  have := h.recorded.small
  have hend : (S.stack + S.stackSize).toNat = S.stack.toNat + S.stackSize.toNat :=
    toNat_plus (by omega)
  have hle : S.stack ≤ S.stack + S.stackSize := le_iff_toNat_le.2 (by omega)
  have hsetup : s.marks.setup S.stack (S.stack + S.stackSize) = .ok { s.marks with
      inUse := true, base := S.stack, depth := 0
      capacity := (S.stack + S.stackSize - S.stack) / 4
      overflowed := false, level := recursionLevels } := by
    simp only [setup, h.unused, hle, Bool.not_false]
    rfl
  refine .except_bind (plus_eq (by omega)) (Graph.updateMarks_bind hsetup ?_)
  refine hrest _ (Graph.Fresh.steady ⟨rfl, rfl, ?_, rfl, rfl⟩ ((Alike.refl s).setMarks _)
    (.refl _) rfl (fun _ _ => rfl) fun c hc hm => ?_) h.idle
  · show ((S.stack + S.stackSize - S.stack) / 4).toNat = S.stackSize.toNat / 4
    rw [UInt32.toNat_div, toNat_minus (by omega), hend]
    congr 1
    omega
  · have hm' : s.bits.range.holds s.mem c.oop.toNat = true := hm
    have hin := has_iff.1 (h.has_cell hc)
    rw [h.clear _ (h.inside c hc).1 hin.1 hin.2] at hm'
    cases hm'

end Scene.Ok

/-- What marking comes to: in the space the bits of the live objects are set and no others, and
the mark stack is given back empty. -/
structure Scene.Marked (S : Scene) (s t : Store) : Prop where
  alike : s.Alike t
  agrees : Agrees (S.graph s).kept s.mem t.mem
  range : t.bits.range = s.bits.range
  idle : t.bits.scan.active = false
  exact : ∀ a, a % 4 = 0 → S.space.start.toNat < a → a ≤ S.space.stop.toNat →
    (s.bits.range.holds t.mem a = true ↔ ∃ c, S.Live s c ∧ c.oop.toNat = a)
  released : t.marks.inUse = false
  level : t.marks.level = recursionLevels
  empty : t.marks.depth = 0
  complete : t.marks.overflowed = false

lemma Scene.Ok.mark_ends (h : S.Ok s) :
    Ends (mark S.space S.ram S.stack S.stackSize) s fun _ t => S.Marked s t := by
  refine h.start_ends fun t ht hidle => ?_
  apply Ends.get_bind
  rw [show t.eeprom = s.eeprom from ht.inv.alike.eeprom]
  refine .bind (h.persistentRoots_ends ht) ?_
  rintro _ t1 ⟨h1, eroots⟩
  apply Ends.get_bind
  rw [show t1.ram = s.ram from h1.steady.inv.alike.ram]
  refine .bind (h.roots_ends h1.steady) ?_
  rintro _ t2 ⟨h2, roots⟩
  refine .read_bind (walkBound_eq _) ?_
  have hfuel : S.young.length < t2.mem.size + 1 := by
    have : t2.mem.size = s.mem.size := h2.steady.inv.size_eq
    have := h.tiles.spread.length_le
    have := h.tiles_high
    omega
  refine .bind (h.markFromRam_ends h.tiles (fun c hc => hc) h2.steady hfuel) ?_
  rintro _ t3 ⟨h3, passed⟩
  have hact : t3.bits.scan.active = false := by
    rw [h3.scan, h2.scan, h1.scan]
    exact hidle
  refine .bind (Graph.recover_ends h.graph_ok h.follows h.covers
    (fun s => .pure ⟨s.log, rfl⟩) h3.steady hact) ?_
  rintro _ t4 ⟨h4, mono4⟩
  have mono3 := fun d hd hm => mono4 d hd (h3.marked d hd hm)
  have hlive : ∀ c, S.Live s c → (S.graph s).Marked t4 c := by
    intro c hl
    refine h4.marked (fun d hd => h.lead_cell hd) (fun d hd hs => ?_) hl
    generalize hv : d.oop = v at hs
    have hlead : (S.graph s).lead v = some d.oop := hv ▸ h.lead_cell hd
    cases hs with
    | persistentRoot hk h0 => exact mono3 d hd (h2.marked d hd (eroots _ hk h0 d hd hlead))
    | root hk => exact mono3 d hd (roots _ hk not_false d hd hlead)
    | slot hc hg hx => exact (((passed _ hc).mono mono4).1 hg) _ hx d hd hlead
    | copy hc hg => exact ((passed _ hc).mono mono4).2 _ hg d hd hv
  have hfinish : t4.marks.finish = .ok { t4.marks with inUse := false } := by
    simp only [finish, h4.inv.inUse]
    rfl
  refine Graph.updateMarks_ends hfinish ?_
  exact { h4.inv with
    alike := h4.inv.alike.setMarks _
    idle := h4.idle
    exact := fun _ => h4.exact h.covers hlive
    released := rfl
    level := UInt32.toNat_inj.1 h4.inv.level
    empty := UInt32.toNat_inj.1 h4.inv.depth
    complete := h4.kept_all }

end DeviceVm.Persistent

/-! ### A heap with persistent objects -/

namespace DeviceVm.Persistent

open List Sample Cell BitRange

/-- An array in RAM and one of integers that was migrated; the copy in persistent memory, an array,
and two arrays of integers of which the second is garbage. -/
def sampleRam : List UInt32 := table [
  (12, [532]), (16, [0x020000c0, 544, 624]), (19, [0x0100026a, 7]), (37, [0x01000100, 7]),
  (39, [0x010000c0, 632]), (41, [0x01000100, 1]), (43, [0x01000100, 2])] 0 48

def sampleStore : Store := { store .sliding sampleRam with
  ram := { start := 464, size := 84 }
  eeprom := { start := 548, size := 100 }
  bits := { range := { base := 632, first := 512, last := 644 } } }

def sampleCells : List Cell :=
  [integerArray 616 1, array 624 1, integerArray 632 1, integerArray 640 1]

def sampleScene : Scene where
  space := { start := 612, stop := 644 }
  cells := sampleCells
  ram := { start := 528, stop := 548 }
  young := [array 532 2, integerArray 544 1]
  gone c := if c.oop = 544 then some 616 else none
  stack := 656
  stackSize := 0

lemma sample_recorded {j : Nat} : sampleStore.recorded j = sampleRam.getD j 0 := peekWord_ram j

lemma sample_size : sampleStore.mem.size = 656 := size_words.trans (by decide)

lemma sample_kept {b : Nat} (hb : b < 648) : (sampleScene.graph sampleStore).kept b := by
  refine ⟨fun h => ?_, fun h => ?_⟩
  · have : 648 ≤ b := h.1
    omega
  · have : 656 ≤ b := h.1
    omega

lemma sample_legal {v : UInt32} (hv : v ∈ ([0, 532, 544, 624, 632] : List UInt32)) :
    sampleScene.Legal sampleStore v := by
  have h : v = 0 ∨ v ∈ sampleScene.cells.map oop ∨
      v ∈ sampleScene.young.map oop := by
    simp only [mem_cons, not_mem_nil, or_false] at hv
    rcases hv with rfl | rfl | rfl | rfl | rfl <;> decide
  rcases h with h0 | hm | hm
  · exact .inl h0
  · exact .inr (.inl (mem_map.1 hm))
  · exact .inr (.inr (.inl (mem_map.1 hm)))

lemma sample_typed {c : Cell} (hc : c ∈ array 532 2 :: sampleCells) :
    c.Typed fixed (.ofWords (rom ++ sampleRam)) := by
  revert c
  simp [sampleCells]

lemma sample_readable {c : Cell} (hc : c ∈ array 532 2 :: sampleCells) :
    (sampleScene.graph sampleStore).Readable c := by
  have h : ∀ c ∈ array 532 2 :: sampleCells,
      c.stop ≤ 648 ∧ Plain sampleRam [0, 532, 544, 624, 632] c := by decide
  obtain ⟨hstop, plain⟩ := h c hc
  have : c.oop.toNat ≤ c.stop := Nat.le_add_right _ _
  exact readable rfl plain (sample_typed hc) (fun b hb => sample_kept (by omega))
    (fun b _ hb => sample_kept (by omega)) (fun _ b _ hb => sample_kept (by omega))
    fun v => sample_legal

lemma sample_gone {c : Cell} {e : UInt32} (hc : c ∈ sampleScene.young)
    (he : sampleScene.gone c = some e) : c = integerArray 544 1 ∧ e = 616 := by
  simp only [sampleScene, mem_cons, not_mem_nil, or_false] at hc
  rcases hc with rfl | rfl
  · cases (show none = some e from he)
  · exact ⟨rfl, (Option.some.inj he).symm⟩

lemma sample_ok : sampleScene.Ok sampleStore := by
  have hw : ∀ k, sampleStore.mem.peekWord (464 + 4 * k) = sampleRam.getD k 0 := peekWord_ram
  have hsize := sample_size
  constructor
  case recorded => exact ⟨by decide, by rw [hsize]; decide, by rw [hsize]; decide⟩
  case idle => rfl
  case unused => rfl
  case mapped => exact ⟨by decide, by decide, by rw [hsize]; decide, by rw [hsize]; decide⟩
  case clear =>
    intro a _ hlo hhi
    have h1 : 612 < a := hlo
    have h2 : a ≤ 644 := hhi
    have hword : sampleStore.bits.range.wordOf a = 464 + 4 * 46 ∨
        sampleStore.bits.range.wordOf a = 464 + 4 * 47 := by
      have : sampleStore.bits.range.wordOf a = 632 + a / 128 * 4 := rfl
      omega
    rcases hword with h | h
    all_goals
      rw [holds, h, hw]
      exact Nat.zero_testBit _
  case apart =>
    rintro b _ ⟨h1, h2⟩
    exact absurd (Nat.lt_of_le_of_lt h1 h2) (Nat.lt_irrefl _)
  case kept_record => exact fun b _ hb => sample_kept (Nat.lt_of_lt_of_le hb (by decide))
  case kept_eeprom => exact fun b _ hb => sample_kept (Nat.lt_of_lt_of_le hb (by decide))
  case spread => decide
  case inside => decide
  case readable => exact fun c hc => sample_readable (mem_cons_of_mem _ hc.mem)
  case tiles => decide
  case stays =>
    intro c hc hg
    simp only [sampleScene, mem_cons, not_mem_nil, or_false] at hc
    rcases hc with rfl | rfl
    · exact sample_readable mem_cons_self
    · exact absurd hg (by decide)
  case gone =>
    intro c e hc he
    obtain ⟨rfl, rfl⟩ := sample_gone hc he
    refine ⟨?_, by decide, fun b _ hb => sample_kept (Nat.lt_of_lt_of_le hb (by decide)), ?_⟩
    · exact Laid.holds (c := { integerArray 544 1 with kind := 618 }) (by decide)
    · exact ⟨integerArray 616 1, by simp [sampleScene, sampleCells], rfl, rfl⟩
  case persistentRoots =>
    intro k hk _
    have h : ∀ k < 8, sampleRam.getD (k + 29) 0 = 0 := by decide
    have ha : sampleStore.eeprom.start.toNat + 4 * (k + 8) = 464 + 4 * (k + 29) := by
      show 548 + 4 * (k + 8) = _
      omega
    refine .inl ?_
    rw [Scene.persistentRoot, ha, hw, h k hk]
  case roots =>
    intro k hk
    have h : ∀ k < 8, sampleRam.getD (k + 8) 0 ∈ ([0, 532, 544, 624, 632] : List UInt32) := by
      decide
    rw [sample_recorded]
    exact sample_legal (h k hk)
  case ram_high => rw [hsize]; decide
  case eeprom_record => rw [hsize]; decide
  case eeprom_high => rw [hsize]; decide
  case stack_inside => rw [hsize]; decide
  case stop_le => rw [hsize]; decide
  case tiles_high => rw [hsize]; decide
  all_goals decide

end DeviceVm.Persistent
