import DeviceVm.Collection.Sliding.Marking
import DeviceVm.Proofs.Sample
import DeviceVm.Proofs.Tiling
import DeviceVm.Proofs.Tracing
import Mathlib.Data.List.Perm.Subperm

/-!
Marking for the sliding collector finds the objects of the space that the roots, the recorded
stores and the listed chunks lead to, whatever room there is for the mark stack.
-/

namespace DeviceVm

open List Memory UInt32 Cell Query

/-- The stack chunks of the list that starts with a reference. Each names the next one. -/
inductive Listed (m : Memory) : UInt32 → List Cell → Prop
  | nil : Listed m 0 []
  | cons {c : Cell} {rest : List Cell} (ne : c.oop ≠ 0) (next : Listed m (c.words m 0) rest) :
      Listed m c.oop (c :: rest)

namespace Listed

variable {m : Memory} {v : UInt32} {c : Cell} {l l' : List Cell}

lemma length_unique (h : Listed m v l) (h' : Listed m v l') : l.length = l'.length := by
  induction h generalizing l' with
  | nil =>
    generalize hv : (0 : UInt32) = v at h'
    cases h' with
    | nil => rfl
    | cons ne => exact absurd hv.symm ne
  | @cons c rest ne next ih =>
    generalize hv : c.oop = w at h'
    cases h' with
    | nil => exact absurd hv ne
    | @cons d rest' _ next' =>
      rw [words, hv] at ih
      simp only [length_cons, ih next']

lemma nodup (h : Listed m v l) : (l.map oop).Nodup := by
  have tail : ∀ {v l o}, Listed m v l → o ∈ l.map oop →
      ∃ l', Listed m o l' ∧ l'.length ≤ l.length := by
    intro v l o h ho
    induction h with
    | nil => cases ho
    | @cons d rest ne next ih =>
      rcases mem_cons.1 ho with rfl | ho
      · exact ⟨_, .cons ne next, Nat.le_refl _⟩
      · obtain ⟨l', hl, hlen⟩ := ih ho
        exact ⟨l', hl, by simp only [length_cons]; omega⟩
  induction h with
  | nil => exact nodup_nil
  | @cons c rest ne next ih =>
    refine nodup_cons.2 ⟨fun ho => ?_, ih⟩
    obtain ⟨l', hl, hlen⟩ := tail next ho
    have := length_unique hl (.cons ne next)
    simp only [length_cons] at this
    omega

lemma length_le (h : Listed m v l) {n : Nat} (hn : ∀ c ∈ l, c.oop.toNat < n) :
    l.length ≤ n := by
  have hs : ((l.map oop).map toNat).Nodup :=
    List.Pairwise.map _ (fun _ _ hne he => hne (UInt32.toNat_inj.1 he)) h.nodup
  have hsub : (l.map oop).map toNat ⊆ range n := by
    intro o ho
    simp only [mem_map] at ho
    obtain ⟨_, ⟨c, hc, rfl⟩, rfl⟩ := ho
    exact mem_range.2 (hn c hc)
  simpa using (subperm_of_subset hs hsub).length_le

end Listed

namespace Sliding

open Store Word

/-- The start of the heap. -/
def low (s : Store) : Nat := (s.recorded 0).toNat

/-- The end of the heap, behind which there is the reserve of the mark stack. -/
def high (s : Store) : Nat := (s.recorded 0).toNat + (s.recorded 1).toNat

/-- The space that is collected with its objects, the older objects below it and the chunks in the
list of chunks. -/
structure Scene where
  space : Space
  cells : List Cell
  others : List Cell
  chunks : List Cell

namespace Scene

variable (S : Scene) (s : Store)

/-- The address of a recorded store into an older object. -/
structure Field (a : Nat) : Prop where
  aligned : a % 4 = 0
  low : low s < a
  high : a ≤ S.space.start.toNat
  set : s.bits.range.holds s.mem a = true

/-- Where marking starts: the roots other than the table of associations, the recorded stores and
the references of the chunks in the list. -/
inductive Source : UInt32 → Prop
  | root {k : Nat} (hk : k < 8) (ha : k ≠ 6) : Source (s.recorded (k + 8))
  | field {a : Nat} (h : S.Field s a) : Source (s.mem.peekWord a)
  | chunk {c : Cell} {x : Nat} (hc : c ∈ S.chunks) (hx : c.Slot x) : Source (c.words s.mem x)

abbrev Live : Cell → Prop := Reached S.cells s.mem (S.Source s)

/-- A reference: to nothing, out of RAM or to an object. -/
def Legal (v : UInt32) : Prop :=
  v = 0 ∨ ¬ s.ram.Has v ∨ ∃ c ∈ S.cells ++ S.others, c.oop = v

/-- What marking works on. The mark stack is between the objects and the bitmap. -/
def graph : Graph where
  cells := S.cells
  origin := s
  range := s.bits.range
  bits a := if S.space.start.toNat < a ∧ a ≤ S.space.stop.toNat then false
    else s.bits.range.holds s.mem a
  base := S.space.stop.toNat
  capacity := (high s + 20 - S.space.stop.toNat) / 4
  lead v := if S.space.has v then some v else none
  legal := S.Legal s
  live := S.Live s

/-- A store that is ready for marking. -/
structure Ok : Prop where
  recorded : s.Recorded
  ram_high : s.ram.start.toNat + s.ram.size.toNat ≤ s.mem.size
  record_low : s.ram.start.toNat + 64 ≤ low s
  high_ram : high s + 20 ≤ s.ram.start.toNat + s.ram.size.toNat
  idle : s.bits.scan.active = false
  unused : s.marks.inUse = false
  mapped : s.bits.range.Mapped s.mem.size
  first : s.bits.range.first.toNat ≤ low s
  last : s.bits.range.last.toNat = high s
  bitmap : ∀ b, s.bits.range.covers b → high s + 20 ≤ b
  low_aligned : low s % 4 = 0
  high_aligned : high s % 4 = 0
  start_aligned : S.space.start.toNat % 4 = 0
  stop_aligned : S.space.stop.toNat % 4 = 0
  low_le : low s ≤ S.space.start.toNat
  start_le : S.space.start.toNat ≤ S.space.stop.toNat
  stop_le : S.space.stop.toNat ≤ high s
  spread : Spread S.space.start.toNat S.cells S.space.stop.toNat
  others_below : ∀ c ∈ S.others, c.oop.toNat ≤ S.space.start.toNat
  /-- No object was forwarded, so that a reference to a migrated object is not among those
  described. -/
  header : ∀ c ∈ S.cells ++ S.others,
    Header.Holds s.mem c.oop c.kind c.count ∧ c.kind.toNat % 4 = 0
  readable : ∀ c, S.Live s c → (S.graph s).Readable c
  roots : ∀ k < 8, k ≠ 6 → S.Legal s (s.recorded (k + 8))
  fields : ∀ a, S.Field s a → a + 4 ≤ S.space.start.toNat ∧ S.Legal s (s.mem.peekWord a)
  listed : Listed s.mem (s.recorded 10) S.chunks
  chunks : ∀ c ∈ S.chunks, c.isChunk ∧ (S.graph s).Readable c ∧ c ∈ S.cells ++ S.others

variable {S s} in
lemma Ok.bounds (h : S.Ok s) :
    (s.ram.start.toNat + 64 ≤ low s ∧ s.bits.range.first.toNat ≤ low s) ∧
      (low s ≤ S.space.start.toNat ∧ S.space.start.toNat ≤ S.space.stop.toNat) ∧
      S.space.stop.toNat ≤ high s ∧ high s + 20 ≤ s.ram.start.toNat + s.ram.size.toNat ∧
      s.ram.start.toNat + s.ram.size.toNat ≤ s.mem.size :=
  ⟨⟨h.record_low, h.first⟩, ⟨h.low_le, h.start_le⟩, h.stop_le, h.high_ram, h.ram_high⟩

end Scene

variable {S : Scene} {s t u : Store} {v : UInt32} {c d : Cell}

namespace Scene.Ok

/-! ### The graph -/

section

variable (h : S.Ok s)
include h

lemma capacity_eq : S.space.stop.toNat + 4 * (S.graph s).capacity = high s + 20 := by
  have := h.stop_aligned
  have := h.high_aligned
  have := h.stop_le
  show S.space.stop.toNat + 4 * ((high s + 20 - S.space.stop.toNat) / 4) = _
  omega

lemma kept_iff {b : Nat} : (S.graph s).kept b ↔
      ¬ s.bits.range.covers b ∧ ¬ (S.space.stop.toNat ≤ b ∧ b < high s + 20) := by
  rw [Graph.kept, ← h.capacity_eq]
  rfl

lemma kept_below {b : Nat} (hb : b < S.space.stop.toNat) : (S.graph s).kept b := by
  rw [h.kept_iff]
  have := h.stop_le
  exact ⟨fun hc => by have := h.bitmap b hc; omega, fun hc => by omega⟩

lemma has_ram (hv : S.space.has v = true) : s.ram.Has v := by
  have := Space.has_iff.1 hv
  have := h.bounds
  exact ⟨by omega, by omega⟩

lemma has_cell (hc : c ∈ S.cells) : S.space.has c.oop = true := by
  have := h.spread.low hc
  have := h.spread.high hc
  have := c.head_cases
  exact Space.has_iff.2 ⟨by omega, by omega⟩

lemma cell_of_has (hc : c ∈ S.cells ++ S.others) (hv : S.space.has c.oop = true) :
    c ∈ S.cells := by
  rcases mem_append.1 hc with hc | hc
  · exact hc
  · have := h.others_below c hc
    have := (Space.has_iff.1 hv).1
    omega

lemma spans (hc : c ∈ S.cells) : s.bits.range.Spans c.oop.toNat := by
  have := Space.has_iff.1 (h.has_cell hc)
  have h2 := (h.header c (mem_append_left _ hc)).1.aligned
  have := h.bounds
  have := h.last
  exact ⟨h2, by omega, by omega⟩

lemma graph_ok : (S.graph s).Ok where
  small := h.recorded.small
  mapped := h.mapped
  stack_aligned := h.stop_aligned
  stack_inside := by
    have := h.capacity_eq
    have := h.high_ram
    have := h.ram_high
    show S.space.stop.toNat + 4 * (S.graph s).capacity ≤ s.mem.size
    omega
  apart b hb hc := by
    have := h.capacity_eq
    have := h.bitmap b hb
    have : b < S.space.stop.toNat + 4 * (S.graph s).capacity := hc.2
    omega
  readable c _ hl := h.readable c hl
  spans c hc := h.spans hc
  distinct c hc d hd he := h.spread.eq_of_oop hc hd he
  few := by
    have := h.spread.length_le
    have := h.stop_le
    have := h.high_ram
    have := h.ram_high
    show S.cells.length < s.mem.size
    omega
  lead v hv a ha := by
    have ha' : (if S.space.has v then some v else none) = some a := ha
    split at ha'
    · rename_i hin
      cases ha'
      rcases hv with rfl | hv | ⟨c, hc, rfl⟩
      · simp [Space.has] at hin
      · exact absurd (h.has_ram hin) hv
      · exact ⟨c, h.cell_of_has hc hin, rfl⟩
    · cases ha'
  closed c hc hl x hx d hd he := by
    have he' : (if S.space.has (c.words s.mem x) then some (c.words s.mem x) else none) =
        some d.oop := he
    split at he'
    · exact .step hl hx hd (Option.some.inj he')
    · cases he'

lemma holds (hc : c ∈ S.cells ++ S.others) (hm : Agrees (S.graph s).kept s.mem t.mem) :
    Header.Holds t.mem c.oop c.kind c.count := by
  have hh := (h.header c hc).1
  have : c.oop.toNat ≤ S.space.stop.toNat := by
    rcases mem_append.1 hc with hc | hc
    · exact (Space.has_iff.1 (h.has_cell hc)).2
    · have := h.others_below c hc
      have := h.start_le
      omega
  exact hh.agrees hm fun b _ hb => h.kept_below (by omega)

lemma isMigrated_eq (ha : s.Alike t) (hm : Agrees (S.graph s).kept s.mem t.mem)
    (hv : S.Legal s v) (h0 : v ≠ 0) : isMigrated v t = .ok false := by
  have hram : t.ram.start.toNat + t.ram.size.toNat < 4294967296 := by
    have := h.ram_high
    have := h.recorded.small
    rw [ha.ram]
    omega
  rw [isMigrated, bind_ok (inRam_eq hram v), ha.ram]
  by_cases hin : s.ram.Has v
  · rw [if_pos (by simpa using hin)]
    rcases hv with hv | hv | ⟨c, hc, rfl⟩
    · exact absurd hv h0
    · exact absurd hin hv
    · have hf := (h.holds hc hm).isForwarded
      rw [(h.header c hc).2] at hf
      exact hf
  · rw [if_neg (by simpa using hin)]
    rfl

lemma follows : (marker S.space).Follows (S.graph s) := by
  intro trace t base index a post ha hm hr hp hpost
  have hlegal : S.Legal s (s.mem.peekWord a) := hr.legal
  have hpost' : Pursues trace t post
      (if S.space.has (s.mem.peekWord a) then some (s.mem.peekWord a) else none) := hpost
  refine .read_bind (a := s.mem.peekWord a) (hr.word_eq hm hp) ?_
  generalize s.mem.peekWord a = v at hlegal hpost'
  by_cases h0 : v = 0
  · subst h0
    exact .pure hpost'
  rw [if_pos (by simpa using h0)]
  refine .query_bind (h.isMigrated_eq ha hm hlegal h0) ?_
  rw [if_neg Bool.false_ne_true, markObject]
  by_cases hin : S.space.has v
  · rw [if_pos hin] at hpost' ⊢
    exact hpost'
  · rw [if_neg hin] at hpost' ⊢
    exact .pure hpost'

/-! ### The sources -/

lemma bitmapAddress_eq : ∃ stop, bitmapAddress s = .ok stop ∧ stop.toNat = high s + 20 := by
  have h1 := h.high_ram
  have := h.ram_high
  have := h.recorded.small
  have h20 : stackReserve.toNat = 20 := rfl
  rw [high] at h1
  have hsum : (s.recorded 0 + s.recorded 1).toNat = high s := toNat_plus (by omega)
  refine ⟨s.recorded 0 + s.recorded 1 + stackReserve, ?_, ?_⟩
  · rw [bitmapAddress, bind_ok (h.recorded.memoryEnd_eq (by omega))]
    exact plus_eq (by rw [hsum, high, h20]; omega)
  · rw [toNat_plus (by rw [hsum, high, h20]; omega), hsum, h20]

lemma start_ends {rest : Run Unit} {post : Unit → Store → Prop}
    (hrest : ∀ t, (S.graph s).Steady t → t.bits.scan.active = false → Ends rest t post) : Ends (do
      let stop ← bitmapAddress
      updateMarks (·.setup S.space.stop stop)
      clearBits S.space.start S.space.stop
      rest) s post := by
  obtain ⟨stop, hstop, hstopn⟩ := h.bitmapAddress_eq
  have h1 := h.stop_le
  have hle : S.space.stop ≤ stop := le_iff_toNat_le.2 (by omega)
  refine .query_bind hstop ?_
  have hsetup : s.marks.setup S.space.stop stop = .ok { s.marks with
      inUse := true, base := S.space.stop, depth := 0, capacity := (stop - S.space.stop) / 4
      overflowed := false, level := MarkStack.recursionLevels } := by
    simp only [MarkStack.setup, h.unused, hle, Bool.not_false]
    rfl
  refine Graph.updateMarks_bind hsetup ?_
  obtain ⟨n, hn, hc⟩ := h.mapped.lies.clearRange_ok h.start_aligned h.stop_aligned h.start_le
    (by have := h.first; have := h.low_le; omega) (by rw [h.last]; exact h1)
  refine .next (.get_bind (.edit hn ?_))
  have hcells : ∀ c ∈ S.cells, s.bits.range.holds n c.oop.toNat = false := by
    intro c hc'
    have hin := Space.has_iff.1 (h.has_cell hc')
    have h4 := (h.spans hc').1
    have := h.start_aligned
    rw [hc.holds _ h4, decide_eq_true (by omega : S.space.start.toNat + 4 ≤ c.oop.toNat),
      decide_eq_true hin.2]
    rfl
  refine hrest _ (Graph.Fresh.steady ⟨rfl, rfl, ?_, rfl, rfl⟩ ?_ ⟨hc.size, hc.order, ?_⟩ rfl ?_ ?_)
    h.idle
  · have hsub : (stop - S.space.stop).toNat = high s + 20 - S.space.stop.toNat := by
      rw [toNat_minus (by omega), hstopn]
    show ((stop - S.space.stop) / 4).toNat = (high s + 20 - S.space.stop.toNat) / 4
    rw [UInt32.toNat_div, hsub]
    rfl
  · exact ((Alike.refl s).setMarks _).setMem n
  · exact fun b hb => hc.peek b hb.1
  · intro a ha
    show s.bits.range.holds n a = if _ then false else _
    have := h.start_aligned
    rw [hc.holds a ha.1]
    by_cases hin : S.space.start.toNat < a ∧ a ≤ S.space.stop.toNat
    · have := ha.1
      rw [if_pos hin, decide_eq_true (by omega : S.space.start.toNat + 4 ≤ a),
        decide_eq_true hin.2]
      rfl
    · rw [if_neg hin]
      by_cases hlow : S.space.start.toNat + 4 ≤ a
      · rw [decide_eq_false (by omega : ¬ a ≤ S.space.stop.toNat)]
        simp
      · rw [decide_eq_false hlow]
        rfl
  · intro c hm hmc
    have hmc' : s.bits.range.holds n c.oop.toNat = true := hmc
    rw [hcells c hm] at hmc'
    cases hmc'

lemma lead_eq (hd : d ∈ S.cells) : (S.graph s).lead d.oop = some d.oop := by
  show (if S.space.has d.oop then some d.oop else none) = _
  rw [if_pos (h.has_cell hd)]

end

lemma source_live (hs : S.Source s v) (hd : d ∈ S.cells)
    (hl : (S.graph s).lead v = some d.oop) : S.Live s d := by
  have hl' : (if S.space.has v then some v else none) = some d.oop := hl
  split at hl'
  · cases hl'
    exact .source hd hs
  · cases hl'

lemma root_reference (h : S.Ok s) {k : Nat} (hk : k < 8) (ha : k ≠ 6) :
    (S.graph s).Reference (s.ram.start.toNat + 4 * (k + 8)) := by
  have := h.recorded.aligned
  have := h.bounds
  refine ⟨by omega, ?_, fun i hi => h.kept_below (by omega), h.roots k hk ha, ?_⟩
  · show _ ≤ s.mem.size
    omega
  · exact fun d hd hl => source_live (.root hk ha) hd hl

lemma field_reference (h : S.Ok s) {a : Nat} (ha : S.Field s a) : (S.graph s).Reference a := by
  obtain ⟨hle, hlegal⟩ := h.fields a ha
  have := h.bounds
  refine ⟨ha.aligned, ?_, fun i hi => h.kept_below (by omega), hlegal, ?_⟩
  · show _ ≤ s.mem.size
    omega
  · exact fun d hd hl => source_live (.field ha) hd hl

lemma roots_ends (h : S.Ok s) (ht : (S.graph s).Steady t) :
    Ends (Root.all.forM fun index => do
      if index != Root.associations then
        (marker S.space).visit s.ram.start (SegmentRecord.roots + index)) t fun _ u =>
      (S.graph s).Advances t u ∧
        ∀ k < 8, k ≠ 6 → (S.graph s).Followed (s.ram.start.toNat + 4 * (k + 8)) u := by
  have := h.recorded.inside
  have := h.recorded.small
  refine ht.roots_ends h.graph_ok h.follows (by omega) fun k hk => ?_
  rw [Root.bne_associations hk]
  by_cases h6 : k = 6
  · subst h6
    exact .inl ⟨rfl, rfl⟩
  · exact .inr ⟨if_pos (by simpa using h6), h.root_reference hk h6⟩

lemma recorded_of (h : S.Ok s) (hal : t.ram = s.ram)
    (hm : Agrees (S.graph s).kept s.mem t.mem) :
    t.Recorded ∧ ∀ j < 16, t.recorded j = s.recorded j := by
  refine ⟨⟨?_, ?_, ?_⟩, fun j hj => ?_⟩
  · rw [hal]
    exact h.recorded.aligned
  · rw [hal, hm.size]
    exact h.recorded.inside
  · rw [hm.size]
    exact h.recorded.small
  · have := h.bounds
    rw [Store.recorded, hal]
    exact hm.peekWord _ fun i hi => h.kept_below (by omega)

lemma recorded_eq (h : S.Ok s) (ht : (S.graph s).Inv [] 2 t) :
    t.Recorded ∧ ∀ j < 16, t.recorded j = s.recorded j :=
  h.recorded_of ht.alike.ram ht.agrees

lemma markRecorded_ends (h : S.Ok s) (ht : (S.graph s).Steady t) {addr : UInt32}
    (ha : S.Field s addr.toNat) :
    Ends (markRecorded S.space addr) t fun _ u =>
      (S.graph s).Advances t u ∧ (S.graph s).Followed addr.toNat u := by
  have hr := h.field_reference ha
  have := ht.inv.size_eq
  have := hr.inside
  have hword : wordAt addr t.mem = .ok (s.mem.peekWord addr.toNat) := by
    rw [wordAt_eq hr.aligned (by omega),
      ht.inv.agrees.peekWord _ fun i hi => hr.kept i hi]
    rfl
  refine .read_bind hword ?_
  by_cases h0 : s.mem.peekWord addr.toNat = 0
  · rw [if_neg (by simpa using h0)]
    refine .pure ⟨.refl ht, fun d hd hl => ?_⟩
    have hl' : (if S.space.has (s.mem.peekWord addr.toNat) then
      some (s.mem.peekWord addr.toNat) else none) = some d.oop := hl
    rw [h0, if_neg (by simp [Space.has])] at hl'
    cases hl'
  · rw [if_pos (by simpa using h0)]
    refine .query_bind (h.isMigrated_eq ht.inv.alike ht.inv.agrees hr.legal h0) ?_
    have hp : Points addr 0 addr.toNat := .lit 0 rfl ⟨by omega, by omega, addr.toNat_lt⟩
    exact ht.visit_ends h.graph_ok h.follows hr hp

lemma fields_ends (h : S.Ok s) (ht : (S.graph s).Steady t)
    (hidle : t.bits.scan.active = false) :
    Ends (forEachBit (s.recorded 0) S.space.start (markRecorded S.space)) t fun _ u =>
      u.bits.scan.active = false ∧ (S.graph s).Steady u ∧
        (∀ c ∈ S.cells, (S.graph s).Marked t c → (S.graph s).Marked u c) ∧
        ∀ a, S.Field s a → (S.graph s).Followed a u := by
  let J : Nat → Unit → Store → Prop := fun b _ u =>
    (S.graph s).Steady u ∧
      (∀ c ∈ S.cells, (S.graph s).Marked t c → (S.graph s).Marked u c) ∧
      ∀ a < b, S.Field s a → (S.graph s).Followed a u
  have : low s = (s.recorded 0).toNat := rfl
  have := h.first
  have hle := h.low_le
  have h4 := h.start_aligned
  have hl4 := h.low_aligned
  have hlast : S.space.start.toNat ≤ s.bits.range.last.toNat := by
    have := h.bounds
    rw [h.last]
    omega
  have bit : ∀ {a u}, (S.graph s).Steady u → low s < a → a ≤ S.space.start.toNat → a % 4 = 0 →
      s.bits.range.holds u.mem a = s.bits.range.holds s.mem a := by
    intro a u hu hlo hhi ha
    refine (hu.inv.rest a ⟨ha, ?_, ?_⟩ fun c hc he => ?_).trans ?_
    · show s.bits.range.first.toNat ≤ a
      omega
    · show a ≤ s.bits.range.last.toNat
      omega
    · have := (Space.has_iff.1 (h.has_cell hc)).1
      omega
    · show (if _ then false else _) = _
      rw [if_neg (by omega)]
  have loop : BitLoop s.bits.range (fun _ => markRecorded S.space) J
      ((s.recorded 0).toNat + 4) (S.space.start.toNat + 4) := {
    mapped := fun hj => ⟨hj.1.inv.range, hj.1.inv.mapped h.graph_ok⟩
    blind := fun scan hj => ⟨⟨hj.1.inv.setScan scan, hj.1.accounted⟩, hj.2⟩
    step := by
      rintro addr _ u hlo hhi ha hset ⟨hu, hmono, hfol⟩
      have hf : S.Field s addr.toNat := by
        refine ⟨ha, by omega, by omega, ?_⟩
        rw [← bit hu (by omega) (by omega) ha]
        exact hset
      refine (h.markRecorded_ends hu hf).mono ?_
      rintro _ v ⟨hv, hfv⟩
      refine ⟨hv.scan, hv.steady, fun c hc hm => hv.marked c hc (hmono c hc hm), ?_⟩
      intro a hlt hfa
      by_cases he : a = addr.toNat
      · rw [he]
        exact hfv
      · have := hfa.aligned
        exact (hfol a (by omega) hfa).mono hv.marked
    skip := by
      rintro b _ u hlo hhi hb hunset ⟨hu, hmono, hfol⟩
      refine ⟨hu, hmono, fun a hlt hfa => ?_⟩
      have hne : a ≠ b := by
        rintro rfl
        have := hfa.set
        rw [← bit hu (by omega) (by omega) hb, hunset] at this
        cases this
      have := hfa.aligned
      exact hfol a (by omega) hfa }
  have start : J ((s.recorded 0).toNat + 4) () t := by
    refine ⟨ht, fun _ _ hm => hm, fun a hlt hfa => ?_⟩
    have := hfa.low
    have := hfa.aligned
    omega
  refine (loop.foldBits_ends hl4 h4 hle (by omega) hlast hidle start).mono ?_
  rintro _ u ⟨hact, hu, hmono, hfol⟩
  refine ⟨hact, hu, hmono, fun a hfa => hfol a ?_ hfa⟩
  have := hfa.high
  omega

lemma chunk_leads (hc : c ∈ S.chunks) : (S.graph s).Leads c := by
  intro x hx d hd hl
  exact source_live (.chunk hc hx) hd hl

/-- What is known of a chunk of the list when it has been visited. -/
def Visited (S : Scene) (s : Store) (c : Cell) (t : Store) : Prop :=
  (c ∈ S.cells → (S.graph s).Marked t c) ∧ (c ∉ S.cells → (S.graph s).Scanned t c)

lemma Visited.mono (hm : ∀ c ∈ S.cells, (S.graph s).Marked t c → (S.graph s).Marked u c)
    (h : Visited S s c t) : Visited S s c u :=
  ⟨fun hc => hm c hc (h.1 hc), fun hc => (h.2 hc).mono hm⟩

lemma markChunk_ends (h : S.Ok s) (ht : (S.graph s).Steady t) (hc : c ∈ S.chunks)
    (hs : S.Source s c.oop) :
    Ends (markChunk S.space c.oop) t fun next u =>
      next = c.words s.mem 0 ∧ (S.graph s).Advances t u ∧ Visited S s c u := by
  obtain ⟨hch, hread, hmem⟩ := h.chunks c hc
  have hslot : c.Slot 0 := by
    rw [Slot, if_pos hch]
    exact .inl rfl
  have hr := hread.reference (chunk_leads hc) hslot
  have hp : Points c.oop 0 (c.oop.toNat + 0) := .lit 0 rfl ⟨by omega, by omega, c.oop.toNat_lt⟩
  have next : ∀ u, (S.graph s).Advances t u → Visited S s c u →
      Ends (Ends.ofRead (Chunk.listed c.oop)) u fun next v =>
        next = c.words s.mem 0 ∧ (S.graph s).Advances t v ∧ Visited S s c v := by
    intro u hu hvis
    refine .read ?_ ⟨rfl, hu, hvis⟩
    rw [Chunk.listed, word_eq hp ⟨hr.aligned, (by
        rw [hu.steady.inv.size_eq]
        exact hr.inside)⟩,
      hu.steady.inv.agrees.peekWord _ fun i hi => hr.kept i hi]
    rfl
  rw [markChunk]
  by_cases hin : S.space.has c.oop = true
  · have hcell := h.cell_of_has hmem hin
    have hlive : S.Live s c := .source hcell hs
    rw [if_pos hin, markObject, if_pos hin]
    refine .bind (ht.mark_ends h.graph_ok h.follows hcell hlive) ?_
    rintro _ u ⟨hu, hm⟩
    exact next u hu ⟨fun _ => hm, fun hn => absurd hcell hn⟩
  · rw [if_neg hin]
    refine .bind (ht.chunk_ends h.graph_ok h.follows hread (chunk_leads hc) hch) ?_
    rintro _ u ⟨hu, hsc⟩
    exact next u hu ⟨fun hcell => absurd (h.has_cell hcell) hin, fun _ => hsc⟩

lemma followChunks_ends (h : S.Ok s) {l : List Cell} (hl : Listed s.mem v l)
    (hsub : ∀ c ∈ l, c ∈ S.chunks) (hs : S.Source s v) (ht : (S.graph s).Steady t)
    {fuel : Nat} (hfuel : l.length < fuel) :
    Ends (followChunks (markChunk S.space) fuel v) t fun _ u =>
      (S.graph s).Advances t u ∧ ∀ c ∈ l, Visited S s c u := by
  induction hl generalizing t fuel with
  | nil =>
    rcases fuel with _ | fuel
    · omega
    exact .pure ⟨.refl ht, fun c hc => by cases hc⟩
  | @cons c rest ne next ih =>
    rcases fuel with _ | fuel
    · omega
    have hc := hsub c mem_cons_self
    rw [followChunks, if_neg (by simpa using ne)]
    refine .bind (h.markChunk_ends ht hc hs) ?_
    rintro _ u ⟨rfl, hu, hvis⟩
    have hslot : c.Slot 0 := by
      rw [Slot, if_pos (h.chunks c hc).1]
      exact .inl rfl
    simp only [length_cons] at hfuel
    refine (ih (fun d hd => hsub d (mem_cons_of_mem c hd)) (.chunk hc hslot) hu.steady
      (by omega)).mono ?_
    rintro _ w ⟨hw, hrest⟩
    refine ⟨hu.trans hw, fun d hd => ?_⟩
    rcases mem_cons.1 hd with rfl | hd
    · exact hvis.mono hw.marked
    · exact hrest d hd

lemma chunks_few (h : S.Ok s) : S.chunks.length ≤ s.mem.size := by
  refine h.listed.length_le fun c hc => ?_
  obtain ⟨hch, hread, -⟩ := h.chunks c hc
  have := hread.room hch
  have h2 : c.stop ≤ s.mem.size := hread.inside
  rw [stop] at h2
  omega

lemma forEachChunk_ends (h : S.Ok s) (ht : (S.graph s).Steady t) :
    Ends (forEachChunk (markChunk S.space)) t fun _ u =>
      (S.graph s).Advances t u ∧ ∀ c ∈ S.chunks, Visited S s c u := by
  obtain ⟨hr, heq⟩ := h.recorded_eq ht.inv
  have hroot : root .ram Root.chunkList t = .ok (s.recorded 10) := by
    rw [hr.root_eq (j := 2) rfl (by omega), heq 10 (by omega)]
  refine .read_bind (walkBound_eq _) (.query_bind hroot ?_)
  refine h.followChunks_ends h.listed (fun c hc => hc) (.root (by omega) (by omega)) ht ?_
  have : t.mem.size = s.mem.size := ht.inv.size_eq
  have := h.chunks_few
  omega

lemma covers (h : S.Ok s) : (S.graph s).Covers S.space.start S.space.stop where
  before_aligned := h.start_aligned
  last_aligned := h.stop_aligned
  le := h.start_le
  low := by
    have := h.bounds
    show s.bits.range.first.toNat ≤ _
    omega
  high := by
    have := h.stop_le
    show _ ≤ s.bits.range.last.toNat
    rw [h.last]
    omega
  cells c hc := Space.has_iff.1 (h.has_cell hc)
  clean a _ hlo hhi hb := by
    have hb' : (if S.space.start.toNat < a ∧ a ≤ S.space.stop.toNat then false
      else s.bits.range.holds s.mem a) = true := hb
    rw [if_pos ⟨hlo, hhi⟩] at hb'
    cases hb'

end Scene.Ok

/-- What marking comes to: in the space the bits of the live objects are set and no others. -/
structure Scene.Marked (S : Scene) (s t : Store) : Prop where
  alike : s.Alike t
  agrees : Agrees (S.graph s).kept s.mem t.mem
  range : t.bits.range = s.bits.range
  idle : t.bits.scan.active = false
  exact : ∀ a, a % 4 = 0 → S.space.start.toNat < a → a ≤ S.space.stop.toNat →
    (s.bits.range.holds t.mem a = true ↔ ∃ c, S.Live s c ∧ c.oop.toNat = a)
  rest : ∀ a, s.bits.range.Spans a → a ≤ S.space.start.toNat ∨ S.space.stop.toNat < a →
    s.bits.range.holds t.mem a = s.bits.range.holds s.mem a
  inUse : t.marks.inUse = true
  level : t.marks.level = MarkStack.recursionLevels
  empty : t.marks.depth = 0
  complete : t.marks.overflowed = false

lemma Scene.Ok.marked (h : S.Ok s) (hc : (S.graph s).Complete t)
    (hlive : ∀ c, S.Live s c → (S.graph s).Marked t c) : S.Marked s t where
  __ := hc.inv
  idle := hc.idle
  exact _ := hc.exact h.covers hlive
  rest a hspan hout := by
    refine (hc.inv.rest a hspan fun c hm he => ?_).trans ?_
    · have := Space.has_iff.1 (h.has_cell hm)
      omega
    · show (if _ then false else _) = _
      rw [if_neg (by omega)]
  level := UInt32.toNat_inj.1 hc.inv.level
  empty := UInt32.toNat_inj.1 hc.inv.depth
  complete := hc.kept_all

lemma announceRescan_ends (s : Store) :
    Ends announceRescan s fun _ t => ∃ log, t = s.setLog log :=
  .say fun log => ⟨log, rfl⟩

lemma Scene.Ok.markReachable_ends (h : S.Ok s) :
    Ends (markReachable S.space) s fun _ t => S.Marked s t := by
  refine h.start_ends fun t ht hidle => ?_
  apply Ends.get_bind
  rw [show t.ram = s.ram from ht.inv.alike.ram]
  refine .bind (h.roots_ends ht) ?_
  rintro _ t1 ⟨h1, roots⟩
  obtain ⟨hr, heq⟩ := h.recorded_eq h1.steady.inv
  have hstart : memoryStart t1 = .ok (s.recorded 0) := by
    rw [memoryStart, hr.record_eq (j := 0) rfl (by omega), heq 0 (by omega)]
  refine .query_bind hstart ?_
  refine .bind (h.fields_ends h1.steady (h1.scan ▸ hidle)) ?_
  rintro _ t2 ⟨hact, h2, mono2, fields⟩
  refine .bind (h.forEachChunk_ends h2) ?_
  rintro _ t3 ⟨h3, chunks⟩
  refine (Graph.recover_ends h.graph_ok h.follows h.covers announceRescan_ends h3.steady
    (h3.scan ▸ hact)).mono ?_
  rintro _ t4 ⟨h4, mono4⟩
  refine h.marked h4 fun c hl => ?_
  have mono3 : ∀ c ∈ S.cells, (S.graph s).Marked t2 c → (S.graph s).Marked t4 c :=
    fun c hc hm => mono4 c hc (h3.marked c hc hm)
  refine h4.marked (fun d hd => h.lead_eq hd) (fun d hd hs => ?_) hl
  generalize hv : d.oop = v at hs
  have hlead : (S.graph s).lead v = some d.oop := hv ▸ h.lead_eq hd
  cases hs with
  | root hk ha => exact mono3 d hd (mono2 d hd (roots _ hk ha d hd hlead))
  | field ha => exact mono3 d hd (fields _ ha d hd hlead)
  | @chunk c x hc hx =>
    obtain ⟨inside, outside⟩ := (chunks c hc).mono mono4
    by_cases hcell : c ∈ S.cells
    · exact h4.scanned c hcell (inside hcell) x hx d hd hlead
    · exact outside hcell x hx d hd hlead

end Sliding

end DeviceVm

/-! ### A heap of two generations -/

namespace DeviceVm.Sliding

open List Sample Cell BitRange

/-- An old array with a recorded store; behind it an array of integers, an array, two arrays of
integers and a stack chunk with a saved context, of which the first and the third are garbage. -/
def sampleRam : List UInt32 := table [
  (0, [528, 140, 536, 652, 668]), (9, [580, 580]),
  (16, [0x010000c0, 548]), (18, [0x01000100, 7]), (20, [0x020000c0, 572, 532]),
  (23, [0x02000100, 1, 2]), (26, [0x01000100, 9]),
  (28, [0x12000140, 0, 0, 0, 18, 620, 456, 463, 0, 192, 28, 572, 0, 0, 0, 0, 0, 5, 7]),
  (56, [0x20])] 0 58

def sampleBits : BitVector where
  range := { base := 672, first := 512, last := 668 }

def sampleStore : Store := { store .sliding sampleRam with bits := sampleBits, collecting := true }

def sampleChunk : Cell := chunk 580 18 [frame]

def sampleCells : List Cell :=
  [integerArray 540 1, array 548 2, integerArray 560 2, integerArray 572 1, sampleChunk]

def sampleScene : Scene where
  space := { start := 536, stop := 652 }
  cells := sampleCells
  others := [array 532 1]
  chunks := [sampleChunk]

lemma sample_recorded {j : Nat} : sampleStore.recorded j = sampleRam.getD j 0 := peekWord_ram j

lemma sample_low : low sampleStore = 528 := by
  rw [low, sample_recorded]
  decide

lemma sample_high : high sampleStore = 668 := by
  rw [high, sample_recorded, sample_recorded]
  decide

lemma sample_size : sampleStore.mem.size = 696 := size_words.trans (by decide)

lemma sample_kept {b : Nat} (hb : b < 652) : (sampleScene.graph sampleStore).kept b := by
  refine ⟨fun h => ?_, fun h => ?_⟩
  · have : 688 ≤ b := h.1
    omega
  · have : 652 ≤ b := h.1
    omega

lemma sample_legal {v : UInt32} (hv : v ∈ ([0, 192, 456, 532, 548, 572, 580] : List UInt32)) :
    sampleScene.Legal sampleStore v := by
  have h : v = 0 ∨ ¬ sampleStore.ram.Has v ∨
      v ∈ (sampleScene.cells ++ sampleScene.others).map oop := by
    simp only [mem_cons, not_mem_nil, or_false] at hv
    rcases hv with rfl | rfl | rfl | rfl | rfl | rfl | rfl <;> decide
  rcases h with h0 | hr | hm
  · exact .inl h0
  · exact .inr (.inl hr)
  · obtain ⟨c, hc, he⟩ := mem_map.1 hm
    exact .inr (.inr ⟨c, hc, he⟩)

lemma sample_words {x : Nat} (hx : x % 4 = 0) :
    sampleChunk.words sampleStore.mem x = sampleRam.getD ((116 + x) / 4) 0 :=
  words_ram (by decide) (by decide) hx

lemma sample_framed : sampleChunk.Framed sampleStore.mem := by
  have h16 : sampleChunk.words sampleStore.mem 16 = 620 := (sample_words rfl).trans (by decide)
  constructor
  case isChunk => decide
  case room => decide
  case last =>
    rw [h16]
    decide
  case frames =>
    rw [h16]
    exact frames_of_words (by decide) ((sample_words rfl).trans (by decide))
      ((sample_words rfl).trans (by decide)) ((sample_words rfl).trans (by decide))

lemma sample_chunk : (sampleScene.graph sampleStore).Readable sampleChunk := by
  have inside : ∀ b, sampleChunk.start ≤ b → b < sampleChunk.stop →
      (sampleScene.graph sampleStore).kept b := fun b _ hb =>
    sample_kept (Nat.lt_of_lt_of_le hb (by decide))
  constructor
  case typed =>
    exact (typed_chunk 580 18 [frame]).mono fun b hb =>
      sample_kept (Nat.lt_of_lt_of_le hb (by decide))
  case header => exact Laid.holds (by decide)
  case kept_header => exact fun b hb ho => inside b hb (Nat.lt_of_lt_of_le ho (by decide))
  case inside =>
    show _ ≤ sampleStore.mem.size
    rw [sample_size]
    decide
  case kept_body => exact fun _ b hb ho => inside b (Nat.le_trans (by decide) hb) ho
  case legal =>
    intro x hx
    have hcases : x = 0 ∨ x = 4 ∨ x = 8 ∨ x = 20 ∨ x = 32 ∨ x = 40 := by
      rcases hx with rfl | rfl | rfl | ⟨f, hf, ht, hn⟩
      · exact .inl rfl
      · exact .inr (.inl rfl)
      · exact .inr (.inr (.inl rfl))
      · obtain rfl := mem_singleton.1 hf
        have : frame.pos = 40 := rfl
        rcases ht with ht | ht | ht | ⟨_, ht⟩ | ⟨i, hi, _, ht⟩
        · omega
        · omega
        · exact absurd ht hn
        · exact absurd rfl ht
        · have : i < 1 := hi
          omega
    show sampleScene.Legal sampleStore (sampleChunk.words sampleStore.mem x)
    rw [sample_words (by omega)]
    rcases hcases with rfl | rfl | rfl | rfl | rfl | rfl <;> exact sample_legal (by decide)
  case room => exact fun _ => by decide
  case frames => exact fun _ _ => sample_framed
  case idle =>
    intro _ h0
    have h16 : sampleChunk.words sampleStore.mem 16 = 620 := (sample_words rfl).trans (by decide)
    rw [show sampleChunk.words (sampleScene.graph sampleStore).origin.mem 16 = 620 from h16] at h0
    exact absurd h0 (by decide)
  case methods =>
    intro f hf n h
    obtain rfl := mem_singleton.1 hf
    have h : Memory.Agrees fixed _ n :=
      h.mono fun b hb => sample_kept (Nat.lt_of_lt_of_le hb (by decide))
    exact reads_frame h
  case owner => exact fun k h => nomatch h

lemma sample_typed {c : Cell} (hc : c ∈ sampleCells) :
    c.Typed fixed (.ofWords (rom ++ sampleRam)) := by
  revert c
  simp [sampleCells, sampleChunk]

lemma sample_readable {c : Cell} (hc : c ∈ sampleCells) :
    (sampleScene.graph sampleStore).Readable c := by
  by_cases he : c = sampleChunk
  · exact he ▸ sample_chunk
  have h : ∀ c ∈ [integerArray 540 1, array 548 2, integerArray 560 2, integerArray 572 1],
      c.stop ≤ 652 ∧ Plain sampleRam [0, 192, 456, 532, 548, 572, 580] c := by decide
  have hmem : c ∈ [integerArray 540 1, array 548 2, integerArray 560 2, integerArray 572 1] := by
    simp only [sampleCells, mem_cons, not_mem_nil] at hc ⊢
    tauto
  obtain ⟨hstop, plain⟩ := h c hmem
  have : c.oop.toNat ≤ c.stop := Nat.le_add_right _ _
  exact readable rfl plain (sample_typed hc) (fun b hb => sample_kept (by omega))
    (fun b _ hb => sample_kept (by omega)) (fun _ b _ hb => sample_kept (by omega))
    fun v => sample_legal

lemma sample_field {a : Nat} (ha : sampleScene.Field sampleStore a) : a = 532 := by
  have hcases : a = 532 ∨ a = 536 := by
    have h1 := ha.low
    have : a ≤ 536 := ha.high
    have := ha.aligned
    rw [sample_low] at h1
    omega
  rcases hcases with h | rfl
  · exact h
  · have hw : sampleStore.mem.peekWord (464 + 4 * 56) = sampleRam.getD 56 0 := peekWord_ram 56
    have hset := ha.set
    rw [holds, show sampleStore.bits.range.wordOf 536 = 464 + 4 * 56 from rfl, hw] at hset
    exact absurd hset (by decide)

lemma sample_ok : sampleScene.Ok sampleStore := by
  have hlow := sample_low
  have hhigh := sample_high
  have : sampleScene.space.start.toNat = 536 := rfl
  have : sampleScene.space.stop.toNat = 652 := rfl
  constructor
  case recorded => exact ⟨by decide, by rw [sample_size]; decide, by rw [sample_size]; decide⟩
  case ram_high =>
    rw [sample_size]
    decide
  case record_low =>
    rw [hlow]
    decide
  case high_ram =>
    rw [hhigh]
    decide
  case idle => rfl
  case unused => rfl
  case mapped =>
    rw [sample_size]
    exact ⟨by decide, by decide, by decide, by decide⟩
  case first =>
    rw [hlow]
    decide
  case last => rw [hhigh]; rfl
  case bitmap =>
    intro b hb
    have : 688 ≤ b := hb.1
    omega
  case spread => decide
  case others_below => decide
  case header =>
    have h : ∀ c ∈ sampleScene.cells ++ sampleScene.others,
        Laid sampleRam c ∧ c.kind.toNat % 4 = 0 := by decide
    exact fun c hc => (h c hc).imp_left Laid.holds
  case readable => exact fun c hc => sample_readable hc.mem
  case roots =>
    have h : ∀ k < 8, sampleRam.getD (k + 8) 0 ∈
        ([0, 192, 456, 532, 548, 572, 580] : List UInt32) := by decide
    intro k hk _
    rw [sample_recorded]
    exact sample_legal (h k hk)
  case fields =>
    intro a ha
    obtain rfl := sample_field ha
    refine ⟨by omega, ?_⟩
    rw [show (532 : Nat) = 464 + 4 * 17 from rfl, show sampleStore.mem.peekWord _ = _ from
      peekWord_ram 17]
    exact sample_legal (by decide)
  case listed =>
    rw [sample_recorded]
    refine .cons (c := sampleChunk) (by decide) ?_
    rw [sample_words rfl]
    exact .nil
  case chunks =>
    intro c hc
    obtain rfl := mem_singleton.1 hc
    exact ⟨by decide, sample_chunk, by simp [sampleScene, sampleCells]⟩
  all_goals omega

end DeviceVm.Sliding
