import DeviceVm.Proofs.Sliding.Targets

/-!
The second half of a pass of compaction begins with the references: each is changed to where its
object goes. A word is changed once, and the words that are changed are told apart by their
addresses.
-/

namespace DeviceVm.Sliding

open List Memory Cell Store Word

namespace Scene

variable (S : Scene) (s : Store) (L : List Cell) (tgt : UInt32 → UInt32)

/-- The words that are changed when references follow the objects, and what they are then. -/
inductive Becomes : Nat → UInt32 → Prop
  | word {c : Cell} {x : Nat} (hc : c ∈ L ∨ c ∈ S.chunks) (hx : x % 4 = 0) (hb : x + 4 ≤ c.body)
      (hr : c.role x ≠ .data) : Becomes (c.oop.toNat + x) (c.image tgt s.mem x)
  | field {a : Nat} (h : S.Field s a) : Becomes a (tgt (s.mem.peekWord a))
  | root {k : Nat} (hk : k < 8) :
      Becomes (s.ram.start.toNat + 4 * (k + 8)) (tgt (s.recorded (k + 8)))

/-- The live objects have their forwarding words, and nothing else has changed. -/
structure Aimed (C : Classes) (f : Forwarding) (stop : UInt32) (m : Memory) : Prop where
  heap : S.Heap s C
  shift : S.Shift s L tgt stop
  fits : f.Fits (Classes.total C.suites)
  near : ∀ c ∈ L, c.oop.toNat ≤ (tgt c.oop).toNat + f.maxDelta.toNat
  agrees : Agrees (fun b => (S.graph s).kept b ∧
    ∀ c ∈ L, ¬ (c.oop.toNat - 4 ≤ b ∧ b < c.oop.toNat)) s.mem m
  header : ∀ c ∈ L, ∃ i j, C.At i j c.kind ∧
    Header.Holds m c.oop (f.encode (c.oop - tgt c.oop) (C.denseOf i j)) c.count

  marks : s.bits.range.Marks m S.space.start.toNat S.space.stop.toNat L
  bits : ∀ a, a % 4 = 0 → low s < a → a ≤ S.space.start.toNat →
    s.bits.range.holds m a = s.bits.range.holds s.mem a

/-- A store in which all is ready for the references to be changed. -/
structure Begun (C : Classes) (f : Forwarding) (stop : UInt32) (r : Store) : Prop where
  aimed : S.Aimed s L tgt C f stop r.mem
  kin : Kin s r
  range : r.bits.range = s.bits.range
  idle : r.bits.scan.active = false
  unused : r.marks.inUse = false

/-- The words at the addresses in `done` have been changed. -/
structure Redirected (m : Memory) (done : Nat → Prop) (n : Memory) : Prop where
  agrees : Agrees (fun b => ∀ a, done a → ¬ (a ≤ b ∧ b < a + 4)) m n
  written : ∀ a, done a → S.Becomes s L tgt a (n.peekWord a)

end Scene

variable {S : Scene} {C : Classes} {s t u : Store} {L : List Cell} {tgt : UInt32 → UInt32}
  {f : Forwarding} {stop v : UInt32} {m n : Memory} {done : Nat → Prop} {c d : Cell} {a b : Nat}

namespace Scene

lemma Heap.apart (h : S.Heap s C) (hc : c ∈ S.cells ++ S.others)
    (hd : d ∈ S.cells ++ S.others) :
    c = d ∨ c.oop.toNat + c.body + d.head ≤ d.oop.toNat ∨
      d.oop.toNat + d.body + c.head ≤ c.oop.toNat := by
  rcases mem_append.1 hc with hc | hc
  · rcases mem_append.1 hd with hd | hd
    · exact h.ok.spread.apart hc hd
    · have := h.ok.spread.low hc
      have := h.old_below hd
      omega
  rcases mem_append.1 hd with hd | hd
  · have := h.ok.spread.low hd
    have := h.old_below hc
    omega
  · exact h.old.apart hc hd

namespace Aimed

section

variable (h : S.Aimed s L tgt C f stop m) (hc : c ∈ L ∨ c ∈ S.chunks)
include h hc

lemma mover : (S.Live s c ∨ c ∈ S.chunks) ∧ c ∈ S.cells ++ S.others := by
  rcases hc with hc | hc
  · exact ⟨.inl ((h.shift.live c).1 hc), mem_append_left _ (h.shift.mem hc)⟩
  · exact ⟨.inr hc, (h.heap.ok.chunks c hc).2.2⟩

lemma field_apart (ha : S.Field s a) : ¬ (c.oop.toNat ≤ a ∧ a + 4 ≤ c.stop) := by
  obtain ⟨d, hd, hn, hlo, hhi⟩ := h.heap.stores a ha
  rw [Cell.stop] at hhi ⊢
  rcases h.heap.apart (h.mover hc).2 (mem_append_right _ hd) with rfl | hs | hs
  · rcases hc with hc | hc
    · have := h.heap.ok.spread.low (h.shift.mem hc)
      have := h.heap.old_below hd
      omega
    · exact absurd hc hn
  · omega
  · omega

lemma record_apart : s.ram.start.toNat + 64 ≤ c.oop.toNat := by
  have := h.heap.ok.bounds
  rcases mem_append.1 (h.mover hc).2 with hm | hm
  · have := h.heap.ok.spread.low hm
    omega
  · have := h.heap.old_below hm
    omega

end

end Aimed

namespace Becomes

section

variable (hw : S.Becomes s L tgt a v) (h : S.Aimed s L tgt C f stop m)
include hw h

lemma aligned : a % 4 = 0 ∧ a + 4 ≤ s.mem.size := by
  cases hw with
  | @word c x hc hx hb _ =>
    have hr := h.heap.readable (h.mover hc).1
    have := hr.header.aligned
    have : c.oop.toNat + c.body ≤ s.mem.size := hr.inside
    exact ⟨by omega, by omega⟩
  | field ha =>
    have h1 := ha.aligned
    have := (h.heap.ok.fields a ha).1
    have := h.heap.ok.bounds
    exact ⟨h1, by omega⟩
  | root hk =>
    have := h.heap.ok.recorded.aligned
    have := h.heap.ok.recorded.inside
    exact ⟨by omega, by omega⟩

lemma low : a + 4 ≤ S.space.stop.toNat := by
  cases hw with
  | @word c x hc hx hb _ =>
    rcases mem_append.1 (h.mover hc).2 with hm | hm
    · have := h.heap.ok.spread.high hm
      omega
    · have := h.heap.old_below hm
      have := h.heap.ok.start_le
      omega
  | field ha =>
    have := (h.heap.ok.fields a ha).1
    have := h.heap.ok.start_le
    omega
  | root hk =>
    have := h.heap.ok.bounds
    omega

lemma not_fixed (hb : S.Fixed s b) : ¬ (a ≤ b ∧ b < a + 4) := by
  intro hin
  cases hw with
  | @word c x hc hx hlt _ =>
    by_cases hk : c ∈ S.chunks
    · exact hb.chunk c hk ⟨by omega, by rw [Cell.stop]; omega⟩
    have hl := h.shift.mem (hc.resolve_right hk)
    have := h.heap.ok.spread.low hl
    have := h.heap.ok.spread.high hl
    have := h.heap.ok.stop_le
    exact hb.space ⟨by omega, by omega⟩
  | field ha => exact hb.field a ha hin
  | root hk => exact hb.record ⟨by omega, by omega⟩

lemma not_object (hc : c ∈ L) (hb : c.start ≤ b) (hs : b < c.stop) (hin : a ≤ b ∧ b < a + 4) :
    ∃ x, x % 4 = 0 ∧ x + 4 ≤ c.body ∧ c.role x ≠ .data ∧ a = c.oop.toNat + x := by
  have := h.heap.ok.spread.low (h.shift.mem hc)
  have := c.start_eq
  have := c.stop_eq
  cases hw with
  | @word d x hd hx hlt hr =>
    rcases h.heap.apart (h.mover (.inl hc)).2 (h.mover hd).2 with rfl | hs | hs
    · exact ⟨x, hx, hlt, hr, rfl⟩
    · omega
    · omega
  | field ha =>
    have := (h.heap.ok.fields a ha).1
    omega
  | root hk =>
    have := h.heap.ok.bounds
    omega

lemma of_word (hc : c ∈ L ∨ c ∈ S.chunks) {x : Nat} (hx : x + 4 ≤ c.body)
    (ha : a = c.oop.toNat + x) : v = c.image tgt s.mem x := by
  have hin : c.oop.toNat ≤ a ∧ a + 4 ≤ c.stop := by
    rw [Cell.stop]
    omega
  cases hw with
  | @word d y hd hy hlt _ =>
    rcases h.heap.apart (h.mover hc).2 (h.mover hd).2 with rfl | hs | hs
    · rw [show y = x by omega]
    · omega
    · omega
  | field hf => exact absurd hin (h.field_apart hc hf)
  | root hk =>
    have := h.record_apart hc
    omega

lemma of_field (ha : S.Field s a) : v = tgt (s.mem.peekWord a) := by
  cases hw with
  | @word d y hd hy hlt _ =>
    exact ((Becomes.field ha).of_word h hd hlt rfl).symm
  | field => rfl
  | root hk =>
    have := ha.low
    have := h.heap.ok.record_low
    omega

lemma of_root {k : Nat} (hk : k < 8) (ha : a = s.ram.start.toNat + 4 * (k + 8)) :
    v = tgt (s.recorded (k + 8)) := by
  cases hw with
  | @word d y hd hy hlt _ =>
    exact ((Becomes.root hk).of_word h hd hlt ha.symm).symm
  | field hf =>
    have := hf.low
    have := h.heap.ok.record_low
    omega
  | @root j hj => rw [show j = k by omega]

end

end Becomes

namespace Aimed

lemma body_byte (h : S.Aimed s L tgt C f stop m) (hc : c ∈ S.cells ++ S.others) {i : Nat}
    (hi : i < c.body) : m.peek (c.oop.toNat + i) = s.mem.peek (c.oop.toNat + i) := by
  refine h.agrees.peek _ ⟨h.heap.ok.kept_below ?_, fun d hd hin => ?_⟩
  · rcases mem_append.1 hc with hm | hm
    · have := h.heap.ok.spread.high hm
      omega
    · have := h.heap.old_below hm
      have := h.heap.ok.start_le
      omega
  · have := d.head_cases
    rcases h.heap.apart hc (h.mover (.inl hd)).2 with rfl | hs | hs
    · omega
    · omega
    · omega

lemma body_word (h : S.Aimed s L tgt C f stop m) (hc : c ∈ S.cells ++ S.others) {x : Nat}
    (hx : x + 4 ≤ c.body) : m.peekWord (c.oop.toNat + x) = c.words s.mem x := by
  refine peekWord_congr h.agrees.order fun i hi => ?_
  rw [Nat.add_assoc]
  exact h.body_byte hc (by omega)

lemma source_word (h : S.Aimed s L tgt C f stop m) (hw : S.Becomes s L tgt a v) :
    m.peekWord a = s.mem.peekWord a := by
  refine h.agrees.peekWord a fun i hi => ⟨h.heap.ok.kept_below ?_, fun c hc hin => ?_⟩
  · have := hw.low h
    omega
  have := c.start_eq
  have := c.head_cases
  obtain ⟨x, _, _, _, rfl⟩ := hw.not_object h hc (b := a + i) (by omega)
    (by rw [Cell.stop]; omega) (by omega)
  omega

end Aimed

namespace Redirected

lemma start : S.Redirected s L tgt m (fun _ => False) m :=
  ⟨.refl m, fun _ ha => ha.elim⟩

section

variable (h : S.Redirected s L tgt m done n)
include h

lemma congr {done' : Nat → Prop} (he : ∀ a, done a ↔ done' a) :
    S.Redirected s L tgt m done' n := by
  rwa [show done' = done from funext fun a => propext (he a).symm]

lemma unchanged (ha : S.Aimed s L tgt C f stop m) (h4 : a % 4 = 0) (hn : ¬ done a) :
    n.peekWord a = m.peekWord a := by
  refine h.agrees.peekWord a fun i hi b hb hin => hn ?_
  have := ((h.written b hb).aligned ha).1
  rwa [show a = b by omega]

lemma write (ha : S.Aimed s L tgt C f stop m) (hw : S.Becomes s L tgt a v) :
    S.Redirected s L tgt m (fun b => done b ∨ b = a) (n.pokeWord a v) := by
  obtain ⟨h4, hs⟩ := hw.aligned ha
  have := h.agrees.size.trans ha.agrees.size
  constructor
  case agrees =>
    refine ⟨(size_pokeWord v).trans h.agrees.size,
      (order_pokeWord v).trans h.agrees.order, fun b hb => ?_⟩
    have := hb a (.inr rfl)
    rw [peek_pokeWord_ne v (by omega)]
    exact h.agrees.peek b fun a' ha' => hb a' (.inl ha')
  case written =>
    intro b hb
    by_cases he : b = a
    · rw [he, peekWord_pokeWord_self v (by omega)]
      exact hw
    · have hd := h.written b (hb.resolve_right he)
      rw [peekWord_pokeWord_ne v h4 (hd.aligned ha).1 he]
      exact hd

lemma keep (hw : S.Becomes s L tgt a (n.peekWord a)) :
    S.Redirected s L tgt m (fun b => done b ∨ b = a) n where
  agrees := h.agrees.mono fun _ hb a' ha' => hb a' (.inl ha')
  written := by
    rintro b (hb | rfl)
    · exact h.written b hb
    · exact hw

section

variable (ha : S.Aimed s L tgt C f stop m)
include ha

lemma fixed : Agrees (S.Fixed s) s.mem n := by
  refine (ha.agrees.mono fun b hb => ⟨hb.kept ha.heap.ok, fun c hc hin => ?_⟩).trans
    (h.agrees.mono fun b hb a' ha' => (h.written a' ha').not_fixed ha hb)
  have := ha.heap.ok.spread.low (ha.shift.mem hc)
  have := ha.heap.ok.spread.high (ha.shift.mem hc)
  have := ha.heap.ok.stop_le
  have := c.head_cases
  exact hb.space ⟨by omega, by omega⟩

lemma bits : Agrees s.bits.range.covers m n := by
  refine h.agrees.mono fun b hb a' ha' hin => ?_
  have := (h.written a' ha').low ha
  have := ha.heap.ok.bitmap b hb
  have := ha.heap.ok.stop_le
  omega

lemma header (hc : c ∈ L) : ∃ i j, C.At i j c.kind ∧
      Header.Holds n c.oop (f.encode (c.oop - tgt c.oop) (C.denseOf i j)) c.count := by
  obtain ⟨i, j, hat, hh⟩ := ha.header c hc
  refine ⟨i, j, hat, hh.agrees h.agrees fun b hb ho a' ha' hin => ?_⟩
  obtain ⟨x, _, _, _, rfl⟩ := (h.written a' ha').not_object ha hc hb
    (by rw [Cell.stop]; omega) hin
  omega

lemma reads {g : Activation} (hg : S.Method s g) : g.Reads n := by
  refine hg.reads_of (p := fun b => S.Fixed s b ∨ ∃ d, S.Live s d ∧ d.shape = .primitive ∧
    d.oop.toNat ≤ b ∧ b < d.stop) (fun b hb => .inl hb) (fun d hd hp => ?_) ?_
  · exact ⟨(ha.heap.readable (.inl hd)).inside, fun b hlo hhi => .inr ⟨d, hd, hp, hlo, hhi⟩⟩
  refine ⟨h.agrees.size.trans ha.agrees.size, h.agrees.order.trans ha.agrees.order, ?_⟩
  rintro b (hb | ⟨d, hd, hp, hlo, hhi⟩)
  · exact (h.fixed ha).peek b hb
  have hl := (ha.shift.live d).2 hd
  rw [Cell.stop] at hhi
  have hbody := ha.body_byte (mem_append_left _ hd.mem)
    (i := b - d.oop.toNat) (by omega)
  rw [show d.oop.toNat + (b - d.oop.toNat) = b by omega] at hbody
  rw [← hbody]
  refine h.agrees.peek b fun a' ha' hin => ?_
  have := d.start_eq
  obtain ⟨x, _, _, hr, _⟩ := (h.written a' ha').not_object ha hl (by omega) hhi hin
  have : d.slots = 0 := by
    have := (ha.heap.typed d (.inl hd)).slots s.mem (.refl _)
    rwa [SlotsRead, hp] at this
  have hnc : ¬ d.isChunk := by
    rw [isChunk, hp]
    intro h
    cases h
  rw [role_plain hnc, if_neg fun hin => by omega] at hr
  exact hr rfl

end

end

end Redirected

/-- What is referred to is an object that stays or a live one. -/
def Refers (S : Scene) (s : Store) (v : UInt32) : Prop :=
  S.Legal s v ∧ ∀ c ∈ S.cells, c.oop = v → S.Live s c

lemma Heap.slot_refers (h : S.Heap s C) (hc : S.Live s c ∨ c ∈ S.chunks) {x : Nat}
    (hx : c.Slot x) : S.Refers s (c.words s.mem x) := by
  refine ⟨(h.readable hc).legal x hx, fun d hd he => ?_⟩
  rcases hc with hl | hl
  · exact .step hl hx hd he.symm
  · exact .source hd (he ▸ .chunk hl hx)

lemma Heap.field_refers (h : S.Heap s C) (ha : S.Field s a) :
    S.Refers s (s.mem.peekWord a) := by
  refine ⟨(h.ok.fields a ha).2, fun c hc he => .source hc ?_⟩
  rw [he]
  exact .field ha

lemma Heap.root_refers (h : S.Heap s C) {k : Nat} (hk : k < 8) :
    S.Refers s (s.recorded (k + 8)) := by
  by_cases h6 : k = 6
  · rw [h6, h.associations]
    refine ⟨.inl rfl, fun c hc he => ?_⟩
    have h1 := h.ok.spread.low hc
    have := c.head_cases
    rw [he, UInt32.toNat_zero] at h1
    omega
  · refine ⟨h.ok.roots k hk h6, fun c hc he => .source hc ?_⟩
    rw [he]
    exact .root hk h6

lemma Redirected.targetOf_eq (h : S.Redirected s L tgt m done n)
    (ha : S.Aimed s L tgt C f stop m) (hv : S.Refers s v) :
    targetOf f S.space v n = .ok (tgt v) := by
  rw [targetOf]
  by_cases hin : S.space.has v = true
  · rw [if_pos hin]
    obtain ⟨c, hc, rfl⟩ : ∃ c ∈ S.cells ++ S.others, c.oop = v := by
      rcases hv.1 with rfl | hn | hc
      · simp [Space.has] at hin
      · exact absurd (ha.heap.ok.has_ram hin) hn
      · exact hc
    have hl : c ∈ L := (ha.shift.live c).2 (hv.2 c (ha.heap.ok.cell_of_has hc hin) rfl)
    obtain ⟨i, j, hat, hh⟩ := h.header ha hl
    have hdown := ha.shift.down c hl
    have := ha.shift.aligned c hl
    have := hh.aligned
    have := ha.near c hl
    have := toNat_minus hdown
    have hcl : C.Reads s := ha.heap.classes s rfl rfl (.refl _)
    have hle := (hcl.dense (hcl.total_le ha.heap.ok.recorded.small) hat).2.2
    rw [Forwarding.target_eq ha.fits (by omega) hle (by omega) (by omega) hh]
    congr 1
    apply UInt32.toNat_inj.mp
    rw [toNat_minus] <;> omega
  · rw [if_neg hin, ha.shift.outside v hin]
    rfl

lemma Redirected.redirect_ends (ha : S.Aimed s L tgt C f stop m)
    (h : S.Redirected s L tgt m done u.mem) (hw : S.Becomes s L tgt a (tgt (s.mem.peekWord a)))
    (hv : S.Refers s (s.mem.peekWord a)) (hn : ¬ done a) {base : UInt32} {index : Int32}
    (hp : Points base index a) :
    Ends (redirect f S.space base index) u fun _ u' =>
      ∃ n, u' = u.setMem n ∧ S.Redirected s L tgt m (fun b => done b ∨ b = a) n := by
  obtain ⟨h4, hs⟩ := hw.aligned ha
  have := h.agrees.size.trans ha.agrees.size
  have hword : u.mem.peekWord a = s.mem.peekWord a :=
    (h.unchanged ha h4 hn).trans (ha.source_word hw)
  have same : tgt (s.mem.peekWord a) = s.mem.peekWord a →
      ∃ n, u = u.setMem n ∧ S.Redirected s L tgt m (fun b => done b ∨ b = a) n := by
    intro he
    refine ⟨u.mem, rfl, h.keep ?_⟩
    rw [hword, ← he]
    rwa [he] at hw ⊢
  refine .read_bind (word_eq hp ⟨h4, by omega⟩) ?_
  rw [hword]
  by_cases h0 : s.mem.peekWord a = 0
  · rw [if_neg (by simpa using h0)]
    refine .pure (same ?_)
    rw [h0, ha.shift.zero]
  rw [if_pos (by simpa using h0)]
  refine .read_bind (h.targetOf_eq ha hv) ?_
  by_cases he : tgt (s.mem.peekWord a) = s.mem.peekWord a
  · rw [if_neg (by simpa using he)]
    exact .pure (same he)
  · rw [if_pos (by simpa using he)]
    exact .edit (setWord_eq hp ⟨h4, by omega⟩) ⟨_, rfl, h.write ha hw⟩

/-! ### Objects, recorded stores and roots -/

/-- The words of an object that have not been changed are to stay. -/
def Covered (s : Store) (tgt : UInt32 → UInt32) (done : Nat → Prop) (c : Cell) : Prop :=
  ∀ x, x % 4 = 0 → x + 4 ≤ c.body →
    done (c.oop.toNat + x) ∨ c.image tgt s.mem x = c.words s.mem x

/-- Of the words that are changed, those of the objects in `l`, those of the recorded stores below
`b` and the first `j` roots have been. -/
structure Progress (S : Scene) (s : Store) (L : List Cell) (tgt : UInt32 → UInt32)
    (l : List Cell) (b j : Nat) (done : Nat → Prop) : Prop where
  movers : ∀ c ∈ l, c ∈ L ∨ c ∈ S.chunks
  within : ∀ a, done a → (∃ c ∈ l, c.oop.toNat ≤ a ∧ a + 4 ≤ c.stop) ∨ S.Field s a ∧ a < b ∨
    ∃ k < j, a = s.ram.start.toNat + 4 * (k + 8)
  covered : ∀ c ∈ l, Covered s tgt done c
  fields : ∀ a, S.Field s a → a < b → done a
  roots : ∀ k < j, done (s.ram.start.toNat + 4 * (k + 8))

namespace Progress

variable {l : List Cell} {j : Nat}

lemma fresh (hp : S.Progress s L tgt l b j done) (h : S.Aimed s L tgt C f stop m)
    (hj : j ≤ 8) (hc : c ∈ L ∨ c ∈ S.chunks) (hn : c ∉ l) {x : Nat} (hx : x + 4 ≤ c.body) :
    ¬ done (c.oop.toNat + x) := by
  intro hd
  have hin : c.oop.toNat ≤ c.oop.toNat + x ∧ c.oop.toNat + x + 4 ≤ c.stop := by
    rw [Cell.stop]
    omega
  rcases hp.within _ hd with ⟨d, hd, hlo, hhi⟩ | ⟨hf, _⟩ | ⟨k, hk, he⟩
  · rw [Cell.stop] at hhi
    rcases h.heap.apart (h.mover hc).2 (h.mover (hp.movers d hd)).2 with rfl | hs | hs
    · exact hn hd
    · omega
    · omega
  · exact h.field_apart hc hf hin
  · have := h.record_apart hc
    omega

lemma settled (hp : S.Progress s L tgt l b j done) (hc : c ∈ L ∨ c ∈ S.chunks)
    (hcov : Covered s tgt done c) : S.Progress s L tgt (c :: l) b j done where
  movers e he := by
    rcases mem_cons.1 he with rfl | he
    · exact hc
    · exact hp.movers e he
  within a ha := by
    rcases hp.within a ha with ⟨e, he, hin⟩ | hr
    · exact .inl ⟨e, mem_cons_of_mem c he, hin⟩
    · exact .inr hr
  covered e he := by
    rcases mem_cons.1 he with rfl | he
    · exact hcov
    · exact hp.covered e he
  fields := hp.fields
  roots := hp.roots

lemma object (hp : S.Progress s L tgt l b j done) (hc : c ∈ L ∨ c ∈ S.chunks)
    {d : Nat → Prop} (hd : ∀ x, d x → x + 4 ≤ c.body)
    (hcov : ∀ x, x % 4 = 0 → x + 4 ≤ c.body → d x ∨ c.image tgt s.mem x = c.words s.mem x) :
    S.Progress s L tgt (c :: l) b j (fun a => done a ∨ ∃ x, d x ∧ a = c.oop.toNat + x) where
  movers e he := by
    rcases mem_cons.1 he with rfl | he
    · exact hc
    · exact hp.movers e he
  within := by
    rintro a (ha | ⟨x, hx, rfl⟩)
    · rcases hp.within a ha with ⟨e, he, hin⟩ | hr
      · exact .inl ⟨e, mem_cons_of_mem c he, hin⟩
      · exact .inr hr
    · have := hd x hx
      refine .inl ⟨c, mem_cons_self, Nat.le_add_right _ _, ?_⟩
      rw [stop]
      omega
  covered e he := by
    intro x hx hb
    rcases mem_cons.1 he with rfl | he
    · exact (hcov x hx hb).imp_left fun hdx => .inr ⟨x, hdx, rfl⟩
    · exact (hp.covered e he x hx hb).imp_left .inl
  fields a ha hlt := .inl (hp.fields a ha hlt)
  roots k hk := .inl (hp.roots k hk)

lemma field (hp : S.Progress s L tgt l a j done) (ha : S.Field s a) :
    S.Progress s L tgt l (a + 4) j (fun a' => done a' ∨ a' = a) where
  movers := hp.movers
  within := by
    rintro a' (ha' | rfl)
    · rcases hp.within a' ha' with hl | ⟨hf, hlt⟩ | hr
      · exact .inl hl
      · exact .inr (.inl ⟨hf, by omega⟩)
      · exact .inr (.inr hr)
    · exact .inr (.inl ⟨ha, by omega⟩)
  covered c hc x hx hb := (hp.covered c hc x hx hb).imp_left .inl
  fields a' ha' hlt := by
    have := ha.aligned
    have := ha'.aligned
    by_cases hlt' : a' < a
    · exact .inl (hp.fields a' ha' hlt')
    · exact .inr (by omega)
  roots k hk := .inl (hp.roots k hk)

lemma root (hp : S.Progress s L tgt l b j done) :
    S.Progress s L tgt l b (j + 1)
      (fun a => done a ∨ a = s.ram.start.toNat + 4 * (j + 8)) where
  movers := hp.movers
  within := by
    rintro a (ha | rfl)
    · rcases hp.within a ha with hl | hf | ⟨k, hk, he⟩
      · exact .inl hl
      · exact .inr (.inl hf)
      · exact .inr (.inr ⟨k, by omega, he⟩)
    · exact .inr (.inr ⟨j, by omega, rfl⟩)
  covered c hc x hx hb := (hp.covered c hc x hx hb).imp_left .inl
  fields a ha hlt := .inl (hp.fields a ha hlt)
  roots k hk := by
    by_cases he : k = j
    · exact .inr (he ▸ rfl)
    · exact .inl (hp.roots k (by omega))

end Progress

/-- An object is visited. Its words in `d` have been changed. -/
def Visiting (S : Scene) (s : Store) (L : List Cell) (tgt : UInt32 → UInt32) (m : Memory)
    (done : Nat → Prop) (t : Store) (c : Cell) (d : Nat → Prop) (u : Store) : Prop :=
  u = t.setMem u.mem ∧
    S.Redirected s L tgt m (fun a => done a ∨ ∃ x, d x ∧ a = c.oop.toNat + x) u.mem

namespace Visiting

variable {d : Nat → Prop} {x : Nat}

lemma also_iff : (done a ∨ ∃ y, Traversal.also d x y ∧ a = c.oop.toNat + y) ↔
    (done a ∨ ∃ y, d y ∧ a = c.oop.toNat + y) ∨ a = c.oop.toNat + x := by
  constructor
  · rintro (h | ⟨y, hy | rfl, rfl⟩)
    · exact .inl (.inl h)
    · exact .inl (.inr ⟨y, hy, rfl⟩)
    · exact .inr rfl
  · rintro ((h | ⟨y, hy, rfl⟩) | rfl)
    · exact .inl h
    · exact .inr ⟨y, .inl hy, rfl⟩
    · exact .inr ⟨x, .inr rfl, rfl⟩

lemma not_done (hn : ¬ done (c.oop.toNat + x)) (hd : ¬ d x) :
    ¬ (done (c.oop.toNat + x) ∨ ∃ y, d y ∧ c.oop.toNat + x = c.oop.toNat + y) := by
  rintro (h | ⟨y, hy, he⟩)
  · exact hn h
  · exact hd (by rwa [show x = y by omega])

section

variable (hi : S.Visiting s L tgt m done t c d u) (h : S.Aimed s L tgt C f stop m)
  (hc : c ∈ L ∨ c ∈ S.chunks)
include hi h hc

lemma write (hx : x % 4 = 0) (hb : x + 4 ≤ c.body) (hr : c.role x ≠ .data)
    (hv : v = c.image tgt s.mem x) : S.Visiting s L tgt m done t c (Traversal.also d x)
      (u.setMem (u.mem.pokeWord (c.oop.toNat + x) v)) := by
  refine ⟨?_, (hi.2.write h ?_).congr fun a => also_iff.symm⟩
  · rw [hi.1]
    rfl
  · rw [hv]
    exact .word hc hx hb hr

lemma visit (hx : c.Slot x) (hn : ¬ done (c.oop.toNat + x)) (hd : ¬ d x) {base : UInt32}
    {index : Int32} (hp : Points base index (c.oop.toNat + x)) :
    Ends (redirect f S.space base index) u fun _ u' =>
      S.Visiting s L tgt m done t c (Traversal.also d x) u' := by
  have hm := (h.mover hc).1
  obtain ⟨h4, hb⟩ := (h.heap.readable hm).slot_inside hx
  have hrole : c.role x ≠ .data := by
    rcases role_slot hx (h.heap.framed hm) with hr | hr | hr <;> rw [hr] <;> decide
  have hw : S.Becomes s L tgt (c.oop.toNat + x) (c.image tgt s.mem x) := .word hc h4 hb hrole
  rw [h.heap.image_slot hm hx] at hw
  refine (hi.2.redirect_ends h hw (h.heap.slot_refers hm hx) (not_done hn hd) hp).mono ?_
  rintro _ _ ⟨n, rfl, hn⟩
  refine ⟨?_, hn.congr fun a => also_iff.symm⟩
  rw [hi.1]
  rfl

lemma unvisited (hx : x % 4 = 0) (hb : x + 4 ≤ c.body) (hn : ¬ done (c.oop.toNat + x))
    (hd : ¬ d x) : u.mem.peekWord (c.oop.toNat + x) = c.words s.mem x := by
  have hm := h.mover hc
  have := (h.heap.readable hm.1).header.aligned
  rw [hi.2.unchanged h (by omega) (not_done hn hd)]
  exact h.body_word hm.2 hb

end

lemma walk (h : S.Aimed s L tgt C f stop m) (hc : c ∈ S.chunks)
    (hn : ∀ x, x + 4 ≤ c.body → ¬ done (c.oop.toNat + x)) :
    Traversal.Walk (S.Visiting s L tgt m done t c) (redirect f S.space) c.oop.toNat c.body
      (c.words s.mem) (tgt c.oop - c.oop) c.frames := by
  have hch := (h.heap.ok.chunks c hc).1
  have hread := (h.heap.ok.chunks c hc).2.1
  have hin := hread.inside
  have frames : ∀ {g}, g ∈ c.frames →
      Frames (c.words s.mem) c.body ((c.words s.mem 16).toNat - c.oop.toNat) 40 c.frames := by
    intro g hg
    by_cases h0 : c.words s.mem 16 = 0
    · rw [hread.idle hch h0] at hg
      cases hg
    · exact (hread.frames hch h0).frames
  have role : ∀ {g x}, g ∈ c.frames → g.spans x → c.role x = g.role x := fun hg hx =>
    role_frame hch (frames hg) hg hx
  constructor
  case inside =>
    intro d u hi
    rw [hi.2.agrees.size, h.agrees.size]
    exact ⟨hin, h.heap.ok.recorded.small⟩
  case unvisited => exact fun hi hx hb hd => hi.unvisited h (.inr hc) hx hb (hn _ hb) hd
  case reads => exact fun hi hg => hi.2.reads h (h.heap.methods c _ (.inr hc) hg)
  case visit =>
    intro d u g x base index hi hg ht hne hd hp
    have hb := (((frames hg).stands hg).touched ht).2.2.1
    refine hi.visit h (.inr hc) ?_ (hn x hb) hd hp
    rw [Slot, if_pos hch]
    exact .inr (.inr (.inr ⟨g, hg, ht, hne⟩))
  case code =>
    intro d u g hi hg hd hnd
    have hs := (frames hg).stands hg
    have := hs.low
    have := hs.high
    have := hs.aligned
    have hm : c.role (g.pos - 20) = .pointer := by
      rw [role hg ⟨by omega, by omega⟩, Activation.role, if_pos (.inl (by omega))]
    have hcode : c.role (g.pos - 16) = .code := by
      rw [role hg ⟨by omega, by omega⟩]
      exact Activation.role_code (by omega)
    -- The method has been changed before.
    have hw := (hi.2.written (c.oop.toNat + (g.pos - 20)) (.inr ⟨_, hd, rfl⟩)).of_word h (.inr hc)
      (by omega) rfl
    refine hi.write h (.inr hc) (by omega) (by omega) (by rw [hcode]; decide) ?_
    rw [hw, image_pointer hm, image_code hcode,
      show g.pos - 16 - 4 = g.pos - 20 by omega]
  case link =>
    intro d u g hi hg hnd _
    have hs := (frames hg).stands hg
    have := hs.low
    have := hs.high
    have := hs.aligned
    have hlink : c.role (g.pos - 12) = .link := by
      rw [role hg ⟨by omega, by omega⟩]
      exact Activation.role_link (by omega)
    refine hi.write h (.inr hc) (by omega) (by omega) (by rw [hlink]; decide) ?_
    rw [image_link hlink]

end Visiting

lemma Heap.image_rest (h : S.Heap s C) (hc : c ∈ S.chunks) {x : Nat} (hx : x % 4 = 0)
    (hn : x ≠ 0 ∧ x ≠ 4 ∧ x ≠ 8)
    (hf : ¬ (c.words s.mem 16 ≠ 0 ∧ ((x = 16 ∧ tgt c.oop - c.oop ≠ 0) ∨
      ∃ g ∈ c.frames, g.touches (tgt c.oop - c.oop) x))) :
    c.image tgt s.mem x = c.words s.mem x := by
  have hch := (h.ok.chunks c hc).1
  have hread := (h.ok.chunks c hc).2.1
  have link : tgt c.oop - c.oop = 0 → c.role x = .link → c.image tgt s.mem x = c.words s.mem x := by
    intro h0 hl
    rw [image_link hl, h0, UInt32.add_zero]
    split_ifs with hw
    · exact hw.symm
    · rfl
  by_cases h16 : x = 16
  · subst h16
    by_cases h0 : c.words s.mem 16 = 0
    · rw [image_link (role_last hch), if_pos h0, h0]
    · by_cases hz : tgt c.oop - c.oop = 0
      · exact link hz (role_last hch)
      · exact absurd ⟨h0, .inl ⟨rfl, hz⟩⟩ hf
  by_cases h0 : c.words s.mem 16 = 0
  · refine image_data ?_
    rw [role, if_pos hch, if_neg hn.1, if_neg hn.2.1, if_neg hn.2.2, if_neg h16,
      hread.idle hch h0]
    rfl
  have frames := (hread.frames hch h0).frames
  have untouched : ∀ g ∈ c.frames, ¬ g.touches (tgt c.oop - c.oop) x := fun g hg ht =>
    hf ⟨h0, .inr ⟨g, hg, ht⟩⟩
  by_cases hz : tgt c.oop - c.oop = 0
  · -- Links are not changed in a chunk that stays.
    by_cases hl : ∃ g ∈ c.frames, x + 12 = g.pos
    · obtain ⟨g, hg, he⟩ := hl
      refine link hz ?_
      rw [role_frame hch frames hg ⟨by omega, by omega⟩]
      exact Activation.role_link he
    have hrest : ∀ g ∈ c.frames, ¬ g.touches 1 x := fun g hg ht => untouched g hg ?_
    · exact image_data (role_rest hch frames hx ⟨hn.1, hn.2.1, hn.2.2, h16⟩
        (by decide) hrest)
    rcases ht with ht | ht | ht | ⟨ht, _⟩ | ht
    · exact .inl ht
    · exact .inr (.inl ht)
    · exact .inr (.inr (.inl ht))
    · exact absurd ⟨g, hg, ht⟩ hl
    · exact .inr (.inr (.inr (.inr ht)))
  · exact image_data (role_rest hch frames hx ⟨hn.1, hn.2.1, hn.2.2, h16⟩ hz untouched)

lemma Aimed.image_unlisted (h : S.Aimed s L tgt C f stop m) (hc : c ∈ L) (hch : c.isChunk)
    (h0 : c.words s.mem 16 = 0)
    (hout : ∀ x, c.Slot x → ¬ S.space.has (c.words s.mem x) = true) {x : Nat} :
    c.image tgt s.mem x = c.words s.mem x := by
  have hlive := (h.shift.live c).1 hc
  have hfr := (h.heap.readable (.inl hlive)).idle hch h0
  by_cases hd : x = 0 ∨ x = 4 ∨ x = 8
  · have hs : c.Slot x := by
      rw [Slot, if_pos hch]
      tauto
    rw [h.heap.image_slot (.inl hlive) hs, h.shift.outside _ (hout x hs)]
  by_cases h16 : x = 16
  · rw [h16, image_link (role_last hch), if_pos h0, h0]
  · refine image_data ?_
    rw [role, if_pos hch, if_neg (by omega), if_neg (by omega), if_neg (by omega),
      if_neg h16, hfr]
    rfl

/-- The references in front of a place were changed and the others were not. -/
def Halfway (S : Scene) (s : Store) (L : List Cell) (tgt : UInt32 → UInt32) (r : Store)
    (l : List Cell) (b j : Nat) (u : Store) : Prop :=
  r.Scans u ∧ ∃ done, S.Progress s L tgt l b j done ∧ S.Redirected s L tgt r.mem done u.mem

lemma Redirected.holds (h : S.Redirected s L tgt m done n) (ha : S.Aimed s L tgt C f stop m)
    (hb : s.bits.range.Spans b) : s.bits.range.holds n b = s.bits.range.holds m b :=
  BitRange.holds_congr (h.bits ha).order fun _ hi =>
    (h.bits ha).peek _ (BitRange.Mapped.covers_word hb hi)

namespace Begun

variable {r : Store} {l : List Cell} {j : Nat}

section

variable (h : S.Begun s L tgt C f stop r)
include h

lemma redirectChunk_ends (hc : c ∈ S.chunks) (hn : c ∉ l) (hj : j ≤ 8)
    (hu : S.Halfway s L tgt r l b j u) : Ends (redirectChunk f S.space c.oop) u fun next u' =>
      next = c.words s.mem 0 ∧ u'.bits.scan = u.bits.scan ∧
        S.Halfway s L tgt r (c :: l) b j u' := by
  obtain ⟨hs, done, hp, hr⟩ := hu
  have ha := h.aimed
  obtain ⟨hch, hread, hmem⟩ := ha.heap.ok.chunks c hc
  have hroom := hread.room hch
  have : c.oop.toNat + c.body ≤ s.mem.size := hread.inside
  have := ha.heap.ok.recorded.small
  have h4 := hread.header.aligned
  have hfresh : ∀ x, x + 4 ≤ c.body → ¬ done (c.oop.toNat + x) := fun x hx =>
    hp.fresh ha hj (.inr hc) hn hx
  have start : S.Visiting s L tgt r.mem done u c (fun _ => False) u :=
    ⟨rfl, hr.congr fun a => by simp⟩
  have slot : ∀ x, x = 0 ∨ x = 4 ∨ x = 8 → c.Slot x := by
    intro x hx
    rw [Slot, if_pos hch]
    tauto
  have points : ∀ {k : Nat} {index : Int32}, index.toInt = k → k < 3 →
      Points c.oop index (c.oop.toNat + 4 * k) := by
    intro k index hk hlt
    exact .lit k hk (by omega)
  have hlisted : Chunk.listed c.oop u.mem = .ok (c.words s.mem 0) := by
    rw [Chunk.listed, word_eq (points (k := 0) rfl (by omega)) ⟨by omega, (by
        rw [hr.agrees.size, ha.agrees.size]
        omega)⟩]
    exact congrArg _ (start.unvisited ha (.inr hc) rfl (by omega) (hfresh 0 (by omega)) id)
  have htarget : targetOf f S.space c.oop u.mem = .ok (tgt c.oop) := by
    refine hr.targetOf_eq ha ⟨.inr (.inr ⟨c, hmem, rfl⟩), fun d hd he => ?_⟩
    rcases ha.heap.apart hmem (mem_append_left _ hd) with rfl | hs | hs
    · exact ha.heap.ok.chunk_live hc hd
    · rw [he] at hs
      omega
    · have := c.head_cases
      rw [he] at hs
      omega
  have hlast : c.words s.mem 16 ≠ 0 → (c.words s.mem 16 + (c.oop - c.oop)).toNat =
      c.oop.toNat + ((c.words s.mem 16).toNat - c.oop.toNat) := by
    intro h0
    have : c.oop.toNat ≤ (c.words s.mem 16).toNat := (hread.frames hch h0).last
    rw [UInt32.sub_self, UInt32.add_zero]
    omega
  have touched : ∀ {x}, x < 16 → ¬ (False ∨ (c.words s.mem 16 ≠ 0 ∧
      ((x = 16 ∧ tgt c.oop - c.oop ≠ 0) ∨
        ∃ g ∈ c.frames, g.touches (tgt c.oop - c.oop) x))) := by
    rintro x hx (hf | ⟨h0, ⟨h16, _⟩ | ⟨g, hg, ht⟩⟩)
    · exact hf
    · omega
    · have := (((hread.frames hch h0).frames.stands hg).touched ht).2.2.2
      omega
  have rest : Ends (do
      let target ← targetOf f S.space c.oop
      Traversal.frames c.oop c.oop target (redirect f S.space)
      redirect f S.space c.oop 0
      redirect f S.space c.oop 1
      redirect f S.space c.oop 2
      return c.words s.mem 0 : Run UInt32) u fun next u' =>
        next = c.words s.mem 0 ∧ u'.bits.scan = u.bits.scan ∧
          S.Halfway s L tgt r (c :: l) b j u' := by
    refine .read_bind htarget ?_
    refine .bind ((Visiting.walk ha hc hfresh).frames_ends h4 rfl rfl hroom start
      (fun _ _ hx => hx) hlast (fun h0 => (hread.frames hch h0).frames) ?_) ?_
    · intro v hv _ h0
      refine hv.write ha (.inr hc) rfl (by omega) (by rw [role_last hch]; decide) ?_
      rw [image_link (role_last hch), if_neg h0]
    intro _ v1 h1
    refine .bind (h1.visit ha (.inr hc) (slot 0 (by simp)) (hfresh 0 (by omega))
      (touched (by omega)) (points (k := 0) rfl (by omega))) ?_
    intro _ v2 h2
    refine .bind (h2.visit ha (.inr hc) (slot 4 (by simp)) (hfresh 4 (by omega))
      (Traversal.not_also (touched (by omega)) (by omega)) (points (k := 1) rfl (by omega))) ?_
    intro _ v3 h3
    refine .bind (h3.visit ha (.inr hc) (slot 8 (by simp)) (hfresh 8 (by omega))
      (Traversal.not_also (Traversal.not_also (touched (by omega)) (by omega)) (by omega))
      (points (k := 2) rfl (by omega))) ?_
    intro _ v4 h4
    refine .pure ⟨rfl, ?_, ?_, _, hp.object (.inr hc) ?_ ?_, h4.2⟩
    · rw [h4.1]
      rfl
    · rw [h4.1]
      exact hs.setMem _
    · rintro x ((((hx | ⟨h0, ⟨rfl, _⟩ | ⟨g, hg, ht⟩⟩) | rfl) | rfl) | rfl)
      · exact hx.elim
      · omega
      · exact (((hread.frames hch h0).frames.stands hg).touched ht).2.2.1
      · omega
      · omega
      · omega
    intro x hx hb
    by_cases hd : x = 0 ∨ x = 4 ∨ x = 8
    · left
      rcases hd with rfl | rfl | rfl
      · exact .inl (.inl (.inr rfl))
      · exact .inl (.inr rfl)
      · exact .inr rfl
    · by_cases ht : c.words s.mem 16 ≠ 0 ∧ ((x = 16 ∧ tgt c.oop - c.oop ≠ 0) ∨
          ∃ g ∈ c.frames, g.touches (tgt c.oop - c.oop) x)
      · exact .inl (.inl (.inl (.inl (.inr ht))))
      · exact .inr (ha.heap.image_rest hc hx (by omega) ht)
  refine .read_bind hlisted ?_
  by_cases hin : S.space.has c.oop = true
  · have hcell := ha.heap.ok.cell_of_has hmem hin
    have hspan := ha.heap.ok.spans hcell
    have hhas := Space.has_iff.1 hin
    have hmark : s.bits.range.holds u.mem c.oop.toNat = true := by
      rw [hr.holds ha hspan]
      exact (ha.marks _ h4 hhas.1 hhas.2).mpr
        ⟨c, (ha.shift.live c).2 (ha.heap.ok.chunk_live hc hcell), rfl⟩
    have htest : testBit c.oop u = .ok true := by
      show u.bits.range.test c.oop u.mem = _
      rw [hs.range, h.range, (BitRange.Mapped.lies ?_).test_eq hspan, hmark]
      rw [hr.agrees.size, ha.agrees.size]
      exact ha.heap.ok.mapped
    rw [if_pos hin]
    exact .query_bind htest (.except_bind rfl rest)
  · rw [if_neg hin]
    exact rest

lemma followChunks_ends {rest : List Cell} (hl : Listed s.mem v rest)
    (hsub : ∀ c ∈ rest, c ∈ S.chunks) (hnew : ∀ c ∈ rest, c ∉ l) (hj : j ≤ 8)
    (hu : S.Halfway s L tgt r l b j u) {fuel : Nat} (hfuel : rest.length < fuel) :
    Ends (followChunks (redirectChunk f S.space) fuel v) u fun _ u' =>
      u'.bits.scan = u.bits.scan ∧ S.Halfway s L tgt r (rest.reverse ++ l) b j u' := by
  induction hl generalizing u l fuel with
  | nil =>
    rcases fuel with _ | fuel
    · omega
    exact .pure ⟨rfl, hu⟩
  | @cons c rest ne next ih =>
    rcases fuel with _ | fuel
    · omega
    have hdup := (Listed.cons ne next).nodup
    rw [followChunks, if_neg (by simpa using ne)]
    refine .bind (h.redirectChunk_ends (hsub c mem_cons_self) (hnew c mem_cons_self) hj
      hu) ?_
    rintro _ u' ⟨rfl, hscan, hu'⟩
    simp only [length_cons] at hfuel
    refine (ih (fun d hd => hsub d (mem_cons_of_mem c hd)) (fun d hd hin => ?_) hu'
      (by omega)).mono ?_
    · rcases mem_cons.1 hin with rfl | hin
      · exact (nodup_cons.1 hdup).1 (mem_map.2 ⟨d, hd, rfl⟩)
      · exact hnew d (mem_cons_of_mem c hd) hin
    · rintro _ w ⟨hw, hrest⟩
      rw [reverse_cons, append_assoc]
      exact ⟨hw.trans hscan, hrest⟩

lemma recorded (hu : S.Halfway s L tgt r l b j u) :
    u.Recorded ∧ (∀ i < 8, u.recorded i = s.recorded i) ∧
      ∀ k < 8, j ≤ k → u.recorded (k + 8) = s.recorded (k + 8) := by
  obtain ⟨hs, done, hp, hr⟩ := hu
  have ha := h.aimed
  have hram := hs.ram.trans h.kin.ram
  have hrec := ha.heap.ok.recorded
  have := ha.heap.ok.bounds
  have := hrec.aligned
  -- The record was not changed before, and of it only the roots in `done` are changed.
  have same : ∀ i < 16, ¬ done (s.ram.start.toNat + 4 * i) →
      u.recorded i = s.recorded i := by
    intro i hi hn
    rw [Store.recorded, hram, hr.unchanged ha (by omega) hn]
    refine ha.agrees.peekWord _ fun x hx => ⟨ha.heap.ok.kept_below (by omega), fun c hc => ?_⟩
    have := ha.heap.ok.spread.low (ha.shift.mem hc)
    have := c.head_cases
    omega
  have outside : ∀ i < 16, (∀ k < j, i ≠ k + 8) → ¬ done (s.ram.start.toNat + 4 * i) := by
    intro i hi hn hd
    rcases hp.within _ hd with ⟨c, hc, hlo, _⟩ | ⟨hf, _⟩ | ⟨k, hk, he⟩
    · have := ha.record_apart (hp.movers c hc)
      omega
    · have := hf.low
      omega
    · exact hn k hk (by omega)
  refine ⟨⟨hram ▸ hrec.aligned, ?_, ?_⟩, fun i hi => ?_, fun k hk hjk => ?_⟩
  · rw [hram, hr.agrees.size, ha.agrees.size]
    exact hrec.inside
  · rw [hr.agrees.size, ha.agrees.size]
    exact hrec.small
  · exact same i (by omega) (outside i (by omega) fun k _ => by omega)
  · exact same (k + 8) (by omega) (outside (k + 8) (by omega) fun i _ => by omega)

lemma forEachChunk_ends (hu : S.Halfway s L tgt r [] b 0 u) :
    Ends (forEachChunk (redirectChunk f S.space)) u fun _ u' =>
      u'.bits.scan = u.bits.scan ∧ S.Halfway s L tgt r S.chunks.reverse b 0 u' := by
  obtain ⟨hr, _, heq⟩ := h.recorded hu
  have hroot : root .ram Root.chunkList u = .ok (s.recorded 10) := by
    rw [hr.root_eq (j := 2) rfl (by omega), heq 2 (by omega) (by omega)]
  have hok := h.aimed.heap.ok
  refine .read_bind (walkBound_eq _) (.query_bind hroot ?_)
  refine (h.followChunks_ends hok.listed (fun c hc => hc) (fun c _ => not_mem_nil)
    (by omega) hu ?_).mono ?_
  · have : u.mem.size = s.mem.size := by
      obtain ⟨_, done, _, hr⟩ := hu
      exact hr.agrees.size.trans h.aimed.agrees.size
    have := hok.chunks_few
    omega
  · rintro _ w ⟨hw, hrest⟩
    rw [append_nil] at hrest
    exact ⟨hw, hrest⟩

lemma redirectField_ends {addr : UInt32} (ha : S.Field s addr.toNat)
    (hu : S.Halfway s L tgt r l addr.toNat 0 u) : Ends (redirect f S.space addr 0) u fun _ u' =>
      u'.bits.scan = u.bits.scan ∧ S.Halfway s L tgt r l (addr.toNat + 4) 0 u' := by
  obtain ⟨hs, done, hp, hr⟩ := hu
  have hfresh : ¬ done addr.toNat := by
    intro hd
    rcases hp.within _ hd with ⟨c, hc, hin⟩ | ⟨_, hlt⟩ | ⟨k, hk, _⟩
    · exact h.aimed.field_apart (hp.movers c hc) ha hin
    · omega
    · omega
  refine (hr.redirect_ends h.aimed (.field ha) (h.aimed.heap.field_refers ha) hfresh
    (.lit 0 rfl ⟨by omega, by omega, addr.toNat_lt⟩)).mono ?_
  rintro _ _ ⟨n, rfl, hn⟩
  exact ⟨rfl, hs.setMem n, _, hp.field ha, hn⟩

lemma redirectFields_ends (hidle : u.bits.scan.active = false)
    (hu : S.Halfway s L tgt r l (low s + 4) 0 u) :
    Ends (forEachBit (s.recorded 0) S.space.start fun field => redirect f S.space field 0) u
      fun _ u' => u'.bits.scan.active = false ∧
        S.Halfway s L tgt r l (S.space.start.toNat + 4) 0 u' := by
  have hok := h.aimed.heap.ok
  have : low s = (s.recorded 0).toNat := rfl
  have hlast : S.space.start.toNat ≤ s.bits.range.last.toNat := by
    have := hok.bounds
    rw [hok.last]
    omega
  have := hok.first
  have bit : ∀ {a b u}, S.Halfway s L tgt r l b 0 u → low s < a → a ≤ S.space.start.toNat →
      a % 4 = 0 → s.bits.range.holds u.mem a = s.bits.range.holds s.mem a := by
    rintro a b u ⟨_, done, _, hr⟩ hlo hhi h4
    rw [hr.holds h.aimed ⟨h4, by omega, by omega⟩, h.aimed.bits a h4 hlo hhi]
  have loop : BitLoop s.bits.range (fun _ field => redirect f S.space field 0)
      (fun b _ u => S.Halfway s L tgt r l b 0 u) ((s.recorded 0).toNat + 4)
      (S.space.start.toNat + 4) := by
    constructor
    case mapped =>
      rintro b _ u ⟨hs, done, _, hr⟩
      rw [hr.agrees.size, h.aimed.agrees.size]
      exact ⟨hs.range.trans h.range, hok.mapped⟩
    case blind =>
      rintro b _ u scan ⟨hs, hrest⟩
      exact ⟨hs.setScan scan, hrest⟩
    case step =>
      intro addr _ u hlo hhi h4 hset hu
      have := hok.start_aligned
      have hf : S.Field s addr.toNat :=
        ⟨h4, by omega, by omega, (bit hu (by omega) (by omega) h4).symm.trans hset⟩
      exact h.redirectField_ends hf hu
    case skip =>
      rintro b _ u hlo hhi h4 hclear hu
      have hno : ∀ a, S.Field s a → a < b + 4 → a < b := by
        intro a ha hlt
        by_contra hge
        have := ha.aligned
        have hset := ha.set
        rw [show a = b by omega, ← bit hu (by omega) (by have := hok.start_aligned; omega) h4,
          hclear] at hset
        cases hset
      obtain ⟨hs, done, hp, hr⟩ := hu
      refine ⟨hs, done, ⟨hp.movers, fun a ha => ?_, hp.covered, fun a ha hlt => ?_, hp.roots⟩, hr⟩
      · rcases hp.within a ha with hl | ⟨hf, hlt⟩ | hr
        · exact .inl hl
        · exact .inr (.inl ⟨hf, by omega⟩)
        · exact .inr (.inr hr)
      · exact hp.fields a ha (hno a ha hlt)
  exact loop.foldBits_ends hok.low_aligned hok.start_aligned hok.low_le (by omega) hlast hidle hu

lemma redirectRoots_ends (hu : S.Halfway s L tgt r l b 0 u) :
    Ends (Root.all.forM fun index => redirect f S.space s.ram.start (SegmentRecord.roots + index))
      u fun _ u' => u'.bits.scan = u.bits.scan ∧ S.Halfway s L tgt r l b 8 u' := by
  have hok := h.aimed.heap.ok
  refine .forRoots (fun j u' => u'.bits.scan = u.bits.scan ∧ S.Halfway s L tgt r l b j u') ?_
    ⟨rfl, hu⟩
  rintro k t hk ⟨hscan, hs, done, hp, hr⟩
  have hindex : (SegmentRecord.roots + Int32.ofNat k).toInt = (k + 8 : Nat) := by
    clear hp
    revert k
    decide
  have hfresh : ¬ done (s.ram.start.toNat + 4 * (k + 8)) := by
    intro hd
    rcases hp.within _ hd with ⟨c, hc, hlo, _⟩ | ⟨hf, _⟩ | ⟨i, hi, he⟩
    · have := h.aimed.record_apart (hp.movers c hc)
      omega
    · have := hf.low
      have := hok.record_low
      omega
    · omega
  refine (hr.redirect_ends h.aimed (.root hk) (h.aimed.heap.root_refers hk) hfresh
    (hok.recorded.points hindex (by omega))).mono ?_
  rintro _ _ ⟨n, rfl, hn⟩
  exact ⟨hscan, hs.setMem n, _, hp.root, hn⟩

lemma redirectPlain_ends (hc : c ∈ L) (hn : c ∉ l) (hj : j ≤ 8) (hch : ¬ c.isChunk)
    (hp : S.Progress s L tgt l b j done) (hr : S.Redirected s L tgt r.mem done u.mem)
    (hshape : Shape.of c.oop c.kind u.mem = .ok c.shape) :
    Ends (Traversal.object (redirector f S.space) c.oop c.kind) u fun _ u' => ∃ n done',
      u' = u.setMem n ∧ S.Progress s L tgt (c :: l) b j done' ∧
        S.Redirected s L tgt r.mem done' n := by
  have ha := h.aimed
  have hm := (ha.mover (.inl hc)).1
  have hread := ha.heap.readable hm
  have hty := ha.heap.typed c hm
  have : c.oop.toNat + c.body ≤ s.mem.size := hread.inside
  have := ha.heap.ok.recorded.small
  have := hty.slots_le
  have slot : ∀ {i}, i < c.slots → c.refs i = true → c.Slot (4 * i) := by
    intro i hi hr
    rw [Slot, if_neg hch]
    exact ⟨i, hi, hr, rfl⟩
  refine (Traversal.object_ends (I := S.Visiting s L tgt r.mem done u c) rfl (by omega) hshape hch
    ?_ ?_ ⟨rfl, hr.congr fun a => by simp⟩).mono ?_
  · exact fun hi => hty.slots _ (hi.2.fixed ha)
  · intro d t i base index hi hlt hr hd hp'
    exact hi.visit ha (.inl hc) (slot hlt hr) (hp.fresh ha hj (.inl hc) hn (by omega)) hd hp'
  rintro _ u' ⟨he, hu'⟩
  refine ⟨u'.mem, _, he, hp.object (.inl hc) ?_ ?_, hu'⟩
  · rintro x ⟨i, hi, _, rfl⟩
    omega
  intro x hx _
  by_cases hsl : x / 4 < c.slots ∧ c.refs (x / 4) = true
  · exact .inl ⟨x / 4, hsl.1, hsl.2, by omega⟩
  · refine .inr (image_data ?_)
    rw [role_plain hch, if_neg hsl]

lemma redirectObject_ends (hc : c ∈ L) (hn : ¬ c.isChunk → c ∉ l)
    (hl : ∀ d ∈ S.chunks, d ∈ l) (hj : j ≤ 8) (hs : r.Scans u)
    (hp : S.Progress s L tgt l b j done) (hr : S.Redirected s L tgt r.mem done u.mem) : Ends (do
      let k ← f.classOf c.oop
      Traversal.object (redirector f S.space) c.oop k) u fun _ u' => ∃ n done',
        u' = u.setMem n ∧ S.Progress s L tgt (c :: l) b j done' ∧
          S.Redirected s L tgt r.mem done' n := by
  have ha := h.aimed
  have hlive := (ha.shift.live c).1 hc
  have hm := (ha.mover (.inl hc))
  have hread := ha.heap.readable hm.1
  have hfixed := hr.fixed ha
  obtain ⟨i, k, hat, hh⟩ := hr.header ha hc
  have hdown := ha.shift.down c hc
  have := ha.near c hc
  have hcl := ha.heap.classes u (hs.rom.trans h.kin.rom) (hs.eeprom.trans h.kin.eeprom) hfixed
  obtain ⟨_, hclass, hle⟩ := hcl.dense
    (hcl.total_le (hfixed.size ▸ ha.heap.ok.recorded.small)) hat
  refine .query_bind (Forwarding.classOf_eq ha.fits (by rw [toNat_minus hdown]; omega) hle hh
    hclass) ?_
  have hshape : Shape.of c.oop c.kind u.mem = .ok c.shape := by
    refine (ha.heap.typed c hm.1).shape _ _ _ hfixed hh fun n hk => ?_
    have hch : ¬ c.isChunk := by
      rw [isChunk, hk]
      intro h
      cases h
    have := hread.owner n hk
    have hfresh := hp.fresh ha hj (.inl hc) (hn hch) (by omega)
    have hword := ha.body_word hm.2 (by omega)
    rw [Nat.add_zero] at hfresh hword
    rw [hr.unchanged ha hread.header.aligned hfresh, hword]
    rfl
  by_cases hch : c.isChunk
  · refine .read_bind hshape ?_
    rw [show c.shape = .stackChunk from hch]
    refine .pure ⟨u.mem, done, rfl, hp.settled (.inl hc) ?_, hr⟩
    rcases ha.heap.listed c hlive hch with hin | ⟨h0, hout⟩
    · exact hp.covered c (hl c hin)
    · exact fun x _ _ => .inr (ha.image_unlisted hc hch h0 hout)
  · exact h.redirectPlain_ends hc (hn hch) hj hch hp hr hshape

lemma redirectObjects_ends (hidle : u.bits.scan.active = false)
    (hu : S.Halfway s L tgt r S.chunks.reverse b 8 u) :
    Ends (forEachBit S.space.start S.space.stop fun oop => do
      let k ← f.classOf oop
      Traversal.object (redirector f S.space) oop k) u fun _ u' =>
        u'.bits.scan.active = false ∧ ∃ l, (∀ c, c ∈ L ∨ c ∈ S.chunks → c ∈ l) ∧
          S.Halfway s L tgt r l b 8 u' := by
  have ha := h.aimed
  have hok := ha.heap.ok
  obtain ⟨hs, done, hp, hr⟩ := hu
  have hrange := hs.range.trans h.range
  have := hok.bounds
  refine (foldObjects_ends (J := fun pre _ m => ∃ l done,
      (∀ c, c ∈ l ↔ c ∈ pre ∨ c ∈ S.chunks) ∧ S.Progress s L tgt l b 8 done ∧
        S.Redirected s L tgt r.mem done m) ha.shift.spread hok.start_aligned hok.stop_aligned
      (fun c hc => ha.heap.aligned (ha.shift.mem hc)) ?_ ?_ ?_ ?_ hidle ?_ ?_ ?_).mono ?_
  · rw [hrange, hr.agrees.size, ha.agrees.size]
    exact hok.mapped
  · rw [hrange]
    omega
  · rw [hrange, hok.last]
    exact hok.stop_le
  · rw [hrange]
    intro a h4 hlo hhi
    have hspan : s.bits.range.Spans a := by
      exact ⟨h4, by omega, by rw [hok.last]; omega⟩
    rw [hr.holds ha hspan]
    exact ha.marks a h4 hlo hhi
  · rintro pre post _ m _ ⟨l, done', _, _, hm⟩
    rw [hrange]
    exact (hr.bits ha).symm.trans (hm.bits ha)
  · rintro pre c post _ t he ht ⟨l, done', hl, hp', hr'⟩
    have hc : c ∈ L := he ▸ mem_append_right _ mem_cons_self
    refine (h.redirectObject_ends hc ?_ (fun d hd => (hl d).2 (.inr hd)) (Nat.le_refl 8)
      (hs.trans ht) hp' hr').mono ?_
    · intro hch hin
      rcases (hl c).1 hin with hpre | hk
      · have hsp := ha.shift.spread
        rw [he] at hsp
        exact Layout.ne_of_split hsp c hpre rfl
      · exact hch (hok.chunks c hk).1
    · rintro _ _ ⟨n, done'', rfl, hp'', hn⟩
      refine ⟨n, rfl, c :: l, done'', fun d => ?_, hp'', hn⟩
      rw [mem_cons, mem_append, mem_singleton, hl d]
      tauto
  · exact ⟨_, done, fun c => by simp, hp, hr⟩
  · rintro _ u' ⟨hu', hi, l, done', hl, hp', hr'⟩
    exact ⟨hi, l, fun c hc => (hl c).2 hc, hs.trans hu', done', hp', hr'⟩

end

end Begun

/-- All references lead to where their objects go. The objects are still where they were. -/
structure Turned (S : Scene) (s : Store) (L : List Cell) (tgt : UInt32 → UInt32) (C : Classes)
    (f : Forwarding) (n : Memory) : Prop where
  fixed : Agrees (S.Fixed s) s.mem n
  header : ∀ c ∈ L, ∃ i j, C.At i j c.kind ∧
    Header.Holds n c.oop (f.encode (c.oop - tgt c.oop) (C.denseOf i j)) c.count
  body : ∀ c, c ∈ L ∨ c ∈ S.chunks → ∀ x, x % 4 = 0 → x + 4 ≤ c.body →
    n.peekWord (c.oop.toNat + x) = c.image tgt s.mem x
  field : ∀ a, S.Field s a → n.peekWord a = tgt (s.mem.peekWord a)
  root : ∀ k < 8, n.peekWord (s.ram.start.toNat + 4 * (k + 8)) = tgt (s.recorded (k + 8))
  record : ∀ i < 8, n.peekWord (s.ram.start.toNat + 4 * i) = s.recorded i
  marks : s.bits.range.Marks n S.space.start.toNat S.space.stop.toNat L
  bits : ∀ a, a % 4 = 0 → low s < a → a ≤ S.space.start.toNat →
    s.bits.range.holds n a = s.bits.range.holds s.mem a

namespace Begun

variable {r : Store} {l : List Cell}

lemma turned (h : S.Begun s L tgt C f stop r) (hl : ∀ c, c ∈ L ∨ c ∈ S.chunks → c ∈ l)
    (hu : S.Halfway s L tgt r l (S.space.start.toNat + 4) 8 u) : S.Turned s L tgt C f u.mem := by
  have ha := h.aimed
  have hok := ha.heap.ok
  have := hok.bounds
  have := hok.last
  obtain ⟨_, hrecord, _⟩ := h.recorded hu
  obtain ⟨hs, done, hp, hr⟩ := hu
  constructor
  case fixed => exact hr.fixed ha
  case header => exact fun c hc => hr.header ha hc
  case body =>
    intro c hc x hx hb
    have hm := ha.mover hc
    have := (ha.heap.readable hm.1).header.aligned
    by_cases hd : done (c.oop.toNat + x)
    · exact (hr.written _ hd).of_word ha hc hb rfl
    · rw [hr.unchanged ha (by omega) hd, ha.body_word hm.2 hb]
      exact ((hp.covered c (hl c hc) x hx hb).resolve_left hd).symm
  case field =>
    intro a hf
    have := hf.high
    exact (hr.written a (hp.fields a hf (by omega))).of_field ha hf
  case root => exact fun k hk => (hr.written _ (hp.roots k hk)).of_root ha hk rfl
  case record =>
    intro i hi
    rw [← hrecord i hi, Store.recorded, hs.ram.trans h.kin.ram]
  case marks =>
    intro a h4 hlo hhi
    rw [hr.holds ha ⟨h4, by omega, by omega⟩]
    exact ha.marks a h4 hlo hhi
  case bits =>
    intro a h4 hlo hhi
    rw [hr.holds ha ⟨h4, by omega, by omega⟩]
    exact ha.bits a h4 hlo hhi

lemma redirectAll_ends (h : S.Begun s L tgt C f stop r) :
    Ends (redirectAll f S.space) r fun _ u =>
      r.Scans u ∧ u.bits.scan.active = false ∧ S.Turned s L tgt C f u.mem := by
  have hram := h.kin.ram
  have start : S.Halfway s L tgt r [] (low s + 4) 0 r := by
    refine ⟨.refl r, fun _ => False, ⟨fun c hc => absurd hc not_mem_nil, fun a ha => ha.elim,
      fun c hc => absurd hc not_mem_nil, fun a ha hlt => ?_, fun k hk => by omega⟩, .start⟩
    have := ha.low
    have := ha.aligned
    have := h.aimed.heap.ok.low_aligned
    omega
  refine .get_bind ?_
  rw [hram]
  refine .bind (h.forEachChunk_ends start) ?_
  rintro _ t ⟨hscan, ht⟩
  obtain ⟨hr, hrec, hroot⟩ := h.recorded ht
  have htable : associationTable t = .ok 0 := by
    rw [associationTable, hr.root_eq (j := 6) rfl (by omega), hroot 6 (by omega) (by omega),
      h.aimed.heap.associations]
  have hmem : memoryStart t = .ok (s.recorded 0) := by
    rw [memoryStart, hr.record_eq (j := 0) rfl (by omega), hrec 0 (by omega)]
  refine .query_bind htable ?_
  refine .query_bind hmem ?_
  refine .bind (h.redirectFields_ends (hscan ▸ h.idle) ht) ?_
  rintro _ u ⟨hidle, hu⟩
  refine .bind (h.redirectRoots_ends hu) ?_
  rintro _ v ⟨hscan', hv⟩
  refine (h.redirectObjects_ends (hscan' ▸ hidle) hv).mono ?_
  rintro _ w ⟨hidle', l, hl, hw⟩
  exact ⟨hw.1, hidle', h.turned hl hw⟩

end Begun

end Scene

end DeviceVm.Sliding
