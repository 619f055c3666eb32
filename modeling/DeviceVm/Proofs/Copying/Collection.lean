import DeviceVm.Proofs.Copying.Check
import DeviceVm.Proofs.Copying.Roots

/-!
A whole collection. The heap that it is given is described by what its objects and roots refer to;
what it leaves is described by the order of the copies.
-/

namespace DeviceVm.Copying

open List Store Word Traversal Association Liveness

/-- The words of an object before the collection. -/
def Scene.words (S : Scene) (c : Cell) (x : Nat) : UInt32 := c.words S.mem x

/-- An object that a root leads to. The table of associations is none. -/
def Scene.Rooted (S : Scene) (record : Nat → UInt32) (c : Cell) : Prop :=
  S.Fresh c ∧ ∃ j, IsRoot j ∧ c.oop = record j

/-- An object that a root or the table of associations refers to. -/
def Scene.Held (S : Scene) (record : Nat → UInt32) (table : Cell) (queues : Nat → List Cell)
    (c : Cell) : Prop :=
  S.Fresh c ∧ ((∃ j, IsRoot j ∧ c.oop = record j) ∨
    (record 14 ≠ 0 ∧ (c = table ∨ c ∈ (range 16).flatMap queues)))

/-- A store that the copying collector can collect. The objects fill the half in use, and what the
roots, the table of associations and its queues lead to is sound. The table may be missing;
otherwise its queues are as `Register` says, which is more than the collector checks: no association
is queued twice, and objects and monitors are where they can be read whether copied or not. -/
structure Heap (S : Scene) (table : Cell) (queues : Nat → List Cell) (s : Store) : Prop where
  ok : S.Ok
  rom : s.rom = S.rom
  eeprom : s.eeprom = S.eeprom
  ram : s.ram = S.ram
  mem : s.mem = S.mem
  idle : s.collecting = false
  half : (s.recorded 1 / 2 &&& 0xfffffffc).toNat = S.half
  sides : (S.source = (s.recorded 0).toNat ∧ S.target = S.source + S.half) ∨
    (S.target = (s.recorded 0).toNat ∧ S.source = S.target + S.half)
  start : (s.recorded 2).toNat = S.source
  stop : (s.recorded 4).toNat = S.source + S.half
  tiles : Tiles S.source S.cells (s.recorded 3).toNat
  headers : ∀ c ∈ S.cells,
    Header.Holds S.mem c.oop (match S.gone c with | none => c.kind | some e => e + 2) c.count
  roots : ∀ j, IsRoot j → S.Legal S.words (s.recorded j)
  register : (s.recorded 14 = 0 ∧ table ∉ S.cells ∧ ∀ i, queues i = []) ∨
    S.Register S.words (s.recorded 14) table queues
  sound : ∀ c, S.Reached S.words (S.Held s.recorded table queues) c →
    S.Fresh c ∧ S.Sound S.words c

variable {S : Scene} {table q c d : Cell} {queues : Nat → List Cell} {g : Progress} {s t : Store}
  {record : Nat → UInt32}

/-- Nothing was copied. -/
def Scene.begin (S : Scene) (record : Nat → UInt32) : Progress where
  order := []
  orig := S.words
  record
  done := (· < S.target)
  scan := S.space.start

namespace Heap

lemma space_start (h : Heap S table queues s) : S.space.start.toNat = S.target := by
  have := h.ok.bounds
  simp only [Scene.space, UInt32.toNat_ofNat']
  omega

lemma begin (h : Heap S table queues s) (ht : t = { s with
    collecting := true,
    copying := { s.copying with free := S.space.start, scan := S.space.start } }) :
    Inv S (S.begin s.recorded) t := by
  have hstart := h.space_start
  have notPlaced : ∀ {c : Cell} {a : Nat}, ¬ Placed S.target [] c a := fun hp =>
    absurd hp.mem not_mem_nil
  subst ht
  constructor
  case agrees =>
    rw [h.mem]
    exact .refl S.mem
  case free => exact hstart
  case scan => rfl
  case nodup => exact nodup_nil
  case fresh => exact fun c hc => absurd hc not_mem_nil
  case done_lt => exact fun y hy => hy
  case record =>
    intro j _
    rw [← h.ram]
    rfl
  case gone =>
    intro c e hc he
    have hh := h.headers c hc
    rw [he] at hh
    rw [h.mem]
    exact hh
  case unmoved =>
    intro c hc hs _
    have hh := h.headers c hc
    rw [hs] at hh
    rw [h.mem]
    exact hh
  case words =>
    intro c x _ _ _ _ _
    rw [h.mem]
    rfl
  case moved => exact fun c a hp => absurd hp notPlaced
  case copies => exact fun c a hp => absurd hp notPlaced
  case waiting => exact fun c a x hp => absurd hp notPlaced
  case updated => exact fun c a x hp => absurd hp notPlaced
  case pinned =>
    intro c x _ _ _
    rw [h.mem]
    rfl
  case rom => exact h.rom
  case eeprom => exact h.eeprom
  case ram => exact h.ram
  case collecting => rfl

end Heap

/-- The store when all that roots lead to was copied. -/
structure Traced (S : Scene) (record : Nat → UInt32) (g : Progress) (s : Store) : Prop where
  inv : Inv S g s
  orig : g.orig = S.words
  done : AllDone S g
  scan : g.scan.toNat = S.target + Cell.total g.order
  order : ∀ c, c ∈ g.order ↔ S.Reached S.words (S.Rooted record) c
  root : ∀ j, IsRoot j → S.Image g.order (record j) (g.record j)
  record : ∀ j, ¬ IsRoot j → g.record j = record j

lemma Scene.Reached.held
    (hr : S.Reached S.words (S.Rooted record) c) :
    S.Reached S.words (S.Held record table queues) c :=
  hr.mono fun _ hc => .first ⟨hc.1, .inl hc.2⟩

namespace Heap

lemma closed (h : Heap S table queues s) :
    Closed S S.words (S.Reached S.words (S.Rooted s.recorded)) :=
  Scene.Reached.closed fun c hc => h.sound c hc.held

lemma follows (h : Heap S table queues s) {j : Nat} (hj : IsRoot j) :
    S.Follows (S.Reached S.words (S.Rooted s.recorded)) (s.recorded j) :=
  (h.roots j hj).follows fun _ hf he => .first ⟨hf, j, hj, he⟩

lemma scan_ends (h : Heap S table queues s) {more : List Cell} {record : Nat → UInt32}
    (R : Rooting S (S.Reached S.words (S.Rooted s.recorded)) (S.begin s.recorded) 8 t more
      record) :
    Ends (scan S.space) t fun _ u => ∃ g, Traced S s.recorded g u := by
  have half : Half S (S.Reached S.words (S.Rooted s.recorded))
      { S.begin s.recorded with order := (S.begin s.recorded).order ++ more, record } []
      ((S.begin s.recorded).order ++ more) t := {
    inv := R.inv
    order := rfl
    done := rfl
    scan := h.space_start
    live := R.live }
  refine (Copying.scan_ends h.ok h.closed half).mono fun _ u hu => ?_
  obtain ⟨more', scan, H, hlive⟩ := hu
  have hdone := H.done
  refine ⟨_, H.inv, rfl, hdone, H.scan, fun c => ⟨fun hc => ?_, fun hc => ?_⟩, fun j hj => ?_,
    fun j hj => ?_⟩
  · rcases mem_append.1 hc with hc | hc
    · exact R.live c hc
    · exact hlive c hc
  · refine H.inv.reached h.ok hdone (fun d hd => ?_) hc
    obtain ⟨hf, j, hj, he⟩ := hd
    have hi := R.image j hj (by
      have := hj.2.1
      omega)
    dsimp only [Scene.begin] at hi
    rw [← he] at hi
    exact mem_append_left _ (hi.placed h.ok hf).mem
  · have := hj.2.1
    exact (R.image j hj (by omega)).append more'
  · exact R.same j fun hh => hj hh.1

end Heap

/-! ### After the associations were decided -/

open Classical in
/-- The words of objects, without the links of the queues. -/
noncomputable def Scene.unlinked (S : Scene) (table : Cell) (queues : Nat → List Cell) (c : Cell)
    (x : Nat) : UInt32 :=
  if (c ∈ (range 16).flatMap queues ∧ x = 4) ∨ (c = table ∧ x < 64 ∧ x % 4 = 0) then 0
  else S.words c x

lemma Scene.Settled.held {decided kept finalized : List Cell}
    {copied : Cell → Prop}
    (h : S.Settled S.words table (S.Reached S.words (S.Rooted record)) decided kept finalized
      copied)
    (h14 : record 14 ≠ 0) (hq : ∀ p ∈ decided, p ∈ (range 16).flatMap queues)
    (ha : ∀ p ∈ decided, S.IsAssociation S.words table p) :
    copied c → S.Reached S.words (S.Held record table queues) c := by
  induction h generalizing c with
  | start => exact fun hc => hc.held
  | @keep decided _ _ _ q _ _ ih =>
    have hmem : q ∈ decided ++ [q] := by simp
    have hassoc := ha q hmem
    rintro (hc | ⟨hf, rfl | he⟩)
    · exact ih (fun p hp => hq p (by simp [hp])) (fun p hp => ha p (by simp [hp])) hc
    · exact .first ⟨hf, .inr ⟨h14, .inr (hq _ hmem)⟩⟩
    rcases hassoc.known with hfq | hp
    · have := hassoc.room
      exact .step (.first ⟨hfq, .inr ⟨h14, .inr (hq _ hmem)⟩⟩)
        (.pointer rfl (by omega) (hassoc.object_role hfq) hf he)
    · exact absurd (he ▸ hf.inRam) (hassoc.object_pinned hp).outside
  | @finalize decided _ _ _ q _ _ _ ih =>
    rintro (hc | ⟨hf, rfl⟩)
    · exact ih (fun p hp => hq p (by simp [hp])) (fun p hp => ha p (by simp [hp])) hc
    · exact .first ⟨hf, .inr ⟨h14, .inr (hq _ (by simp))⟩⟩
  | drop _ _ _ ih =>
    exact ih (fun p hp => hq p (by simp [hp])) fun p hp => ha p (by simp [hp])

namespace Rebuilt

variable {orig : Cell → Nat → UInt32} {v : UInt32} {start : Progress}
  {kept finalized : List Cell} {lists : Nat → List Cell}

section

variable (B : Rebuilt S orig table queues start kept finalized lists g t)
  (reg : S.Register orig v table queues)
include B reg

lemma link_cases (c : Cell) (x : Nat) :
    (¬ (c ∈ (range 16).flatMap queues ∧ x = 4) ∧ ¬ (c = table ∧ x < 64 ∧ x % 4 = 0) ∧
      g.orig c x = orig c x) ∨
    (((c ∈ (range 16).flatMap queues ∧ x = 4) ∨ (c = table ∧ x < 64 ∧ x % 4 = 0)) ∧
      ¬ c.isChunk ∧ (∀ k, c.shape ≠ .classState k) ∧ S.Still (g.orig c x)) := by
  rcases Classical.em (c ∈ (range 16).flatMap queues ∧ x = 4) with hl | hl
  · obtain ⟨hc, rfl⟩ := hl
    have ha := reg.association hc
    exact .inr ⟨.inl ⟨hc, rfl⟩, ha.plain, ha.stateless, B.cut c hc⟩
  rcases Classical.em (c = table ∧ x < 64 ∧ x % 4 = 0) with he | he
  · obtain ⟨rfl, hx, h4⟩ := he
    have := B.entries (x / 4) (by omega)
    rw [show 4 * (x / 4) = x by omega] at this
    exact .inr ⟨.inr ⟨rfl, hx, h4⟩, reg.plain, reg.stateless, this⟩
  · exact .inl ⟨hl, he, B.same c x hl he⟩

lemma rewritten : S.Rewritten orig g.orig := fun c x _ => by
  rcases B.link_cases reg c x with ⟨_, _, he⟩ | ⟨_, h⟩
  · exact .inl he
  · exact .inr h

end

lemma reached_iff (B : Rebuilt S S.words table queues start kept finalized lists g t)
    (reg : S.Register S.words v table queues) (ok : S.Ok) {first : Cell → Prop}
    (hf : ∀ c, first c → c ∈ S.cells) :
    S.Reached g.orig first c ↔ S.Reached (S.unlinked table queues) first c := by
  refine ⟨Scene.Rewritten.reached (fun c x _ => ?_) ok hf,
    Scene.Rewritten.reached (fun c x _ => ?_) ok hf⟩
  · rcases B.link_cases reg c x with ⟨hl, he, heq⟩ | ⟨_, h⟩
    · left
      rw [Scene.unlinked, if_neg (by rintro (hh | hh); exacts [hl hh, he hh])]
      exact heq
    · exact .inr h
  rcases B.link_cases reg c x with ⟨hl, he, heq⟩ | ⟨hc, hp, hst, _⟩
  · left
    rw [Scene.unlinked, if_neg (by rintro (hh | hh); exacts [hl hh, he hh])]
    exact heq.symm
  · refine .inr ⟨hp, hst, ?_⟩
    rw [Scene.unlinked, if_pos hc]
    exact ok.zero_still

end Rebuilt

/-- The store when the fates of the associations are decided and all that they keep was copied. -/
structure Evacuated (S : Scene) (record : Nat → UInt32) (table : Cell) (queues : Nat → List Cell)
    (kept finalized : List Cell) (lists : Nat → List Cell) (g : Progress) (s : Store) : Prop where
  inv : Inv S g s
  done : AllDone S g
  settled : ∃ copied, S.Settled S.words table (S.Reached S.words (S.Rooted record))
    ((range 16).flatMap queues) kept finalized copied ∧
    ∀ c, c ∈ g.order ↔ S.Reached (S.unlinked table queues)
      (fun d => copied d ∨ (S.Fresh d ∧ d = table)) c
  same : ∀ c x, ¬ (c ∈ (range 16).flatMap queues ∧ x = 4) →
    ¬ (c = table ∧ x < 64 ∧ x % 4 = 0) → g.orig c x = S.words c x
  rewritten : S.Rewritten S.words g.orig
  cut : ∀ q ∈ (range 16).flatMap queues,
    S.IsAssociation S.words table q ∧ S.Still (g.orig q 4)
  root : ∀ j, IsRoot j → j ≠ 15 → S.Image g.order (record j) (g.record j)
  final : ∃ v, S.Image g.order (record 15) v ∧
    S.Built g.order g.orig v (g.record 15) finalized.reverse
  other : ∀ j, ¬ IsRoot j → j ≠ 14 → g.record j = record j
  queued : (record 14 = 0 ∧ g.record 14 = 0 ∧ kept = []) ∨ Queued S S.words table lists g
  sub : ∀ i, (lists i).Sublist kept.reverse
  listed : ∀ q ∈ kept, ∃ key, S.Image g.order (S.words q 0) key ∧
    q ∈ lists (queueOf key).toNat

namespace Heap

variable {start : Progress} {kept finalized : List Cell} {lists : Nat → List Cell} {t₀ : Store}

lemma rescan_ends (h : Heap S table queues s)
    (reg : S.Register S.words (s.recorded 14) table queues) (T : Traced S s.recorded start t₀)
    (h14 : s.recorded 14 ≠ 0)
    (B : Rebuilt S S.words table queues start kept finalized lists g t) :
    Ends (scan S.space) t fun _ u => ∃ g',
      Evacuated S s.recorded table queues kept finalized lists g' u := by
  have ok := h.ok
  obtain ⟨copied, hsettled, hcopied⟩ := B.settled
  have hall : ∀ p ∈ (range 16).flatMap queues, S.IsAssociation S.words table p :=
    fun p hp => reg.association hp
  have hfirst : (· ∈ start.order) = S.Reached S.words (S.Rooted s.recorded) :=
    funext fun c => propext (T.order c)
  rw [hfirst] at hsettled
  have hcells : ∀ c ∈ g.order, c ∈ S.cells := fun c hc => (B.inv.fresh c hc).mem
  have hheld : ∀ c ∈ g.order, S.Reached S.words (S.Held s.recorded table queues) c := by
    intro c hc
    rcases (hcopied c).1 hc with hc | ⟨hf, rfl⟩
    · exact hsettled.held h14 (fun p hp => hp) hall hc
    · exact .first ⟨hf, .inr ⟨h14, .inl rfl⟩⟩
  have closed : Closed S g.orig (S.Reached g.orig (· ∈ g.order)) :=
    Scene.Reached.closed fun c hc => by
      have hr := ((B.rewritten reg).reached ok hcells hc).mono hheld
      obtain ⟨hf, hs⟩ := h.sound c hr
      exact ⟨hf, (B.rewritten reg).sound hf.mem hs⟩
  obtain ⟨more, hmore⟩ := B.order
  have half : Half S (S.Reached g.orig (· ∈ g.order)) g start.order more t := {
    inv := B.inv
    order := hmore
    done := by rw [B.done, T.done]
    scan := by rw [B.scan, T.scan]
    live := fun c hc => .first (by rw [hmore]; exact mem_append_right _ hc) }
  refine (Copying.scan_ends ok closed half).mono fun _ u hu => ?_
  obtain ⟨more', scan, H, hlive⟩ := hu
  have hdone : AllDone S { g with
    order := g.order ++ more', done := (· < scan.toNat), scan } := H.done
  have hlists : ∀ i q, q ∈ lists i → q ∈ (range 16).flatMap queues := fun i q hq =>
    hsettled.kept_mem.1 q (mem_reverse.1 ((B.sub i).subset hq))
  refine ⟨{ g with order := g.order ++ more', done := (· < scan.toNat), scan }, ?_⟩
  exact { B with
    inv := H.inv
    done := hdone
    settled := by
      refine ⟨copied, hsettled, fun c => ?_⟩
      have hfirst : (fun d => copied d ∨ (S.Fresh d ∧ d = table)) = (· ∈ g.order) :=
        funext fun d => propext (hcopied d).symm
      rw [hfirst, ← B.reached_iff reg ok hcells]
      constructor
      · intro hc
        rcases mem_append.1 hc with hc | hc
        · exact .first hc
        · exact hlive c hc
      · exact H.inv.reached ok hdone fun d hd => mem_append_left _ hd
    rewritten := B.rewritten reg
    cut := fun q hq => ⟨hall q hq, B.cut q hq⟩
    root := by
      intro j hj h15
      have hi := T.root j hj
      rw [B.record j hj.2.2 h15, hmore, append_assoc]
      exact hi.append (more ++ more')
    final := by
      have hi := T.root 15 ⟨by omega, by omega, by omega⟩
      refine ⟨start.record 15, ?_, B.final.append more'⟩
      rw [hmore, append_assoc]
      exact hi.append (more ++ more')
    other := by
      intro j hj h14
      rw [B.record j h14 fun he => hj (he ▸ ⟨by omega, by omega, by omega⟩)]
      exact T.record j hj
    queued := .inr { reg with
      home := B.home.append more'
      entries := B.entries
      built := fun i hi => (B.built i hi).append more'
      nodup := fun i => (((reverse_perm kept).nodup_iff.mpr
        (reg.nodup.sublist hsettled.kept_sublist)).sublist
        (B.sub i))
      association := fun i q hq => hall q (hlists i q hq)
      cut := fun i q hq => B.cut q (hlists i q hq)
      object := fun i q hq => B.same q 0 (fun hh => absurd hh.2 (by omega))
        fun hh => (hall q (hlists i q hq)).ne_table hh.1
      keyed := by
        intro i q hi hq
        obtain ⟨key, hk, he⟩ := B.keyed i q hi hq
        exact ⟨key, hk.append more', he⟩ }
    listed := by
      intro q hq
      obtain ⟨key, hk, he⟩ := B.listed q hq
      exact ⟨key, hk.append more', he⟩ }

lemma no_table (h : Heap S table queues s) (h14 : s.recorded 14 = 0) (ht : table ∉ S.cells)
    (hq : ∀ i, queues i = []) (T : Traced S s.recorded g t) :
    Evacuated S s.recorded table queues [] [] (fun _ => []) g t := by
  have hnil : (range 16).flatMap queues = [] := by
    rw [flatMap_eq_nil_iff]
    exact fun i _ => hq i
  have hno : ∀ d, ¬ (S.Fresh d ∧ d = table) := fun d hd => ht (hd.2 ▸ hd.1.mem)
  have hwords : S.Rewritten S.words (S.unlinked table queues) := fun c x hc => by
    left
    rw [Scene.unlinked, if_neg]
    rintro (hh | hh)
    · rw [hnil] at hh
      exact not_mem_nil hh.1
    · exact ht (hh.1 ▸ hc)
  exact { T with
    settled := by
      rw [hnil]
      refine ⟨_, .start, fun c => ?_⟩
      have hcells : ∀ c, S.Rooted s.recorded c → c ∈ S.cells := fun c hc => hc.1.mem
      rw [T.order]
      constructor
      · exact fun hc => .first (.inl hc)
      intro hc
      refine (hwords.reached h.ok ?_ hc).mono ?_
      · rintro d (hd | hd)
        · exact hd.mem hcells
        · exact absurd hd (hno d)
      · rintro d (hd | hd)
        · exact hd
        · exact absurd hd (hno d)
    same := fun c x _ _ => by rw [T.orig]
    rewritten := fun c x _ => .inl (by rw [T.orig])
    cut := fun q hq => absurd (hnil ▸ hq) not_mem_nil
    root := fun j hj _ => T.root j hj
    final := ⟨_, T.root 15 ⟨by omega, by omega, by omega⟩, .nil⟩
    other := fun j hj _ => T.record j hj
    queued := .inl ⟨h14, (T.record 14 fun hh => hh.2.2 rfl).trans h14, rfl⟩
    sub := fun _ => .slnil
    listed := fun q hq => absurd hq not_mem_nil }

end Heap

end DeviceVm.Copying
