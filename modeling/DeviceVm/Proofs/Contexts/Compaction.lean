import DeviceVm.Proofs.Contexts.Relocation
import DeviceVm.Proofs.Sliding.Compaction

/-!
Contexts and the sliding collector. The chunks of contexts are listed, so that they are live: each
moves down to where its object goes, its links and frames with it.
-/

namespace DeviceVm

open List Cell

namespace Sliding.Scene.Packed

variable {S : Scene} {C : Classes} {s t : Store} {L : List Cell} {tgt : UInt32 → UInt32}
  {free : UInt32} {c d : Cell} (h : S.Heap s C) (p : S.Packed s L tgt free t)
include h p

lemma carried (hc : c ∈ S.chunks) (used : c.words s.mem 16 ≠ 0) :
    c.Carried (fun v v' => tgt v = v') s.mem t.mem (tgt c.oop) := by
  obtain ⟨hk, hr, -⟩ := h.ok.chunks c hc
  have arrived := (p.moved.landed h p.shift (.inr hc)).arrived
  have word : ∀ x, x % 4 = 0 → x + 4 ≤ c.body →
      t.mem.peekWord ((tgt c.oop).toNat + x) = c.image tgt s.mem x := arrived
  constructor
  case framed => exact hr.frames hk used
  case reads => exact fun f hf => hr.methods f hf _ (.refl _)
  case data =>
    intro x hx hb hrole
    rw [word x hx hb, image_data hrole]
  case pointer =>
    intro x hx hb hrole
    rw [word x hx hb, image_pointer hrole]
  case code =>
    intro x hx hb hrole
    exact ⟨_, rfl, by rw [word x hx hb, image_code hrole]⟩
  case link =>
    intro x hx hb hrole
    rw [word x hx hb, image_link hrole]

lemma chunk_words (hc : c ∈ S.chunks) :
    t.mem.peekWord ((tgt c.oop).toNat + 4) = tgt (s.mem.peekWord (c.oop.toNat + 4)) ∧
      t.mem.peekWord ((tgt c.oop).toNat + 12) = s.mem.peekWord (c.oop.toNat + 12) ∧
      (s.mem.peekWord (c.oop.toNat + 16) = 0 → t.mem.peekWord ((tgt c.oop).toNat + 16) = 0) := by
  obtain ⟨hk, hr, -⟩ := h.ok.chunks c hc
  have arrived := (p.moved.landed h p.shift (.inr hc)).arrived
  have := hr.room hk
  have word : ∀ x, x % 4 = 0 → x + 4 ≤ c.body →
      t.mem.peekWord ((tgt c.oop).toNat + x) = c.image tgt s.mem x := arrived
  have hsize : c.role 12 = .data := by
    by_cases h0 : c.words s.mem 16 = 0
    · rw [role, if_pos hk, if_neg (by omega), if_neg (by omega), if_neg (by omega),
        if_neg (by omega), hr.idle hk h0]
      rfl
    · exact role_size hk (hr.frames hk h0).frames
  refine ⟨?_, ?_, fun h0 => ?_⟩
  · rw [word 4 rfl (by omega), image, role_next hk]
    rfl
  · rw [word 12 rfl (by omega), image_data hsize]
    rfl
  · rw [word 16 rfl (by omega), image_link (role_last hk)]
    exact if_pos h0

lemma chunks_apart (hc : c ∈ S.chunks) (hd : d ∈ S.chunks) : c = d ∨
    (tgt c.oop).toNat + c.body ≤ (tgt d.oop).toNat ∨
      (tgt d.oop).toNat + d.body ≤ (tgt c.oop).toNat := by
  have hmoved := p.shift.moved
  rcases p.shift.chunk_cases h hc with hcl | ⟨hco, hce⟩
  · rcases p.shift.chunk_cases h hd with hdl | ⟨hdo, hde⟩
    · rcases hmoved.apart_map hcl hdl with he | ha | ha
      · exact .inl he
      · exact .inr (.inl (Nat.le_trans (Nat.le_add_right _ _) ha))
      · exact .inr (.inr (Nat.le_trans (Nat.le_add_right _ _) ha))
    · have := (h.old_below hdo).2
      have := (p.shift.low hcl).1
      rw [hde]
      exact .inr (.inr (by omega))
  rcases p.shift.chunk_cases h hd with hdl | ⟨hdo, hde⟩
  · have := (h.old_below hco).2
    have := (p.shift.low hdl).1
    rw [hce]
    exact .inr (.inl (by omega))
  rw [hce, hde]
  rcases h.old.apart hco hdo with he | ha | ha
  · exact .inl he
  · exact .inr (.inl (Nat.le_trans (Nat.le_add_right _ _) ha))
  · exact .inr (.inr (Nat.le_trans (Nat.le_add_right _ _) ha))

lemma bounds : free.toNat % 4 = 0 ∧ low s ≤ free.toNat ∧
    free.toNat ≤ (t.recorded 4).toNat ∧ (t.recorded 4).toNat ≤ high s := by
  have h1 := p.shift.stop_aligned
  have := Moved.start_le p.shift
  have := p.shift.stop_le
  have := h.ok.bounds
  have h6 := p.sized.end_eq
  refine ⟨h1, by omega, ?_, ?_⟩ <;> rw [h6] <;> omega

end Sliding.Scene.Packed

namespace Stack

variable {S S' : Scene} {X : Sliding.Scene} {C : Classes} {s t : Store} {L : List Cell}
  {tgt : UInt32 → UInt32} {free : UInt32} {rs : List Room} {r : Room}

abbrev atWork (s : Store) : Store := { s with collecting := true }

abbrev finished (s : Store) : Store := { s with collecting := false, justCollected := true }

lemma compaction_packs {f : Forwarding} (h : X.Heap (atWork s) C)
    (fits : f.Fits (Classes.total C.suites)) (idle : s.collecting = false) :
    Ends (Store.insideCollector (Sliding.compact f X.space)) s fun _ t => ∃ tgt free u,
      X.Packed (atWork s) (X.survivors (atWork s)) tgt free u ∧ t = finished u := by
  refine .insideCollector idle ?_
  have spread : Spread X.space.start.toNat (X.survivors (atWork s)) X.space.stop.toNat :=
    h.ok.spread.sublist filter_sublist
  have kin : Sliding.Kin (atWork s) (atWork s) := rfl
  refine (h.compact_ends fits (fun c => Sliding.Scene.mem_survivors) spread kin rfl rfl rfl).mono ?_
  rintro - u ⟨tgt, free, packed⟩
  exact ⟨by rw [packed.moved.kin], tgt, free, u, packed, rfl⟩

/-- The chunk is one of those in the list of chunks. -/
structure Room.Listed (X : Sliding.Scene) (r : Room) (c : Cell) : Prop where
  mem : c ∈ X.chunks
  oop : c.oop = r.chunk
  body : c.body = 4 * r.words

/-- The chunk where it has gone. -/
def Room.sent (tgt : UInt32 → UInt32) (r : Room) : Room := ⟨tgt r.chunk, r.words⟩

section

variable (h : X.Heap (atWork s) C) (p : X.Packed (atWork s) L tgt free t)
include h p

lemma Scene.Renews.ready_finished
    (renews : S.Renews S' (finished t) (fun v v' => tgt v = v') rs) : S'.Ready (finished t) := by
  have hram : S'.ram = s.ram := renews.ram.symm.trans p.moved.kin.ram
  have : S'.mem.size = s.mem.size := renews.agrees.size.symm.trans p.moved.size_eq
  have hfree : (finished t).recorded 3 = free := p.sized.free_eq
  have : s.ram.start.toNat + 64 ≤ Sliding.low (atWork s) := h.ok.record_low
  have : Sliding.high (atWork s) + 20 ≤ s.ram.start.toNat + s.ram.size.toNat := h.ok.high_ram
  have : s.ram.start.toNat + s.ram.size.toNat ≤ s.mem.size := h.ok.ram_high
  obtain ⟨b1, b2, b3, b4⟩ := p.bounds h
  have : ((finished t).recorded 4).toNat ≤ Sliding.high (atWork s) := b4
  refine ⟨renews.rom, renews.eeprom, renews.ram, renews.agrees, rfl, ?_, ?_, ?_, ?_, renews.free⟩
  · rw [hfree]
    exact b1
  · rw [hfree, hram]
    omega
  · rw [hfree]
    exact b3
  · omega

lemma Scene.Renews.holds_sent (renews : S.Renews S' (finished t) (fun v v' => tgt v = v') rs)
    (hr : r ∈ rs) (hold : S.Holds s r) {c : Cell} (hc : r.Listed X c) :
    S'.Holds (finished t) (r.sent tgt) := by
  have hram : S'.ram = s.ram := renews.ram.symm.trans p.moved.kin.ram
  have hfree : (finished t).recorded 3 = free := p.sized.free_eq
  have : s.ram.start.toNat + 64 ≤ Sliding.low (atWork s) := h.ok.record_low
  have hlow : Sliding.low (atWork s) ≤ (tgt c.oop).toNat := by
    have := h.ok.low_le
    rcases p.shift.chunk_cases h hc.mem with hl | ⟨ho, he⟩
    · have := (p.shift.low hl).1
      omega
    · have := (h.old_below ho).1
      rw [he]
      omega
  have landed := p.moved.landed h p.shift (.inr hc.mem)
  have haligned := landed.header.aligned
  have hhigh := landed.high
  have hsize : t.mem.peekWord ((tgt c.oop).toNat + 12) = s.mem.peekWord (c.oop.toNat + 12) :=
    (p.chunk_words h hc.mem).2.1
  have := hc.body
  rw [hc.oop] at hlow haligned hhigh hsize
  refine ⟨haligned, ?_, ?_, hold.header, fun b hb => ?_, ?_⟩
  · show _ ≤ (tgt r.chunk).toNat
    rw [hram]
    omega
  · show (tgt r.chunk).toNat + 4 * r.words ≤ _
    rw [hfree]
    omega
  · exact renews.chunk b r _ hb hr rfl
  · show (t.mem.peekWord ((tgt r.chunk).toNat + 12)).toNat = r.words
    rw [hsize]
    exact hold.size

lemma Scene.Spare.sent {chunk : UInt32} {us : List Room} (cells : ∀ u ∈ us, ∃ c, u.Listed X c)
    (hs : Scene.Spare s.mem chunk us) : Scene.Spare t.mem (tgt chunk) (us.map (·.sent tgt)) := by
  induction us generalizing chunk with
  | nil =>
    obtain rfl : chunk = 0 := hs
    exact p.shift.zero
  | cons u us ih =>
    obtain ⟨rfl, hz, hs⟩ := hs
    obtain ⟨c, hc⟩ := cells u mem_cons_self
    obtain ⟨h4, -, h16⟩ := p.chunk_words h hc.mem
    rw [hc.oop] at h4 h16
    refine ⟨rfl, h16 hz, ?_⟩
    have hnext : t.mem.peekWord ((u.sent tgt).chunk.toNat + 4) =
        tgt (s.mem.peekWord (u.chunk.toNat + 4)) := h4
    rw [hnext]
    exact ih (fun x hx => cells x (mem_cons_of_mem _ hx)) hs

lemma Scene.Renews.compaction
    (renews : S.Renews S' (finished t) (fun v v' => tgt v = v') rs)
    (hold : ∀ r ∈ rs, S.Holds s r) (cells : ∀ r ∈ rs, ∃ c, r.Listed X c) :
    Relocation S S' s (finished t) (fun v v' => tgt v = v') rs := by
  have next : ∀ {r}, r ∈ rs → t.mem.peekWord ((tgt r.chunk).toNat + 4) =
      tgt (s.mem.peekWord (r.chunk.toNat + 4)) := by
    intro r hr
    obtain ⟨c, hc⟩ := cells r hr
    rw [← hc.oop]
    exact (p.chunk_words h hc.mem).1
  constructor
  case ready => exact renews.ready_finished h p
  case unique => exact fun h₁ h₂ => h₁.symm.trans h₂
  case zero => exact fun hv => hv.symm.trans p.shift.zero
  case method => exact renews.method
  case chunk =>
    rintro r a hr used rfl
    obtain ⟨c, hc⟩ := cells r hr
    refine ⟨renews.holds_sent h p hr (hold r hr) hc, c, hc.oop, ?_⟩
    rw [← hc.oop] at used ⊢
    have hcarried := p.carried h hc.mem used
    exact hcarried
  case next =>
    rintro r a v hr - rfl rfl - -
    exact (next hr).symm
  case spares =>
    rintro r a us hr hus - rfl hs
    refine ⟨us, us.map (·.sent tgt), .refl _, ?_, ?_, ?_⟩
    · rw [forall₂_map_right_iff]
      exact forall₂_same.2 fun u _ => ⟨rfl, rfl⟩
    · intro u hu
      obtain ⟨x, hx, rfl⟩ := mem_map.1 hu
      obtain ⟨c, hc⟩ := cells x (hus x hx)
      exact renews.holds_sent h p (hus x hx) (hold x (hus x hx)) hc
    · have := hs.sent h p fun u hu => cells u (hus u hu)
      rw [← next hr] at this
      exact this
  case apart =>
    rintro r r' u u' hr hr' hu hu' hap
    obtain ⟨c, hc⟩ := cells r hr
    obtain ⟨c', hc'⟩ := cells r' hr'
    have := hc.body
    have := hc'.body
    have := hu.words
    have := hu'.words
    have hm : (tgt c.oop) = u.chunk := by rw [hc.oop]; exact hu.chunk
    have hm' : (tgt c'.oop) = u'.chunk := by rw [hc'.oop]; exact hu'.chunk
    have hmoved := p.chunks_apart h hc.mem hc'.mem
    rw [hm, hm'] at hmoved
    rcases hmoved with rfl | ha | ha
    · have hsame := hc.oop.symm.trans hc'.oop
      have := (hold r' hr').header
      rw [Room.Apart, Room.stop, Room.stop, hsame] at hap
      omega
    · left
      rw [Room.stop]
      omega
    · right
      rw [Room.stop]
      omega

end

end Stack

end DeviceVm
