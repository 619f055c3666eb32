import DeviceVm.Proofs.Contexts.Relocation
import DeviceVm.Proofs.Copying.Lookup

/-!
Contexts and the copying collector. Chunks that hold calls have an innermost frame, so that they
are copied with their links; the chunks behind them that are cut off hold none.
-/

namespace DeviceVm

namespace Copying

variable {S : Scene} {table c : Cell} {queues : Nat → List Cell} {s t : Store}
  {order kept finalized : List Cell} {lists : Nat → List Cell}

section

variable (h : Heap S table queues s) (C : Collected S table queues s order kept finalized lists t)
  (hc : c.isChunk)
include h C hc

lemma Collected.chunk_word {a : UInt32} {x : Nat} (hp : Placed S.target order c a.toNat)
    (hx : x % 4 = 0) (hb : x + 4 ≤ c.body) :
    S.Updated { S.begin s.recorded with order } c a x (t.mem.peekWord (a.toNat + x)) := by
  have hf := (h.sound c (C.held h hp.mem)).1
  refine C.word c a x hp hx hb ?_ ?_
  · rintro ⟨hq, -⟩
    obtain ⟨i, -, hi⟩ := List.mem_flatMap.1 hq
    rcases h.register with ⟨-, -, hn⟩ | reg
    · rw [hn i] at hi
      exact absurd hi List.not_mem_nil
    · exact (reg.associations i c hi).plain hc
  · rintro ⟨rfl, -⟩
    rcases h.register with ⟨-, hn, -⟩ | reg
    · exact hn hf.mem
    · exact reg.plain hc

lemma Collected.carried {a : UInt32} (hp : Placed S.target order c a.toNat) :
    c.Carried (S.Image order) s.mem t.mem a := by
  have hframed := (h.sound c (C.held h hp.mem)).2.framed hc
  have hw : S.words c = c.words s.mem := by
    rw [h.mem]
    rfl
  rw [hw] at hframed
  have word : ∀ x, x % 4 = 0 → x + 4 ≤ c.body → _ := fun x hx hb => C.chunk_word h hc hp hx hb
  constructor
  case framed => exact ⟨hc, hframed.room, hframed.last, hframed.frames⟩
  case reads => exact fun f hf => hframed.reads f hf _ (h.mem ▸ .refl _)
  all_goals
    intro x hx hb hr
    have := word x hx hb
    simp only [Scene.Updated, hr, Scene.begin, hw] at this
    exact this

end

end Copying

namespace Stack

variable {S S' : Scene} {X : Copying.Scene} {table : Cell} {queues : Nat → List Cell}
  {s t : Store} {order kept finalized : List Cell} {lists : Nat → List Cell} {rs : List Room}
  {r r' : Room} {c : Cell} {a : UInt32}

/-- The chunk is an object that is copied when it is found. -/
structure Room.Copyable (X : Copying.Scene) (r : Room) (c : Cell) : Prop where
  fresh : X.Fresh c
  isChunk : c.isChunk
  oop : c.oop = r.chunk
  body : c.body = 4 * r.words

open Copying in
lemma Room.Copyable.placed (h : r.Copyable X c) (ok : X.Ok) (hm : X.Image order r.chunk a) :
    Placed X.target order c a.toNat :=
  Scene.Image.placed ok h.fresh (h.oop ▸ hm)

section

variable (h : Copying.Heap X table queues s)
  (C : Copying.Collected X table queues s order kept finalized lists t)
  (leaves : X.Leaves s t) (renews : S.Renews S' t (X.Image order) rs)
include h C leaves renews

open Copying in
lemma Scene.Renews.ready : S'.Ready t := by
  have hram : S'.ram = X.ram := renews.ram.symm.trans (leaves.ram.trans h.ram)
  have : S'.mem.size = X.mem.size := by
    rw [← renews.agrees.size, leaves.agrees.size, h.mem]
  have : Cell.total order % 4 = 0 :=
    total_aligned fun c hc => (h.ok.aligned c (h.sound c (C.held h hc)).1.mem).2
  have := h.ok.target_aligned
  have := h.ok.bounds
  have := C.room
  have := C.free
  have := C.stop
  exact ⟨renews.rom, renews.eeprom, renews.ram, renews.agrees, C.idle, by omega,
    by rw [hram]; omega,
    by omega, by omega, renews.free⟩

open Copying in
lemma Scene.Renews.evacuation (hold : ∀ r ∈ rs, S.Holds s r)
    (cells : ∀ r ∈ rs, ∃ c, r.Copyable X c) : Relocation S S' s t (X.Image order) rs := by
  have ok := h.ok
  have hw : ∀ c, X.words c = c.words s.mem := fun c => by
    rw [h.mem]
    rfl
  have next : ∀ {r a}, r ∈ rs → X.Image order r.chunk a → ∃ c, r.Copyable X c ∧
      X.Updated { X.begin s.recorded with order } c a 4 (t.mem.peekWord (a.toNat + 4)) := by
    intro r a hr hm
    obtain ⟨c, hc⟩ := cells r hr
    have := (hold r hr).header
    have := hc.body
    exact ⟨c, hc, C.chunk_word h hc.isChunk (hc.placed ok hm) rfl (by omega)⟩
  constructor
  case ready => exact renews.ready h C leaves
  case unique => exact fun h₁ h₂ => h₁.unique ok C.nodup h₂
  case zero => exact fun hm => hm.unique ok C.nodup (.still ok.zero_still)
  case method => exact renews.method
  case chunk =>
    intro r a hr _ hm
    obtain ⟨c, hc⟩ := cells r hr
    have hp := hc.placed ok hm
    have hcar := C.carried h hc.isChunk hp
    have := hp.low
    have := hp.high
    have hram : S'.ram = X.ram := renews.ram.symm.trans (leaves.ram.trans h.ram)
    have := ok.target_low
    have := C.free
    have := hc.body
    refine ⟨⟨(C.header c a hp).aligned, ?_, ?_, (hold r hr).header, fun b hb => ?_, ?_⟩, c, hc.oop,
      hcar⟩
    · rw [hram]
      dsimp only
      omega
    · rw [Room.stop]
      dsimp only
      omega
    · exact renews.chunk b r a hb hr hm
    · rw [hcar.size, hc.oop]
      exact (hold r hr).size
  case next =>
    intro r a v hr _ hm hv hlast hne
    obtain ⟨c, hc, hu⟩ := next hr hm
    have hword : c.words s.mem 4 = v := by rw [Cell.words, hc.oop, hv]
    simp only [Copying.Scene.Updated, Cell.role_next hc.isChunk, Copying.Scene.begin, hw,
      hword] at hu
    rcases hu with ⟨-, h0 | ⟨d, -, -, hd, hz⟩⟩ | ⟨d, -, -, -, -, hi⟩
    · exact absurd h0 hne
    · rw [Cell.words, hd] at hz
      exact absurd hz hlast
    · exact hi
  case spares =>
    intro r a us hr _ _ hm hs
    refine ⟨[], [], List.nil_sublist _, .nil, fun _ hu => absurd hu List.not_mem_nil, ?_⟩
    obtain ⟨c, hc, hu⟩ := next hr hm
    simp only [Copying.Scene.Updated, Cell.role_next hc.isChunk, Copying.Scene.begin, hw] at hu
    rcases hu with ⟨h0, -⟩ | ⟨d, hf, -, hd, hz, -⟩
    · exact h0
    · -- A chunk behind the innermost one has no frame.
      rw [Cell.words, hc.oop] at hd
      rw [← hd] at hs
      cases us with
      | nil => exact absurd hs (ok.oop_ne_zero hf.mem)
      | cons u us =>
        rw [Cell.words, hs.1] at hz
        exact absurd hs.2.1 hz
  case apart =>
    intro r r' u u' hr hr' hu hu' hap
    obtain ⟨c, hc⟩ := cells r hr
    obtain ⟨c', hc'⟩ := cells r' hr'
    have hb := hc.body
    have := hc'.body
    have hw := hu.words
    have := hu'.words
    rcases (hc.placed ok hu.chunk).apart (hc'.placed ok hu'.chunk) with ⟨rfl, -⟩ | hp | hp
    · have hsame := hc.oop.symm.trans hc'.oop
      have := (hold r' hr').header
      rw [Room.Apart, Room.stop, Room.stop, hsame] at hap
      omega
    · left
      rw [Room.stop]
      omega
    · right
      rw [Room.stop]
      omega

end

end Stack

end DeviceVm
