import DeviceVm.Proofs.Tracing
import Mathlib.Tactic.SplitIfs

/-!
Objects that have gone elsewhere. A relocation tells for each address where the object at it has
gone; the words of an object that has moved are told by their roles.
-/

namespace DeviceVm

open List Activation

def Activation.relocate (tgt : UInt32 → UInt32) (f : Activation) : Activation :=
  { f with method := tgt f.method }

namespace Cell

variable {tgt tgt' : UInt32 → UInt32} {m n : Memory} {c : Cell} {x : Nat}

/-- The object at its new address, with the methods of its frames at theirs. -/
def relocate (tgt : UInt32 → UInt32) (c : Cell) : Cell :=
  { c with oop := tgt c.oop, frames := c.frames.map (·.relocate tgt) }

@[simp] lemma relocate_oop : (c.relocate tgt).oop = tgt c.oop := rfl
@[simp] lemma relocate_head : (c.relocate tgt).head = c.head := rfl
@[simp] lemma relocate_size : (c.relocate tgt).size = c.size := rfl

lemma relocate_relocate : (c.relocate tgt).relocate tgt' = c.relocate (tgt' ∘ tgt) := by
  simp only [relocate, map_map]
  rfl

lemma slot_relocate : (c.relocate tgt).Slot x ↔ c.Slot x := by
  rw [Slot, Slot]
  by_cases hc : c.isChunk
  · rw [if_pos (show (c.relocate tgt).isChunk from hc), if_pos hc]
    refine or_congr_right (or_congr_right (or_congr_right ⟨?_, ?_⟩))
    · rintro ⟨_, hr, h⟩
      obtain ⟨f, hf, rfl⟩ := mem_map.1 hr
      exact ⟨f, hf, h⟩
    · rintro ⟨f, hf, h⟩
      exact ⟨f.relocate tgt, mem_map.2 ⟨f, hf, rfl⟩, h⟩
  · rw [if_neg (show ¬ (c.relocate tgt).isChunk from hc), if_neg hc]
    rfl

lemma role_relocate : (c.relocate tgt).role x = c.role x := by
  have hfind : (c.relocate tgt).frames.find? (·.spans x) =
      (c.frames.find? (·.spans x)).map (·.relocate tgt) := find?_map ..
  rw [role, role, hfind]
  by_cases hc : c.isChunk
  · cases c.frames.find? (·.spans x) with
    | none => rfl
    | some f => rfl
  · rw [if_neg (show ¬ (c.relocate tgt).isChunk from hc), if_neg hc]
    rfl

/-- What becomes of a word when objects move. An instruction pointer keeps its distance from its
method, a link its distance from the chunk. -/
def image (tgt : UInt32 → UInt32) (m : Memory) (c : Cell) (x : Nat) : UInt32 :=
  match c.role x with
  | .data => c.words m x
  | .pointer | .listed | .next => tgt (c.words m x)
  | .code => tgt (c.words m (x - 4)) + (c.words m x - c.words m (x - 4))
  | .link => if c.words m x = 0 then 0 else c.words m x + (tgt c.oop - c.oop)

lemma image_data (h : c.role x = .data) : c.image tgt m x = c.words m x := by
  rw [image, h]

lemma image_pointer (h : c.role x = .pointer) : c.image tgt m x = tgt (c.words m x) := by
  rw [image, h]

lemma image_code (h : c.role x = .code) : c.image tgt m x =
    tgt (c.words m (x - 4)) + (c.words m x - c.words m (x - 4)) := by
  rw [image, h]

lemma image_link (h : c.role x = .link) : c.image tgt m x =
    if c.words m x = 0 then 0 else c.words m x + (tgt c.oop - c.oop) := by
  rw [image, h]

lemma image_id : c.image id m x = c.words m x := by
  rw [image]
  cases c.role x with
  | data | pointer | listed | next => rfl
  | code => exact (UInt32.add_comm _ _).trans (UInt32.sub_add_cancel _ _)
  | link =>
    show (if c.words m x = 0 then 0 else c.words m x + (c.oop - c.oop)) = _
    rw [UInt32.sub_self, UInt32.add_zero]
    split_ifs with h
    · exact h.symm
    · rfl

section

variable (hx : c.Slot x)
  (hf : c.isChunk → c.frames ≠ [] → ∃ w last, Frames w c.body last 40 c.frames)
include hx hf

lemma role_slot : c.role x = .listed ∨ c.role x = .next ∨ c.role x = .pointer := by
  by_cases hc : c.isChunk
  · rw [Slot, if_pos hc] at hx
    rcases hx with rfl | rfl | rfl | ⟨f, hm, ht, hn⟩
    · exact .inl (role_self hc)
    · exact .inr (.inl (role_next hc))
    · exact .inr (.inr (role_prev hc))
    · obtain ⟨w, last, h⟩ := hf hc (ne_nil_of_mem hm)
      rw [role_frame hc h hm ((h.stands hm).touched ht).1]
      exact .inr (.inr (role_pointer ht hn))
  · rw [Slot, if_neg hc] at hx
    obtain ⟨i, hi, hr, rfl⟩ := hx
    rw [role_plain hc, Nat.mul_div_cancel_left i (by decide), if_pos ⟨hi, hr⟩]
    exact .inr (.inr rfl)

lemma image_slot : c.image tgt m x = tgt (c.words m x) := by
  rcases role_slot hx hf with hr | hr | hr <;> rw [image, hr]

end

lemma slot_of_role (hx : x % 4 = 0) (hf : c.isChunk → c.frames ≠ [] → ∃ w last,
    Frames w c.body last 40 c.frames)
    (hr : c.role x = .listed ∨ c.role x = .next ∨ c.role x = .pointer) : c.Slot x := by
  rw [Slot]
  by_cases hc : c.isChunk
  · rw [if_pos hc]
    by_cases hw : x = 0 ∨ x = 4 ∨ x = 8
    · tauto
    have h16 : x ≠ 16 := by
      rintro rfl
      rw [role_last hc] at hr
      rcases hr with hr | hr | hr <;> cases hr
    rw [role, if_pos hc, if_neg (by omega), if_neg (by omega), if_neg (by omega),
      if_neg h16] at hr
    cases he : c.frames.find? (·.spans x) with
    | none =>
      rw [he] at hr
      rcases hr with hr | hr | hr <;> cases hr
    | some f =>
      have hm := mem_of_find?_eq_some he
      have hs : f.spans x := by simpa using find?_some he
      obtain ⟨w, last, h⟩ := hf hc (ne_nil_of_mem hm)
      have := (h.stands hm).aligned
      have hp : f.role x = .pointer := by
        unfold Activation.role at hr ⊢
        split_ifs at hr ⊢ <;> simp_all
      refine .inr (.inr (.inr ⟨f, hm, ?_, ?_⟩))
      · unfold Activation.role at hp
        split_ifs at hp with h1 h2 h3 h5
        · rcases h1 with h1 | h1
          · exact .inl h1
          · exact .inr (.inl h1)
        · have := hs.2
          exact .inr (.inr (.inr (.inr ⟨(x - f.pos) / 4, by omega, h5.2, by omega⟩)))
      · intro h1
        rw [role_code h1] at hp
        cases hp
  · rw [if_neg hc]
    rw [role_plain hc] at hr
    split_ifs at hr with hs
    · exact ⟨x / 4, hs.1, hs.2, by omega⟩
    · rcases hr with hr | hr | hr <;> cases hr

lemma toNat_shift {v a b : UInt32} (hb : b.toNat ≤ a.toNat) (hv : a.toNat ≤ v.toNat) :
    (v + (b - a)).toNat = v.toNat - a.toNat + b.toNat := by
  have := v.toNat_lt
  rw [UInt32.toNat_add, UInt32.toNat_sub]
  omega

end Cell

lemma Frames.relocate {tgt : UInt32 → UInt32} {w w' : Nat → UInt32} {body last pos : Nat}
    {fs : List Activation} (h : Frames w body last pos fs)
    (hw : ∀ f ∈ fs, w' (f.pos - 20) = tgt (w (f.pos - 20)) ∧
      w' (f.pos - 16) = tgt (w (f.pos - 20)) + (w (f.pos - 16) - w (f.pos - 20)) ∧
      w' (f.pos - 4) = w (f.pos - 4)) :
    Frames w' body last pos (fs.map (·.relocate tgt)) := by
  have stands : ∀ f ∈ fs, f.Stands w body → (f.relocate tgt).Stands w' body := by
    intro f hf hs
    obtain ⟨h1, h2, _⟩ := hw f hf
    refine ⟨hs.aligned, hs.low, hs.high, ?_, ?_⟩
    · show w' (f.pos - 20) = tgt f.method
      rw [h1, hs.method]
    · show f.entered = (w' (f.pos - 16) - tgt f.method != f.header)
      rw [h2, hs.entered, hs.method, UInt32.add_comm, UInt32.add_sub_cancel]
  induction h with
  | nil behind => exact .nil behind
  | @fresh f hs entered top => exact .fresh (stands f mem_cons_self hs) entered top
  | @entered f rest above hs entered low eq apart range _ ih =>
    have hf : f ∈ f :: rest := mem_cons_self
    refine .entered (stands f hf hs) entered low ?_ apart range (ih ?_ ?_)
    · show above = f.pos + (w' (f.pos - 4)).toNat + 4
      rw [(hw f hf).2.2]
      exact eq
    · exact fun g hg => hw g (mem_cons_of_mem f hg)
    · exact fun g hg => stands g (mem_cons_of_mem f hg)

namespace Cell

variable {tgt : UInt32 → UInt32} {m n : Memory} {c : Cell} {x : Nat} {tgt' : UInt32 → UInt32}

/-- Each word of the object is at its new place and has become what it should. -/
def Arrived (tgt : UInt32 → UInt32) (m n : Memory) (c : Cell) : Prop :=
  ∀ x, x % 4 = 0 → x + 4 ≤ c.body → (c.relocate tgt).words n x = c.image tgt m x

lemma chunk_of_code (hx : c.role x = .code) : c.isChunk ∧ c.frames ≠ [] := by
  rw [role] at hx
  by_cases hc : c.isChunk
  · refine ⟨hc, fun hn => ?_⟩
    rw [if_pos hc, hn, find?_nil] at hx
    split_ifs at hx
  · split_ifs at hx

lemma role_method {w : Nat → UInt32} {last : Nat} (h : Frames w c.body last 40 c.frames)
    (hx : c.role x = .code) : 4 ≤ x ∧ c.role (x - 4) = .pointer := by
  have hc := (chunk_of_code hx).1
  rw [role, if_pos hc] at hx
  cases hf : c.frames.find? (·.spans x) with
  | none =>
    rw [hf] at hx
    split_ifs at hx
  | some f =>
    rw [hf] at hx
    have hm := mem_of_find?_eq_some hf
    have := (h.stands hm).low
    have : x + 16 = f.pos := by
      split_ifs at hx
      simp only [Activation.role] at hx
      split_ifs at hx with h1 h2
      exact h2
    refine ⟨by omega, ?_⟩
    rw [role_frame hc h hm ⟨by omega, by omega⟩]
    exact role_pointer (.inl (by omega)) (by omega)

lemma image_image (ha : c.Arrived tgt m n)
    (hf : c.isChunk → c.frames ≠ [] → ∃ w last, Frames w c.body last 40 c.frames)
    (hl : c.role x = .link → c.words m x = 0 ∨ c.oop.toNat ≤ (c.words m x).toNat)
    (hdown : (tgt c.oop).toNat ≤ c.oop.toNat) (hpos : 0 < (tgt c.oop).toNat) (hx : x % 4 = 0)
    (hb : x + 4 ≤ c.body) :
    (c.relocate tgt).image tgt' n x = c.image (tgt' ∘ tgt) m x := by
  have hw := ha x hx hb
  cases hr : c.role x with
  | data => rw [image_data (role_relocate.trans hr), hw, image_data hr, image_data hr]
  | pointer | listed | next =>
    rw [image, hr] at hw
    rw [image, role_relocate, hr, image, hr, hw]
    rfl
  | code =>
    obtain ⟨hc, hne⟩ := chunk_of_code hr
    obtain ⟨w, last, hframes⟩ := hf hc hne
    obtain ⟨h4, hp⟩ := role_method hframes hr
    have hm := ha (x - 4) (by omega) (by omega)
    rw [image_pointer hp] at hm
    rw [image_code (role_relocate.trans hr), hm, hw, image_code hr, image_code hr,
      Function.comp_apply, UInt32.add_comm (tgt _), UInt32.add_sub_cancel]
  | link =>
    rw [image_link (role_relocate.trans hr), hw, image_link hr, image_link hr]
    by_cases h0 : c.words m x = 0
    · rw [if_pos h0, if_pos h0, if_pos rfl]
    have hle := (hl hr).resolve_left h0
    have hs := toNat_shift hdown hle
    have hne : ¬ c.words m x + (tgt c.oop - c.oop) = 0 := fun he => by
      rw [he, UInt32.toNat_zero] at hs
      omega
    rw [if_neg h0, if_neg h0, if_neg hne, relocate_oop, Function.comp_apply, UInt32.add_assoc]
    grind

lemma image_congr (hx : x % 4 = 0)
    (hf : c.isChunk → c.frames ≠ [] → ∃ w last, Frames w c.body last 40 c.frames)
    (ho : tgt c.oop = tgt' c.oop) (hs : ∀ y, c.Slot y → tgt (c.words m y) = tgt' (c.words m y)) :
    c.image tgt m x = c.image tgt' m x := by
  cases hr : c.role x with
  | data => rw [image_data hr, image_data hr]
  | pointer | listed | next =>
    have hslot : c.Slot x := slot_of_role hx hf (by simp [hr])
    rw [image_slot hslot hf, image_slot hslot hf, hs x hslot]
  | code =>
    obtain ⟨hc, hne⟩ := chunk_of_code hr
    obtain ⟨w, last, hframes⟩ := hf hc hne
    obtain ⟨h4, hp⟩ := role_method hframes hr
    have hslot : c.Slot (x - 4) := slot_of_role (by omega) hf (by simp [hp])
    rw [image_code hr, image_code hr, hs _ hslot]
  | link => rw [image_link hr, image_link hr, ho]

lemma Framed.relocate (h : c.Framed m) (ha : c.Arrived tgt m n)
    (hdown : (tgt c.oop).toNat ≤ c.oop.toNat) (h0 : c.words m 16 ≠ 0) :
    (c.relocate tgt).Framed n := by
  have hc := h.isChunk
  have hroom := h.room
  have hlast : (c.relocate tgt).words n 16 = c.words m 16 + (tgt c.oop - c.oop) := by
    rw [ha 16 rfl hroom, image_link (role_last hc), if_neg h0]
  have hshift := toNat_shift hdown h.last
  refine ⟨hc, hroom, ?_, ?_⟩
  · rw [hlast, hshift]
    exact Nat.le_add_left _ _
  rw [hlast, hshift, relocate_oop, Nat.add_sub_cancel]
  refine h.frames.relocate fun f hf => ?_
  have hs := h.frames.stands hf
  have := hs.low
  have := hs.high
  have := hs.aligned
  have role : ∀ {x}, f.spans x → c.role x = f.role x := fun hx =>
    role_frame hc h.frames hf hx
  refine ⟨?_, ?_, ?_⟩
  · rw [ha _ (by omega) (by omega), image_pointer]
    rw [role ⟨by omega, by omega⟩]
    exact role_pointer (.inl (by omega)) (by omega)
  · rw [ha _ (by omega) (by omega), image_code, Nat.sub_sub]
    rw [role ⟨by omega, by omega⟩]
    exact role_code (by omega)
  · rw [ha _ (by omega) (by omega), image_data]
    rw [role ⟨by omega, by omega⟩, Activation.role, if_neg (by omega), if_neg (by omega),
      if_neg (by omega), if_neg (by omega)]

end Cell

end DeviceVm
