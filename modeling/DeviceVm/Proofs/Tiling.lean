import DeviceVm.Proofs.Objects

/-!
Objects one behind the other. `Tiles` says that cells fill a range where they are; `Placed` says
where a cell comes to lie when cells are laid out in a given order from an address on.
-/

namespace DeviceVm

open List

namespace Cell

/-- The bytes of the objects with their headers. -/
def total : List Cell → Nat
  | [] => 0
  | c :: cs => c.size + total cs

@[simp] lemma total_nil : total [] = 0 := rfl

@[simp] lemma total_cons (c : Cell) (cs : List Cell) : total (c :: cs) = c.size + total cs := rfl

@[simp] lemma total_append (cs ds : List Cell) : total (cs ++ ds) = total cs + total ds := by
  induction cs with
  | nil => simp
  | cons c cs ih =>
    simp only [cons_append, total_cons]
    omega

lemma head_cases (c : Cell) : c.head = 4 ∨ c.head = 8 := Header.bytes_cases c.count

lemma total_le_of_subset {cs ds : List Cell} (hn : cs.Nodup) (h : ∀ c ∈ cs, c ∈ ds) :
    total cs ≤ total ds := by
  induction cs generalizing ds with
  | nil => simp
  | cons c cs ih =>
    obtain ⟨l, r, rfl⟩ := append_of_mem (h c mem_cons_self)
    rw [nodup_cons] at hn
    have hr := @ih (l ++ r) hn.2 (fun d hd => by
      have hm := h d (mem_cons_of_mem c hd)
      have hne : d ≠ c := fun he => hn.1 (he ▸ hd)
      simp only [mem_append, mem_cons] at hm ⊢
      rcases hm with hm | hm | hm
      · exact .inl hm
      · exact absurd hm hne
      · exact .inr hm)
    simp only [total_cons, total_append] at hr ⊢
    omega

end Cell

open Cell

/-- In the order `cs` from `t` on, the cell `c` has the address `a`. -/
def Placed (t : Nat) (cs : List Cell) (c : Cell) (a : Nat) : Prop :=
  ∃ l r, cs = l ++ c :: r ∧ a = t + total l + c.head

namespace Placed

variable {t a b : Nat} {cs ds : List Cell} {c d : Cell}

lemma mem (h : Placed t cs c a) : c ∈ cs := by
  obtain ⟨l, r, rfl, _⟩ := h
  simp

lemma low (h : Placed t cs c a) : t + c.head ≤ a := by
  obtain ⟨l, r, rfl, rfl⟩ := h
  omega

lemma high (h : Placed t cs c a) : a + c.body ≤ t + total cs := by
  obtain ⟨l, r, rfl, rfl⟩ := h
  simp only [total_append, total_cons, size]
  omega

lemma append (h : Placed t cs c a) (ds : List Cell) : Placed t (cs ++ ds) c a := by
  obtain ⟨l, r, rfl, rfl⟩ := h
  exact ⟨l, r ++ ds, by simp, rfl⟩

lemma last (t : Nat) (cs : List Cell) (c : Cell) :
    Placed t (cs ++ [c]) c (t + total cs + c.head) :=
  ⟨cs, [], by simp, rfl⟩

lemma append_cases (h : Placed t (cs ++ [d]) c a) :
    Placed t cs c a ∨ (c = d ∧ a = t + total cs + c.head) := by
  obtain ⟨l, r, he, rfl⟩ := h
  rcases eq_nil_or_concat r with rfl | ⟨r, e, rfl⟩
  · have he' := he
    have hl := append_inj_left' he' rfl
    obtain rfl : d = c := by simpa using append_inj_right' he' rfl
    exact .inr ⟨rfl, by rw [hl]⟩
  · have he' : cs ++ [d] = (l ++ c :: r) ++ [e] := by simpa using he
    have hl := append_inj_left' he' rfl
    exact .inl ⟨l, r, hl, rfl⟩

lemma of_mem (hm : c ∈ cs) : ∃ a, Placed t cs c a := by
  obtain ⟨l, r, rfl⟩ := append_of_mem hm
  exact ⟨_, l, r, rfl, rfl⟩

lemma apart (h : Placed t cs c a) (h' : Placed t cs d b) :
    (c = d ∧ a = b) ∨ a + c.body + d.head ≤ b ∨ b + d.body + c.head ≤ a := by
  obtain ⟨l, r, rfl, rfl⟩ := h
  obtain ⟨l', r', he, rfl⟩ := h'
  rcases append_eq_append_iff.1 he with ⟨m, hl, hr⟩ | ⟨m, hl, hr⟩
  · cases m with
    | nil =>
      simp only [nil_append, cons.injEq] at hr
      simp only [append_nil] at hl
      exact .inl ⟨hr.1, by rw [hl, hr.1]⟩
    | cons e m =>
      simp only [cons_append, cons.injEq] at hr
      refine .inr (.inl ?_)
      rw [hl, ← hr.1]
      simp only [total_append, total_cons, size]
      omega
  cases m with
  | nil =>
    simp only [nil_append, cons.injEq] at hr
    simp only [append_nil] at hl
    exact .inl ⟨hr.1.symm, by rw [hl, hr.1]⟩
  | cons e m =>
    simp only [cons_append, cons.injEq] at hr
    refine .inr (.inr ?_)
    rw [hl, ← hr.1]
    simp only [total_append, total_cons, size]
    omega

lemma unique (hn : cs.Nodup) (h : Placed t cs c a) (h' : Placed t cs c b) : a = b := by
  obtain ⟨l, r, rfl, rfl⟩ := h
  obtain ⟨l', r', he, rfl⟩ := h'
  have hs : ∀ m : List Cell, ∀ l₁ r₁ : List Cell, m = l₁ ++ c :: r₁ → m.Nodup → c ∉ l₁ := by
    rintro m l₁ r₁ rfl hm hc
    have := (nodup_append.1 hm).2.2 c hc c mem_cons_self
    exact this rfl
  rcases append_eq_append_iff.1 he with ⟨m, hl, hr⟩ | ⟨m, hl, hr⟩
  · cases m with
    | nil => simp at hl; rw [hl]
    | cons e m =>
      simp only [cons_append, cons.injEq] at hr
      exact absurd (by rw [hl, ← hr.1]; simp) (hs _ l' r' he hn)
  cases m with
  | nil => simp at hl; rw [hl]
  | cons e m =>
    simp only [cons_append, cons.injEq] at hr
    exact absurd (by rw [hl, ← hr.1]; simp) (hs _ l r rfl hn)

end Placed

/-- The objects fill the memory from one address to the other without gaps. -/
def Tiles : Nat → List Cell → Nat → Prop
  | a, [], b => a = b
  | a, c :: cs, b => c.oop.toNat = a + c.head ∧ Tiles (a + c.size) cs b

instance decidableTiles : (a : Nat) → (cs : List Cell) → (b : Nat) → Decidable (Tiles a cs b)
  | a, [], b => inferInstanceAs (Decidable (a = b))
  | a, c :: cs, b =>
    have := decidableTiles (a + c.size) cs b
    inferInstanceAs (Decidable (_ ∧ _))

namespace Tiles

variable {a b : Nat} {cs : List Cell} {c d : Cell}

lemma total_eq (h : Tiles a cs b) : b = a + total cs := by
  induction cs generalizing a with
  | nil => simpa [Tiles] using h.symm
  | cons c cs ih =>
    have := ih h.2
    simp only [total_cons]
    omega

lemma cover (h : Tiles a cs b) {x : Nat} (ha : a ≤ x) (hb : x < b) :
    ∃ c ∈ cs, c.start ≤ x ∧ x < c.stop := by
  induction cs generalizing a with
  | nil =>
    have : a = b := h
    omega
  | cons c cs ih =>
    have := h.1
    have := c.size_eq
    by_cases hx : x < a + c.size
    · refine ⟨c, mem_cons_self, ?_, ?_⟩
      · rw [Cell.start]
        omega
      · rw [Cell.stop]
        omega
    · obtain ⟨d, hd, hin⟩ := ih h.2 (by omega)
      exact ⟨d, mem_cons_of_mem c hd, hin⟩

lemma at_split {l r : List Cell} (h : Tiles a (l ++ c :: r) b) :
    c.oop.toNat = a + total l + c.head := by
  induction l generalizing a with
  | nil => simpa using h.1
  | cons e l ih =>
    have := ih h.2
    simp only [total_cons]
    omega

section

variable (h : Tiles a cs b) (hc : c ∈ cs)
include h hc

lemma placed : Placed a cs c c.oop.toNat := by
  obtain ⟨l, r, rfl⟩ := append_of_mem hc
  exact ⟨l, r, rfl, h.at_split⟩

lemma low : a + c.head ≤ c.oop.toNat := (h.placed hc).low

lemma high : c.oop.toNat + c.body ≤ b := by
  rw [h.total_eq]
  exact (h.placed hc).high

end

end Tiles

/-- The cells lie in this order between `a` and `b`, with gaps. -/
def Spread : Nat → List Cell → Nat → Prop
  | a, [], b => a ≤ b
  | a, c :: cs, b => a + c.head ≤ c.oop.toNat ∧ Spread (c.oop.toNat + c.body) cs b

instance decidableSpread : (a : Nat) → (cs : List Cell) → (b : Nat) → Decidable (Spread a cs b)
  | a, [], b => inferInstanceAs (Decidable (a ≤ b))
  | _, c :: cs, b =>
    have := decidableSpread (c.oop.toNat + c.body) cs b
    inferInstanceAs (Decidable (_ ∧ _))

lemma Tiles.spread {a b : Nat} {cs : List Cell} (h : Tiles a cs b) : Spread a cs b := by
  induction cs generalizing a with
  | nil => exact Nat.le_of_eq h
  | cons c cs ih =>
    refine ⟨Nat.le_of_eq h.1.symm, ih ?_⟩
    rw [h.1, Nat.add_assoc]
    exact h.2

namespace Spread

variable {a b : Nat} {cs : List Cell} {c d : Cell} {pre post : List Cell}

section

variable (h : Spread a cs b)
include h

lemma mono {a' b' : Nat} (ha : a' ≤ a) (hb : b ≤ b') : Spread a' cs b' := by
  induction cs generalizing a a' with
  | nil => exact Nat.le_trans ha (Nat.le_trans h hb)
  | cons c cs ih => exact ⟨Nat.le_trans (Nat.add_le_add_right ha _) h.1, ih h.2 (Nat.le_refl _)⟩

lemma map {g : Cell → Cell}
    (hg : ∀ c ∈ cs, (g c).oop = c.oop ∧ (g c).head = c.head ∧ (g c).body = c.body) :
    Spread a (cs.map g) b := by
  induction cs generalizing a with
  | nil => exact h
  | cons c cs ih =>
    obtain ⟨ho, hh, hb⟩ := hg c mem_cons_self
    rw [map_cons, Spread, ho, hh, hb]
    exact ⟨h.1, ih h.2 fun d hd => hg d (mem_cons_of_mem c hd)⟩

lemma sublist {l : List Cell} (hl : l.Sublist cs) : Spread a l b := by
  induction hl generalizing a with
  | slnil => exact h
  | @cons l cs c hl ih =>
    refine (ih h.2).mono ?_ (Nat.le_refl b)
    have := h.1
    omega
  | @cons_cons l cs c hl ih => exact ⟨h.1, ih h.2⟩

lemma total_le : a + total cs ≤ b := by
  induction cs generalizing a with
  | nil => exact h
  | cons c cs ih =>
    have := ih h.2
    have := h.1
    simp only [total_cons, size]
    omega

lemma low (hc : c ∈ cs) : a + c.head ≤ c.oop.toNat := by
  induction cs generalizing a with
  | nil => cases hc
  | cons d cs ih =>
    rcases mem_cons.1 hc with rfl | hc
    · exact h.1
    · have := ih h.2 hc
      have := h.1
      omega

lemma high (hc : c ∈ cs) : c.oop.toNat + c.body ≤ b := by
  induction cs generalizing a with
  | nil => cases hc
  | cons d cs ih =>
    rcases mem_cons.1 hc with rfl | hc
    · have := h.2.total_le
      omega
    · exact ih h.2 hc

end

lemma behind (h : Spread a (pre ++ c :: post) b) :
    Spread (c.oop.toNat + c.body) post b := by
  induction pre generalizing a with
  | nil => exact h.2
  | cons d pre ih => exact ih h.2

lemma before (h : Spread a (pre ++ c :: post) b) (hd : d ∈ pre) :
    d.oop.toNat + d.body + c.head ≤ c.oop.toNat := by
  obtain ⟨l, r, rfl⟩ := append_of_mem hd
  rw [append_assoc] at h
  exact h.behind.low (mem_append_right r mem_cons_self)

lemma apart_map {g : Cell → Cell} (h : Spread a (cs.map g) b) (hc : c ∈ cs) (hd : d ∈ cs) :
    c = d ∨ (g c).oop.toNat + (g c).body + (g d).head ≤ (g d).oop.toNat ∨
      (g d).oop.toNat + (g d).body + (g c).head ≤ (g c).oop.toNat := by
  induction cs generalizing a with
  | nil => cases hc
  | cons e cs ih =>
    rcases mem_cons.1 hc with hce | hc
    · rcases mem_cons.1 hd with hde | hd
      · exact .inl (hce.trans hde.symm)
      · exact .inr (.inl (hce ▸ h.2.low (mem_map_of_mem hd)))
    · rcases mem_cons.1 hd with hde | hd
      · exact .inr (.inr (hde ▸ h.2.low (mem_map_of_mem hc)))
      · exact ih h.2 hc hd

lemma apart (h : Spread a cs b) (hc : c ∈ cs) (hd : d ∈ cs) :
    c = d ∨ c.oop.toNat + c.body + d.head ≤ d.oop.toNat ∨
      d.oop.toNat + d.body + c.head ≤ c.oop.toNat :=
  apart_map (g := id) (by rwa [map_id]) hc hd

lemma eq_of_oop (h : Spread a cs b) (hc : c ∈ cs) (hd : d ∈ cs) (he : c.oop = d.oop) :
    c = d := by
  have := c.head_cases
  have := d.head_cases
  rcases h.apart hc hd with hs | hs | hs
  · exact hs
  · rw [he] at hs
    omega
  · rw [he] at hs
    omega

lemma length_le (h : Spread a cs b) : a + 4 * cs.length ≤ b := by
  induction cs generalizing a with
  | nil => exact h
  | cons c cs ih =>
    have := ih h.2
    have := h.1
    have := c.head_cases
    simp only [length_cons]
    omega

end Spread

end DeviceVm
