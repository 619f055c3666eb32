import DeviceVm.Proofs.Tiling

/-!
Where objects come to lie that slide down in their order, each by a limited distance. If one of
them is held back, all behind it move by the whole distance, so that the end of the objects drops
by it; if none is, the objects lie one behind the other.
-/

namespace DeviceVm

open List

/-- An object goes directly behind the one in front of it, unless that is farther than `cap`. -/
def Cell.place (cap free : Nat) (c : Cell) : Nat := max (free + c.head) (c.oop.toNat - cap)

namespace Layout

open Cell

/-- The end of the last object. -/
def settle (cap : Nat) : (free : Nat) → List Cell → Nat
  | free, [] => free
  | free, c :: cs => settle cap (c.place cap free + c.body) cs

/-- Some object could not go as far as it should. -/
def held (cap : Nat) : (free : Nat) → List Cell → Bool
  | _, [] => false
  | free, c :: cs =>
    decide (cap < c.oop.toNat - (free + c.head)) || held cap (c.place cap free + c.body) cs

/-- The new address of each object. Other words stay. -/
def aim (cap : Nat) : (free : Nat) → List Cell → UInt32 → UInt32
  | _, [], v => v
  | free, c :: cs, v =>
    if v = c.oop then UInt32.ofNat (c.place cap free) else aim cap (c.place cap free + c.body) cs v

variable {cap free b : Nat} {c d : Cell} {cs ds : List Cell} {v : UInt32} {g : Cell → Cell}

lemma place_le (cap : Nat) (h : free + c.head ≤ c.oop.toNat) :
    free + c.head ≤ c.place cap free ∧ c.place cap free ≤ c.oop.toNat := by
  rw [place]
  omega

lemma toNat_place (cap : Nat) (h : free + c.head ≤ c.oop.toNat) :
    (UInt32.ofNat (c.place cap free)).toNat = c.place cap free := by
  have := (place_le cap h).2
  have := c.oop.toNat_lt
  exact Word.toNat_nat (by omega)

lemma spread_tail (cap : Nat) (h : Spread free (c :: cs) b) :
    Spread (c.place cap free + c.body) cs b :=
  h.2.mono (Nat.add_le_add_right (place_le cap h.1).2 _) (Nat.le_refl _)

lemma settle_append : settle cap free (cs ++ ds) = settle cap (settle cap free cs) ds := by
  induction cs generalizing free with
  | nil => rfl
  | cons c cs ih => exact ih

lemma held_append :
    held cap free (cs ++ ds) = (held cap free cs || held cap (settle cap free cs) ds) := by
  induction cs generalizing free with
  | nil => rfl
  | cons c cs ih =>
    rw [cons_append, held, held, settle, ih, Bool.or_assoc]

lemma settle_le (h : Spread free cs b) : settle cap free cs ≤ b := by
  induction cs generalizing free with
  | nil => exact h
  | cons c cs ih => exact ih (spread_tail cap h)

lemma le_settle (h : Spread free cs b) : free + total cs ≤ settle cap free cs := by
  induction cs generalizing free with
  | nil => exact Nat.le_refl _
  | cons c cs ih =>
    have := ih (spread_tail cap h)
    have := (place_le cap h.1).1
    rw [settle, total_cons, size]
    omega

lemma spread_append (h : Spread free (cs ++ ds) b) : Spread (settle cap free cs) ds b := by
  induction cs generalizing free with
  | nil => exact h
  | cons c cs ih => exact ih (spread_tail cap h)

lemma aim_append (h : ∀ c ∈ cs, c.oop ≠ v) :
    aim cap free (cs ++ ds) v = aim cap (settle cap free cs) ds v := by
  induction cs generalizing free with
  | nil => rfl
  | cons c cs ih =>
    rw [cons_append, aim, if_neg (Ne.symm (h c mem_cons_self)), settle]
    exact ih fun d hd => h d (mem_cons_of_mem c hd)

lemma aim_ne (h : ∀ c ∈ cs, c.oop ≠ v) : aim cap free cs v = v := by
  have := @aim_append cap free cs [] v h
  rwa [append_nil] at this

lemma ne_behind (h : Spread free (c :: cs) b) : ∀ d ∈ cs, d.oop ≠ c.oop := by
  intro d hd he
  have hlow := h.2.low hd
  have := d.head_cases
  rw [he] at hlow
  omega

lemma ne_of_split (h : Spread free (cs ++ c :: ds) b) : ∀ d ∈ cs, d.oop ≠ c.oop := by
  induction cs generalizing free with
  | nil =>
    intro d hd
    cases hd
  | cons e cs ih =>
    intro d hd
    rcases mem_cons.1 hd with rfl | hd
    · exact (ne_behind h c (mem_append_right cs mem_cons_self)).symm
    · exact ih h.2 d hd

lemma aim_split (cap : Nat) (h : Spread free (cs ++ c :: ds) b) :
    (aim cap free (cs ++ c :: ds) c.oop).toNat = c.place cap (settle cap free cs) := by
  rw [aim_append (ne_of_split h), aim, if_pos rfl]
  exact toNat_place cap (spread_append h).1

lemma aim_bounds (h : Spread free cs b) (hc : c ∈ cs) :
    free + c.head ≤ (aim cap free cs c.oop).toNat ∧
      (aim cap free cs c.oop).toNat ≤ c.oop.toNat ∧
      c.oop.toNat ≤ (aim cap free cs c.oop).toNat + cap ∧
      (aim cap free cs c.oop).toNat + c.body ≤ settle cap free cs := by
  obtain ⟨l, r, rfl⟩ := append_of_mem hc
  have hs := @spread_append cap free b l (c :: r) h
  have hp := place_le cap hs.1
  have : free ≤ settle cap free l := by
    have hl : Spread free l b := by
      clear hs hp hc
      induction l generalizing free with
      | nil =>
        have := h.total_le
        exact Nat.le_trans (Nat.le_add_right _ _) this
      | cons d l ih => exact ⟨h.1, ih h.2⟩
    have := @le_settle cap free b l hl
    omega
  have := @le_settle cap _ b r (spread_tail cap hs)
  rw [aim_split _ h, settle_append, settle]
  have : c.oop.toNat ≤ c.place cap (settle cap free l) + cap := by
    rw [place]
    omega
  omega

lemma aim_aligned (h : Spread free cs b) (hc : c ∈ cs) (hcap : cap % 4 = 0)
    (hfree : free % 4 = 0) (h4 : ∀ d ∈ cs, d.oop.toNat % 4 = 0 ∧ d.body % 4 = 0) :
    (aim cap free cs c.oop).toNat % 4 = 0 := by
  induction cs generalizing free with
  | nil => cases hc
  | cons d cs ih =>
    have := h4 d mem_cons_self
    have := d.head_cases
    have hplace : d.place cap free % 4 = 0 := by
      rw [place]
      omega
    rw [aim]
    by_cases he : c.oop = d.oop
    · rw [if_pos he, toNat_place _ h.1]
      exact hplace
    · rw [if_neg he]
      have hmem : c ∈ cs := (mem_cons.1 hc).resolve_left fun hcd => he (hcd ▸ rfl)
      exact ih (spread_tail cap h) hmem (by omega) fun e hm => h4 e (mem_cons_of_mem d hm)

lemma settle_aligned (h : Spread free cs b) (hcap : cap % 4 = 0) (hfree : free % 4 = 0)
    (h4 : ∀ d ∈ cs, d.oop.toNat % 4 = 0 ∧ d.body % 4 = 0) :
    settle cap free cs % 4 = 0 := by
  induction cs generalizing free with
  | nil => exact hfree
  | cons d cs ih =>
    have := h4 d mem_cons_self
    have := d.head_cases
    have : d.place cap free % 4 = 0 := by
      rw [place]
      omega
    exact ih (spread_tail cap h) (by omega) fun e hm => h4 e (mem_cons_of_mem d hm)

/-! ### The objects where they went -/

/-- The object `d` is `c` at another address. -/
structure Copy (a : UInt32) (c d : Cell) : Prop where
  oop : d.oop = a
  head : d.head = c.head
  body : d.body = c.body

lemma spread_moved (h : Spread free cs b)
    (hg : ∀ c ∈ cs, Copy (aim cap free cs c.oop) c (g c)) :
    Spread free (cs.map g) (settle cap free cs) := by
  induction cs generalizing free with
  | nil => exact Nat.le_refl _
  | cons c cs ih =>
    have hc := hg c mem_cons_self
    have ha : (g c).oop.toNat = c.place cap free := by
      rw [hc.oop, aim, if_pos rfl]
      exact toNat_place _ h.1
    refine ⟨?_, ?_⟩
    · rw [ha, hc.head]
      exact (place_le cap h.1).1
    rw [ha, hc.body]
    refine ih (spread_tail cap h) fun d hd => ?_
    have hcopy := hg d (mem_cons_of_mem c hd)
    rw [aim, if_neg (ne_behind h d hd)] at hcopy
    exact hcopy

lemma settle_behind {low : Nat} (hle : free + cap ≤ low) (h : Spread low cs b) :
    settle cap free cs + cap ≤ b := by
  induction cs generalizing free low with
  | nil => exact Nat.le_trans hle h
  | cons c cs ih =>
    refine ih ?_ h.2
    have := h.1
    rw [place]
    omega

lemma settle_held (h : Spread free cs b) (hh : held cap free cs = true) :
    settle cap free cs + cap ≤ b := by
  induction cs generalizing free with
  | nil => cases hh
  | cons c cs ih =>
    rw [held, Bool.or_eq_true, decide_eq_true_eq] at hh
    rw [settle]
    rcases hh with hlt | hh
    · refine settle_behind ?_ h.2
      rw [place]
      omega
    · exact ih (spread_tail cap h) hh

lemma tiles_moved (h : Spread free cs b) (hh : held cap free cs = false)
    (hg : ∀ c ∈ cs, Copy (aim cap free cs c.oop) c (g c)) :
    Tiles free (cs.map g) (settle cap free cs) := by
  induction cs generalizing free with
  | nil => rfl
  | cons c cs ih =>
    have hc := hg c mem_cons_self
    rw [held, Bool.or_eq_false_iff, decide_eq_false_iff_not] at hh
    have hplace : c.place cap free = free + c.head := by
      rw [place]
      omega
    have ha : (g c).oop.toNat = free + c.head := by
      rw [hc.oop, aim, if_pos rfl, toNat_place _ h.1, hplace]
    refine ⟨?_, ?_⟩
    · rw [ha, hc.head]
    have htail := spread_tail cap h
    have hrest := hh.2
    rw [settle, size, hc.head, hc.body, ← Nat.add_assoc, ← hplace]
    refine ih htail hrest fun d hd => ?_
    have hcopy := hg d (mem_cons_of_mem c hd)
    rw [aim, if_neg (ne_behind h d hd)] at hcopy
    exact hcopy

end Layout

end DeviceVm
