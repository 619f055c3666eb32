import DeviceVm.Proofs.Copying.Scan

/-!
The roots of RAM are copied first.
-/

namespace DeviceVm.Copying

open Store Word Traversal

variable {S : Scene} {g : Progress} {s : Store} {live : Cell → Prop}

/-- A word of the record of RAM that keeps objects alive. -/
def IsRoot (j : Nat) : Prop := 8 ≤ j ∧ j < 16 ∧ j ≠ 14

/-- The first `k` roots were followed, which copied `more`. -/
structure Rooting (S : Scene) (live : Cell → Prop) (g : Progress) (k : Nat) (t : Store)
    (more : List Cell) (record : Nat → UInt32) : Prop where
  inv : Inv S { g with order := g.order ++ more, record } t
  live : ∀ d ∈ more, live d
  image : ∀ j, IsRoot j → j < 8 + k → S.Image (g.order ++ more) (g.record j) (record j)
  same : ∀ j, ¬ (IsRoot j ∧ j < 8 + k) → record j = g.record j

lemma Rooting.step_ends (ok : S.Ok) (cl : Closed S g.orig live)
    (hroots : ∀ j, IsRoot j → S.Follows live (g.record j)) {k : Nat} (hk : k < 8)
    {more : List Cell} {record : Nat → UInt32} (h : Rooting S live g k s more record) :
    Ends (do
      if Int32.ofNat k != Root.associations then
        let oop ← root .ram (Int32.ofNat k)
        if ← inRam oop then
          setRamRoot (Int32.ofNat k) (← copyObject S.space oop)) s
      fun _ t => ∃ more record, Rooting S live g (k + 1) t more record := by
  have hi := Root.toInt_ofNat hk
  rw [Root.bne_associations hk]
  by_cases h6 : k = 6
  · rw [if_neg (by simp [h6])]
    refine .pure ⟨more, record, h.inv, h.live, fun j hj hlt => h.image j hj ?_, ?_⟩
    · have := hj.2.2
      omega
    · refine fun j hj => h.same j fun hh => hj ⟨hh.1, by omega⟩
  rw [if_pos (by simpa using h6)]
  have hroot : IsRoot (k + 8) := ⟨by omega, by omega, by omega⟩
  have hword : s.recorded (k + 8) = g.record (k + 8) := by
    rw [h.inv.recorded_eq (by omega)]
    exact h.same _ (by omega)
  refine .query_bind ((h.inv.recorded ok).root_eq hi hk) ?_
  rw [hword]
  refine .query_bind (h.inv.inRam ok _) ?_
  have hv := hroots _ hroot
  by_cases hr : S.ram.Has (g.record (k + 8))
  · rw [decide_eq_true hr, if_pos rfl]
    refine .bind (copyObject_ends ok h.inv (cl.leads hv hr)) fun v t ht => ?_
    obtain ⟨new, ht, him, hnew⟩ := ht
    rw [List.append_assoc] at ht him
    refine (ht.recorded ok).setRamRoot_ends hi hk ⟨more ++ new, _, ht.setRecorded ok (by omega) v,
      ?_, ?_, ?_⟩
    · intro d hd
      rcases List.mem_append.1 hd with hd | hd
      · exact h.live d hd
      · exact cl.live_of ok hv (ht.fresh d (by simp [hd])) (hnew d hd)
    · intro j hj hlt
      by_cases he : j = k + 8
      · rw [if_pos he, he]
        exact him
      · rw [if_neg he, ← List.append_assoc]
        exact (h.image j hj (by omega)).append new
    · intro j hj
      rw [if_neg fun he : j = k + 8 => hj ⟨he ▸ hroot, by omega⟩]
      exact h.same j fun hh => hj ⟨hh.1, by omega⟩
  · rw [decide_eq_false hr, if_neg Bool.false_ne_true]
    refine .pure ⟨more, record, h.inv, h.live, fun j hj hlt => ?_, fun j hj => h.same j ?_⟩
    · by_cases he : j = k + 8
      · rw [he, h.same (k + 8) (by omega)]
        exact .still (.inl hr)
      · exact h.image j hj (by omega)
    · exact fun hh => hj ⟨hh.1, by omega⟩

lemma copyRoots_ends (ok : S.Ok) (cl : Closed S g.orig live)
    (hroots : ∀ j, IsRoot j → S.Follows live (g.record j)) (h : Inv S g s) :
    Ends (copyRoots S.space) s fun _ t => ∃ more record,
      Rooting S live g 8 t more record := by
  refine .forRoots (fun k t => ∃ more record, Rooting S live g k t more record) ?_ ?_
  · rintro k t hk ⟨more, record, ht⟩
    exact ht.step_ends ok cl hroots hk
  · refine ⟨[], g.record, ?_, by simp, fun j hj hlt => ?_, fun j _ => rfl⟩
    · rw [List.append_nil]
      exact h
    · have := hj.1
      omega

end DeviceVm.Copying
