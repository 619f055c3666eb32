import DeviceVm.Proofs.Access
import DeviceVm.Proofs.Execution
import DeviceVm.Proofs.Word

/-!
Segments, and the record at the start of RAM. The words of the record are numbered from zero; the
roots are words 8 to 15.
-/

namespace DeviceVm

variable {s : Store} {α β : Type}

lemma Space.has_iff {space : Space} {v : UInt32} : space.has v = true ↔
    space.start.toNat < v.toNat ∧ v.toNat ≤ space.stop.toNat := by
  simp only [Space.has, Bool.and_eq_true, decide_eq_true_eq, UInt32.lt_iff_toNat_lt,
    UInt32.le_iff_toNat_le]

/-- Whether an address is in the segment. Its end is not, although an object without a body may lie
there. -/
def Region.Has (r : Region) (v : UInt32) : Prop :=
  r.start.toNat ≤ v.toNat ∧ v.toNat < r.start.toNat + r.size.toNat

instance (r : Region) (v : UInt32) : Decidable (r.Has v) := inferInstanceAs (Decidable (_ ∧ _))

lemma Region.contains_eq {r : Region} (h : r.start.toNat + r.size.toNat < 4294967296)
    (v : UInt32) : r.contains v = .ok (decide (r.Has v)) := by
  have hs := Word.toNat_plus h
  rw [Region.contains]
  by_cases hl : v < r.start
  · have := UInt32.lt_iff_toNat_lt.1 hl
    rw [if_pos hl, decide_eq_false fun hh => by have := hh.1; omega]
  · have : ¬ v.toNat < r.start.toNat := fun hh => hl (UInt32.lt_iff_toNat_lt.2 hh)
    have hd : decide (v < r.start + r.size) = decide (r.Has v) :=
      decide_eq_decide.2 (by
        rw [UInt32.lt_iff_toNat_lt, hs, Region.Has]
        omega)
    rw [if_neg hl, Region.stop, Word.plus_eq h, ← hd]
    rfl

lemma Store.inRam_eq (h : s.ram.start.toNat + s.ram.size.toNat < 4294967296)
    (v : UInt32) : Store.inRam v s = .ok (decide (s.ram.Has v)) :=
  Region.contains_eq h v

lemma Query.bind_ok {q : ReaderT Store (Except Fault) α}
    {f : α → ReaderT Store (Except Fault) β} {a : α} (h : q s = .ok a) : (q >>= f) s = f a s := by
  show Except.bind (q s) (fun x => f x s) = f a s
  rw [h]
  rfl

lemma Query.lift_ok {e : Except Fault α}
    {f : α → ReaderT Store (Except Fault) β} {a : α} (h : e = .ok a) :
    ((liftM e : ReaderT Store (Except Fault) α) >>= f) s = f a s :=
  Query.bind_ok h

namespace Store

/-- The sixteen words at the start of RAM can be read and written. -/
structure Recorded (s : Store) : Prop where
  aligned : s.ram.start.toNat % 4 = 0
  inside : s.ram.start.toNat + 64 ≤ s.mem.size
  small : s.mem.size ≤ 16777216

/-- The word `j` of the record at the start of RAM, the last eight of which are the roots. -/
def recorded (s : Store) (j : Nat) : UInt32 := s.mem.peekWord (s.ram.start.toNat + 4 * j)

def setRecorded (s : Store) (j : Nat) (v : UInt32) : Store :=
  s.setMem (s.mem.pokeWord (s.ram.start.toNat + 4 * j) v)

lemma rootWord_eq {index : Int32} {k : Nat} (hi : index.toInt = k) (hk : k < 8) :
    ∃ i, rootWord index = .ok i ∧ i.toInt = (k + 8 : Nat) := by
  refine ⟨Int32.ofInt (index.toInt + 8), ?_, ?_⟩
  · rw [rootWord, if_pos (by omega)]
  · have : Int32.size = 4294967296 := rfl
    rw [Int32.toInt_ofInt, hi, Int.bmod_eq_of_le (by omega) (by omega)]
    omega

namespace Recorded

variable {s : Store} {index : Int32} {j : Nat} {v : UInt32}

lemma points (h : s.Recorded) (hi : index.toInt = j) (hj : j < 16) :
    Points s.ram.start index (s.ram.start.toNat + 4 * j) := by
  have := h.inside
  have := h.small
  exact .lit j hi (by omega)

lemma record_eq (h : s.Recorded) (hi : index.toInt = j) (hj : j < 16) :
    record .ram index s = .ok (s.recorded j) := by
  have := h.aligned
  have := h.inside
  exact Memory.word_eq (h.points hi hj) (by omega)

lemma root_eq (h : s.Recorded) (hi : index.toInt = j) (hj : j < 8) :
    root .ram index s = .ok (s.recorded (j + 8)) := by
  obtain ⟨i, hw, hi⟩ := rootWord_eq hi hj
  rw [root, hw]
  exact h.record_eq hi (by omega)

lemma memoryEnd_eq (h : s.Recorded)
    (hend : (s.recorded 0).toNat + (s.recorded 1).toNat < 4294967296) :
    memoryEnd s = .ok (s.recorded 0 + s.recorded 1) := by
  have h0 : memoryStart s = .ok (s.recorded 0) := h.record_eq rfl (by omega)
  have h1 : memorySize s = .ok (s.recorded 1) := h.record_eq rfl (by omega)
  rw [memoryEnd, Query.bind_ok h0, Query.bind_ok h1]
  exact Word.plus_eq hend

variable {α : Type} {post : Unit → Store → Prop}

lemma setRecord_ends (h : s.Recorded) (hi : index.toInt = j) (hj : j < 16)
    (hp : post () (s.setRecorded j v)) : Ends (setRecord .ram index v) s post := by
  have := h.aligned
  have := h.inside
  exact .get_bind (.edit (Memory.setWord_eq (h.points hi hj) (by omega)) hp)

lemma setRamRoot_ends (h : s.Recorded) (hi : index.toInt = j) (hj : j < 8)
    (hp : post () (s.setRecorded (j + 8) v)) : Ends (setRamRoot index v) s post := by
  obtain ⟨i, hw, hi⟩ := rootWord_eq hi hj
  exact .except_bind hw (h.setRecord_ends hi (by omega) hp)

lemma setRecorded (h : s.Recorded) (j : Nat) (v : UInt32) : (s.setRecorded j v).Recorded where
  aligned := h.aligned
  inside := by
    rw [Store.setRecorded, setMem_mem, Memory.size_pokeWord]
    exact h.inside
  small := by
    rw [Store.setRecorded, setMem_mem, Memory.size_pokeWord]
    exact h.small

lemma recorded_setRecorded (h : s.Recorded) {i : Nat} (hj : j < 16) :
    (s.setRecorded j v).recorded i = if i = j then v else s.recorded i := by
  have := h.aligned
  have := h.inside
  rw [recorded, Store.setRecorded, setMem_mem, setMem_ram,
    Memory.peekWord_pokeWord v (by omega) (by omega) (by omega), recorded]
  by_cases hi : i = j
  · rw [if_pos hi, if_pos (by omega)]
  · rw [if_neg hi, if_neg (by omega)]

lemma setPartition_ends {start free stop : UInt32} (h : s.Recorded) (hf : start ≤ free)
    (hs : free ≤ stop)
    (hp : post () (((s.setRecorded 2 start).setRecorded 3 free).setRecorded 4 stop)) :
    Ends (setPartition start free stop) s post := by
  refine .except_bind (a := ()) (by simp [require, hf, hs]) ?_
  refine .next (h.setRecord_ends (j := 2) rfl (by omega) ?_)
  refine .next ((h.setRecorded 2 start).setRecord_ends (j := 3) rfl (by omega) ?_)
  exact ((h.setRecorded 2 start).setRecorded 3 free).setRecord_ends (j := 4) rfl (by omega) hp

end Recorded

end Store

/-! ### All roots -/

namespace Root

variable {k : Nat}

lemma drop_all (hk : k < 8) : all.drop k = Int32.ofNat k :: all.drop (k + 1) := by
  revert k
  decide

lemma toInt_ofNat (hk : k < 8) : (Int32.ofNat k).toInt = k := by
  revert k
  decide

lemma bne_associations (hk : k < 8) : (Int32.ofNat k != associations) = (k != 6) := by
  revert k
  decide

end Root

lemma Ends.forRoots {f : Int32 → Run PUnit} (inv : Nat → Store → Prop)
    (step : ∀ k t, k < 8 → inv k t → Ends (f (Int32.ofNat k)) t fun _ u => inv (k + 1) u)
    (h : inv 0 s) : Ends (Root.all.forM f) s fun _ t => inv 8 t := by
  refine (Ends.forM (fun rest t => ∃ k ≤ 8, rest = Root.all.drop k ∧ inv k t) ?_
    ⟨0, by omega, rfl, h⟩).mono ?_
  · rintro a rest t ⟨k, hk, hrest, ht⟩
    rcases Nat.lt_or_eq_of_le hk with hk8 | rfl
    · rw [Root.drop_all hk8] at hrest
      obtain ⟨rfl, rfl⟩ := List.cons.inj hrest
      exact (step k t hk8 ht).mono fun _ u hu => ⟨k + 1, hk8, rfl, hu⟩
    · cases hrest
  · rintro _ t ⟨k, hk, hrest, ht⟩
    rcases Nat.lt_or_eq_of_le hk with hk8 | rfl
    · rw [Root.drop_all hk8] at hrest
      cases hrest
    · exact ht

end DeviceVm
