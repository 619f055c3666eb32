import DeviceVm.Proofs.Allocation
import DeviceVm.Proofs.Bits
import DeviceVm.Proofs.Sample
import DeviceVm.Store.ClassState
import Mathlib.Data.List.Nodup
import Mathlib.Data.List.Perm.Subperm

/-!
The lists of class states. A look-up moves the state of its class to the front of its list, or makes
one there, and the other states keep their order: a class that has a state keeps it.
-/

namespace DeviceVm.ClassState

open List Memory Store DeviceVm.Class Word

/-- The states that were made, and the lists they hang in. An entry is a class and its state. -/
structure Shelf where
  made : List UInt32
  lists : Nat → List (UInt32 × UInt32)

namespace Shelf

def make (v : Shelf) (cs : UInt32) : Shelf := { v with made := cs :: v.made }

/-- The class is moved to the front of its list. -/
def front (v : Shelf) (j : Nat) (k cs : UInt32) : Shelf :=
  { v with lists := fun i => if i = j then (k, cs) :: (v.lists j).filter (·.1 != k) else v.lists i }

lemma lists_front (v : Shelf) (i j : Nat) (k cs : UInt32) : (v.front j k cs).lists i =
    if i = j then (k, cs) :: (v.lists j).filter (·.1 != k) else v.lists i := rfl

/-- The state is in a list. -/
def Installed (v : Shelf) (cs : UInt32) : Prop :=
  ∃ j k, j < 16 ∧ (k, cs) ∈ v.lists j

end Shelf

/-- The states of a list from the one at `a` up to the one at `b`. -/
def Links (m : Memory) : (a : UInt32) → List (UInt32 × UInt32) → (b : UInt32) → Prop
  | a, [], b => a = b
  | a, e :: l, b => a = e.2 ∧ m.peekWord e.2.toNat = e.1 ∧
    Links m (m.peekWord (e.2.toNat + 4)) l b

def Same (m n : Memory) (cs : UInt32) : Prop :=
  n.peekWord cs.toNat = m.peekWord cs.toNat ∧
    n.peekWord (cs.toNat + 4) = m.peekWord (cs.toNat + 4)

namespace Links

variable {m n : Memory} {a b : UInt32} {l l' : List (UInt32 × UInt32)}

lemma append : Links m a (l ++ l') b ↔ ∃ c, Links m a l c ∧ Links m c l' b := by
  induction l generalizing a with
  | nil => simp [Links]
  | cons e l ih => simp only [cons_append, Links, ih, and_assoc, exists_and_left]

lemma owner (h : Links m a l b) {e : UInt32 × UInt32} (he : e ∈ l) :
    m.peekWord e.2.toNat = e.1 := by
  induction l generalizing a with
  | nil => cases he
  | cons e' l ih =>
    rcases mem_cons.1 he with rfl | he
    · exact h.2.1
    · exact ih h.2.2 he

lemma congr (h : Links m a l b) (hw : ∀ e ∈ l, Same m n e.2) : Links n a l b := by
  induction l generalizing a with
  | nil => exact h
  | cons e l ih =>
    obtain ⟨h0, h4⟩ := hw e (by simp)
    refine ⟨h.1, h0.trans h.2.1, ?_⟩
    rw [h4]
    exact ih h.2.2 fun e' he' => hw e' (by simp [he'])

end Links

/-- What does not change: where the lists are, and what is known of the classes. -/
structure Setting where
  table : UInt32
  globals : UInt32
  known : UInt32 → Prop
  number : UInt32 → UInt32
  statics : UInt32 → UInt32
  needs : UInt32 → Bool

namespace Setting

variable {S : Setting} {s t : Store} {v : Shelf} {k cs : UInt32} {j : Nat}

/-- The list of a class, by its number. -/
def list (S : Setting) (k : UInt32) : Nat := (S.number k).toNat % 16

/-- The bytes that the state of a class takes, with its header. -/
def stateBytes (S : Setting) (k : UInt32) : Nat :=
  Header.bytes (classStateHeader + S.statics k) + arrayBytes 4 (classStateHeader + S.statics k)

variable (S) in
/-- States can be looked up: RAM has room for their table, and the classes are outside of it. -/
structure Ready (s : Store) : Prop where
  part : s.Partition
  range : s.ram.start.toNat + s.ram.size.toNat < 4294967296
  last : (s.recorded 4).toNat ≤ s.ram.start.toNat + s.ram.size.toNat
  /-- The barrier, where there is one, sets bits behind the objects. -/
  bits : s.barrier = true → s.bits.range.Mapped s.mem.size ∧
    (∀ a, s.ram.start.toNat + 64 ≤ a → a < (s.recorded 4).toNat → s.bits.range.Spans a) ∧
    ∀ b, s.bits.range.covers b → (s.recorded 4).toNat ≤ b
  table : s.recorded 8 = S.table
  aligned : S.table.toNat % 4 = 0
  low : s.ram.start.toNat + 64 ≤ S.table.toNat
  high : S.table.toNat + 64 ≤ (s.recorded 3).toNat
  classes : ∀ k, S.known k → Settled (· < s.ram.start.toNat) s.mem (Class.number k) (S.number k) ∧
    Settled (· < s.ram.start.toNat) s.mem (needsInitialiser k) (S.needs k) ∧
    Settled (· < s.ram.start.toNat) s.mem (staticWords k) (S.statics k)
  globals : ∀ t : Store, t.rom = s.rom → t.eeprom = s.eeprom →
    Memory.Agrees (· < s.ram.start.toNat) s.mem t.mem →
    classNumbered ClassNumber.globalArray t = .ok S.globals ∧
      arrayElementSize S.globals t.mem = .ok 4
  globals_aligned : S.globals.toNat % 4 = 0
  globals_low : S.globals.toNat < 16777216

namespace Ready

lemma later (h : S.Ready s) (kept : s.Kept t) (aligned : (t.recorded 3).toNat % 4 = 0)
    (free : (s.recorded 3).toNat ≤ (t.recorded 3).toNat)
    (le : (t.recorded 3).toNat ≤ (s.recorded 4).toNat) (stop : t.recorded 4 = s.recorded 4)
    (table : t.recorded 8 = s.recorded 8)
    (hm : Memory.Agrees (· < s.ram.start.toNat) s.mem t.mem) : S.Ready t where
  __ := h
  part := by
    have hr := h.part.recorded
    refine ⟨⟨?_, ?_, ?_⟩, kept.collecting.trans h.part.collecting, aligned, ?_, ?_, ?_⟩
    all_goals simp only [kept.ram, hm.size, stop]
    · exact hr.aligned
    · exact hr.inside
    · exact hr.small
    · exact h.part.free_low.trans free
    · exact le
    · exact h.part.stop_le
  range := kept.ram ▸ h.range
  last := by rw [stop, kept.ram]; exact h.last
  bits hb := by
    rw [kept.bits, hm.size, stop, kept.ram]
    exact h.bits (kept.barrier ▸ hb)
  table := table.trans h.table
  low := kept.ram ▸ h.low
  high := h.high.trans free
  classes k hk := by
    obtain ⟨hn, hi, hw⟩ := h.classes k hk
    rw [kept.ram]
    exact ⟨hn.of_agrees hm, hi.of_agrees hm, hw.of_agrees hm⟩
  globals u hr he hu := h.globals u (hr.trans kept.rom) (he.trans kept.eeprom)
    (hm.trans (kept.ram ▸ hu))

lemma bounds (h : S.Ready s) : S.table.toNat % 4 = 0 ∧
    s.ram.start.toNat + 64 ≤ S.table.toNat ∧ S.table.toNat + 64 ≤ (s.recorded 3).toNat ∧
    (s.recorded 3).toNat ≤ (s.recorded 4).toNat ∧ (s.recorded 4).toNat ≤ s.mem.size ∧
    s.mem.size ≤ 16777216 :=
  ⟨h.aligned, h.low, h.high, h.part.free_le, h.part.stop_le, h.part.recorded.small⟩

lemma store_ends (h : S.Ready s) {obj val : UInt32} {index : Int32} {a : Nat}
    (hp : Points obj index a) (hobj : s.ram.start.toNat ≤ obj.toNat)
    (hobj' : obj.toNat < (s.recorded 3).toNat) (h4 : a % 4 = 0)
    (low : s.ram.start.toNat + 64 ≤ a) (high : a + 4 ≤ (s.recorded 3).toNat) :
    Ends (setReferenceInRam obj index val) s fun _ t => S.Ready t ∧ s.Kept t ∧
      t.recorded 3 = s.recorded 3 ∧ (∀ b, b % 4 = 0 → b + 4 ≤ (s.recorded 3).toNat →
        t.mem.peekWord b = if b = a then val else s.mem.peekWord b) := by
  have := h.bounds
  have := h.last
  have hin : s.ram.contains obj = .ok true := by
    rw [Region.contains_eq h.range, decide_eq_true ⟨hobj, by omega⟩]
  refine (setReferenceInRam_ends (· < (s.recorded 4).toNat) hp hin h4 (by omega)
    h.part.collecting fun hb => ?_).mono fun _ t ht => ?_
  · obtain ⟨hmapped, hspans, hcovers⟩ := h.bits hb
    exact ⟨hmapped, hspans a low (by omega), fun b hc => by have := hcovers b hc; omega⟩
  obtain ⟨mem, rfl, hval, hagr, -⟩ := ht
  have record : ∀ i < 16, (s.setMem mem).recorded i = s.recorded i := fun i hi =>
    hagr.peekWord _ fun b hb => by rw [setMem_ram]; omega
  have h3 := record 3 (by omega)
  have kept : s.Kept (s.setMem mem) := .set s mem s.log s.stats s.justCollected
  refine ⟨h.later kept (by rw [h3]; exact h.part.free_aligned) (by rw [h3])
    (by rw [h3]; exact h.part.free_le) (record 4 (by omega)) (record 8 (by omega))
    (hagr.mono fun b hb => by omega), kept, h3, fun b hb hb' => ?_⟩
  split
  · rename_i he
    rw [he]
    exact hval
  · exact hagr.peekWord _ fun i hi => by omega

end Ready

variable (S) in
/-- The states in memory are those of the shelf. Each is found in the list of its class, once. -/
structure Holds (v : Shelf) (s : Store) : Prop extends S.Ready s where
  cells : ∀ cs ∈ v.made, cs.toNat % 4 = 0 ∧ s.ram.start.toNat + 64 ≤ cs.toNat ∧
    cs.toNat + 8 ≤ (s.recorded 3).toNat ∧
    (cs.toNat + 8 ≤ S.table.toNat ∨ S.table.toNat + 64 ≤ cs.toNat)
  apart : ∀ a ∈ v.made, ∀ b ∈ v.made, a ≠ b → a.toNat + 8 ≤ b.toNat ∨ b.toNat + 8 ≤ a.toNat
  chain : ∀ j < 16, Links s.mem (s.mem.peekWord (S.table.toNat + 4 * j)) (v.lists j) 0
  entries : ∀ j < 16, ∀ e ∈ v.lists j, e.2 ∈ v.made ∧ S.known e.1 ∧ S.list e.1 = j
  keys : ∀ j < 16, ((v.lists j).map (·.1)).Nodup

namespace Holds

variable {list : Int32}

lemma same_class (h : S.Holds v s) {i : Nat} {e e' : UInt32 × UInt32} (hi : i < 16) (hj : j < 16)
    (he : e ∈ v.lists i) (he' : e' ∈ v.lists j) (hs : e.2 = e'.2) : e = e' ∧ i = j := by
  have h1 := (h.chain i hi).owner he
  rw [hs, (h.chain j hj).owner he'] at h1
  refine ⟨Prod.ext h1.symm hs, ?_⟩
  rw [← (h.entries i hi e he).2.2, ← (h.entries j hj e' he').2.2, h1]

lemma put (h : S.Holds v s) (ready : S.Ready t) (kept : s.Kept t)
    (free : t.recorded 3 = s.recorded 3) (hk : S.known k) (hj : S.list k = j) (hcs : cs ∈ v.made)
    (touched : List UInt32) (ht : ∀ y ∈ touched, y ∈ v.made ∧ ∀ i < 16, i ≠ j →
      ∀ e ∈ v.lists i, e.2 ≠ y)
    (words : ∀ b, b % 4 = 0 → b + 4 ≤ (s.recorded 3).toNat → b ≠ S.table.toNat + 4 * j →
      (∀ y ∈ touched, b ≠ y.toNat ∧ b ≠ y.toNat + 4) → t.mem.peekWord b = s.mem.peekWord b)
    (this : (∀ e ∈ v.lists j, e.2 ∉ touched → Same s.mem t.mem e.2) → Links t.mem
      (t.mem.peekWord (S.table.toNat + 4 * j)) ((k, cs) :: (v.lists j).filter (·.1 != k)) 0) :
    S.Holds (v.front j k cs) t := by
  have hj16 : j < 16 := hj ▸ Nat.mod_lt _ (by decide)
  have hb := h.bounds
  have same : ∀ i < 16, ∀ e ∈ v.lists i, e.2 ∉ touched → Same s.mem t.mem e.2 := by
    intro i hi e he hnot
    have hmade := (h.entries i hi e he).1
    have := h.cells _ hmade
    have away : ∀ y ∈ touched, e.2.toNat + 8 ≤ y.toNat ∨ y.toNat + 8 ≤ e.2.toNat := fun y hy =>
      h.apart _ hmade y (ht y hy).1 fun heq => hnot (heq ▸ hy)
    refine ⟨words _ (by omega) (by omega) (by omega) fun y hy => ?_,
      words _ (by omega) (by omega) (by omega) fun y hy => ?_⟩
    all_goals
      have := away y hy
      omega
  refine ⟨ready, fun c hc => ?_, h.apart, fun i hi => ?_, fun i hi e he => ?_, fun i hi => ?_⟩
  · rw [kept.ram, free]
    exact h.cells c hc
  · rw [Shelf.lists_front]
    by_cases hij : i = j
    · rw [if_pos hij, hij]
      exact this (same j hj16)
    rw [if_neg hij, words _ (by omega) (by omega) (by omega) fun y hy => ?_]
    · exact (h.chain i hi).congr fun e he => same i hi e he fun hmem =>
        (ht _ hmem).2 i hi hij e he rfl
    · have := h.cells y (ht y hy).1
      omega
  · rw [Shelf.lists_front] at he
    by_cases hij : i = j
    · rw [if_pos hij] at he
      rcases mem_cons.1 he with rfl | he
      · exact ⟨hcs, hk, hj.trans hij.symm⟩
      · exact hij ▸ h.entries j hj16 e (mem_filter.1 he).1
    · rw [if_neg hij] at he
      exact h.entries i hi e he
  · rw [Shelf.lists_front]
    by_cases hij : i = j
    · rw [if_pos hij, map_cons, nodup_cons]
      refine ⟨by simp, (h.keys j hj16).sublist (List.Sublist.map _ filter_sublist)⟩
    · rw [if_neg hij]
      exact h.keys i hi

lemma points (h : S.Holds v s) (hc : cs ∈ v.made) :
    Points cs 0 cs.toNat ∧ Points cs 1 (cs.toNat + 4) := by
  have := h.cells cs hc
  have := h.bounds
  exact ⟨.lit 0 rfl, .lit 1 rfl⟩

lemma reads (h : S.Holds v s) (hc : cs ∈ v.made) :
    ownerOf cs s.mem = .ok (s.mem.peekWord cs.toNat) ∧
      next cs s.mem = .ok (s.mem.peekWord (cs.toNat + 4)) := by
  have := h.cells cs hc
  have := h.bounds
  obtain ⟨h0, h1⟩ := h.points hc
  exact ⟨word_eq h0 (by omega), word_eq h1 (by omega)⟩

lemma points_list (h : S.Ready s) (hl : list.toInt = j) (hj : j < 16) :
    Points S.table list (S.table.toNat + 4 * j) := by
  have := h.bounds
  exact .lit j hl

lemma relink_ends (h : S.Holds v s) {i : Int32} {obj : UInt32} {a : Nat} (val : UInt32)
    (hl : list.toInt = j) (hj : j < 16) (ho : obj ∈ v.made) (hp : Points obj i a) (h4 : a % 4 = 0)
    (hlo : obj.toNat ≤ a) (hhi : a < obj.toNat + 8) (hc : cs ∈ v.made) :
    Ends (do
      setReferenceInRam obj i val
      setReferenceInRam cs 1 (s.mem.peekWord (S.table.toNat + 4 * j))
      setReferenceInRam S.table list cs) s fun _ t => S.Ready t ∧ s.Kept t ∧
      t.recorded 3 = s.recorded 3 ∧ ∀ b, b % 4 = 0 → b + 4 ≤ (s.recorded 3).toNat →
        t.mem.peekWord b = if b = S.table.toNat + 4 * j then cs
          else if b = cs.toNat + 4 then s.mem.peekWord (S.table.toNat + 4 * j)
          else if b = a then val else s.mem.peekWord b := by
  have := h.cells _ ho
  have := h.cells _ hc
  have := h.bounds
  refine .bind (h.store_ends hp (by omega) (by omega) h4 (by omega) (by omega)) fun _ t1 h1 => ?_
  obtain ⟨r1, k1, f1, w1⟩ := h1
  refine .bind (r1.store_ends (h.points hc).2 (by rw [k1.ram]; omega) (by rw [f1]; omega) (by omega)
    (by rw [k1.ram]; omega) (by rw [f1]; omega)) fun _ t2 h2 => ?_
  obtain ⟨r2, k2, f2, w2⟩ := h2
  have hram2 := k2.ram.trans k1.ram
  have hfree2 := f2.trans f1
  refine (r2.store_ends (points_list r2 hl hj) (by rw [hram2]; omega) (by rw [hfree2]; omega)
    (by omega) (by rw [hram2]; omega) (by rw [hfree2]; omega)).mono fun _ t3 h3 => ?_
  obtain ⟨r3, k3, f3, w3⟩ := h3
  rw [f1] at w2
  rw [hfree2] at w3
  exact ⟨r3, (k1.trans k2).trans k3, f3.trans hfree2, fun b hb hb' => by
    rw [w3 b hb hb', w2 b hb hb', w1 b hb hb']⟩

lemma splice_ends (h : S.Holds v s) (hj : S.list k = j) (hl : list.toInt = j)
    {A B : List (UInt32 × UInt32)} {kp prev : UInt32}
    (hlist : v.lists j = A ++ (kp, prev) :: (k, cs) :: B) :
    Ends (do
      setReferenceInRam prev 1 (s.mem.peekWord (cs.toNat + 4))
      setReferenceInRam cs 1 (s.mem.peekWord (S.table.toNat + 4 * j))
      setReferenceInRam S.table list cs
      return cs) s fun r t => r = cs ∧ S.Holds (v.front j k cs) t := by
  have hj16 : j < 16 := hj ▸ Nat.mod_lt _ (by decide)
  have hp : (kp, prev) ∈ v.lists j := by simp [hlist]
  have hc : (k, cs) ∈ v.lists j := by simp [hlist]
  have hpm : prev ∈ v.made := (h.entries j hj16 _ hp).1
  have hcm : cs ∈ v.made := (h.entries j hj16 _ hc).1
  have hk : S.known k := (h.entries j hj16 _ hc).2.1
  have := h.cells _ hpm
  have := h.cells _ hcm
  have := h.bounds
  -- the other states of the list are for other classes
  have hkeys := h.keys j hj16
  rw [hlist, map_append, map_cons, map_cons] at hkeys
  obtain ⟨-, hback, hcross⟩ := nodup_append.1 hkeys
  obtain ⟨hpk, hback⟩ := nodup_cons.1 hback
  have hkp : kp ≠ k := fun he => hpk (he ▸ mem_cons_self)
  have others : ∀ e, e ∈ A ∨ e ∈ B → e.1 ≠ kp ∧ e.1 ≠ k := by
    rintro e (he | he)
    · have := hcross e.1 (mem_map_of_mem he)
      exact ⟨this kp (by simp), this k (by simp)⟩
    · have hm := mem_map_of_mem (f := (·.1)) he
      exact ⟨fun hc => hpk (hc ▸ mem_cons_of_mem _ hm),
        fun hc => (nodup_cons.1 hback).1 (hc ▸ hm)⟩
  have moved := h.relink_ends (s.mem.peekWord (cs.toNat + 4)) hl hj16 hpm (h.points hpm).2
    (by omega) (by omega) (by omega) hcm
  simp only [← bind_assoc] at moved ⊢
  refine .bind moved fun _ t ht => .pure ⟨rfl, ?_⟩
  obtain ⟨ready, kept, free, w⟩ := ht
  have : prev.toNat + 8 ≤ cs.toNat ∨ cs.toNat + 8 ≤ prev.toNat :=
    h.apart _ hpm _ hcm fun he => hkp (congrArg Prod.fst (h.same_class hj16 hj16 hp hc he).1)
  refine h.put ready kept free hk hj hcm [prev, cs] (fun y hy => ?_) (fun b hb hb' ht hy => ?_)
    fun same => ?_
  · rcases mem_cons.1 hy with rfl | hy
    · exact ⟨hpm, fun i hi hij e he hs => hij (h.same_class hi hj16 he hp hs).2⟩
    · obtain rfl := mem_singleton.1 hy
      exact ⟨hcm, fun i hi hij e he hs => hij (h.same_class hi hj16 he hc hs).2⟩
  · have hyp := hy prev (by simp)
    have hyc := hy cs (by simp)
    rw [w b hb hb', if_neg ht, if_neg hyc.2, if_neg hyp.2]
  have still : ∀ e, e ∈ A ∨ e ∈ B → Same s.mem t.mem e.2 := by
    intro e he
    have hmem : e ∈ v.lists j := by
      rw [hlist]
      rcases he with he | he <;> simp [he]
    obtain ⟨h1, h2⟩ := others e he
    refine same e hmem fun hin => ?_
    rcases mem_cons.1 hin with hs | hs
    · exact h1 (congrArg Prod.fst (h.same_class hj16 hj16 hmem hp hs).1)
    · exact h2 (congrArg Prod.fst (h.same_class hj16 hj16 hmem hc (mem_singleton.1 hs)).1)
  have hfilter : (v.lists j).filter (·.1 != k) = A ++ (kp, prev) :: B := by
    rw [hlist, filter_append, filter_cons, filter_cons,
      filter_eq_self.2 fun e he => bne_iff_ne.2 (others e (.inl he)).2,
      filter_eq_self.2 fun e he => bne_iff_ne.2 (others e (.inr he)).2]
    simp [hkp]
  have hchain := h.chain j hj16
  rw [hlist] at hchain
  obtain ⟨c, hA, hc', hop, -, hok, hB⟩ := Links.append.1 hchain
  rw [hfilter, w _ (by omega) (by omega), if_pos rfl]
  refine ⟨rfl, ?_, ?_⟩
  all_goals dsimp only
  · rw [w _ (by omega) (by omega), if_neg (by omega), if_neg (by omega), if_neg (by omega)]
    exact hok
  rw [w _ (by omega) (by omega), if_neg (by omega), if_pos rfl]
  refine Links.append.2 ⟨c, hA.congr fun e he => still e (.inl he), hc', ?_, ?_⟩
  all_goals dsimp only
  · rw [w _ (by omega) (by omega), if_neg (by omega), if_neg (by omega), if_neg (by omega)]
    exact hop
  · rw [w _ (by omega) (by omega), if_neg (by omega), if_neg (by omega), if_pos rfl]
    exact hB.congr fun e he => still e (.inr he)

/-- What a search for the state of `k` in list `j` gives. -/
def Searched (S : Setting) (v : Shelf) (j : Nat) (k : UInt32) (s : Store) (r : UInt32) (t : Store) :
    Prop :=
  match (v.lists j).lookup k with
  | none => r = 0 ∧ t = s
  | some cs => r = cs ∧ S.Holds (v.front j k cs) t

lemma lookup_append {A B : List (UInt32 × UInt32)} (hA : ∀ e ∈ A, e.1 ≠ k) :
    (A ++ B).lookup k = B.lookup k := by
  rw [List.lookup_append, List.lookup_eq_none_iff.2 fun e he => bne_iff_ne.2 (hA e he).symm]
  rfl

lemma behind_ends (h : S.Holds v s) (hj : S.list k = j) (hl : list.toInt = j)
    (rest : List (UInt32 × UInt32)) : ∀ A (kp prev : UInt32) (fuel : Nat),
    v.lists j = A ++ (kp, prev) :: rest → (∀ e ∈ A ++ [(kp, prev)], e.1 ≠ k) → rest.length < fuel →
    Ends (classStateBehind k S.table list (s.mem.peekWord (S.table.toNat + 4 * j)) fuel prev
      (s.mem.peekWord (prev.toNat + 4))) s (Searched S v j k s) := by
  have hj16 : j < 16 := hj ▸ Nat.mod_lt _ (by decide)
  have zero := UInt32.toNat_zero
  induction rest with
  | nil =>
    intro A kp prev fuel hlist hA hfuel
    rcases fuel with _ | fuel
    · omega
    have hchain := h.chain j hj16
    rw [hlist] at hchain
    obtain ⟨_, _, _, _, hend⟩ := Links.append.1 hchain
    rw [classStateBehind, show s.mem.peekWord (prev.toNat + 4) = 0 from hend, if_pos (by rfl)]
    refine .pure ?_
    rw [Searched, hlist, lookup_eq_none_iff.2 fun e he => bne_iff_ne.2 (hA e he).symm]
    exact ⟨rfl, rfl⟩
  | cons e rest ih =>
    intro A kp prev fuel hlist hA hfuel
    rcases fuel with _ | fuel
    · omega
    have hchain := h.chain j hj16
    rw [hlist] at hchain
    obtain ⟨_, _, _, _, hcs, howner, _⟩ := Links.append.1 hchain
    have hm : e.2 ∈ v.made := (h.entries j hj16 e (by simp [hlist])).1
    have hcell := h.cells e.2 hm
    obtain ⟨hown, hnext⟩ := h.reads hm
    rw [classStateBehind, show s.mem.peekWord (prev.toNat + 4) = e.2 from hcs,
      if_neg fun h0 => by rw [beq_iff_eq.1 h0, zero] at hcell; omega]
    refine .read_bind hnext (.read_bind hown ?_)
    rw [howner]
    by_cases hk : e.1 = k
    · rw [if_pos (beq_iff_eq.2 hk)]
      obtain rfl := hk
      refine (h.splice_ends hj hl hlist).mono fun r t hr => ?_
      rw [Searched, hlist, append_cons, lookup_append hA, lookup_cons_self]
      exact hr
    rw [if_neg fun hc => hk (beq_iff_eq.1 hc)]
    refine ih (A ++ [(kp, prev)]) e.1 e.2 fuel (by simp [hlist]) (fun e' he' => ?_) ?_
    · rcases mem_append.1 he' with he' | he'
      · exact hA e' he'
      · rw [mem_singleton.1 he']
        exact hk
    · exact Nat.lt_of_succ_lt_succ hfuel

lemma listOf_eq (h : S.Ready s) (hk : S.known k) :
    ∃ list, listOf k s.mem = .ok list ∧ list.toInt = S.list k := by
  have h15 : (tableSize - 1).toNat = 2 ^ 4 - 1 := rfl
  have hn : ((S.number k) &&& (tableSize - 1)).toNat = S.list k := by
    rw [UInt32.toNat_and, h15, Nat.and_two_pow_sub_one_eq_mod]
    rfl
  have : S.list k < 16 := Nat.mod_lt _ (by decide)
  refine ⟨_, Read.bind_ok (h.classes k hk).1.here, ?_⟩
  rw [Points.toInt_toInt32 (by omega), hn]

lemma table_eq (h : S.Ready s) : classStateTable s = .ok S.table := by
  rw [classStateTable, h.part.recorded.root_eq (j := 0) rfl (by omega), h.table]

lemma first_eq (h : S.Ready s) (hl : list.toInt = j) (hj : j < 16) :
    word S.table list s.mem = .ok (s.mem.peekWord (S.table.toNat + 4 * j)) := by
  have := h.bounds
  exact word_eq (points_list h hl hj) (by omega)

lemma add_ends (h : S.Holds v s) (hk : S.known k) (hcm : cs ∈ v.made) (free : ¬ v.Installed cs)
    (absent : ∀ e ∈ v.lists (S.list k), e.1 ≠ k) :
    Ends (addClassState k cs) s fun _ t => S.Holds (v.front (S.list k) k cs) t := by
  have hj16 : S.list k < 16 := Nat.mod_lt _ (by decide)
  have := h.cells _ hcm
  have := h.bounds
  obtain ⟨list, hlist, hl⟩ := listOf_eq h.toReady hk
  refine .query_bind (table_eq h.toReady) (.read_bind hlist
    (.read_bind (first_eq h.toReady hl hj16) ?_))
  refine (h.relink_ends k hl hj16 hcm (h.points hcm).1 (by omega) (by omega) (by omega) hcm).mono
    fun _ t ht => ?_
  obtain ⟨ready, kept, free', w⟩ := ht
  have alone : ∀ i < 16, ∀ e ∈ v.lists i, e.2 ≠ cs := fun i hi e he hs =>
    free ⟨i, e.1, hi, hs ▸ he⟩
  refine h.put ready kept free' hk rfl hcm [cs] (fun y hy => ?_) (fun b hb hb' ht hy => ?_)
    fun same => ?_
  · obtain rfl := mem_singleton.1 hy
    exact ⟨hcm, fun i hi _ e he => alone i hi e he⟩
  · have hyc := hy cs (by simp)
    rw [w b hb hb', if_neg ht, if_neg hyc.2, if_neg hyc.1]
  rw [filter_eq_self.2 fun e he => bne_iff_ne.2 (absent e he),
    w _ (by omega) (by omega), if_pos rfl]
  refine ⟨rfl, ?_, ?_⟩
  all_goals dsimp only
  · rw [w _ (by omega) (by omega), if_neg (by omega), if_neg (by omega), if_pos rfl]
  · rw [w _ (by omega) (by omega), if_neg (by omega), if_pos rfl]
    exact (h.chain _ hj16).congr fun e he => same e he (by simpa using alone _ hj16 e he)

lemma later (h : S.Holds v s) (ready : S.Ready t) (kept : s.Kept t)
    (free : (s.recorded 3).toNat ≤ (t.recorded 3).toNat)
    (hm : Memory.Agrees (fun b => s.ram.start.toNat + 64 ≤ b ∧ b < (s.recorded 3).toNat) s.mem
      t.mem) : S.Holds v t := by
  have := h.bounds
  have same : ∀ cs ∈ v.made, Same s.mem t.mem cs := fun cs hcs => by
    have := h.cells cs hcs
    exact ⟨hm.peekWord _ fun i hi => by omega, hm.peekWord _ fun i hi => by omega⟩
  refine ⟨ready, fun cs hcs => ?_, h.apart, fun j hj => ?_, h.entries, h.keys⟩
  · have := h.cells cs hcs
    rw [kept.ram]
    omega
  · rw [hm.peekWord _ fun i hi => by omega]
    exact (h.chain j hj).congr fun e he => same e.2 (h.entries j hj e he).1

lemma make_ends (h : S.Holds v s) (hk : S.known k) (hw : (S.statics k).toNat + 2 < 4294967296) :
    Ends (newClassState k) s fun cs t => cs = 0 ∧ s.Refused t (S.stateBytes k) ∧ S.Holds v t ∨
      cs ≠ 0 ∧ ¬ s.Short (S.stateBytes k) ∧ cs ∉ v.made ∧ S.Holds (v.make cs) t := by
  have h2 : classStateHeader.toNat = 2 := rfl
  obtain ⟨hg, he⟩ := h.globals s rfl rfl (.refl _)
  have := h.bounds
  refine .read_bind (h.classes k hk).2.2.here (.query_bind hg ?_)
  refine .except_bind (plus_eq (by omega)) ?_
  refine (h.part.newArray_ends he (by decide) h.globals_aligned h.globals_low).mono
    fun cs t ht => ?_
  have := h.part.free_aligned
  rcases ht with ⟨rfl, ht⟩ | ht
  · have := congrArg UInt32.toNat (ht.record (j := 3) (by decide))
    have ready := h.toReady.later ht.kept (by omega) (by omega) (by omega) (ht.record (by decide))
      (ht.record (by decide)) (ht.agrees.mono fun b hb => by omega)
    exact .inl ⟨rfl, ht, h.later ready ht.kept (by omega) (ht.agrees.mono fun b hb => by omega)⟩
  have := Header.bytes_cases (classStateHeader + S.statics k)
  have hcount : (classStateHeader + S.statics k).toNat = 2 + (S.statics k).toNat := by
    rw [UInt32.toNat_add, h2]
    omega
  have h4 := toNat_four
  have hfirst := ht.first
  have hroomy := ht.took.roomy
  have hfree := ht.took.free
  have hfits := ht.took.fits
  rw [arrayBytes, h4, hcount] at hfree hfits
  have ready := h.toReady.later ht.took.toKept (by omega) (by omega) (by omega)
    (ht.took.record h.part (by decide) (by decide))
    (ht.took.record h.part (by decide) (by decide))
    (ht.took.agrees.mono fun b hb => by omega)
  have held := h.later ready ht.took.toKept (by omega) (ht.took.agrees.mono fun b hb => by omega)
  have zero := UInt32.toNat_zero
  have below : ∀ c ∈ v.made, c.toNat + 8 ≤ cs.toNat := fun c hc => by
    have := h.cells c hc
    omega
  refine .inr ⟨fun h0 => by rw [h0, zero] at hfirst; omega, hroomy,
    fun hc => by have := below cs hc; omega, held.toReady, fun c hc => ?_,
    fun a ha b hb hab => ?_, held.chain, fun j hj e he => ?_, held.keys⟩
  · rcases mem_cons.1 hc with rfl | hc
    · rw [ht.took.ram]
      omega
    · exact held.cells c hc
  · rcases mem_cons.1 ha with rfl | ha' <;> rcases mem_cons.1 hb with rfl | hb'
    · exact absurd rfl hab
    · exact .inr (below b hb')
    · exact .inl (below a ha')
    · exact h.apart a ha' b hb' hab
  · obtain ⟨hm, hrest⟩ := held.entries j hj e he
    exact ⟨mem_cons_of_mem _ hm, hrest⟩

lemma front_self (h : S.Holds v s) (hj : j < 16) {rest : List (UInt32 × UInt32)}
    (hlist : v.lists j = (k, cs) :: rest) : v.front j k cs = v := by
  have hkeys := h.keys j hj
  rw [hlist] at hkeys
  have hrest : rest.filter (·.1 != k) = rest := filter_eq_self.2 fun e he =>
    bne_iff_ne.2 fun hk => (nodup_cons.1 hkeys).1 (mem_map.2 ⟨e, he, hk⟩)
  have hlists : (v.front j k cs).lists = v.lists := by
    funext i
    rw [Shelf.lists_front]
    split
    · rename_i hi
      rw [hi, hlist, filter_cons_of_neg (by simp), hrest]
    · rfl
  exact congrArg (Shelf.mk v.made) hlists

lemma length_le (h : S.Holds v s) (hj : j < 16) : (v.lists j).length ≤ s.mem.size := by
  have hnodup : ((v.lists j).map (·.2.toNat)).Nodup := by
    refine List.Nodup.map_on (fun e he e' he' heq => ?_) (h.keys j hj).of_map
    exact (h.same_class hj hj he he' (UInt32.toNat_inj.1 heq)).1
  have hsub : (v.lists j).map (·.2.toNat) ⊆ range s.mem.size := by
    intro a ha
    obtain ⟨e, he, rfl⟩ := mem_map.1 ha
    have := h.cells _ (h.entries j hj e he).1
    have := h.bounds
    exact mem_range.2 (by omega)
  have := (subperm_of_subset hnodup hsub).length_le
  rwa [length_map, length_range] at this

end Holds

variable {first : UInt32 → Option UInt32}

variable (S) in
/-- `first` gives the state that was the first one in a list for a class. -/
structure Found (first : UInt32 → Option UInt32) (v : Shelf) (s : Store) : Prop extends
    S.Holds v s where
  firsts : ∀ k, S.known k → (v.lists (S.list k)).lookup k = first k

lemma lookup_filter {k' : UInt32} (hk : k' ≠ k) (l : List (UInt32 × UInt32)) :
    (l.filter (·.1 != k)).lookup k' = l.lookup k' := by
  induction l with
  | nil => rfl
  | cons e l ih =>
    rw [filter_cons, lookup_cons]
    split
    · rw [lookup_cons, ih]
    · rename_i he
      have he : e.1 = k := by simpa using he
      rw [ih, he, beq_false_of_ne hk]

lemma lookup_front (k' : UInt32) : ((v.front (S.list k) k cs).lists (S.list k')).lookup k' =
    if k' = k then some cs else (v.lists (S.list k')).lookup k' := by
  rw [Shelf.lists_front]
  by_cases hk : k' = k
  · rw [hk, if_pos rfl, if_pos rfl, lookup_cons_self]
  split
  · rename_i hl
    rw [lookup_cons, beq_false_of_ne hk, hl]
    exact lookup_filter hk _
  · rfl

/-- The operations on class states. -/
inductive Call
  | find (k : UInt32)
  | make (k : UInt32)
  | add (k cs : UInt32)

def Call.run : Call → Run UInt32
  | .find k => findClassState k
  | .make k => newClassState k
  | .add k cs => do
    addClassState k cs
    return cs

/-- A class that has no state may be given one, if the state is in no list. -/
def Legal (S : Setting) (first : UInt32 → Option UInt32) (v : Shelf) : Call → Prop
  | .find k => S.known k ∧
    (first k = none → S.needs k = false → (S.statics k).toNat + 2 < 4294967296)
  | .make k => S.known k ∧ (S.statics k).toNat + 2 < 4294967296
  | .add k cs => S.known k ∧ first k = none ∧ cs ∈ v.made ∧ ¬ v.Installed cs

/-- What a call answers and what it changes. A call that makes a state fails only when the store is
short of room for it, and then changes nothing but the record of the size that failed. -/
inductive Step (S : Setting) (first : UInt32 → Option UInt32) (v : Shelf) (s : Store) :
    Call → UInt32 → (UInt32 → Option UInt32) → Shelf → Store → Prop
  | hit {k cs : UInt32} {t : Store} : first k = some cs →
    Step S first v s (.find k) cs first (v.front (S.list k) k cs) t
  | uninitialised {k : UInt32} : first k = none → S.needs k = true →
    Step S first v s (.find k) 0 first v s
  | full {k : UInt32} {t : Store} : first k = none → S.needs k = false →
    s.Refused t (S.stateBytes k) → Step S first v s (.find k) 0 first v t
  | new {k cs : UInt32} {t : Store} : first k = none → S.needs k = false →
    ¬ s.Short (S.stateBytes k) → cs ≠ 0 → cs ∉ v.made →
    Step S first v s (.find k) cs (Function.update first k (some cs))
      ((v.make cs).front (S.list k) k cs) t
  | unmade {k : UInt32} {t : Store} : s.Refused t (S.stateBytes k) →
    Step S first v s (.make k) 0 first v t
  | made {k cs : UInt32} {t : Store} : ¬ s.Short (S.stateBytes k) → cs ≠ 0 → cs ∉ v.made →
    Step S first v s (.make k) cs first (v.make cs) t
  | added {k cs : UInt32} {t : Store} : Step S first v s (.add k cs) cs
      (Function.update first k (some cs)) (v.front (S.list k) k cs) t

variable (S) in

/-- A call has done one of the steps, and the states are where it says. -/
def Stepped (first : UInt32 → Option UInt32) (v : Shelf) (s : Store) (c : Call) (r : UInt32)
    (t : Store) : Prop :=
  ∃ first' w, S.Step first v s c r first' w t ∧ S.Found first' w t

namespace Found

lemma hit (h : S.Found first v s) (hk : S.known k)
    (hcs : (v.lists (S.list k)).lookup k = some cs) (ht : S.Holds (v.front (S.list k) k cs) t) :
    S.Stepped first v s (.find k) cs t := by
  have hfirst : first k = some cs := (h.firsts k hk).symm.trans hcs
  refine ⟨first, _, .hit hfirst, ht, fun k' hk' => ?_⟩
  rw [lookup_front]
  split
  · rename_i he
    rw [he, hfirst]
  · exact h.firsts k' hk'

lemma added (h : S.Found first v s) (ht : S.Holds (v.front (S.list k) k cs) t) :
    S.Found (Function.update first k (some cs)) (v.front (S.list k) k cs) t := by
  refine ⟨ht, fun k' hk' => ?_⟩
  rw [lookup_front, Function.update_apply, h.firsts k' hk']

lemma absent (h : S.Found first v s) (hk : S.known k) (hfirst : first k = none) :
    ∀ e ∈ v.lists (S.list k), e.1 ≠ k := fun e he hek => by
  have := lookup_eq_none_iff.1 ((h.firsts k hk).trans hfirst) e he
  rw [hek, bne_self_eq_false] at this
  exact Bool.false_ne_true this

lemma missing_ends (h : S.Found first v s) (legal : S.Legal first v (.find k))
    (hfirst : first k = none) :
    Ends (do
      if ← needsInitialiser k then return 0
      let cs ← newClassState k
      if cs != 0 then addClassState k cs
      return cs) s (S.Stepped first v s (.find k)) := by
  obtain ⟨hk, hw⟩ := legal
  refine .read_bind (h.classes k hk).2.1.here ?_
  cases hneeds : S.needs k with
  | true => exact .pure ⟨first, v, .uninitialised hfirst hneeds, h⟩
  | false =>
    refine .bind (h.make_ends hk (hw hfirst hneeds)) fun cs t ht => ?_
    rcases ht with ⟨rfl, refused, ht⟩ | ⟨hne, roomy, hnew, ht⟩
    · exact .pure ⟨first, v, .full hfirst hneeds refused, ht, h.firsts⟩
    rw [if_pos (bne_iff_ne.2 hne)]
    refine .bind (ht.add_ends hk mem_cons_self ?_ (h.absent hk hfirst))
      fun _ u hu => .pure ?_
    · rintro ⟨j, k', hj, he⟩
      exact hnew (h.entries j hj _ he).1
    · have made : S.Found first (v.make cs) t := ⟨ht, h.firsts⟩
      exact ⟨_, _, .new hfirst hneeds roomy hne hnew, made.added hu⟩

lemma find_ends (h : S.Found first v s) (legal : S.Legal first v (.find k)) :
    Ends (findClassState k) s (S.Stepped first v s (.find k)) := by
  have hk := legal.1
  have hj16 : S.list k < 16 := Nat.mod_lt _ (by decide)
  have zero := UInt32.toNat_zero
  have hb := h.bounds
  have htable : (S.table != 0) = true := bne_iff_ne.2 fun h0 => by rw [h0, zero] at hb; omega
  obtain ⟨list, hlist, hl⟩ := Holds.listOf_eq h.toReady hk
  refine .query_bind (Holds.table_eq h.toReady) (.except_bind (by rw [htable]; rfl)
    (.read_bind hlist (.read_bind (Holds.first_eq h.toReady hl hj16) ?_)))
  have hchain := h.chain _ hj16
  have hfirsts := h.firsts k hk
  have hlength := h.length_le hj16
  cases hlk : v.lists (S.list k) with
  | nil =>
    rw [hlk] at hchain hfirsts
    rw [show s.mem.peekWord _ = 0 from hchain, if_neg (by decide)]
    exact h.missing_ends legal hfirsts.symm
  | cons e rest =>
    rw [hlk] at hchain hlength
    have hm : e.2 ∈ v.made := (h.entries _ hj16 e (by simp [hlk])).1
    have hcell := h.cells e.2 hm
    obtain ⟨hown, hnext⟩ := h.reads hm
    rw [hchain.2.1] at hown
    have hne : (e.2 != 0) = true := bne_iff_ne.2 fun h0 => by rw [h0, zero] at hcell; omega
    rw [hchain.1, if_pos hne]
    refine .read_bind hown ?_
    by_cases hek : e.1 = k
    · rw [if_pos (beq_iff_eq.2 hek)]
      obtain rfl := hek
      refine .pure (h.hit hk (by rw [hlk, lookup_cons_self]) ?_)
      rw [h.front_self hj16 hlk]
      exact h.toHolds
    rw [if_neg fun hc => hek (beq_iff_eq.1 hc)]
    refine .read_bind (show walkBound s.mem = .ok (s.mem.size + 1) from rfl)
      (.read_bind hnext ?_)
    have hhead : ∀ e' ∈ [] ++ [(e.1, e.2)], e'.1 ≠ k := by simpa using hek
    have hsearch := h.behind_ends rfl hl rest [] e.1 e.2 (s.mem.size + 1) hlk hhead
      (Nat.lt_succ_of_lt hlength)
    rw [hchain.1] at hsearch
    refine .bind hsearch fun r t hr => ?_
    rw [Holds.Searched] at hr
    cases hlook : (v.lists (S.list k)).lookup k with
    | none =>
      rw [hlook] at hr hfirsts
      obtain ⟨rfl, rfl⟩ := hr
      exact h.missing_ends legal hfirsts.symm
    | some cs =>
      rw [hlook] at hr
      obtain ⟨rfl, ht⟩ := hr
      obtain ⟨_, _, hmem, -⟩ := lookup_eq_some_iff.1 hlook
      have hcell := h.cells r (h.entries _ hj16 (k, r) (by simp [hmem])).1
      rw [if_pos (bne_iff_ne.2 fun h0 => by rw [h0, zero] at hcell; omega)]
      exact .pure (h.hit hk hlook ht)

lemma call_ends (h : S.Found first v s) (c : Call) (legal : S.Legal first v c) :
    Ends c.run s (S.Stepped first v s c) := by
  cases c with
  | find k => exact h.find_ends legal
  | make k =>
    refine (h.make_ends legal.1 legal.2).mono fun cs t ht => ?_
    rcases ht with ⟨rfl, refused, ht⟩ | ⟨hne, roomy, hnew, ht⟩
    · exact ⟨first, v, .unmade refused, ht, h.firsts⟩
    · exact ⟨first, _, .made roomy hne hnew, ht, h.firsts⟩
  | add k cs =>
    obtain ⟨hk, hfirst, hm, hfree⟩ := legal
    exact .bind (h.add_ends hk hm hfree (h.absent hk hfirst)) fun _ t ht =>
      .pure ⟨_, _, .added, h.added ht⟩

end Found

/-- Each call, if it is legal when its turn comes, ends as it should. -/
def Follows (S : Setting) : List Call → (UInt32 → Option UInt32) → Shelf → Store → Prop
  | [], first, v, s => S.Found first v s
  | c :: calls, first, v, s => S.Found first v s ∧ (S.Legal first v c →
    Ends c.run s fun r t =>
      ∃ first' w, S.Step first v s c r first' w t ∧ S.Follows calls first' w t)

/-- However states are looked up, made and added, no list loses a state or gets a second one for a
class. A class keeps the state that it was first given. -/
theorem states_kept (h : S.Found first v s) (calls : List Call) : S.Follows calls first v s := by
  induction calls generalizing first v s with
  | nil => exact h
  | cons c calls ih =>
    refine ⟨h, fun legal => (h.call_ends c legal).mono fun r t ht => ?_⟩
    obtain ⟨first', w, step, found⟩ := ht
    exact ⟨first', w, step, ih found⟩

/-! ### A shared list

Five classes have their states in list 8. Three of them have one; the fourth needs an initialiser,
and the last is the class of the states. -/

/-- ROM has the classes and RAM, from 272 on, the table of the lists and three states. -/
def words : List UInt32 := Sample.table [(10, [44, 48, 52]), (37, [152, 24, 0, 0, 5, 0, 2]),
  (44, [8]), (50, [40]), (56, [56]), (62, [72, mustInitialise]), (71, [448, 512]), (76, [336]),
  (92, [404]), (101, [176, 420]), (105, [200, 436]), (109, [224])] 0 128

/-- A store whose classes share a list. -/
def shared : Store where
  mem := .ofWords words
  rom := { start := 0, size := 272 }
  eeprom := {}
  ram := { start := 272, size := 240 }
  kind := .copying
  eager := false
  exactChunks := false
  trace := ⟨0⟩

def five : Setting where
  table := 336
  globals := 152
  known k := k ∈ [152, 176, 200, 224, 248]
  number k := words.getD (k.toNat / 4) 0
  statics k := words.getD (k.toNat / 4 + 5) 0
  needs k := k == 248

/-- The states of the store, by class. -/
def firsts (k : UInt32) : Option UInt32 :=
  [(176, 404), (200, 420), (224, 436)].lookup k

def shelf (l : List (UInt32 × UInt32)) (made : List UInt32) : Shelf :=
  ⟨made, fun j => if j = 8 then l else []⟩

instance (k : UInt32) : Decidable (five.known k) :=
  inferInstanceAs (Decidable (k ∈ [152, 176, 200, 224, 248]))

lemma mem_shelf {l : List (UInt32 × UInt32)} {made : List UInt32} {e : UInt32 × UInt32} :
    e ∈ (shelf l made).lists j ↔ j = 8 ∧ e ∈ l := by
  show e ∈ (if j = 8 then l else []) ↔ _
  split <;> simp [*]

lemma size_shared : shared.mem.size = 512 := by
  have length : words.length = 128 := by decide +kernel
  exact size_ofWords.trans (by rw [length])

lemma recorded_shared (j : Nat) : shared.recorded j = words.getD (68 + j) 0 := by
  rw [← peekWord_ofWords, Nat.mul_add]
  rfl

lemma word_shared {n : Memory} (h : Memory.Agrees (· < shared.ram.start.toNat) shared.mem n)
    {base : UInt32} {index : Int32} (k : Nat) (hp : Points base index (4 * k) ∧ k < 68) :
    word base index n = .ok (words.getD k 0) := by
  have := h.size.trans size_shared
  have : shared.ram.start.toNat = 272 := rfl
  rw [word_eq hp.1 (by omega), h.peekWord _ fun i hi => by omega]
  exact congrArg _ (peekWord_ofWords k)

lemma ready_shared : five.Ready shared where
  part := by
    refine ⟨⟨by decide, ?_, ?_⟩, rfl, ?_, ?_, ?_, ?_⟩
    all_goals simp only [size_shared, recorded_shared]
    all_goals decide
  range := by decide
  last := by
    rw [recorded_shared]
    decide
  bits h := absurd h (by decide)
  table := recorded_shared 8
  aligned := rfl
  low := by decide
  high := by
    rw [recorded_shared]
    decide
  classes := by
    have reads : ∀ k ∈ [152, 176, 200, 224, 248], Points k 0 (4 * (k.toNat / 4)) ∧
        Points k 1 (4 * (k.toNat / 4 + 1)) ∧ Points k 5 (4 * (k.toNat / 4 + 5)) ∧
        k.toNat / 4 + 5 < 68 ∧
        (words.getD (k.toNat / 4 + 1) 0 &&& mustInitialise != 0) = (k == 248) := by
      simp only [forall_mem_cons]
      refine ⟨?_, ?_, ?_, ?_, ?_, forall_mem_nil _⟩
      all_goals decide
    intro k hk
    obtain ⟨number, access, statics, low, needs⟩ := reads k hk
    refine ⟨fun n h => word_shared h _ ⟨number, by omega⟩, fun n h => ?_,
      fun n h => word_shared h _ ⟨statics, low⟩⟩
    have read : Class.access k n = _ := word_shared h _ ⟨access, by omega⟩
    rw [needsInitialiser, Read.bind_ok read]
    exact congrArg Except.ok needs
  globals t hr he h := by
    refine ⟨@classNumbered_eq t _ 44 48 52 _ (by decide) ?_ (by decide)
      (word_shared h 11 (by decide)) (by decide) (word_shared h 12 (by decide))
      (word_shared h 37 (by decide)) (by decide) (word_shared h 38 (by decide)),
      Read.bind_ok (word_shared h 41 (by decide))⟩
    obtain ⟨i, hi, hx⟩ := @rootWord_eq Root.suites 2 rfl (by omega)
    have hr : root .eeprom Root.suites t = .ok 44 := by
      rw [root, Query.lift_ok hi]
      refine word_shared h 10 ⟨.lit 10 hx ⟨by omega, ?_, by omega⟩, by omega⟩
      rw [region, he]
      rfl
    rw [suiteTable, Query.bind_ok hr]
    rfl
  globals_aligned := rfl
  globals_low := by decide

lemma found_shared :
    five.Found firsts (shelf [(176, 404), (200, 420), (224, 436)] [404, 420, 436]) shared where
  toReady := ready_shared
  cells := by
    rw [recorded_shared]
    refine forall_mem_cons.2 ⟨?_, forall_mem_cons.2 ⟨?_, forall_mem_cons.2 ⟨?_, forall_mem_nil _⟩⟩⟩
    all_goals decide
  apart a ha b hb := by
    have ha : a ∈ [404, 420, 436] := ha
    have hb : b ∈ [404, 420, 436] := hb
    simp only [mem_cons, not_mem_nil, or_false] at ha hb
    rcases ha with rfl | rfl | rfl
    all_goals
      rcases hb with rfl | rfl | rfl
      all_goals decide
  chain j hj := by
    have peek (k : Nat) : shared.mem.peekWord (4 * k) = words.getD k 0 := peekWord_ofWords k
    by_cases h8 : j = 8
    · subst h8
      exact ⟨peek 92, peek 101, peek 102, peek 105, peek 106, peek 109, peek 110⟩
    · have zero : ∀ j < 16, j ≠ 8 → words.getD (84 + j) 0 = 0 := by decide
      have hw := peek (84 + j)
      rw [Nat.mul_add, zero j hj h8] at hw
      have none : (shelf [(176, 404), (200, 420), (224, 436)] [404, 420, 436]).lists j = [] :=
        if_neg h8
      rw [none]
      exact hw
  entries j hj e he := by
    obtain ⟨rfl, he⟩ := mem_shelf.1 he
    revert e
    refine forall_mem_cons.2 ⟨?_, forall_mem_cons.2 ⟨?_, forall_mem_cons.2 ⟨?_, forall_mem_nil _⟩⟩⟩
    all_goals decide
  keys := by decide
  firsts := by
    show ∀ k ∈ [152, 176, 200, 224, 248], _
    simp only [forall_mem_cons]
    refine ⟨?_, ?_, ?_, ?_, ?_, forall_mem_nil _⟩
    all_goals rfl

/-! A call of a sequence that is followed, by what it finds. -/

namespace Follows

variable {calls : List Call}

lemma hit (h : S.Follows (.find k :: calls) first v s) (hk : S.known k) (hcs : first k = some cs) :
    Ends (findClassState k) s fun r t =>
      r = cs ∧ S.Follows calls first (v.front (S.list k) k cs) t := by
  have legal : S.Legal first v (.find k) := ⟨hk, fun hn => by rw [hcs] at hn; cases hn⟩
  refine (h.2 legal).mono fun r t ht => ?_
  obtain ⟨first', w, step, next⟩ := ht
  cases step with
  | hit hr =>
    obtain rfl := Option.some.inj (hr.symm.trans hcs)
    exact ⟨rfl, next⟩
  | uninitialised hn | full hn | new hn =>
    rw [hcs] at hn
    cases hn

lemma uninitialised (h : S.Follows (.find k :: calls) first v s) (hk : S.known k)
    (hn : first k = none) (needs : S.needs k = true) :
    Ends (findClassState k) s fun r t => r = 0 ∧ t = s ∧ S.Follows calls first v t := by
  have legal : S.Legal first v (.find k) := ⟨hk, fun _ hf => by rw [needs] at hf; cases hf⟩
  refine (h.2 legal).mono fun r t ht => ?_
  obtain ⟨first', w, step, next⟩ := ht
  cases step with
  | hit hr =>
    rw [hn] at hr
    cases hr
  | uninitialised => exact ⟨rfl, rfl, next⟩
  | full _ hf | new _ hf =>
    rw [needs] at hf
    cases hf

lemma new (h : S.Follows (.find k :: calls) first v s) (hk : S.known k) (hn : first k = none)
    (needs : S.needs k = false) (hw : (S.statics k).toNat + 2 < 4294967296)
    (roomy : ¬ s.Short (S.stateBytes k)) :
    Ends (findClassState k) s fun cs t => cs ∉ v.made ∧ S.Follows calls
      (Function.update first k (some cs)) ((v.make cs).front (S.list k) k cs) t := by
  refine (h.2 ⟨hk, fun _ _ => hw⟩).mono fun r t ht => ?_
  obtain ⟨first', w, step, next⟩ := ht
  cases step with
  | hit hr =>
    rw [hn] at hr
    cases hr
  | uninitialised _ hf =>
    rw [needs] at hf
    cases hf
  | full _ _ refused => exact absurd refused.short roomy
  | new _ _ _ _ hnew => exact ⟨hnew, next⟩

end Follows

lemma shelf_front {l : List (UInt32 × UInt32)} {made : List UInt32} :
    (shelf l made).front 8 k cs = shelf ((k, cs) :: l.filter (·.1 != k)) made := by
  refine congrArg (Shelf.mk made) (funext fun j => ?_)
  show (if j = 8 then _ else if j = 8 then l else []) = _
  split <;> rfl

/-- A state is made, then those at the second and at the last place of the list are looked up, then
a class that needs an initialiser, and then the state that was made, at the third place. -/
theorem states_kept_shared : Ends (findClassState 152) shared fun cs s =>
    cs ∉ [404, 420, 436] ∧ Ends (findClassState 176) s fun r s =>
    r = 404 ∧ Ends (findClassState 224) s fun r s =>
    r = 436 ∧ Ends (findClassState 248) s fun r t =>
    r = 0 ∧ t = s ∧ Ends (findClassState 152) t fun r s =>
    r = cs ∧ five.Found (Function.update firsts 152 (some cs))
      (shelf [(152, cs), (224, 436), (176, 404), (200, 420)] [cs, 404, 420, 436]) s := by
  have follows := states_kept found_shared
    [.find 152, .find 176, .find 224, .find 248, .find 152]
  have roomy : ¬ shared.Short (five.stateBytes 152) := by
    rw [Short, recorded_shared, recorded_shared]
    decide
  refine (follows.new (by decide) rfl rfl (by decide) roomy).mono fun cs s h => ⟨h.1, ?_⟩
  have known : ∀ k, k ≠ 152 → Function.update firsts 152 (some cs) k = firsts k := fun k hk =>
    Function.update_of_ne hk _ _
  have second : Function.update firsts 152 (some cs) 176 = some 404 := known 176 (by decide)
  have last : Function.update firsts 152 (some cs) 224 = some 436 := known 224 (by decide)
  refine (h.2.hit (by decide) second).mono fun r s h => ⟨h.1, ?_⟩
  refine (h.2.hit (by decide) last).mono fun r s h => ⟨h.1, ?_⟩
  refine (h.2.uninitialised (by decide) (known 248 (by decide)) rfl).mono fun r t h =>
    ⟨h.1, h.2.1, ?_⟩
  refine (h.2.2.hit (by decide) (Function.update_self ..)).mono fun r s h => ⟨h.1, ?_⟩
  have found : five.Found _ _ s := h.2
  have list : five.list 152 = 8 ∧ five.list 176 = 8 ∧ five.list 224 = 8 := by decide
  have make : (shelf [(176, 404), (200, 420), (224, 436)] [404, 420, 436]).make cs =
      shelf [(176, 404), (200, 420), (224, 436)] [cs, 404, 420, 436] := rfl
  rw [list.1, list.2.1, list.2.2, make] at found
  simpa [shelf_front] using found

end Setting

end DeviceVm.ClassState
