import DeviceVm.Proofs.Persistent.FreeList

/-!
Requests for persistent memory. From the moment the segment is one free block, what was handed out
and what is free fill the segment without overlap, whatever is asked for; every request is answered
from the lowest gap that has room for it.
-/

namespace DeviceVm.Persistent

open Gap SegmentRecord List Memory UInt32 Query Store Word

/-- Bytes that are asked for, and whether they are to be cleared. -/
structure Request where
  bytes : UInt32
  clear : Bool

namespace Request

def size (r : Request) : Nat := (r.bytes.toNat + 3) / 4 * 4

/-- A size that can be asked for. -/
def Proper (r : Request) : Prop := 0 < r.bytes.toNat ∧ r.bytes.toNat < 2147483648

end Request

def serve : List Request → Run (List UInt32)
  | [] => return []
  | r :: rs => do
    let block ← take r.bytes r.clear
    return block :: (← serve rs)

/-- The stretches that the answers to requests have handed out. -/
def handed : List Request → List UInt32 → List Gap
  | r :: rs, block :: blocks =>
    if block = 0 then handed rs blocks else ⟨block, r.size.toUInt32⟩ :: handed rs blocks
  | _, _ => []

/-- The blocks fill the memory from one address to the other. -/
def Fills : Nat → List Gap → Nat → Prop
  | a, [], b => a = b
  | a, g :: gs, b => g.block.toNat = a ∧ Fills g.stop gs b

/-- The gaps are listed, and with what was handed out they fill the range of persistent objects. -/
structure Sound (s : Store) (used gs : List Gap) (start stop : UInt32) : Prop where
  listed : Listed s gs
  range : Persistent.range s = .ok (start, stop)
  fills : ∃ l, l.Perm (used ++ gs) ∧ Fills start.toNat l stop.toNat

variable {s t : Store} {g : Gap} {used gs : List Gap} {start stop size : UInt32}
  {r : Request} {post : Unit → Store → Prop}

/-! ### Stretches that fill a range -/

namespace Fills

variable {a b : Nat} {l : List Gap}

lemma low : {a : Nat} → {l : List Gap} → Fills a l b → ∀ g ∈ l, a ≤ g.block.toNat
  | a, p :: l, h, g, hg => by
    rcases mem_cons.1 hg with rfl | hg
    · exact Nat.le_of_eq h.1.symm
    · have := low h.2 g hg
      rw [stop] at this
      have := h.1
      omega

lemma pairwise : {a : Nat} → {l : List Gap} → Fills a l b →
    l.Pairwise fun g h => g.stop ≤ h.block.toNat ∨ h.stop ≤ g.block.toNat
  | _, [], _ => .nil
  | _, _ :: _, h => .cons (fun g hg => .inl (low h.2 g hg)) (pairwise h.2)

lemma cut (hle : size.toNat ≤ g.size.toNat) (hin : g.stop < 4294967296) :
    {a : Nat} → {before : List Gap} → {l : List Gap} → Fills a (before ++ g :: l) b →
      Fills a (before ++ ⟨g.block, size⟩ :: g.left size l) b
  | _, [], l, h => by
    refine ⟨h.1, ?_⟩
    rw [stop] at hin
    rw [left]
    split
    · rename_i heq
      rw [heq]
      exact h.2
    refine ⟨toNat_plus (by omega), ?_⟩
    have hstop : (⟨g.block + size, g.size - size⟩ : Gap).stop = g.stop := by
      show (g.block + size).toNat + (g.size - size).toNat = g.block.toNat + g.size.toNat
      rw [toNat_plus (by omega), toNat_minus hle]
      omega
    rw [hstop]
    exact h.2
  | _, _ :: _, _, h => ⟨h.1, cut hle hin h.2⟩

end Fills

lemma Gap.left_append (l l' : List Gap) : g.left size l ++ l' = g.left size (l ++ l') := by
  rw [left, left]
  split <;> rfl

lemma Gap.left_eq (l : List Gap) : g.left size l = g.left size [] ++ l :=
  (left_append [] l).symm

lemma Gap.total_left (l : List Gap) (hle : size.toNat ≤ g.size.toNat) :
    size.toNat + total (g.left size l) = total (g :: l) := by
  rw [total_cons, left]
  split
  · rename_i heq
    rw [heq]
  · rw [total_cons, toNat_minus hle]
    omega

namespace Sound

section

variable (h : Sound s used gs start stop)
include h

lemma perm {used' : List Gap} (hp : used.Perm used') : Sound s used' gs start stop := by
  obtain ⟨l, hl, hf⟩ := h.fills
  exact ⟨h.listed, h.range, l, hl.trans (hp.append_right gs), hf⟩

lemma apart : ∀ u ∈ used, ∀ g ∈ gs, u.stop ≤ g.block.toNat ∨ g.stop ≤ u.block.toNat := by
  obtain ⟨l, hl, hf⟩ := h.fills
  have hp := (hl.pairwise_iff fun hxy => hxy.symm).1 hf.pairwise
  exact fun u hu g hg => (pairwise_append.1 hp).2.2 u hu g hg

lemma used_apart : used.Pairwise fun u v => u.stop ≤ v.block.toNat ∨ v.stop ≤ u.block.toNat := by
  obtain ⟨l, hl, hf⟩ := h.fills
  have hp := (hl.pairwise_iff fun hxy => hxy.symm).1 hf.pairwise
  exact (pairwise_append.1 hp).1

lemma not_interrupted : wasInterrupted s = .ok false := by
  rw [wasInterrupted, bind_ok h.listed.freeList_eq]
  cases gs with
  | nil => rfl
  | cons g gs =>
    have := h.listed.first_ne
    rw [Bool.or_eq_false_iff] at this
    exact congrArg Except.ok this.1

lemma range_of_agrees (same : s.Same t)
    (ha : Agrees (fun b => ¬ touched s gs b) s.mem t.mem) :
    Persistent.range t = .ok (start, stop) := by
  have := h.listed.aligned
  have := h.listed.record
  have := h.listed.small
  have hspared : ∀ b, s.eeprom.start.toNat ≤ b → b < s.eeprom.start.toNat + 32 →
      ¬ touched s gs b := by
    rintro b hlo hhi (hb | ⟨q, hq, hb⟩)
    · omega
    · have := h.listed.low q hq
      have := hb.1
      omega
  have hword : ∀ j : Nat, j < 8 → t.mem.peekWord (s.eeprom.start.toNat + 4 * j) =
      s.mem.peekWord (s.eeprom.start.toNat + 4 * j) := fun j hj =>
    ha.peekWord _ fun i hi => hspared _ (by omega) (by omega)
  have hr := h.range
  rw [Persistent.range, bind_ok (h.listed.record_eq (j := 2) rfl (by omega)),
    bind_ok (h.listed.record_eq (j := 4) rfl (by omega))] at hr
  have hrecord : ∀ {index : Int32} {j : Nat}, index.toInt = j → j < 8 →
      record .eeprom index t = .ok (s.mem.peekWord (s.eeprom.start.toNat + 4 * j)) := by
    intro index j hi hj
    rw [← hword j hj]
    show word t.eeprom.start index t.mem = _
    rw [same.eeprom]
    exact word_eq (.lit j hi) ⟨by omega, (by rw [ha.size]; omega)⟩
  rw [Persistent.range, bind_ok (hrecord (j := 2) rfl (by omega)),
    bind_ok (hrecord (j := 4) rfl (by omega))]
  exact hr

end

lemma taken {before behind : List Gap} (h : Sound s used (before ++ g :: behind) start stop)
    (hle : size.toNat ≤ g.size.toNat) (same : s.Same t)
    (hl : Listed t (before ++ g.left size behind))
    (ha : Agrees (fun b => ¬ touched s (before ++ g :: behind) b) s.mem t.mem) :
    Sound t (⟨g.block, size⟩ :: used) (before ++ g.left size behind) start stop := by
  refine ⟨hl, h.range_of_agrees same ha, ?_⟩
  obtain ⟨l, hp, hf⟩ := h.fills
  obtain ⟨l₁, l₂, rfl⟩ := append_of_mem (hp.mem_iff.2 (show g ∈ used ++ (before ++ g :: behind)
    by simp))
  have := (h.listed.chained.inside g (by simp)).1
  have := h.listed.small
  refine ⟨_, ?_, hf.cut hle (by omega)⟩
  have hrest : (l₁ ++ l₂).Perm (used ++ (before ++ behind)) := by
    refine (perm_cons g).1 ((perm_middle.symm.trans hp).trans ?_)
    rw [← append_assoc, ← append_assoc]
    exact perm_middle
  rw [left_eq l₂, left_eq behind]
  calc (l₁ ++ ⟨g.block, size⟩ :: (g.left size [] ++ l₂)).Perm
        (⟨g.block, size⟩ :: (l₁ ++ (g.left size [] ++ l₂))) := perm_middle
    _ |>.Perm (⟨g.block, size⟩ :: (g.left size [] ++ (l₁ ++ l₂))) := by
        refine Perm.cons _ ?_
        rw [← append_assoc, ← append_assoc]
        exact perm_append_comm.append_right l₂
    _ |>.Perm (⟨g.block, size⟩ :: (g.left size [] ++ (used ++ (before ++ behind)))) :=
        .cons _ (hrest.append_left _)
    _ |>.Perm (⟨g.block, size⟩ :: (used ++ (before ++ (g.left size [] ++ behind)))) := by
        refine Perm.cons _ ?_
        rw [← append_assoc, ← append_assoc, ← append_assoc, ← append_assoc]
        refine Perm.append_right behind ?_
        rw [append_assoc]
        exact perm_append_comm

end Sound

/-! ### Requests -/

lemma Request.toNat_size (hr : r.Proper) : r.size.toUInt32.toNat = r.size :=
  toNat_ofNat_of_lt' (by
    have := hr.2
    rw [Request.size]
    show _ < 4294967296
    omega)

/-- What a request comes to: the lowest gap that has room gives the block and free memory shrinks
by the size, or no gap has room, the answer is zero and nothing happens. -/
structure Answered (s : Store) (used gs : List Gap) (start stop : UInt32) (r : Request)
    (block : UInt32) (t : Store) : Prop where
  zero_iff : block = 0 ↔ ∀ g ∈ gs, g.size.toNat < r.size
  unchanged : block = 0 → t = s
  lowest : block ≠ 0 → ∃ g ∈ gs, g.block = block ∧ r.size ≤ g.size.toNat ∧
    ∀ q ∈ gs, q.block < block → q.size.toNat < r.size
  cleared : block ≠ 0 → r.clear = true →
    ∀ b, block.toNat ≤ b → b < block.toNat + r.size → t.mem.peek b = 0
  sound : ∃ left, Sound t (handed [r] [block] ++ used) left start stop
  free : ∃ before after : UInt32, freeMemory s = .ok before ∧ freeMemory t = .ok after ∧
    after.toNat + (if block = 0 then 0 else r.size) = before.toNat

lemma Sound.take_ends (h : Sound s used gs start stop) (hr : r.Proper) :
    Ends (take r.bytes r.clear) s (Answered s used gs start stop r) := by
  have := hr.2
  obtain ⟨size, hsize, hend⟩ := h.listed.take_ends r.bytes r.clear (by omega)
  have hsize : size.toNat = r.size := hsize
  obtain ⟨free, hfree, hfn⟩ := h.listed.freeMemory_eq
  refine hend.mono fun block t ht => ?_
  cases ht with
  | refused short =>
    rw [hsize] at short
    exact {
      zero_iff := ⟨fun _ => short, fun _ => rfl⟩
      unchanged := fun _ => rfl
      lowest := fun h0 => absurd rfl h0
      cleared := fun h0 => absurd rfl h0
      sound := ⟨gs, h⟩
      free := ⟨free, free, hfree, hfree, rfl⟩ }
  | @taken before behind g t split short fits same listed agrees cleared =>
    subst split
    have hmem : g ∈ before ++ g :: behind := by simp
    have hlow := h.listed.low g hmem
    have hne : g.block ≠ 0 := by
      intro h0
      rw [h0, UInt32.toNat_zero] at hlow
      omega
    obtain ⟨left, hleft, hln⟩ := listed.freeMemory_eq
    have hword : size = r.size.toUInt32 := UInt32.toNat_inj.1 (by rw [hsize, r.toNat_size hr])
    rw [hsize] at fits short cleared
    exact {
      zero_iff := ⟨fun h0 => absurd h0 hne, fun hall => absurd (hall g hmem) (by omega)⟩
      unchanged := fun h0 => absurd h0 hne
      lowest := by
        refine fun _ => ⟨g, hmem, rfl, fits, fun q hq hlt => ?_⟩
        rcases mem_append.1 hq with hq | hq
        · exact short q hq
        -- the gaps behind the one that is taken from are not lower
        have := lt_iff_toNat_lt.1 hlt
        rcases mem_cons.1 hq with rfl | hq
        · omega
        · have hstop := h.listed.chained.suffix.2.1 q hq
          rw [Gap.stop] at hstop
          omega
      cleared := fun _ hc => cleared hc
      sound := by
        refine ⟨before ++ g.left size behind, ?_⟩
        rw [handed, if_neg hne, ← hword]
        exact h.taken (by omega) same listed agrees
      free := by
        refine ⟨free, left, hfree, hleft, ?_⟩
        have := total_left behind (show size.toNat ≤ g.size.toNat by omega)
        rw [total_append] at hfn hln
        rw [if_neg hne]
        omega }

lemma Sound.serve_ends : (rs : List Request) → (∀ r ∈ rs, r.Proper) → {s : Store} →
    {used gs : List Gap} → Sound s used gs start stop →
    Ends (serve rs) s fun blocks t => ∃ left, Sound t (handed rs blocks ++ used) left start stop
  | [], _, s, used, gs, h => .pure ⟨gs, h⟩
  | r :: rs, hrs, s, used, gs, h => by
    refine .bind (h.take_ends (hrs r (mem_cons_self ..))) fun block t ht => ?_
    obtain ⟨left, hleft⟩ := ht.sound
    refine .bind (serve_ends rs (fun q hq => hrs q (mem_cons_of_mem _ hq)) hleft)
      fun blocks u hu => .pure ?_
    obtain ⟨last, hlast⟩ := hu
    refine ⟨last, hlast.perm ?_⟩
    rw [← append_assoc]
    refine Perm.append_right used ?_
    rw [handed, handed]
    split
    · simp [handed]
    · exact perm_append_comm

/-! ### The start -/

/-- A segment that can hold its record and a list of free memory. -/
structure Attachable (s : Store) : Prop where
  aligned : s.eeprom.start.toNat % 4 = 0
  size_aligned : s.eeprom.size.toNat % 4 = 0
  room : 64 < s.eeprom.size.toNat
  inside : s.stopOf .eeprom ≤ s.mem.size
  small : s.mem.size ≤ 16777216

lemma Attachable.setRecord_ends (h : Attachable s) {index : Int32} {j : Nat} {v : UInt32}
    (hi : index.toInt = j) (hj : j < 16)
    (hp : post () (s.setMem (s.mem.pokeWord (s.eeprom.start.toNat + 4 * j) v))) :
    Ends (setRecord .eeprom index v) s post := by
  have := h.aligned
  have := h.room
  have : s.eeprom.start.toNat + s.eeprom.size.toNat ≤ s.mem.size := h.inside
  have := h.small
  have hpt : Points s.eeprom.start index (s.eeprom.start.toNat + 4 * j) :=
    .lit j hi (by omega)
  exact .get_bind (.edit (setWord_eq hpt (by omega)) hp)

lemma Attachable.setMem (h : Attachable s) {m : Memory} (hm : m.size = s.mem.size) :
    Attachable (s.setMem m) where
  __ := h
  inside := by
    show _ ≤ m.size
    rw [hm]
    exact h.inside
  small := by
    show m.size ≤ _
    rw [hm]
    exact h.small

lemma Attachable.records_ends (h : Attachable s) {rest : Run Unit}
    (hrest : ∀ m, m.size = s.mem.size → m.order = s.mem.order →
      (∀ b, b < s.eeprom.start.toNat ∨ s.eeprom.start.toNat + 20 ≤ b → m.peek b = s.mem.peek b) →
      m.peekWord (s.eeprom.start.toNat + 8) = start →
      m.peekWord (s.eeprom.start.toNat + 16) = stop → Ends rest (s.setMem m) post) :
    Ends (do
      setRecord .eeprom objectStart start
      setRecord .eeprom objectSize (stop - start)
      setRecord .eeprom partitionStart start
      setRecord .eeprom partitionFree start
      setRecord .eeprom partitionEnd stop
      rest) s post := by
  have := h.room
  have : s.eeprom.start.toNat + s.eeprom.size.toNat ≤ s.mem.size := h.inside
  have poke : ∀ {u : Store} {index : Int32} {j : Nat} {v : UInt32} {f : Unit → Run Unit},
      Attachable u → index.toInt = j → j < 16 →
      Ends (f ()) (u.setMem (u.mem.pokeWord (u.eeprom.start.toNat + 4 * j) v)) post →
      Ends (setRecord .eeprom index v >>= f) u post := by
    intro u index j v f hu hi hj hf
    exact .next (hu.setRecord_ends hi hj hf)
  refine poke (j := 0) h rfl (by omega) (poke (j := 1) (h.setMem ?_) rfl (by omega) (poke (j := 2)
    (h.setMem ?_) rfl (by omega) (poke (j := 3) (h.setMem ?_) rfl (by omega) (poke (j := 4)
    (h.setMem ?_) rfl (by omega) (hrest _ ?_ ?_ ?_ ?_ ?_)))))
  all_goals simp only [setMem_mem, setMem_eeprom, size_pokeWord,
    order_pokeWord]
  · intro b hb
    iterate 5 rw [peek_pokeWord_ne _ (by omega)]
  · rw [peekWord_pokeWord_apart _ (by omega), peekWord_pokeWord_apart _ (by omega),
      peekWord_pokeWord_self _ (by simp only [size_pokeWord]; omega)]
  · rw [peekWord_pokeWord_self _ (by simp only [size_pokeWord]; omega)]

lemma Attachable.attach_ends (h : Attachable s) :
    Ends attach s fun _ t => ∃ start stop : UInt32,
      start.toNat = s.eeprom.start.toNat + 64 ∧ stop.toNat = s.stopOf .eeprom ∧
      s.Same t ∧ Sound t [] [⟨start, stop - start⟩] start stop := by
  have h4 := h.aligned
  have := h.size_aligned
  have := h.room
  have : s.eeprom.start.toNat + s.eeprom.size.toNat ≤ s.mem.size := h.inside
  have := h.small
  have h64 : bytes.toNat = 64 := rfl
  generalize hstart : s.eeprom.start + SegmentRecord.bytes = start
  generalize hstop : s.eeprom.start + s.eeprom.size = stop
  have hsn : start.toNat = s.eeprom.start.toNat + 64 := by
    rw [← hstart, toNat_plus (by omega), h64]
  have hen : stop.toNat = s.eeprom.start.toNat + s.eeprom.size.toNat := by
    rw [← hstop, toNat_plus (by omega)]
  have := toNat_minus (a := stop) (b := start) (by omega)
  unfold attach
  refine .get_bind (.except_bind (a := start) ?_ (.except_bind (a := stop) ?_ ?_))
  · rw [Region.heapStart, plus_eq (by omega), hstart]
  · rw [Region.stop, plus_eq (by omega), hstop]
  rw [if_neg fun hle => by
    have := le_iff_toNat_le.1 hle
    omega]
  refine h.records_ends fun m hm ho hpeek hw2 hw4 => ?_
  refine .edit_bind (zeroBytes_eq (show _ ≤ m.size by omega)) ?_
  have hzero : Agrees (fun b => b < start.toNat) m
      (m.pokeZeros start.toNat (stop - start).toNat) := by
    refine ⟨size_pokeZeros _, order_pokeZeros _, fun b hb => ?_⟩
    rw [peek_pokeZeros _ (by omega), if_neg (by omega)]
  obtain ⟨n, hn, hw, ha⟩ := initFree_eq (m := m.pokeZeros start.toNat (stop - start).toNat)
    start (stop - start) 0 (by omega) (by omega) (by omega)
    (by rw [size_pokeZeros]; omega) (by rw [size_pokeZeros]; omega) (by decide)
  refine .edit_bind hn ?_
  have hnm : Agrees (fun b => b < start.toNat) m n :=
    hzero.trans (ha.mono fun b hb => .inl hb)
  have := hnm.size
  refine .next ((h.setMem (by omega)).setRecord_ends (j := 8) rfl (by omega) ?_)
  show Ends _ (s.setMem (n.pokeWord (s.eeprom.start.toNat + 4 * 8) start)) _
  refine .say fun log => ⟨start, stop, hsn, hen, ⟨rfl, rfl, rfl, rfl, rfl, rfl⟩, ?_⟩
  have hfinal : Agrees (fun b => b < s.eeprom.start.toNat + 32 ∨
      s.eeprom.start.toNat + 36 ≤ b) n (n.pokeWord (s.eeprom.start.toNat + 4 * 8) start) :=
    (Agrees.refl n).pokeWord fun b hb => by omega
  generalize hf : n.pokeWord (s.eeprom.start.toNat + 4 * 8) start = f at hfinal
  have := hfinal.size
  have hlisted : Listed (s.setMem f) [⟨start, stop - start⟩] := {
    aligned := h4
    record := by
      show s.eeprom.start.toNat + 64 ≤ f.size
      omega
    small := by
      show f.size ≤ _
      omega
    root := by
      rw [← hf]
      exact peekWord_pokeWord_self _ (by omega)
    chained := by
      refine ⟨hw.agrees hfinal fun b hb => .inr ?_, fun q hq => (by cases hq), trivial⟩
      have : start.toNat ≤ b := hb.1
      omega
    low := by
      intro q hq
      rw [mem_singleton.1 hq]
      show s.eeprom.start.toNat + 64 ≤ start.toNat
      omega
    high := by
      intro q hq
      rw [mem_singleton.1 hq]
      show start.toNat + (stop - start).toNat ≤ s.eeprom.start.toNat + s.eeprom.size.toNat
      omega }
  refine ⟨hlisted.setLog log, ?_, [⟨start, stop - start⟩], .refl _, rfl, ?_⟩
  · have hword : ∀ j : Nat, j < 8 → f.peekWord (s.eeprom.start.toNat + 4 * j) =
        m.peekWord (s.eeprom.start.toNat + 4 * j) := fun j hj => by
      rw [hfinal.peekWord _ fun i hi => .inl (by omega), hnm.peekWord _ fun i hi => by omega]
    have hl := hlisted.setLog log
    rw [Persistent.range, bind_ok (hl.record_eq (j := 2) rfl (by omega)),
      bind_ok (hl.record_eq (j := 4) rfl (by omega))]
    show Except.ok (f.peekWord (s.eeprom.start.toNat + 4 * 2),
      f.peekWord (s.eeprom.start.toNat + 4 * 4)) = _
    rw [hword 2 (by omega), hword 4 (by omega), hw2, hw4]
  · show start.toNat + (stop - start).toNat = stop.toNat
    omega

/-- After any requests the free blocks lie in ascending order, they and what was handed out fill
the segment behind its record without overlap, and the next request is answered from the lowest
block that has room. -/
theorem requests_keep_free_list (h : Attachable s) {rs : List Request}
    (hrs : ∀ r ∈ rs, r.Proper) :
    Ends (do attach; serve rs) s fun blocks t => ∃ gs start stop,
      start.toNat = s.eeprom.start.toNat + 64 ∧ stop.toNat = s.stopOf .eeprom ∧
      Sound t (handed rs blocks) gs start stop ∧
      (gs.Pairwise fun g h => g.block < h.block ∧ g.stop ≤ h.block.toNat) ∧
      ((handed rs blocks).Pairwise fun u v => u.stop ≤ v.block.toNat ∨ v.stop ≤ u.block.toNat) ∧
      (∀ u ∈ handed rs blocks, ∀ g ∈ gs, u.stop ≤ g.block.toNat ∨ g.stop ≤ u.block.toNat) ∧
      freeList t = .ok ((first gs).getD noFreeMemory) ∧ wasInterrupted t = .ok false ∧
      ∀ r : Request, r.Proper →
        Ends (take r.bytes r.clear) t (Answered t (handed rs blocks) gs start stop r) := by
  refine .bind h.attach_ends fun _ t ht => ?_
  obtain ⟨start, stop, hstart, hstop, -, hsound⟩ := ht
  refine (hsound.serve_ends rs hrs).mono fun blocks u hu => ?_
  obtain ⟨gs, hgs⟩ := hu
  rw [List.append_nil] at hgs
  refine ⟨gs, start, stop, hstart, hstop, hgs, ?_, hgs.used_apart, hgs.apart,
    hgs.listed.freeList_eq, hgs.not_interrupted, fun r hr => hgs.take_ends hr⟩
  refine hgs.listed.chained.pairwise.imp_of_mem fun {g q} hg _ hle => ⟨?_, hle⟩
  have := (hgs.listed.chained.inside g hg).2
  rw [Gap.stop] at hle
  exact UInt32.lt_iff_toNat_lt.mpr (by omega)

def blankStore : Store where
  mem := .blank 512 .big
  rom := { start := 0, size := 64 }
  eeprom := { start := 64, size := 192 }
  ram := { start := 256, size := 256 }
  kind := .copying
  eager := false
  exactChunks := false
  trace := ⟨0⟩

lemma blankStore_attachable : Attachable blankStore := by
  have hsize : blankStore.mem.size = 512 := Array.size_replicate
  constructor
  case inside =>
    rw [hsize]
    decide
  case small =>
    rw [hsize]
    decide
  all_goals decide

/-- The second request does not fit, the others do. -/
theorem requests_keep_free_list_blank :
    Ends (do attach; serve [⟨10, true⟩, ⟨200, false⟩, ⟨8, false⟩]) blankStore fun blocks t =>
      ∃ gs start stop, Sound t (handed [⟨10, true⟩, ⟨200, false⟩, ⟨8, false⟩] blocks) gs start
        stop := by
  refine (requests_keep_free_list blankStore_attachable ?_).mono ?_
  · intro r hr
    simp only [List.mem_cons, List.not_mem_nil, or_false] at hr
    rcases hr with rfl | rfl | rfl <;> exact ⟨by decide, by decide⟩
  · rintro blocks t ⟨gs, start, stop, -, -, h, -⟩
    exact ⟨gs, start, stop, h⟩

end DeviceVm.Persistent
