import DeviceVm.Collection.Persistent.FreeList
import DeviceVm.Proofs.Allocation
import DeviceVm.Proofs.Outcome

/-!
The list of free blocks in persistent memory. `Listed` says that the blocks of a list of gaps lie
behind each other in the segment and are linked in this order. A block that is taken comes out of
one gap, and what is left of the gaps is listed again.
-/

namespace DeviceVm

open Read Block List Memory UInt32

namespace Word

lemma toNat_above {d k : UInt32} (hd : d.toNat < 536870912) (hk : k.toNat < 8) :
    (d <<< 3 ||| k).toNat = 8 * d.toNat + k.toNat := by
  have hs : (d <<< 3).toNat = d.toNat * 2 ^ 3 := by
    show d.toNat <<< 3 % 4294967296 = _
    omega
  rw [UInt32.toNat_or, hs, Nat.mul_comm d.toNat]
  exact (Nat.two_pow_add_eq_or_of_lt hk d.toNat).symm

lemma toNat_below (w : UInt32) : (w &&& 7).toNat = w.toNat % 8 := by
  exact Nat.and_two_pow_sub_one_eq_mod w.toNat 3

lemma toNat_shiftRight_three (w : UInt32) : (w >>> 3).toNat = w.toNat / 8 := by
  exact Nat.shiftRight_eq_div_pow w.toNat 3

end Word

namespace Store

/-- The segments follow one another. -/
structure Ordered (s : Store) : Prop where
  rom : s.rom.start.toNat + s.rom.size.toNat ≤ s.eeprom.start.toNat
  eeprom : s.eeprom.start.toNat + s.eeprom.size.toNat ≤ s.ram.start.toNat
  ram : s.ram.start.toNat + s.ram.size.toNat < 4294967296

lemma Ordered.same {s t : Store} (h : s.Ordered) (ht : s.Same t) : t.Ordered := by
  constructor
  · rw [ht.rom, ht.eeprom]
    exact h.rom
  · rw [ht.eeprom, ht.ram]
    exact h.eeprom
  · rw [ht.ram]
    exact h.ram

def stopOf (s : Store) (seg : Segment) : Nat :=
  (s.region seg).start.toNat + (s.region seg).size.toNat

end Store

namespace Persistent

open Store Word

/-- A block of the list of free memory, with its size in bytes. -/
structure Gap where
  block : UInt32
  size : UInt32

namespace Gap

def stop (g : Gap) : Nat := g.block.toNat + g.size.toNat

/-- The low bits of the first word: whether the size is in the second one. -/
def mark (g : Gap) : UInt32 := if 4 < g.size.toNat then 7 else 3

/-- A block of four bytes has one word, every other one two. -/
def head (g : Gap) : Nat := if 4 < g.size.toNat then 8 else 4

/-- The block is in memory: the distance to the next one, with a mark that tells small blocks from
others, and the size. -/
structure Written (m : Memory) (g : Gap) (distance : Nat) : Prop where
  block_aligned : g.block.toNat % 4 = 0
  size_aligned : g.size.toNat % 4 = 0
  size_pos : 4 ≤ g.size.toNat
  inside : g.stop ≤ m.size
  head : (m.peekWord g.block.toNat).toNat = 8 * distance + g.mark.toNat
  size : 4 < g.size.toNat → m.peekWord (g.block.toNat + 4) = g.size

/-- How far the next block is, or zero. -/
def distance (g : Gap) : List Gap → Nat
  | [] => 0
  | h :: _ => h.block.toNat - g.block.toNat

def total : List Gap → Nat
  | [] => 0
  | g :: gs => g.size.toNat + total gs

lemma total_cons (g : Gap) (gs : List Gap) : total (g :: gs) = g.size.toNat + total gs := rfl

lemma total_append (gs hs : List Gap) : total (gs ++ hs) = total gs + total hs := by
  induction gs with
  | nil => exact (Nat.zero_add _).symm
  | cons g gs ih => rw [cons_append, total_cons, total_cons, ih, Nat.add_assoc]

def covers (g : Gap) (b : Nat) : Prop := g.block.toNat ≤ b ∧ b < g.stop

variable {m n : Memory} {g : Gap} {d : Nat}

lemma head_le (h4 : g.size.toNat % 4 = 0) (hpos : 4 ≤ g.size.toNat) : g.head ≤ g.size.toNat := by
  unfold head
  split <;> omega

lemma mark_cases (g : Gap) : g.mark.toNat = 3 ∨ g.mark.toNat = 7 := by
  unfold mark
  split
  · exact .inr rfl
  · exact .inl rfl

namespace Written

lemma agrees {fixed : Nat → Prop} (h : g.Written m d) (ha : Agrees fixed m n)
    (hf : ∀ b, g.covers b → fixed b) : g.Written n d where
  __ := h
  inside := by
    rw [ha.size]
    exact h.inside
  head := by
    have := h.size_pos
    rw [ha.peekWord _ fun i hi => hf _ ⟨by omega, by rw [stop]; omega⟩]
    exact h.head
  size := by
    intro hs
    have := h.size_aligned
    rw [ha.peekWord _ fun i hi => hf _ ⟨by omega, by rw [stop]; omega⟩]
    exact h.size hs

lemma wordAt_eq (h : g.Written m d) :
    wordAt g.block m = .ok (m.peekWord g.block.toNat) := by
  have := h.inside
  have := h.size_pos
  rw [stop] at *
  exact Memory.wordAt_eq h.block_aligned (by omega)

lemma freeSize_eq (h : g.Written m d) (hm : m.size ≤ 16777216) :
    freeSize g.block m = .ok g.size := by
  have hin := h.inside
  have := h.size_pos
  have h4 := toNat_four
  rw [stop] at hin
  have hhead := h.head
  rw [freeSize, bind_ok h.wordAt_eq]
  generalize m.peekWord g.block.toNat = head at hhead
  have := g.mark_cases
  rw [HeaderTag.ofWord_free (by omega), lift_ok (e := require _) rfl]
  have hbit : (head &&& 4 != 0) = decide (4 < g.size.toNat) := by
    have hand : (head &&& 4).toNat = head.toNat / 4 % 2 * 4 := by
      show head.toNat &&& 2 ^ 2 = _
      rw [Nat.and_two_pow, Nat.toNat_testBit]
      omega
    rw [bne, show (head &&& 4 == 0) = decide ((head &&& 4).toNat = 0) from ?_, hand, hhead, mark]
    · by_cases hs : 4 < g.size.toNat
      · rw [if_pos hs, decide_eq_true hs]
        have : (7 : UInt32).toNat = 7 := rfl
        rw [decide_eq_false (by omega)]
        rfl
      · rw [if_neg hs, decide_eq_false hs]
        have : (3 : UInt32).toNat = 3 := rfl
        rw [decide_eq_true (by omega)]
        rfl
    · rw [Bool.eq_iff_iff, beq_iff_eq, decide_eq_true_eq, ← UInt32.toNat_inj]
      rfl
  rw [hbit]
  by_cases hs : 4 < g.size.toNat
  · have hsum := toNat_plus (a := g.block) (b := 4) (by omega)
    rw [if_pos (decide_eq_true hs), Read.lift_ok (plus_eq (by omega)),
      Memory.wordAt_eq (by have := h.block_aligned; omega)
        (by have := h.size_aligned; omega), hsum, h4, h.size hs]
  · rw [if_neg (by rw [decide_eq_true_eq]; exact hs)]
    have := UInt32.toNat_inj.1 (show (4 : UInt32).toNat = g.size.toNat by omega)
    exact congrArg Except.ok this

lemma freeDistance_eq (h : g.Written m d) :
    ∃ distance, freeDistance g.block m = .ok distance ∧ distance.toNat = d := by
  have := g.mark_cases
  refine ⟨m.peekWord g.block.toNat >>> 3, bind_ok h.wordAt_eq, ?_⟩
  rw [toNat_shiftRight_three, h.head]
  omega

end Written

end Gap

/-- The blocks lie one after the other and each one leads to the next. -/
def Chained (m : Memory) : List Gap → Prop
  | [] => True
  | g :: gs => g.Written m (g.distance gs) ∧ (∀ h ∈ gs, g.stop ≤ h.block.toNat) ∧ Chained m gs

def first (gs : List Gap) : Option UInt32 := gs.head?.map Gap.block

variable {m n : Memory} {g : Gap} {gs : List Gap} {s t : Store}

namespace Chained

lemma agrees {fixed : Nat → Prop} (ha : Agrees fixed m n) :
    {gs : List Gap} → Chained m gs → (∀ g ∈ gs, ∀ b, g.covers b → fixed b) → Chained n gs
  | [], _, _ => trivial
  | g :: _, h, hf =>
    ⟨h.1.agrees ha (hf g (mem_cons_self ..)), h.2.1,
      agrees ha h.2.2 fun g' hg => hf g' (mem_cons_of_mem _ hg)⟩

lemma nextFree_eq (h : Chained m (g :: gs)) (hm : m.size ≤ 16777216) :
    nextFree g.block m = .ok (first gs) := by
  obtain ⟨distance, hd, hn⟩ := h.1.freeDistance_eq
  rw [nextFree, bind_ok hd]
  cases gs with
  | nil =>
    have h0 : distance = 0 := UInt32.toNat_inj.1 hn
    subst h0
    rfl
  | cons g' gs' =>
    have := h.1.size_pos
    have hin := h.2.2.1.inside
    have hle := h.2.1 g' (mem_cons_self ..)
    rw [Gap.stop] at hin hle
    rw [Gap.distance] at hn
    have hne : (distance == 0) = false := by
      rw [beq_eq_false_iff_ne]
      rintro rfl
      have := UInt32.toNat_zero
      omega
    have hsum : g.block + distance = g'.block :=
      UInt32.toNat_inj.1 (by rw [toNat_plus (by omega)]; omega)
    rw [hne, if_neg Bool.false_ne_true, lift_ok (plus_eq (by omega)), hsum]
    rfl

lemma exchange {gs' : List Gap} (hg : g.Written n (g.distance gs'))
    (hle : ∀ h ∈ gs', g.stop ≤ h.block.toNat) (hgs : Chained n gs')
    (ha : Agrees (fun b => b < g.block.toNat) m n) :
    {before : List Gap} → Chained m (before ++ g :: gs) →
      (∀ p ∈ before, ∀ h ∈ gs', p.stop ≤ h.block.toNat) → Chained n (before ++ g :: gs')
  | [], _, _ => ⟨hg, hle, hgs⟩
  | p :: before, h, hb => by
    have hp : p.stop ≤ g.block.toNat := h.2.1 g (by simp)
    refine ⟨?_, ?_, exchange hg hle hgs ha h.2.2 fun q hq => hb q (mem_cons_of_mem _ hq)⟩
    · have hd : p.distance (before ++ g :: gs') = p.distance (before ++ g :: gs) := by
        cases before <;> rfl
      show p.Written n (p.distance (before ++ g :: gs'))
      rw [hd]
      exact h.1.agrees ha fun b hb => Nat.lt_of_lt_of_le hb.2 hp
    intro q hq
    rcases mem_append.1 hq with hq | hq
    · exact h.2.1 q (mem_append_left _ hq)
    · rcases mem_cons.1 hq with rfl | hq
      · exact hp
      · exact hb p (mem_cons_self ..) q hq

lemma suffix : {before : List Gap} → Chained m (before ++ gs) → Chained m gs
  | [], h => h
  | _ :: _, h => suffix h.2.2

lemma before_le : {before : List Gap} → Chained m (before ++ gs) →
    ∀ p ∈ before, ∀ h ∈ gs, p.stop ≤ h.block.toNat
  | q :: before, h, p, hp, g, hg => by
    rcases mem_cons.1 hp with rfl | hp
    · exact h.2.1 g (mem_append_right _ hg)
    · exact before_le h.2.2 p hp g hg

lemma inside : {gs : List Gap} → Chained m gs → ∀ g ∈ gs, g.stop ≤ m.size ∧ 4 ≤ g.size.toNat
  | q :: gs, h, g, hg => by
    rcases mem_cons.1 hg with rfl | hg
    · exact ⟨h.1.inside, h.1.size_pos⟩
    · exact inside h.2.2 g hg

lemma total_le_from : {gs : List Gap} → Chained m gs → ∀ a, (∀ g ∈ gs, a ≤ g.block.toNat) →
    a ≤ m.size → a + Gap.total gs ≤ m.size
  | [], _, a, _, ha => ha
  | g :: gs, h, a, hlow, _ => by
    have hrest := total_le_from h.2.2 g.stop h.2.1 h.1.inside
    have := hlow g (mem_cons_self ..)
    rw [Gap.stop] at hrest
    rw [Gap.total_cons]
    omega

lemma total_le (h : Chained m gs) : Gap.total gs ≤ m.size := by
  have := h.total_le_from 0 (fun _ _ => Nat.zero_le _) (Nat.zero_le _)
  omega

lemma length_le_total : {gs : List Gap} → Chained m gs → gs.length ≤ Gap.total gs
  | [], _ => Nat.le_refl _
  | g :: gs, h => by
    have := length_le_total h.2.2
    have := h.1.size_pos
    rw [Gap.total_cons, length_cons]
    omega

lemma pairwise : {gs : List Gap} → Chained m gs →
    gs.Pairwise fun g h => g.stop ≤ h.block.toNat
  | [], _ => .nil
  | _ :: _, h => .cons h.2.1 (pairwise h.2.2)

end Chained

/-! ### Writing a block -/

lemma initFree_eq (block size distance : UInt32) (h4 : block.toNat % 4 = 0)
    (hs : 4 ≤ size.toNat) (hmod : size.toNat % 4 = 0)
    (hin : block.toNat + size.toNat ≤ m.size) (hm : m.size ≤ 16777216)
    (hd : distance.toNat < 536870912) :
    ∃ n, initFree block size distance m = .ok () n ∧
      Gap.Written n ⟨block, size⟩ distance.toNat ∧
        Agrees (fun b => b < block.toNat ∨ block.toNat + Gap.head ⟨block, size⟩ ≤ b) m n := by
  have four := toNat_four
  have hhead := toNat_above hd (show (3 : UInt32).toNat < 8 by decide)
  have hreq : (size ≥ 4 && size % 4 == 0) = true := by
    rw [Bool.and_eq_true, decide_eq_true_eq, beq_iff_eq]
    exact ⟨le_iff_toNat_le.2 hs,
      UInt32.toNat_inj.1 (by exact hmod)⟩
  unfold Block.initFree
  rw [Edit.lift_ok (by rw [hreq]; rfl)]
  by_cases hbig : size > 4
  · have := lt_iff_toNat_lt.1 hbig
    have hsum := toNat_plus (a := block) (b := 4) (by omega)
    have hor := toNat_above hd (show (7 : UInt32).toNat < 8 by decide)
    rw [show (7 : UInt32) = 3 ||| 4 from rfl, ← UInt32.or_assoc] at hor
    rw [if_pos hbig, Edit.lift_ok (plus_eq (by omega)),
      Edit.bind_ok (setWordAt_eq (by omega) (by omega)),
      setWordAt_eq h4 (by rw [size_pokeWord]; omega), hsum, four]
    refine ⟨_, rfl, ⟨h4, hmod, hs, ?_, ?_, ?_⟩, ?_⟩
    · rw [size_pokeWord, size_pokeWord]
      exact hin
    · rw [peekWord_pokeWord_self _ (by rw [size_pokeWord]; omega), Gap.mark,
        if_pos (show 4 < size.toNat by omega)]
      exact hor
    · intro _
      show ((m.pokeWord (block.toNat + 4) size).pokeWord block.toNat _).peekWord
        (block.toNat + 4) = size
      rw [peekWord_pokeWord_apart _ (by omega), peekWord_pokeWord_self _ (by omega)]
    · rw [Gap.head, if_pos (show 4 < size.toNat by omega)]
      exact ((Agrees.refl m).pokeWord fun b hb => by omega).pokeWord fun b hb => by omega
  · have hlt := mt lt_iff_toNat_lt.2 hbig
    rw [if_neg hbig, setWordAt_eq h4 (by omega)]
    refine ⟨_, rfl, ⟨h4, hmod, hs, ?_, ?_, fun hs => absurd hs hlt⟩, ?_⟩
    · rw [size_pokeWord]
      exact hin
    · rw [peekWord_pokeWord_self _ (by omega), Gap.mark,
        if_neg (show ¬ 4 < size.toNat by omega)]
      exact hhead
    · rw [Gap.head, if_neg (show ¬ 4 < size.toNat by omega)]
      exact (Agrees.refl m).pokeWord fun b hb => by omega

lemma Gap.Written.setFreeDistance_eq {d : Nat} (h : g.Written m d) (distance : UInt32)
    (hd : distance.toNat < 536870912) :
    ∃ n, setFreeDistance g.block distance m = .ok () n ∧ g.Written n distance.toNat ∧
      Agrees (fun b => b < g.block.toNat ∨ g.block.toNat + 4 ≤ b) m n := by
  have hin := h.inside
  have hpos := h.size_pos
  have := g.mark_cases
  rw [Gap.stop] at hin
  have hlow : (m.peekWord g.block.toNat &&& 7).toNat = g.mark.toNat := by
    rw [toNat_below, h.head]
    omega
  refine ⟨_, Edit.read_ok h.wordAt_eq |>.trans (setWordAt_eq h.block_aligned (by omega)),
    ⟨h.block_aligned, h.size_aligned, hpos, ?_, ?_, ?_⟩, ?_⟩
  · rw [size_pokeWord]
    exact h.inside
  · rw [peekWord_pokeWord_self _ (by omega), toNat_above hd (by omega), hlow]
  · intro hs
    rw [peekWord_pokeWord_apart _ (by omega)]
    exact h.size hs
  · exact (Agrees.refl m).pokeWord fun b hb => hb

/-! ### Taking a block -/

/-- The list of free memory is `gs`. It begins at the first persistent root and stays behind the
record of the segment. -/
structure Listed (s : Store) (gs : List Gap) : Prop where
  aligned : s.eeprom.start.toNat % 4 = 0
  record : s.eeprom.start.toNat + 64 ≤ s.mem.size
  small : s.mem.size ≤ 16777216
  root : s.mem.peekWord (s.eeprom.start.toNat + 32) = (first gs).getD noFreeMemory
  chained : Chained s.mem gs
  low : ∀ g ∈ gs, s.eeprom.start.toNat + 64 ≤ g.block.toNat
  high : ∀ g ∈ gs, g.stop ≤ s.stopOf .eeprom

/-- The byte is the start of the list or in one of its blocks. -/
def touched (s : Store) (gs : List Gap) (b : Nat) : Prop :=
  (s.eeprom.start.toNat + 32 ≤ b ∧ b < s.eeprom.start.toNat + 36) ∨ ∃ g ∈ gs, g.covers b

lemma Listed.agrees (h : Listed s gs) (ht : s.Same t) {fixed : Nat → Prop}
    (ha : Agrees fixed s.mem t.mem) (hf : ∀ b, touched s gs b → fixed b) : Listed t gs where
  aligned := by
    rw [ht.eeprom]
    exact h.aligned
  record := by
    rw [ht.eeprom, ha.size]
    exact h.record
  small := by
    rw [ha.size]
    exact h.small
  root := by
    rw [ht.eeprom, ha.peekWord _ fun i hi => hf _ (.inl ⟨by omega, by omega⟩)]
    exact h.root
  chained := h.chained.agrees ha fun g hg b hb => hf b (.inr ⟨g, hg, hb⟩)
  low g hg := by
    rw [ht.eeprom]
    exact h.low g hg
  high g hg := by
    have : t.stopOf .eeprom = s.stopOf .eeprom := by
      show t.eeprom.start.toNat + t.eeprom.size.toNat = _
      rw [ht.eeprom]
      rfl
    rw [this]
    exact h.high g hg

/-- The gaps from one on, when `size` bytes are taken from it. -/
def Gap.left (g : Gap) (size : UInt32) (gs : List Gap) : List Gap :=
  if size = g.size then gs else ⟨g.block + size, g.size - size⟩ :: gs

lemma Gap.mem_left {q : Gap} {size : UInt32} (h : q ∈ g.left size gs) :
    q = ⟨g.block + size, g.size - size⟩ ∨ q ∈ gs := by
  rw [Gap.left] at h
  split at h
  · exact .inr h
  · exact mem_cons.1 h

def last (before : List Gap) : Option UInt32 := before.getLast?.map Gap.block

namespace Listed

variable {before gs' : List Gap} {size : UInt32}

lemma points (h : Listed s gs) :
    Points s.eeprom.start (SegmentRecord.roots + Root.freeList) (s.eeprom.start.toNat + 32) := by
  have := h.record
  have := h.small
  exact .lit 8 rfl ⟨by decide, by omega, by omega⟩

lemma freeList_eq (h : Listed s gs) : freeList s = .ok ((first gs).getD noFreeMemory) := by
  have := h.aligned
  have := h.record
  rw [← h.root]
  exact word_eq h.points (by omega)

lemma record_eq (h : Listed s gs) {index : Int32} {j : Nat} (hi : index.toInt = j)
    (hj : j < 16) :
    Store.record .eeprom index s = .ok (s.mem.peekWord (s.eeprom.start.toNat + 4 * j)) := by
  have := h.aligned
  have := h.record
  have := h.small
  have hp : Points s.eeprom.start index (s.eeprom.start.toNat + 4 * j) :=
    .lit j hi (by omega)
  exact word_eq hp (by omega)

lemma first_ne (h : Listed s (g :: gs)) :
    (g.block == 0 || g.block == noFreeMemory) = false := by
  have hlow := h.low g (mem_cons_self ..)
  have hin := (h.chained.inside g (mem_cons_self ..)).1
  have := h.small
  rw [Gap.stop] at hin
  rw [Bool.or_eq_false_iff, beq_eq_false_iff_ne, beq_eq_false_iff_ne]
  constructor
  · rintro h0
    rw [h0, UInt32.toNat_zero] at hlow
    omega
  · rintro h0
    rw [h0, show noFreeMemory.toNat = 4294967295 from rfl] at hin
    omega

lemma setLog (h : Listed s gs) (log : Log) : Listed (s.setLog log) gs :=
  ⟨h.aligned, h.record, h.small, h.root, h.chained, h.low, h.high⟩

lemma link_ends (h : Listed s (before ++ g :: gs)) (hgs : Chained n gs')
    (ha : Agrees (fun b => b < g.block.toNat ∨ g.stop ≤ b) s.mem n)
    (hin : ∀ h ∈ gs', g.block.toNat ≤ h.block.toNat ∧ h.stop ≤ s.stopOf .eeprom) :
    Ends (match last before with
      | none => setFreeList ((first gs').getD noFreeMemory)
      | some previous => do
        let distance ← match first gs' with
          | none => pure 0
          | some replacement => minus replacement previous
        setFreeDistance previous distance : Run Unit) (s.setMem n) fun _ t =>
      s.Same t ∧ Listed t (before ++ gs') ∧
        Agrees (fun b => ¬ touched s (before ++ g :: gs) b) n t.mem := by
  have h4 := h.aligned
  have := h.record
  have := h.small
  have := ha.size
  have := h.low g (by simp)
  rcases eq_nil_or_concat before with rfl | ⟨before, p, rfl⟩
  · have hpoke : Agrees (fun b => b < s.eeprom.start.toNat + 32 ∨
        s.eeprom.start.toNat + 36 ≤ b) n
        (n.pokeWord (s.eeprom.start.toNat + 32) ((first gs').getD noFreeMemory)) :=
      (Agrees.refl n).pokeWord fun b hb => by omega
    refine .get_bind (.edit (setWord_eq h.points ⟨by omega, (by
      show _ ≤ n.size
      omega)⟩) ⟨⟨rfl, rfl, rfl, rfl, rfl, rfl⟩, ⟨h4, ?_, ?_, ?_, ?_, ?_, ?_⟩, ?_⟩)
    · show s.eeprom.start.toNat + 64 ≤ (n.pokeWord _ _).size
      rw [size_pokeWord]
      omega
    · show (n.pokeWord _ _).size ≤ _
      rw [size_pokeWord]
      omega
    · exact peekWord_pokeWord_self _ (by
        show _ ≤ n.size
        omega)
    · refine hgs.agrees hpoke fun q hq b hb => .inr ?_
      have := (hin q hq).1
      have := hb.1
      omega
    · intro q hq
      show s.eeprom.start.toNat + 64 ≤ _
      have := (hin q hq).1
      omega
    · exact fun q hq => (hin q hq).2
    · refine hpoke.mono fun b hb => ?_
      by_contra hcon
      exact hb (.inl (by omega))
  have hmem : p ∈ before.concat p ++ g :: gs := by simp
  have hcat : ∀ l, before.concat p ++ l = before ++ p :: l := fun l => by simp
  have hlast : last (before.concat p) = some p.block := by simp [last]
  have hch : Chained s.mem (before ++ p :: g :: gs) := hcat _ ▸ h.chained
  have hp := h.low p hmem
  have hpg : p.stop ≤ g.block.toNat := hch.suffix.2.1 g (by simp)
  have := (hch.inside p (by simp)).2
  have hpw : p.Written n (p.distance (g :: gs)) :=
    hch.suffix.1.agrees ha fun b hb => .inl (Nat.lt_of_lt_of_le hb.2 hpg)
  rw [hlast, hcat]
  rw [Gap.stop] at hpg
  have link : ∀ distance : UInt32, distance.toNat = p.distance gs' →
      Ends (setFreeDistance p.block distance : Run Unit) (s.setMem n) fun _ t =>
        s.Same t ∧ Listed t (before ++ p :: gs') ∧
          Agrees (fun b => ¬ touched s (before.concat p ++ g :: gs) b) n t.mem := by
    intro distance hd
    have : p.distance gs' < 536870912 := by
      cases gs' with
      | nil => exact Nat.zero_lt_succ _
      | cons q gs' =>
        have hq := hgs.1.inside
        rw [Gap.stop] at hq
        rw [Gap.distance]
        omega
    obtain ⟨o, ho, hw, hpo⟩ := hpw.setFreeDistance_eq distance (by omega)
    have := hpo.size
    have hall : Agrees (fun b => b < p.block.toNat) s.mem o :=
      (ha.mono fun b hb => .inl (by omega)).trans (hpo.mono fun b hb => .inl hb)
    have hgso : Chained o gs' := hgs.agrees hpo fun q hq b hb => .inr (by
      have := (hin q hq).1
      have := hb.1
      omega)
    refine .edit ho ⟨⟨rfl, rfl, rfl, rfl, rfl, rfl⟩, ⟨h4, ?_, ?_, ?_, ?_, ?_, ?_⟩, ?_⟩
    · show s.eeprom.start.toNat + 64 ≤ o.size
      omega
    · show o.size ≤ _
      omega
    · show o.peekWord (s.eeprom.start.toNat + 32) = _
      rw [hall.peekWord _ fun i hi => by omega, h.root, hcat]
      cases before <;> rfl
    · refine Chained.exchange (hd ▸ hw) ?_ hgso hall (show Chained _ (_ ++ _ :: (g :: gs)) from hch)
        ?_
      · intro q hq
        have := (hin q hq).1
        rw [Gap.stop]
        omega
      · intro r hr q hq
        have := (hin q hq).1
        have := hch.before_le r hr g (by simp)
        omega
    · intro q hq
      show s.eeprom.start.toNat + 64 ≤ _
      rcases mem_append.1 hq with hq | hq
      · exact h.low q (by simp [hq])
      · rcases mem_cons.1 hq with rfl | hq
        · exact hp
        · have := (hin q hq).1
          omega
    · intro q hq
      rcases mem_append.1 hq with hq | hq
      · exact h.high q (by simp [hq])
      · rcases mem_cons.1 hq with rfl | hq
        · exact h.high q hmem
        · exact (hin q hq).2
    · refine hpo.mono fun b hb => ?_
      by_contra hcon
      refine hb (.inr ⟨p, hmem, ?_, ?_⟩)
      · omega
      · rw [Gap.stop]
        omega
  cases gs' with
  | nil => exact link 0 rfl
  | cons q gs' =>
    have := (hin q (by simp)).1
    have hle : p.block.toNat ≤ q.block.toNat := by omega
    have hd := toNat_minus hle
    exact .except_bind (minus_eq hle) (link _ hd)

lemma carve_ends (h : Listed s (before ++ g :: gs)) (h4 : size.toNat % 4 = 0)
    (hle : size.toNat ≤ g.size.toNat) :
    Ends (carve (last before) g.block g.size (first gs) size) s fun _ t =>
      s.Same t ∧ Listed t (before ++ g.left size gs) ∧
        Agrees (fun b => ¬ touched s (before ++ g :: gs) b) s.mem t.mem := by
  have hsmall := h.small
  have hch := h.chained.suffix
  have hg4 := hch.1.block_aligned
  have hs4 := hch.1.size_aligned
  have hgin := hch.1.inside
  have hhigh := h.high g (by simp)
  have hlater := hch.2.1
  have hsum : (g.block + size).toNat = g.block.toNat + size.toNat := by
    rw [Gap.stop] at hgin
    exact toNat_plus (by omega)
  have hrest : ∀ q ∈ gs, q.stop ≤ s.stopOf .eeprom := fun q hq => h.high q (by simp [hq])
  -- what is common to the two cases: the gaps behind are linked and nothing else is written
  have finish : ∀ n, Chained n (g.left size gs) →
      Agrees (fun b => b < g.block.toNat + size.toNat ∨ g.stop ≤ b) s.mem n →
      Ends (match last before with
        | none => setFreeList ((first (g.left size gs)).getD noFreeMemory)
        | some previous => do
          let distance ← match first (g.left size gs) with
            | none => pure 0
            | some replacement => minus replacement previous
          setFreeDistance previous distance : Run Unit) (s.setMem n) fun _ t =>
        s.Same t ∧ Listed t (before ++ g.left size gs) ∧
          Agrees (fun b => ¬ touched s (before ++ g :: gs) b) s.mem t.mem := by
    intro n hn ha
    have hinside : ∀ q ∈ g.left size gs, g.block.toNat ≤ q.block.toNat ∧
        q.stop ≤ s.stopOf .eeprom := by
      intro q hq
      rcases Gap.mem_left hq with rfl | hq
      · refine ⟨?_, ?_⟩
        · show g.block.toNat ≤ (g.block + size).toNat
          omega
        · show (g.block + size).toNat + (g.size - size).toNat ≤ _
          rw [Gap.stop] at hhigh
          rw [toNat_minus hle]
          omega
      · have := hlater q hq
        rw [Gap.stop] at this
        exact ⟨by omega, hrest q hq⟩
    refine (h.link_ends hn (ha.mono fun b hb => by omega) hinside).mono fun _ t ht => ?_
    obtain ⟨same, hlisted, hagrees⟩ := ht
    refine ⟨same, hlisted, (ha.mono fun b hb => ?_).trans hagrees⟩
    by_contra hcon
    exact hb (.inr ⟨g, by simp, by omega, by omega⟩)
  unfold carve
  by_cases heq : size = g.size
  · have hl : g.left size gs = gs := if_pos heq
    rw [hl] at finish ⊢
    rw [beq_iff_eq.2 heq, if_pos rfl]
    exact finish s.mem hch.2.2 (.refl _)
  have : size.toNat < g.size.toNat :=
    Nat.lt_of_le_of_ne hle fun hn => heq (UInt32.toNat_inj.1 hn)
  have hl : g.left size gs = ⟨g.block + size, g.size - size⟩ :: gs := if_neg heq
  rw [hl] at finish ⊢
  rw [beq_eq_false_iff_ne.2 heq, if_neg Bool.false_ne_true]
  have := toNat_minus hle
  rw [Gap.stop] at hgin
  have init : ∀ distance : UInt32,
      distance.toNat = Gap.distance ⟨g.block + size, g.size - size⟩ gs →
      Ends (do
        initFree (g.block + size) (g.size - size) distance
        match last before with
          | none => setFreeList (g.block + size)
          | some previous => do
            let distance ← minus (g.block + size) previous
            setFreeDistance previous distance : Run Unit) s fun _ t =>
        s.Same t ∧ Listed t (before ++ ⟨g.block + size, g.size - size⟩ :: gs) ∧
          Agrees (fun b => ¬ touched s (before ++ g :: gs) b) s.mem t.mem := by
    intro distance hd
    have hdlt : distance.toNat < 536870912 := by
      rw [hd]
      cases gs with
      | nil => exact Nat.zero_lt_succ _
      | cons q gs =>
        have hq := hch.2.2.1.inside
        rw [Gap.stop] at hq
        rw [Gap.distance]
        omega
    obtain ⟨n, hok, hw, ha⟩ := initFree_eq (g.block + size) (g.size - size)
      distance (by omega) (by omega) (by omega) (by omega) hsmall hdlt
    have hhead := Gap.head_le (g := ⟨g.block + size, g.size - size⟩)
      (show (g.size - size).toNat % 4 = 0 by omega) (show 4 ≤ (g.size - size).toNat by omega)
    have ha : Agrees (fun b => b < g.block.toNat + size.toNat ∨ g.stop ≤ b) s.mem n := by
      refine ha.mono fun b hb => ?_
      have : _ ≤ (g.size - size).toNat := hhead
      rw [Gap.stop] at hb
      omega
    refine .edit_bind hok (finish n ⟨hd ▸ hw, ?_, hch.2.2.agrees ha fun q hq b hb => .inr ?_⟩ ha)
    · intro q hq
      have := hlater q hq
      rw [Gap.stop] at this ⊢
      show (g.block + size).toNat + (g.size - size).toNat ≤ _
      omega
    · exact Nat.le_trans (hlater q hq) hb.1
  refine .except_bind (plus_eq (by omega)) ?_
  cases gs with
  | nil => exact init 0 rfl
  | cons q gs =>
    have hq := hlater q (by simp)
    rw [Gap.stop] at hq
    have hle' : (g.block + size).toNat ≤ q.block.toNat := by omega
    exact .except_bind (minus_eq hle') (init _ (toNat_minus hle'))

end Listed

/-- The answer to a request for `size` bytes: the first gap that has room gives them, or none has
and nothing happens. -/
inductive Served (s : Store) (gs : List Gap) (size : UInt32) (clear : Bool) :
    UInt32 → Store → Prop
  | refused (short : ∀ g ∈ gs, g.size.toNat < size.toNat) : Served s gs size clear 0 s
  | taken {before behind : List Gap} {g : Gap} {t : Store} (split : gs = before ++ g :: behind)
      (short : ∀ p ∈ before, p.size.toNat < size.toNat) (fits : size.toNat ≤ g.size.toNat)
      (same : s.Same t) (listed : Listed t (before ++ g.left size behind))
      (agrees : Agrees (fun b => ¬ touched s gs b) s.mem t.mem)
      (cleared : clear = true → ∀ b, g.block.toNat ≤ b → b < g.block.toNat + size.toNat →
        t.mem.peek b = 0) : Served s gs size clear g.block t

namespace Listed

variable {before : List Gap} {size : UInt32} {clear : Bool}

lemma fill (hs : Listed s (before ++ g :: gs)) {u : Store} (same : s.Same t)
    (h : Listed t (before ++ g.left size gs)) (hle : size.toNat ≤ g.size.toNat) (hu : t.Same u)
    (ha : Agrees (fun b => b < g.block.toNat ∨ g.block.toNat + size.toNat ≤ b)
      t.mem u.mem) : Listed u (before ++ g.left size gs) := by
  have hch := hs.chained
  have := hs.low g (by simp)
  have hin := (hch.inside g (by simp)).1
  have := hs.small
  refine h.agrees hu ha ?_
  rintro b (hb | ⟨q, hq, hb⟩)
  · rw [same.eeprom] at hb
    omega
  have hb1 := hb.1
  have := hb.2
  rcases mem_append.1 hq with hq | hq
  · have := hch.before_le q hq g (by simp)
    omega
  rw [Gap.stop] at hin
  rcases Gap.mem_left hq with rfl | hq
  · have : (g.block + size).toNat = g.block.toNat + size.toNat := toNat_plus (by omega)
    have : (g.block + size).toNat ≤ b := hb1
    omega
  · have hstop := hch.suffix.2.1 q hq
    rw [Gap.stop] at hstop
    omega

lemma takeFrom_ends (h4 : size.toNat % 4 = 0) :
    (fuel : Nat) → {before gs : List Gap} → {g : Gap} → Listed s (before ++ g :: gs) →
    (∀ p ∈ before, p.size.toNat < size.toNat) → gs.length < fuel →
    Ends (takeFrom size clear fuel (last before) g.block) s
      (Served s (before ++ g :: gs) size clear)
  | fuel + 1, before, gs, g, h, hshort, hfuel => by
    have hch := h.chained.suffix
    refine .read_bind (hch.1.freeSize_eq h.small) (.read_bind (hch.nextFree_eq h.small) ?_)
    by_cases hfit : size ≤ g.size
    · have hle := le_iff_toNat_le.1 hfit
      have hin := hch.1.inside
      rw [Gap.stop] at hin
      rw [if_pos hfit]
      refine .bind (h.carve_ends h4 hle) fun _ t ht => ?_
      obtain ⟨same, hlisted, hagrees⟩ := ht
      cases clear with
      | false =>
        refine .say_bind fun log => .pure
          (.taken rfl hshort hle (same.trans ?_) (hlisted.setLog log)
          hagrees fun hc => by cases hc)
        exact ⟨rfl, rfl, rfl, rfl, rfl, rfl⟩
      | true =>
        rw [if_pos rfl]
        have hroom : g.block.toNat + size.toNat ≤ t.mem.size := by
          rw [hagrees.size]
          omega
        have hzero : Agrees
            (fun b => b < g.block.toNat ∨ g.block.toNat + size.toNat ≤ b) t.mem
            (t.mem.pokeZeros g.block.toNat size.toNat) := by
          refine ⟨size_pokeZeros _, order_pokeZeros _, fun b hb => ?_⟩
          rw [peek_pokeZeros _ hroom, if_neg (by omega)]
        refine .edit_bind (zeroBytes_eq hroom) (.say_bind fun log => .pure (.taken rfl hshort hle
          (same.trans ⟨rfl, rfl, rfl, rfl, rfl, rfl⟩) ?_ (hagrees.trans (hzero.mono ?_)) ?_))
        · have hfill : t.Same (t.setMem (t.mem.pokeZeros g.block.toNat size.toNat)) :=
            ⟨rfl, rfl, rfl, rfl, rfl, rfl⟩
          exact (h.fill same hlisted hle hfill hzero).setLog log
        · intro b hb
          by_contra hcon
          exact hb (.inr ⟨g, by simp, by omega, by rw [Gap.stop]; omega⟩)
        · intro _ b hlo hhi
          show (t.mem.pokeZeros _ _).peek b = 0
          rw [peek_pokeZeros _ hroom, if_pos ⟨hlo, hhi⟩]
    · have hlt : g.size.toNat < size.toNat := by
        have := mt le_iff_toNat_le.2 hfit
        omega
      have hshort' : ∀ p ∈ before ++ [g], p.size.toNat < size.toNat := by
        intro p hp
        rcases mem_append.1 hp with hp | hp
        · exact hshort p hp
        · rw [mem_singleton.1 hp]
          exact hlt
      rw [if_neg hfit]
      cases gs with
      | nil => exact .pure (.refused hshort')
      | cons q gs =>
        have hl : last (before ++ [g]) = some g.block := by simp [last]
        have hc : before ++ g :: q :: gs = before ++ [g] ++ q :: gs := by simp
        rw [hc] at h ⊢
        rw [← hl]
        exact takeFrom_ends h4 fuel h hshort' (by simpa using hfuel)

lemma take_ends (h : Listed s gs) (bytes : UInt32) (clear : Bool)
    (hlt : bytes.toNat + 3 < 4294967296) :
    ∃ size : UInt32, size.toNat = (bytes.toNat + 3) / 4 * 4 ∧
      Ends (take bytes clear) s (Served s gs size clear) := by
  obtain ⟨size, hok, hsize⟩ := roundUp4_eq hlt
  refine ⟨size, hsize, ?_⟩
  refine .except_bind hok (.query_bind h.freeList_eq ?_)
  cases gs with
  | nil => exact .pure (.refused fun g hg => by cases hg)
  | cons g gs =>
    have hlen := h.chained.length_le_total
    have := h.chained.total_le
    show Ends (if (g.block == 0 || g.block == noFreeMemory) = true then _ else _) s _
    rw [h.first_ne, if_neg Bool.false_ne_true]
    refine .read_bind (walkBound_eq _) ?_
    have h : Listed s ([] ++ g :: gs) := h
    exact takeFrom_ends (by omega) _ h (fun p hp => by cases hp) (by
      rw [length_cons] at hlen
      omega)

end Listed

/-! ### The sum of the gaps -/

lemma sumFree_eq (hm : m.size ≤ 16777216) :
    (fuel : Nat) → (acc : UInt32) → {gs : List Gap} → {g : Gap} → Chained m (g :: gs) →
    gs.length < fuel → acc.toNat + Gap.total (g :: gs) < 4294967296 →
    ∃ w, sumFree fuel g.block acc m = .ok w ∧ w.toNat = acc.toNat + Gap.total (g :: gs)
  | fuel + 1, acc, gs, g, h, hfuel, hlt => by
    rw [Gap.total_cons] at hlt ⊢
    have hsum := toNat_plus (a := acc) (b := g.size) (by omega)
    rw [sumFree, bind_ok (h.1.freeSize_eq hm), lift_ok (plus_eq (by omega)),
      bind_ok (h.nextFree_eq hm)]
    cases gs with
    | nil => exact ⟨_, rfl, hsum⟩
    | cons q gs =>
      obtain ⟨w, hw, hn⟩ := sumFree_eq hm fuel (acc + g.size) h.2.2
        (by simpa using hfuel) (by omega)
      exact ⟨w, hw, by omega⟩

lemma Listed.freeMemory_eq (h : Listed s gs) :
    ∃ w, freeMemory s = .ok w ∧ w.toNat = Gap.total gs := by
  rw [freeMemory, Query.bind_ok h.freeList_eq]
  cases gs with
  | nil => exact ⟨0, rfl, rfl⟩
  | cons g gs =>
    have hlen := h.chained.length_le_total
    have := h.chained.total_le
    have hsmall := h.small
    show ∃ w, (if (g.block == 0 || g.block == noFreeMemory) = true then _ else _ :
      Query UInt32) s = .ok w ∧ _
    rw [h.first_ne, if_neg Bool.false_ne_true, Query.bind_ok (a := s.mem.size + 1) rfl]
    rw [List.length_cons] at hlen
    obtain ⟨w, hw, hn⟩ := sumFree_eq hsmall (s.mem.size + 1) 0 h.chained (by omega)
      (by rw [UInt32.toNat_zero]; omega)
    exact ⟨w, hw, by rw [hn, UInt32.toNat_zero, Nat.zero_add]⟩

end Persistent

end DeviceVm
