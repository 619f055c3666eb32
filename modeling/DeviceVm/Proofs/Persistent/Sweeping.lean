import DeviceVm.Collection.Persistent.Sweep
import DeviceVm.Proofs.Persistent.FreeList
import DeviceVm.Proofs.Sliding.Loop

/-!
What lies between objects becomes free. `between` are the stretches of a range that none of some
objects takes, in ascending order; sweeping links them when the objects are those that are marked.
-/

namespace DeviceVm.Persistent

open List Memory UInt32 Cell Store Word

/-- The memory between two addresses as a block, if there is any. -/
def stretch (a b : Nat) : List Gap :=
  if a < b then [⟨ofNat a, ofNat (b - a)⟩] else []

/-- The free memory in front of the objects. -/
def inFront : Nat → List Cell → List Gap
  | _, [] => []
  | a, c :: cs => stretch a c.start ++ inFront c.stop cs

def behind : Nat → List Cell → Nat
  | a, [] => a
  | _, c :: cs => behind c.stop cs

/-- The free memory that the objects leave between two addresses. -/
def between (a : Nat) (cs : List Cell) (b : Nat) : List Gap :=
  inFront a cs ++ stretch (behind a cs) b

/-- A block of whole words inside of a memory of `size` bytes. -/
structure Gap.Sized (size : Nat) (g : Gap) : Prop where
  block_aligned : g.block.toNat % 4 = 0
  size_aligned : g.size.toNat % 4 = 0
  size_pos : 4 ≤ g.size.toNat
  inside : g.stop ≤ size

/-- The bytes behind the words of the block are zero. -/
def Gap.Cleared (m : Memory) (g : Gap) : Prop :=
  ∀ b, g.block.toNat + g.head ≤ b → b < g.stop → m.peek b = 0

variable {a b : Nat} {c : Cell} {cs : List Cell} {g : Gap} {gs : List Gap} {t u : Store}

/-! ### Stretches -/

lemma mem_stretch (hb : b < 4294967296) (hg : g ∈ stretch a b) :
    g.block.toNat = a ∧ g.stop = b ∧ a < b := by
  rw [stretch] at hg
  split at hg
  · rw [mem_singleton.1 hg]
    have hblock : (ofNat a).toNat = a := toNat_ofNat_of_lt' (by
      show a < 4294967296
      omega)
    have : (ofNat (b - a)).toNat = b - a := toNat_ofNat_of_lt' (by
      show b - a < 4294967296
      omega)
    refine ⟨hblock, ?_, ‹_›⟩
    show (ofNat a).toNat + (ofNat (b - a)).toNat = b
    omega
  · cases hg

lemma total_stretch (hb : b < 4294967296) (hab : a ≤ b) : Gap.total (stretch a b) = b - a := by
  rw [stretch]
  split
  · show (ofNat (b - a)).toNat + 0 = _
    rw [toNat_nat] <;> omega
  · show 0 = b - a
    omega

lemma inFront_append (a : Nat) (cs : List Cell) (c : Cell) :
    inFront a (cs ++ [c]) = inFront a cs ++ stretch (behind a cs) c.start := by
  induction cs generalizing a with
  | nil => exact append_nil _
  | cons d cs ih => rw [cons_append, inFront, inFront, ih, behind, append_assoc]

lemma behind_append (a : Nat) (cs : List Cell) (c : Cell) : behind a (cs ++ [c]) = c.stop := by
  induction cs generalizing a with
  | nil => rfl
  | cons d cs ih => exact ih d.stop

lemma between_cons (a : Nat) (c : Cell) (cs : List Cell) (b : Nat) :
    between a (c :: cs) b = stretch a c.start ++ between c.stop cs b :=
  append_assoc ..

section

variable (h : Spread a cs b) (hb : b ≤ 16777216)
include h hb

lemma between_spec :
    (∀ g ∈ between a cs b, a ≤ g.block.toNat ∧ g.block.toNat < g.stop ∧ g.stop ≤ b ∧
      ∀ c ∈ cs, c.stop ≤ g.block.toNat ∨ g.stop ≤ c.start) ∧
    (between a cs b).Pairwise fun g h => g.stop < h.block.toNat := by
  induction cs generalizing a with
  | nil =>
    constructor
    · intro g hg
      obtain ⟨hlo, hhi, hlt⟩ := mem_stretch (by omega) (show g ∈ stretch a b from hg)
      exact ⟨by omega, by omega, by omega, fun c hc => by cases hc⟩
    show (stretch a b).Pairwise _
    rw [stretch]
    split
    · exact pairwise_singleton ..
    · exact .nil
  | cons c cs ih =>
    obtain ⟨ihg, ihp⟩ := ih h.2
    have := h.1
    have := c.start_eq
    have := h.2.total_le
    have first : ∀ g ∈ stretch a c.start, g.block.toNat = a ∧ g.stop = c.start ∧ a < c.start :=
      fun g hg => mem_stretch (by omega) hg
    rw [between_cons]
    constructor
    · intro g hg
      rcases mem_append.1 hg with hg | hg
      · obtain ⟨hlo, hhi, hlt⟩ := first g hg
        refine ⟨by omega, by omega, by omega, fun d hd => .inr ?_⟩
        rcases mem_cons.1 hd with rfl | hd
        · omega
        · have := h.2.low hd
          have : d.start = d.oop.toNat - d.head := rfl
          omega
      · obtain ⟨hlo, hlt, hhi, hclear⟩ := ihg g hg
        refine ⟨by omega, hlt, hhi, fun d hd => ?_⟩
        rcases mem_cons.1 hd with rfl | hd
        · exact .inl hlo
        · exact hclear d hd
    · refine pairwise_append.2 ⟨?_, ihp, fun g hg q hq => ?_⟩
      · rw [stretch]
        split
        · exact pairwise_singleton ..
        · exact .nil
      · have := (ihg q hq).1
        have := (first g hg).2.1
        have := c.head_cases
        omega

lemma between_cover {x : Nat} (hlo : a ≤ x) (hhi : x < b) :
    (∃ c ∈ cs, c.start ≤ x ∧ x < c.stop) ∨ ∃ g ∈ between a cs b, g.covers x := by
  have inside : ∀ {a' b' : Nat}, b' ≤ 16777216 → a' ≤ x → x < b' →
      ∃ g ∈ stretch a' b', g.covers x := by
    intro a' b' hb' hlo hhi
    have hmem : (⟨ofNat a', ofNat (b' - a')⟩ : Gap) ∈ stretch a' b' := by
      rw [stretch, if_pos (by omega)]
      exact mem_singleton.2 rfl
    obtain ⟨hblock, hstop, _⟩ := mem_stretch (by omega) hmem
    exact ⟨_, hmem, by omega, by omega⟩
  induction cs generalizing a with
  | nil => exact .inr (inside hb hlo hhi)
  | cons c cs ih =>
    have := h.2.total_le
    have := c.stop_eq
    have := c.start_eq
    rw [between_cons]
    by_cases h1 : x < c.start
    · obtain ⟨g, hg, hx⟩ := inside (show c.start ≤ _ by omega) hlo h1
      exact .inr ⟨g, mem_append_left _ hg, hx⟩
    by_cases h2 : x < c.stop
    · exact .inl ⟨c, mem_cons_self, by omega, h2⟩
    rcases ih h.2 (by omega) with ⟨d, hd, hx⟩ | ⟨g, hg, hx⟩
    · exact .inl ⟨d, mem_cons_of_mem c hd, hx⟩
    · exact .inr ⟨g, mem_append_right _ hg, hx⟩

lemma total_between : Gap.total (between a cs b) + total cs = b - a := by
  induction cs generalizing a with
  | nil => exact total_stretch (by omega) h
  | cons c cs ih =>
    have : Gap.total (between c.stop cs b) + total cs = b - c.stop := ih h.2
    have := h.1
    have := h.2.total_le
    have := c.stop_eq
    have := c.start_eq
    have := c.size_eq
    rw [between_cons, Gap.total_append, total_stretch (by omega) (by omega), total_cons]
    omega

lemma between_sized (ha4 : a % 4 = 0) (hb4 : b % 4 = 0)
    (h4 : ∀ c ∈ cs, c.oop.toNat % 4 = 0 ∧ c.body % 4 = 0) : ∀ g ∈ between a cs b, g.Sized b := by
  have sized : ∀ {a' b' : Nat}, b' ≤ b → a' % 4 = 0 → b' % 4 = 0 → ∀ g ∈ stretch a' b',
      g.Sized b := by
    intro a' b' hle ha' hb' g hg
    obtain ⟨hblock, hstop, hlt⟩ := mem_stretch (by omega) hg
    rw [Gap.stop] at hstop
    exact ⟨by omega, by omega, by omega, by rw [Gap.stop]; omega⟩
  induction cs generalizing a with
  | nil => exact sized (Nat.le_refl b) ha4 hb4
  | cons c cs ih =>
    obtain ⟨ho, hbody⟩ := h4 c mem_cons_self
    have := h.2.total_le
    have := c.head_cases
    have := c.start_eq
    intro g hg
    rw [between_cons] at hg
    rcases mem_append.1 hg with hg | hg
    · exact sized (by omega) ha4 (by omega) g hg
    · exact ih h.2 (by omega) (fun d hd => h4 d (mem_cons_of_mem c hd)) g hg

end

/-! ### Linking -/

def Gap.pair (g : Gap) : UInt32 × UInt32 := (g.block, g.size)

/-- The blocks were written and chained, and nothing else was. -/
structure Linked (m : Memory) (gs : List Gap) (n : Memory) : Prop where
  chained : Chained n gs
  cleared : ∀ g ∈ gs, g.Cleared n
  agrees : Memory.Agrees (fun b => ∀ g ∈ gs, ¬ g.covers b) m n

lemma Gap.Sized.init_eq {m : Memory} (h : g.Sized m.size) (hm : m.size ≤ 16777216)
    {distance : UInt32} (hd : distance.toNat < 536870912) :
    ∃ m' n, zeroBytes g.block g.size m = .ok () m' ∧
      Block.initFree g.block g.size distance m' = .ok () n ∧
      g.Written n distance.toNat ∧ g.Cleared n ∧ Memory.Agrees (fun b => ¬ g.covers b) m n := by
  have hin := h.inside
  have hpos := h.size_pos
  rw [Gap.stop] at hin
  obtain ⟨n, hn, hw, ha⟩ := initFree_eq (m := m.pokeZeros g.block.toNat g.size.toNat) g.block g.size
    distance h.block_aligned hpos h.size_aligned (by rw [size_pokeZeros]; omega)
    (by rw [size_pokeZeros]; omega) hd
  have := Gap.head_le h.size_aligned hpos
  refine ⟨_, n, zeroBytes_eq (by omega), hn, hw, fun b hlo hhi => ?_, ?_⟩
  · rw [Gap.stop] at hhi
    rw [ha.peek b (.inr hlo), peek_pokeZeros _ (by omega), if_pos (by omega)]
  refine ⟨ha.size.trans (size_pokeZeros _), ha.order.trans (order_pokeZeros _),
    fun b hb => ?_⟩
  have : b < g.block.toNat ∨ g.block.toNat + g.size.toNat ≤ b := by
    by_contra hcon
    exact hb ⟨by omega, by rw [Gap.stop]; omega⟩
  have hfix : b < g.block.toNat ∨ g.block.toNat + g.head ≤ b := by omega
  rw [ha.peek b hfix, peek_pokeZeros _ (by omega), if_neg (by omega)]

lemma linkFree_ends : (gs : List Gap) → {s : Store} → {free : UInt32} →
    (∀ g ∈ gs, g.Sized s.mem.size) → (gs.Pairwise fun g h => g.stop ≤ h.block.toNat) →
    s.mem.size ≤ 16777216 → free.toNat + Gap.total gs < 4294967296 →
    Ends (linkFree (gs.map Gap.pair) free) s fun w t =>
      (∃ n, t = s.setMem n ∧ Linked s.mem gs n) ∧ w.toNat = free.toNat + Gap.total gs
  | [], s, free, _, _, _, _ =>
    .pure ⟨⟨s.mem, rfl, ⟨trivial, fun g hg => (not_mem_nil hg).elim, .refl _⟩⟩, rfl⟩
  | g :: gs, s, free, hs, hp, hm, hlt => by
    have hg := hs g mem_cons_self
    obtain ⟨hafter, hrest⟩ := pairwise_cons.1 hp
    rw [Gap.total_cons] at hlt
    have main : ∀ distance : UInt32, distance.toNat = g.distance gs →
        Ends (do
          zeroBytes g.block g.size
          Block.initFree g.block g.size distance
          linkFree (gs.map Gap.pair) (← plus free g.size)) s fun w t =>
          (∃ n, t = s.setMem n ∧ Linked s.mem (g :: gs) n) ∧
            w.toNat = free.toNat + Gap.total (g :: gs) := by
      intro distance hd
      have hdlt : distance.toNat < 536870912 := by
        rw [hd]
        cases gs with
        | nil => exact Nat.zero_lt_succ _
        | cons q gs =>
          have hq := (hs q (by simp)).inside
          rw [Gap.stop] at hq
          rw [Gap.distance]
          omega
      obtain ⟨m, n, hzero, hinit, hw, hc, ha⟩ := hg.init_eq hm hdlt
      have hsize : n.size = s.mem.size := ha.size
      refine .edit_bind hzero (.edit_bind hinit (.except_bind (plus_eq (by omega)) ?_))
      refine (linkFree_ends gs (fun q hq => ?_) hrest ?_ ?_).mono ?_
      · show q.Sized n.size
        rw [hsize]
        exact hs q (mem_cons_of_mem g hq)
      · show n.size ≤ _
        omega
      · rw [toNat_plus] <;> omega
      rintro w t ⟨⟨k, rfl, hk⟩, hwn⟩
      have hspared : ∀ b, g.covers b → ∀ q ∈ gs, ¬ q.covers b := by
        intro b hb q hq hqb
        have := hafter q hq
        have := hb.2
        have := hqb.1
        omega
      refine ⟨⟨k, rfl, ⟨hd ▸ hw.agrees hk.agrees hspared, hafter, hk.chained⟩, ?_, ?_⟩, ?_⟩
      · intro q hq
        rcases mem_cons.1 hq with rfl | hq
        · intro b hlo hhi
          rw [hk.agrees.peek b (hspared b ⟨by omega, hhi⟩)]
          exact hc b hlo hhi
        · exact hk.cleared q hq
      · exact (ha.mono fun b hb => hb g mem_cons_self).trans
          (hk.agrees.mono fun b hb q hq => hb q (mem_cons_of_mem g hq))
      · rw [hwn, toNat_plus (by omega), Gap.total_cons]
        omega
    cases gs with
    | nil => exact main 0 rfl
    | cons q gs =>
      have hq := hafter q mem_cons_self
      rw [Gap.stop] at hq
      have hle : g.block.toNat ≤ q.block.toNat := by omega
      exact .except_bind (minus_eq hle) (main _ (toNat_minus hle))

/-! ### Sweeping -/

lemma map_pair_stretch (a b : UInt32) :
    (stretch a.toNat b.toNat).map Gap.pair = if a < b then [(a, b - a)] else [] := by
  rw [stretch]
  by_cases h : a < b
  · have hlt := lt_iff_toNat_lt.1 h
    have hsize : ofNat (b.toNat - a.toNat) = b - a := by
      rw [← toNat_minus (show a.toNat ≤ b.toNat by omega), UInt32.ofNat_toNat]
    rw [if_pos hlt, if_pos h, hsize, UInt32.ofNat_toNat]
    rfl
  · rw [if_neg fun hlt => h (lt_iff_toNat_lt.2 hlt), if_neg h]
    rfl

/-- The objects of which the bits are set can be swept around. -/
structure Ready (space : Space) (L : List Cell) (t : Store) : Prop where
  start_aligned : space.start.toNat % 4 = 0
  stop_aligned : space.stop.toNat % 4 = 0
  spread : Spread space.start.toNat L space.stop.toNat
  aligned : ∀ c ∈ L, c.oop.toNat % 4 = 0 ∧ c.body % 4 = 0
  extent : ∀ c ∈ L, ∃ block head len, c.Extent t.mem c.oop block head len
  mapped : t.bits.range.Mapped t.mem.size
  bits_first : t.bits.range.first.toNat ≤ space.start.toNat + 4
  bits_last : space.stop.toNat ≤ t.bits.range.last.toNat
  marks : t.bits.range.Marks t.mem space.start.toNat space.stop.toNat L
  idle : t.bits.scan.active = false
  eeprom_aligned : t.eeprom.start.toNat % 4 = 0
  low : t.eeprom.start.toNat + 64 ≤ space.start.toNat
  high : space.stop.toNat ≤ t.stopOf .eeprom
  inside : t.stopOf .eeprom ≤ t.mem.size

/-- The stretches that sweeping has found when it has come to some of the objects. -/
structure Found (start : Nat) (t : Store) (L : List Cell)
    (acc : List (UInt32 × UInt32) × UInt32) (m : Memory) : Prop where
  mem : m = t.mem
  stretches : acc.1.reverse = (inFront start L).map Gap.pair
  cursor : acc.2.toNat = behind start L

variable {space : Space} {L : List Cell}

lemma Ready.gaps_ends (h : Ready space L t) :
    Ends (gaps space) t fun acc u =>
      t.Scans u ∧ u.bits.scan.active = false ∧ Found space.start.toNat t L acc u.mem := by
  refine Store.foldObjects_ends h.spread h.start_aligned h.stop_aligned
    (fun c hc => (h.aligned c hc).1)
    h.mapped h.bits_first h.bits_last h.marks h.idle (fun _ hj => hj.mem ▸ .refl _)
      ?_ ⟨rfl, rfl, rfl⟩
  rintro pre c post ⟨found, cursor⟩ u he hu hj
  have hc : c ∈ L := he ▸ mem_append_right pre mem_cons_self
  have := h.spread.high hc
  obtain ⟨block, head, len, e⟩ := h.extent c hc
  rw [← hj.mem] at e
  obtain ⟨hafter, hstop⟩ := e.after (by
    have := space.stop.toNat_lt
    omega)
  refine .read_bind e.ofObject (.read_bind hafter (.pure ⟨u.mem, rfl, hj.mem, ?_, ?_⟩))
  · have hcursor := hj.cursor.symm
    have hblock : c.start = block.toNat := e.block_eq.symm
    have hfound : found.reverse = (inFront space.start.toNat pre).map Gap.pair := hj.stretches
    rw [inFront_append, map_append, ← hfound, hcursor, hblock, map_pair_stretch]
    by_cases hlt : cursor < block
    · rw [if_pos hlt, if_pos hlt, reverse_cons]
    · rw [if_neg hlt, if_neg hlt, append_nil]
  · rw [behind_append]
    exact hstop

/-- What sweeping comes to: what lies between the objects is free, and nothing else but the root of
the list has changed. -/
structure Swept (t : Store) (gs : List Gap) (u : Store) : Prop where
  scans : t.Scans u
  idle : u.bits.scan.active = false
  listed : Listed u gs
  cleared : ∀ g ∈ gs, g.Cleared u.mem
  agrees : Memory.Agrees (fun b => ¬ touched t gs b) t.mem u.mem

lemma setFreeList_ends {s : Store} (block : UInt32) (h4 : s.eeprom.start.toNat % 4 = 0)
    (hin : s.eeprom.start.toNat + 64 ≤ s.mem.size) (hm : s.mem.size ≤ 16777216) :
    Ends (setFreeList block) s fun _ t =>
      t = s.setMem (s.mem.pokeWord (s.eeprom.start.toNat + 32) block) := by
  have hpoints : Points s.eeprom.start (SegmentRecord.roots + Root.freeList)
      (s.eeprom.start.toNat + 32) := .lit 8 rfl ⟨by decide, by omega, by omega⟩
  apply Ends.get_bind
  exact .edit (setWord_eq hpoints (by omega)) rfl

lemma Ready.gap_spec (h : Ready space L t) :
    ∀ g ∈ between space.start.toNat L space.stop.toNat,
      g.Sized t.mem.size ∧ t.eeprom.start.toNat + 64 ≤ g.block.toNat ∧
        g.stop ≤ t.stopOf .eeprom := by
  have := h.low
  have := h.high
  have := h.inside
  have := h.mapped.small
  intro g hg
  have hs := between_sized h.spread (by omega) h.start_aligned h.stop_aligned h.aligned g hg
  obtain ⟨hlo, _, hhi, _⟩ := (between_spec h.spread (by omega)).1 g hg
  exact ⟨⟨hs.block_aligned, hs.size_aligned, hs.size_pos, by omega⟩, by omega, by omega⟩

lemma Ready.swept (h : Ready space L t) (hu : t.Scans u) (hidle : u.bits.scan.active = false)
    {n : Memory} (hn : Linked t.mem (between space.start.toNat L space.stop.toNat) n) :
    Swept t (between space.start.toNat L space.stop.toNat) (u.setMem (n.pokeWord
      (t.eeprom.start.toNat + 32)
      ((first (between space.start.toNat L space.stop.toNat)).getD noFreeMemory))) := by
  have := h.low
  have := h.high
  have := h.inside
  have := h.spread.total_le
  have hgs := h.gap_spec
  generalize between space.start.toNat L space.stop.toNat = gs at hn hgs ⊢
  have hsize := hn.agrees.size
  have hpoke : Memory.Agrees (fun b => b < t.eeprom.start.toNat + 32 ∨
      t.eeprom.start.toNat + 36 ≤ b) n (n.pokeWord (t.eeprom.start.toNat + 32)
        ((first gs).getD noFreeMemory)) :=
    (Memory.Agrees.refl n).pokeWord fun b hb => by omega
  have hbehind : ∀ g ∈ gs, ∀ b, g.covers b → b < t.eeprom.start.toNat + 32 ∨
      t.eeprom.start.toNat + 36 ≤ b := fun g hg b hb => by
    have := (hgs g hg).2.1
    have := hb.1
    omega
  have hE : (u.setMem (n.pokeWord (t.eeprom.start.toNat + 32)
      ((first gs).getD noFreeMemory))).eeprom = t.eeprom := hu.eeprom
  refine ⟨hu.setMem _, hidle, ⟨?_, ?_, ?_, ?_, ?_, ?_, ?_⟩, fun g hg b hlo hhi => ?_, ?_⟩
  · rw [hE]
    exact h.eeprom_aligned
  · rw [hE, setMem_mem, hpoke.size]
    omega
  · rw [setMem_mem, hpoke.size, hsize]
    exact h.mapped.small
  · rw [hE, setMem_mem]
    exact peekWord_pokeWord_self _ (by omega)
  · exact hn.chained.agrees hpoke hbehind
  · rw [hE]
    exact fun g hg => (hgs g hg).2.1
  · intro g hg
    have hstop : g.stop ≤ t.eeprom.start.toNat + t.eeprom.size.toNat := (hgs g hg).2.2
    rw [← hE] at hstop
    exact hstop
  · rw [setMem_mem, hpoke.peek b (hbehind g hg b ⟨by omega, hhi⟩)]
    exact hn.cleared g hg b hlo hhi
  · refine (hn.agrees.mono fun b hb g hg hc => hb (.inr ⟨g, hg, hc⟩)).trans
      (hpoke.mono fun b hb => ?_)
    by_contra hcon
    exact hb (.inl ⟨by omega, by omega⟩)

lemma Ready.sweep_ends (h : Ready space L t) :
    Ends (sweep space) t fun _ u => Swept t (between space.start.toNat L space.stop.toNat) u := by
  have := h.low
  have := h.high
  have := h.inside
  have hsmall := h.mapped.small
  have := h.spread.total_le
  have hpair := (between_spec h.spread (by omega)).2.imp Nat.le_of_lt
  have := total_between h.spread (by omega)
  refine .bind h.gaps_ends ?_
  rintro ⟨found, cursor⟩ u ⟨hu, hidle, hmem, hfound, hcursor⟩
  have hstretches : (if cursor < space.stop then (cursor, space.stop - cursor) :: found
      else found).reverse = (between space.start.toNat L space.stop.toNat).map Gap.pair := by
    rw [between, map_append, ← hfound, ← hcursor, map_pair_stretch]
    by_cases hlt : cursor < space.stop
    · rw [if_pos hlt, if_pos hlt, reverse_cons]
    · rw [if_neg hlt, if_neg hlt, append_nil]
  have hroot : (((between space.start.toNat L space.stop.toNat).map Gap.pair).head?.map (·.1)) =
      first (between space.start.toNat L space.stop.toNat) := by
    cases between space.start.toNat L space.stop.toNat <;> rfl
  simp only [hstretches, hroot]
  refine .bind (linkFree_ends _ (fun g hg => hmem ▸ (h.gap_spec g hg).1) hpair (hmem ▸ hsmall)
    (by rw [UInt32.toNat_zero]; omega)) ?_
  rintro free v ⟨⟨n, rfl, hn⟩, hfree⟩
  rw [UInt32.toNat_zero] at hfree
  rw [hmem] at hn
  have := hn.agrees.size
  have hE : (u.setMem n).eeprom = t.eeprom := hu.eeprom
  refine .bind (setFreeList_ends _ (by rw [hE]; exact h.eeprom_aligned)
    (by rw [hE, setMem_mem]; omega) (by rw [setMem_mem]; omega)) ?_
  rintro _ _ rfl
  have : (space.stop - space.start).toNat = space.stop.toNat - space.start.toNat :=
    toNat_minus (by omega)
  refine .except_bind (minus_eq (by omega)) (.except_bind (minus_eq (by omega)) (.pure ?_))
  rw [hE]
  exact h.swept hu hidle hn

end DeviceVm.Persistent
