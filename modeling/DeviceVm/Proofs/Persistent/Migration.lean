import DeviceVm.Collection.Persistent.Migration
import DeviceVm.Proofs.Persistent.FreeList
import DeviceVm.Proofs.Stopping
import DeviceVm.Proofs.Tiling
import DeviceVm.Proofs.Tracing

/-!
Copies of objects in persistent memory. While a graph is copied, every object that has been
forwarded leads to a copy that came out of a gap. What is neither a gap nor the class word of an
object in RAM stays as it was.
-/

namespace DeviceVm

open List Memory Header Cell

/-- Chunks and class states stay in RAM. -/
def Cell.Persistable (c : Cell) : Prop := ¬ c.isChunk ∧ ∀ n, c.shape ≠ .classState n

namespace Persistent

open Store Word

/-- An object and the address of its copy in persistent memory. -/
structure Copy where
  cell : Cell
  oop : UInt32

namespace Copy

def start (p : Copy) : Nat := p.oop.toNat - p.cell.head

def stop (p : Copy) : Nat := p.oop.toNat + p.cell.body

def word (m : Memory) (p : Copy) (x : Nat) : UInt32 := m.peekWord (p.oop.toNat + x)

def total (made : List Copy) : Nat := Cell.total (made.map Copy.cell)

lemma total_cons (p : Copy) (made : List Copy) : total (p :: made) = p.cell.size + total made :=
  rfl

lemma length_le_total (made : List Copy) : made.length ≤ total made := by
  induction made with
  | nil => exact Nat.le_refl _
  | cons p made ih =>
    have := p.cell.head_cases
    rw [total_cons, List.length_cons, Cell.size]
    omega

end Copy

/-- Copies came out of the gaps `gs`, and `left` is what is left of them. -/
structure Shrunk (gs : List Gap) (made : List Copy) (left : List Gap) : Prop where
  block : ∀ p ∈ made, ∃ g ∈ gs, g.block.toNat + p.cell.head ≤ p.oop.toNat ∧
    p.stop ≤ g.stop
  inside : ∀ h ∈ left, ∃ g ∈ gs, g.block.toNat ≤ h.block.toNat ∧ h.stop ≤ g.stop
  clear : ∀ h ∈ left, ∀ p ∈ made, h.stop ≤ p.start ∨ p.stop ≤ h.block.toNat
  apart : ∀ p q, p ∈ made → q ∈ made → p = q ∨ p.stop ≤ q.start ∨ q.stop ≤ p.start
  total : Gap.total left + Copy.total made = Gap.total gs

namespace Shrunk

variable {gs left before behind : List Gap} {made : List Copy} {g : Gap} {m : Memory}
  {size : UInt32} {p : Copy} {s : Store} {b : Nat}

lemma refl (gs : List Gap) : Shrunk gs [] gs where
  block _ hp := absurd hp not_mem_nil
  inside h hh := ⟨h, hh, Nat.le_refl _, Nat.le_refl _⟩
  clear _ _ _ hp := absurd hp List.not_mem_nil
  apart _ _ hp := absurd hp List.not_mem_nil
  total := rfl

lemma total_left (hle : size.toNat ≤ g.size.toNat) :
    Gap.total (g.left size behind) + size.toNat = g.size.toNat + Gap.total behind := by
  rw [Gap.left]
  split
  case isTrue heq => rw [heq, Nat.add_comm]
  case isFalse =>
    rw [Gap.total_cons, toNat_minus hle]
    omega

lemma take (h : Shrunk gs made (before ++ g :: behind)) (hch : Chained m (before ++ g :: behind))
    (hm : m.size ≤ 16777216) (hsize : size.toNat = p.cell.size)
    (hle : size.toNat ≤ g.size.toNat) (hp : p.oop.toNat = g.block.toNat + p.cell.head) :
    Shrunk gs (p :: made) (before ++ g.left size behind) := by
  have := (hch.inside g (by simp)).1
  have hg : g ∈ before ++ g :: behind := by simp
  have : p.start = g.block.toNat := by
    rw [Copy.start]
    omega
  rw [Cell.size] at hsize
  have hstop : p.stop = g.block.toNat + size.toNat := by
    rw [Copy.stop]
    omega
  have : p.stop ≤ g.stop := by
    rw [Gap.stop]
    omega
  have hsum : (g.block + size).toNat = g.block.toNat + size.toNat := by
    exact toNat_plus (by omega)
  -- what is left of the gap is behind the copy, and the other gaps are as they were
  have hleft : ∀ q ∈ before ++ g.left size behind, (q ∈ before ++ g :: behind ∧
      (q.stop ≤ g.block.toNat ∨ g.stop ≤ q.block.toNat)) ∨
      q.block.toNat = p.stop ∧ q.stop = g.stop := by
    intro q hq
    rcases mem_append.1 hq with hq | hq
    · exact .inl ⟨by simp [hq], .inl (hch.before_le q hq g (by simp))⟩
    · rcases Gap.mem_left hq with rfl | hq
      · refine .inr ⟨hsum.trans hstop.symm, ?_⟩
        show (g.block + size).toNat + (g.size - size).toNat = _
        rw [hsum, toNat_minus hle, Gap.stop]
        omega
      · exact .inl ⟨by simp [hq], .inr (hch.suffix.2.1 q hq)⟩
  constructor
  case block =>
    intro q hq
    rcases mem_cons.1 hq with rfl | hq
    · obtain ⟨f, hf, hlow, hhigh⟩ := h.inside g hg
      exact ⟨f, hf, by omega, by omega⟩
    · exact h.block q hq
  case inside =>
    intro q hq
    rcases hleft q hq with ⟨hq, -⟩ | ⟨hb, hs⟩
    · exact h.inside q hq
    · obtain ⟨f, hf, hlow, hhigh⟩ := h.inside g hg
      exact ⟨f, hf, by omega, by omega⟩
  case clear =>
    intro q hq r hr
    rcases hleft q hq with ⟨hq, hap⟩ | ⟨hb, hs⟩
    · rcases mem_cons.1 hr with rfl | hr
      · omega
      · exact h.clear q hq r hr
    · rcases mem_cons.1 hr with rfl | hr
      · omega
      · have := h.clear g hg r hr
        omega
  case apart =>
    intro q r hq hr
    rcases mem_cons.1 hq with rfl | hq
    · rcases mem_cons.1 hr with rfl | hr
      · exact .inl rfl
      · have := h.clear g hg r hr
        omega
    · have := h.clear g hg q hq
      rcases mem_cons.1 hr with rfl | hr
      · omega
      · exact h.apart q r hq hr
  case total =>
    have htotal := h.total
    have : Gap.total (g.left size behind) + size.toNat = g.size.toNat + Gap.total behind :=
      total_left hle
    rw [Gap.total_append, Gap.total_cons] at htotal
    rw [Gap.total_append, Copy.total_cons, Cell.size]
    omega

lemma touched (h : Shrunk gs made left) {u : Store} (same : s.Same u)
    (hb : Persistent.touched u left b) : Persistent.touched s gs b := by
  rcases hb with hb | ⟨q, hq, hlow, hhigh⟩
  · rw [same.eeprom] at hb
    exact .inl hb
  · obtain ⟨g, hg, hlow', hhigh'⟩ := h.inside q hq
    exact .inr ⟨g, hg, by omega, by omega⟩

lemma copy_touched (h : Shrunk gs made left) (hp : p ∈ made)
    (hb : p.start ≤ b) (hlt : b < p.stop) : Persistent.touched s gs b := by
  obtain ⟨g, hg, hlow, hhigh⟩ := h.block p hp
  rw [Copy.start] at hb
  exact .inr ⟨g, hg, by omega, by omega⟩

end Shrunk

/-- The objects in RAM that migrations meet, and the bytes that classes are read from. -/
structure Migration where
  cells : List Cell
  fixed : Nat → Prop
  /-- The copy of an object that was migrated before. -/
  gone : Cell → Option UInt32

namespace Migration

variable (M : Migration) (s : Store) (gs : List Gap)

/-- No migration writes the byte: it is neither free memory nor the header of an object. -/
def spared (b : Nat) : Prop :=
  ¬ touched s gs b ∧ ∀ c ∈ M.cells, b < c.oop.toNat - 4 ∨ c.oop.toNat ≤ b

/-- A store in which graphs can be copied. References of the objects lead to objects or out of RAM,
and nothing overlaps the free memory. -/
structure Ok : Prop where
  recorded : s.Recorded
  ordered : s.Ordered
  listed : Listed s gs
  fixed_spared : ∀ b, M.fixed b → M.spared s gs b
  clear : ∀ c ∈ M.cells, ∀ b, c.start ≤ b → b < c.stop → ¬ touched s gs b
  stop_le : ∀ c ∈ M.cells, c.stop ≤ s.mem.size
  apart : ∀ c d, c ∈ M.cells → d ∈ M.cells → c = d ∨ c.stop ≤ d.start ∨ d.stop ≤ c.start
  typed : ∀ c ∈ M.cells, c.Typed M.fixed s.mem
  number : ∀ c ∈ M.cells, ∃ n, ∀ m, Agrees M.fixed s.mem m →
    Class.number c.kind m = .ok n
  state : ∀ c ∈ M.cells, ∀ n, c.shape = .classState n → 4 ≤ c.body
  stays : ∀ c ∈ M.cells, M.gone c = none → Holds s.mem c.oop c.kind c.count
  gone : ∀ c e, c ∈ M.cells → M.gone c = some e →
    Holds s.mem c.oop (e + 2) c.count ∧ e.toNat % 4 = 0
  legal : ∀ c ∈ M.cells, ∀ x, c.Slot x → s.ram.Has (c.words s.mem x) →
    ∃ d ∈ M.cells, d.oop = c.words s.mem x

/-- The store `u` with copies, where the objects of those in `away` are forwarded to them. -/
structure Forwards (made away : List Copy) (u : Store) : Prop where
  same : s.Same u
  agrees : Agrees (M.spared s gs) s.mem u.mem
  source : ∀ p ∈ made, p.cell ∈ M.cells ∧ M.gone p.cell = none
  header : ∀ p ∈ made, Holds u.mem p.oop p.cell.kind p.cell.count
  leads : ∀ p ∈ away, Holds u.mem p.cell.oop (p.oop + 2) p.cell.count
  gone : ∀ c e, c ∈ M.cells → M.gone c = some e → Holds u.mem c.oop (e + 2) c.count
  rest : ∀ c ∈ M.cells, M.gone c = none → (∀ p ∈ away, p.cell ≠ c) →
    Holds u.mem c.oop c.kind c.count

/-- The store `u` while graphs are copied, with the copies made so far, last one first. -/
structure Copied (made : List Copy) (left : List Gap) (u : Store) : Prop extends
    M.Forwards s gs made made u where
  listed : Listed u left
  shrunk : Shrunk gs made left
  forwarded : u.persistent.forwarded = made.map fun p => p.cell.oop
  bytes : u.persistent.bytesCopied.toNat = Copy.total made
  distinct : (made.map Copy.cell).Nodup
  persistable : ∀ p ∈ made, p.cell.Persistable

variable {M s gs} {made away : List Copy} {left left' : List Gap} {u t : Store} {c d : Cell}
  {p q : Copy} {copy : UInt32} {size : UInt32} {g : Gap} {previous : Option UInt32} {clear : Bool}

namespace Ok

variable {b : Nat}

lemma head_le (h : M.Ok s gs) (hc : c ∈ M.cells) : c.head ≤ c.oop.toNat := by
  cases hg : M.gone c with
  | none => exact (h.stays c hc hg).room
  | some e => exact (h.gone c e hc hg).1.room

lemma header_apart (h : M.Ok s gs) (hc : c ∈ M.cells) (hd : d ∈ M.cells) (hne : c ≠ d)
    (hb : c.start ≤ b) (hlt : b < c.stop) : b < d.oop.toNat - 4 ∨ d.oop.toNat ≤ b := by
  have := d.head_cases
  rcases h.apart c d hc hd with rfl | hap | hap
  · exact absurd rfl hne
  · rw [start] at hap
    omega
  · rw [stop] at hap
    omega

lemma fixed_of (h : M.Ok s gs) (hu : Agrees (M.spared s gs) s.mem u.mem) :
    Agrees M.fixed s.mem u.mem := hu.mono h.fixed_spared

lemma body_spared (h : M.Ok s gs) (hc : c ∈ M.cells) (hb : c.oop.toNat ≤ b)
    (hlt : b < c.stop) : M.spared s gs b := by
  have hs : c.start ≤ b := by
    rw [start]
    omega
  refine ⟨h.clear c hc b hs hlt, fun d hd => ?_⟩
  by_cases hcd : c = d
  · exact .inr (hcd ▸ hb)
  · exact h.header_apart hc hd hcd hs hlt

lemma header_untouched (h : M.Ok s gs) (hc : c ∈ M.cells)
    (hb : c.oop.toNat - c.head ≤ b) (hlt : b < c.oop.toNat) : ¬ touched s gs b :=
  h.clear c hc b hb (by rw [stop]; omega)

lemma touched_apart (h : M.Ok s gs) (hc : c ∈ M.cells) (hb : touched s gs b) :
    b < c.oop.toNat - 4 ∨ c.oop.toNat ≤ b := by
  have := c.head_cases
  by_contra hcon
  exact h.header_untouched hc (by omega) (by omega) hb

end Ok

lemma Forwards.shape_eq (h : M.Ok s gs) (hu : M.Forwards s gs made away u) (hc : c ∈ M.cells)
    (hg : M.gone c = none) (hn : ∀ p ∈ away, p.cell ≠ c) :
    Shape.of c.oop c.kind u.mem = .ok c.shape := by
  refine (h.typed c hc).shape u.mem c.oop c.kind (h.fixed_of hu.agrees) (hu.rest c hc hg hn) ?_
  intro n hs
  have := h.state c hc n hs
  exact hu.agrees.peekWord _ fun i hi => h.body_spared hc (by omega) (by rw [stop]; omega)

namespace Copied

variable {b : Nat}

lemma touched_of_left (hu : M.Copied s gs made left u) (hb : touched u left b) :
    touched s gs b := hu.shrunk.touched hu.same hb

lemma copy_untouched (ok : M.Ok s gs) (hu : M.Copied s gs made left u) (hp : p ∈ made)
    (hb : p.start ≤ b) (hlt : b < p.stop) : ¬ touched u left b := by
  obtain ⟨g, hg, hlow, hhigh⟩ := hu.shrunk.block p hp
  have := ok.listed.low g hg
  have hb' := hb
  rw [Copy.start] at hb'
  rintro (ht | ⟨h, hh, h1, h2⟩)
  · rw [hu.same.eeprom] at ht
    omega
  · have := hu.shrunk.clear h hh p hp
    omega

lemma kept (ok : M.Ok s gs) (hu : M.Copied s gs made left u) (hc : c ∈ M.cells)
    (hq : q ∈ made) (hb : q.start ≤ b) (hlt : b < q.stop) :
    ¬ touched u left b ∧ (b < c.oop.toNat - 4 ∨ c.oop.toNat ≤ b) :=
  ⟨hu.copy_untouched ok hq hb hlt, ok.touched_apart hc (hu.shrunk.copy_touched hq hb hlt)⟩

lemma extend (ok : M.Ok s gs) (hu : M.Copied s gs made left u) (hc : c ∈ M.cells)
    (hg : M.gone c = none) (hn : ∀ p ∈ made, p.cell ≠ c) (hcan : c.Persistable)
    (same : u.Same t) (ha : Agrees (fun b => ¬ touched u left b ∧
      (b < c.oop.toNat - 4 ∨ c.oop.toNat ≤ b)) u.mem t.mem)
    (listed : Listed t left') (shrunk : Shrunk gs (⟨c, copy⟩ :: made) left')
    (forwarded : t.persistent.forwarded = c.oop :: u.persistent.forwarded)
    (bytes : t.persistent.bytesCopied.toNat = c.size + u.persistent.bytesCopied.toNat)
    (header : Holds t.mem copy c.kind c.count)
    (leads : Holds t.mem c.oop (copy + 2) c.count) :
    M.Copied s gs (⟨c, copy⟩ :: made) left' t := by
  -- the header of another object stays
  have other : ∀ {d low}, d ∈ M.cells → d ≠ c → Holds u.mem d.oop low d.count →
      Holds t.mem d.oop low d.count := by
    intro d low hd hne hh
    refine hh.agrees ha fun b hb hlt => ⟨fun ht => ?_, ?_⟩
    · exact ok.header_untouched hd hb hlt (hu.touched_of_left ht)
    · exact ok.header_apart hd hc hne hb (by rw [stop]; omega)
  constructor
  case listed => exact listed
  case shrunk => exact shrunk
  case forwarded => rw [forwarded, hu.forwarded]; rfl
  case bytes => rw [bytes, hu.bytes]; rfl
  case distinct =>
    refine List.nodup_cons.2 ⟨fun hm => ?_, hu.distinct⟩
    obtain ⟨p, hp, he⟩ := mem_map.1 hm
    exact hn p hp he
  case persistable =>
    intro p hp
    rcases mem_cons.1 hp with rfl | hp
    · exact hcan
    · exact hu.persistable p hp
  constructor
  case same => exact hu.same.trans same
  case agrees =>
    refine hu.agrees.trans (ha.mono fun b hb => ⟨fun ht => hb.1 (hu.touched_of_left ht), hb.2 c hc⟩)
  case source =>
    intro p hp
    rcases mem_cons.1 hp with rfl | hp
    · exact ⟨hc, hg⟩
    · exact hu.source p hp
  case header =>
    intro p hp
    rcases mem_cons.1 hp with rfl | hp
    · exact header
    · exact (hu.header p hp).agrees ha fun b hb hlt =>
        hu.kept ok hc hp hb (by rw [Copy.stop]; omega)
  case leads =>
    intro p hp
    rcases mem_cons.1 hp with rfl | hp
    · exact leads
    · exact other (hu.source p hp).1 (hn p hp) (hu.leads p hp)
  case gone =>
    intro d e hd he
    refine other hd ?_ (hu.gone d e hd he)
    rintro rfl
    rw [hg] at he
    cases he
  case rest =>
    intro d hd he hnd
    exact other hd (hnd ⟨c, copy⟩ (mem_cons_self ..)).symm
      (hu.rest d hd he fun p hp => hnd p (mem_cons_of_mem _ hp))

end Copied

/-! ### One object -/

lemma edit_persistent {α : Type} {e : EStateM Fault Memory α} (h : u.persistent = s.persistent) :
    Yields (Ends.ofEdit e) u fun _ t => t.persistent = s.persistent :=
  .edit fun _ _ _ => h

lemma link_persistent {replacement : Option UInt32} (h : u.persistent = s.persistent) :
    Yields (match previous with
      | none => setFreeList (replacement.getD noFreeMemory)
      | some previous => do
        let distance ← match replacement with
          | none => pure 0
          | some replacement => minus replacement previous
        Block.setFreeDistance previous distance : Run Unit) u
      fun _ t => t.persistent = s.persistent := by
  cases previous with
  | none => exact .get_bind (edit_persistent h)
  | some previous =>
    cases replacement with
    | none => exact edit_persistent h
    | some replacement => exact .except_bind fun _ _ => edit_persistent h

lemma carve_persistent {next : Option UInt32} {block available : UInt32} :
    Yields (carve previous block available next size) s fun _ t => t.persistent = s.persistent := by
  refine .ite (fun _ => link_persistent rfl) fun _ => .except_bind fun rest _ => ?_
  cases next with
  | none =>
    exact .bind (.pure rfl) fun _ t ht =>
      .bind (edit_persistent ht) fun _ t ht => link_persistent ht
  | some next =>
    exact .except_bind fun _ _ =>
      .bind (edit_persistent rfl) fun _ t ht => link_persistent ht

lemma takeFrom_persistent : (fuel : Nat) →
    {previous : Option UInt32} → {block : UInt32} → {s : Store} →
    Yields (takeFrom size clear fuel previous block) s fun _ t => t.persistent = s.persistent
  | 0, _, _, _ => .throw
  | fuel + 1, previous, block, s => by
    refine .read_bind fun _ _ => .read_bind fun next _ => .ite (fun _ => ?_) fun _ => ?_
    · refine .bind carve_persistent fun _ t ht => ?_
      cases clear with
      | false => exact .say_bind fun _ => .pure ht
      | true => exact .bind (edit_persistent ht) fun _ u hu => .say_bind fun _ => .pure hu
    · cases next with
      | none => exact .pure rfl
      | some next => exact takeFrom_persistent fuel

lemma take_persistent {bytes : UInt32} :
    Yields (take bytes clear) s fun _ t => t.persistent = s.persistent := by
  refine .except_bind fun _ _ => .query_bind fun _ _ => .ite (fun _ => .pure rfl) fun _ => ?_
  exact .read_bind fun _ _ => takeFrom_persistent _

/-- One more object was copied, word by word, and the copies made before are as they were. -/
structure Adds (M : Migration) (s : Store) (gs : List Gap) (made : List Copy) (u : Store)
    (p : Copy) (left : List Gap) (t : Store) : Prop extends
    M.Copied s gs (p :: made) left t where
  ne_zero : p.oop ≠ 0
  new : ∀ x, x + 4 ≤ p.cell.body → p.word t.mem x = p.cell.words s.mem x
  old : ∀ q ∈ made, ∀ x, x + 4 ≤ q.cell.body → q.word t.mem x = q.word u.mem x

/-- A gap is before RAM, and an object in RAM is not in a gap. -/
structure Place (M : Migration) (s : Store) (u : Store) (left : List Gap) (c : Cell) (g : Gap) :
    Prop where
  source : c.start + c.size ≤ u.mem.size
  target : g.block.toNat + c.size ≤ u.mem.size
  low : 64 ≤ g.block.toNat
  aligned : g.block.toNat % 4 = 0
  high : g.block.toNat + c.size + 64 ≤ 16777216
  clear : ∀ b, c.start ≤ b → b < c.oop.toNat + c.body → ¬ touched u left b
  gap : ∀ b, g.block.toNat ≤ b → b < g.block.toNat + c.size → touched u left b

lemma Copied.place (ok : M.Ok s gs) (hu : M.Copied s gs made left u) (hc : c ∈ M.cells)
    (hg : g ∈ left) (fits : c.size ≤ g.size.toNat) : Place M s u left c g := by
  have := ok.listed.small
  have hstop := ok.stop_le c hc
  have := ok.head_le hc
  have hgin := (hu.listed.chained.inside g hg).1
  have := hu.listed.low g hg
  have := ok.recorded.inside
  have := hu.agrees.size
  have hhigh := hu.listed.high g hg
  have := ok.ordered.eeprom
  have : u.stopOf .eeprom = s.eeprom.start.toNat + s.eeprom.size.toNat := by
    show u.eeprom.start.toNat + u.eeprom.size.toNat = _
    rw [hu.same.eeprom]
  rw [stop] at hstop
  rw [Gap.stop] at hgin hhigh
  refine ⟨?_, by omega, by omega, ?_, by omega, ?_, ?_⟩
  · rw [Cell.start, Cell.size]
    omega
  · obtain ⟨before, behind, rfl⟩ := append_of_mem hg
    exact hu.listed.chained.suffix.1.block_aligned
  · exact fun b hb hlt ht => ok.clear c hc b hb hlt (hu.touched_of_left ht)
  · exact fun b hb hlt => .inr ⟨g, hg, hb, by rw [Gap.stop]; omega⟩

lemma Copied.adds (ok : M.Ok s gs) (hu : M.Copied s gs made left u) (hc : c ∈ M.cells)
    (hg : M.gone c = none) (hn : ∀ p ∈ made, p.cell ≠ c) (hcan : c.Persistable)
    (P : Place M s u left c g) (hcopy : copy.toNat = g.block.toNat + c.head) (same : u.Same t)
    (ha : Agrees (fun b => ¬ touched u left b ∧
      (b < c.oop.toNat - 4 ∨ c.oop.toNat ≤ b)) u.mem t.mem)
    (hpeek : ∀ i < c.size, t.mem.peek (g.block.toNat + i) = u.mem.peek (c.start + i))
    (leads : Holds t.mem c.oop (copy + 2) c.count)
    (listed : Listed t left') (shrunk : Shrunk gs (⟨c, copy⟩ :: made) left')
    (forwarded : t.persistent.forwarded = c.oop :: u.persistent.forwarded)
    (bytes : t.persistent.bytesCopied.toNat = c.size + u.persistent.bytesCopied.toNat) :
    Adds M s gs made u ⟨c, copy⟩ left' t := by
  have : c.head = Header.bytes c.count := rfl
  have := c.size_eq
  have := c.start_eq
  have := ok.head_le hc
  have := c.stop_eq
  have := P.target
  have := ha.size
  have haligned := P.aligned
  have := c.head_cases
  have header : Holds t.mem copy c.kind c.count := by
    refine (hu.rest c hc hg hn).moved ha.order (by omega) (by omega) (by omega) fun i hi => ?_
    rw [show copy.toNat - Header.bytes c.count = g.block.toNat by omega]
    exact hpeek i (by omega)
  refine ⟨hu.extend ok hc hg hn hcan same ha listed shrunk forwarded bytes header leads, ?_, ?_, ?_⟩
  · intro h0
    have h0 : copy = 0 := h0
    rw [h0, UInt32.toNat_zero] at hcopy
    omega
  · intro x hx
    have : x + 4 ≤ c.body := hx
    show t.mem.peekWord (copy.toNat + x) = s.mem.peekWord (c.oop.toNat + x)
    rw [← hu.agrees.peekWord (c.oop.toNat + x) fun i hi => ok.body_spared hc (by omega) (by omega)]
    refine peekWord_congr ha.order fun i hi => ?_
    have := hpeek (c.head + x + i) (by omega)
    rwa [show g.block.toNat + (c.head + x + i) = copy.toNat + x + i by omega,
      show c.start + (c.head + x + i) = c.oop.toNat + x + i by omega] at this
  · intro q hq x hx
    refine ha.peekWord _ fun i hi => hu.kept ok hc hq ?_ ?_
    · rw [Copy.start]
      omega
    · rw [Copy.stop]
      omega

lemma Copied.forward (ok : M.Ok s gs) {before behind : List Gap}
    (hu : M.Copied s gs made (before ++ g :: behind) u) (hc : c ∈ M.cells)
    (hg : M.gone c = none) (hn : ∀ p ∈ made, p.cell ≠ c) (hcan : c.Persistable)
    (hsize : size.toNat = c.size) (fits : size.toNat ≤ g.size.toNat) (same : u.Same t)
    (listed : Listed t (before ++ g.left size behind))
    (agrees : Agrees (fun b => ¬ touched u (before ++ g :: behind) b) u.mem t.mem)
    (hcopy : copy.toNat = g.block.toNat + c.head) :
    ∃ m, forwardTo c.oop copy (t.mem.move c.start g.block.toNat c.size) = .ok () m ∧
      ∀ l p, p.forwarded = c.oop :: u.persistent.forwarded →
        p.bytesCopied.toNat = c.size + u.persistent.bytesCopied.toNat →
        Adds M s gs made u ⟨c, copy⟩ (before ++ g.left size behind)
          { t with mem := m, log := l, persistent := p } := by
  have P := hu.place ok hc (g := g) (by simp) (by omega)
  have := c.head_cases
  have := ok.head_le hc
  have := c.start_eq
  have := c.size_eq
  have hrest := hu.rest c hc hg hn
  have hkeep := agrees.move P.source P.target P.gap
  have hmoved : ∀ i < c.size, _ := fun i hi => agrees.peek_moved P.source P.target
    (fun b hb hlt => P.clear b hb (by omega)) hi
  have := P.high
  have := P.aligned
  have hheader := hrest.agrees hkeep fun b hb hlt => P.clear b hb (by omega)
  obtain ⟨w, hw, hleads⟩ := hheader.forwardTo (e := copy) (by omega) (by omega)
  refine ⟨_, hw, fun l p hforwarded hbytes => ?_⟩
  have hsame := Same.of_setPersistent t
    ((t.mem.move c.start g.block.toNat c.size).pokeWord (c.oop.toNat - 4) w) l p
  generalize hv : { t with
    mem := (t.mem.move c.start g.block.toNat c.size).pokeWord (c.oop.toNat - 4) w, log := l,
    persistent := p } = v at hsame ⊢
  have hmem : v.mem = (t.mem.move c.start g.block.toNat c.size).pokeWord (c.oop.toNat - 4) w := by
    rw [← hv]
  have hp : v.persistent = p := by rw [← hv]
  rw [← hp] at hforwarded hbytes
  have hpoke : Agrees (fun b => b < c.oop.toNat - 4 ∨ c.oop.toNat ≤ b)
      (t.mem.move c.start g.block.toNat c.size) v.mem := by
    rw [hmem]
    exact .poked fun b hb => by omega
  have hall : Agrees (fun b => ¬ touched u (before ++ g :: behind) b ∧
      (b < c.oop.toNat - 4 ∨ c.oop.toNat ≤ b)) u.mem v.mem :=
    (hkeep.mono fun b hb => hb.1).trans (hpoke.mono fun b hb => hb.2)
  have hpeek : ∀ i < c.size, v.mem.peek (g.block.toNat + i) = u.mem.peek (c.start + i) := by
    intro i hi
    have hgap := hu.touched_of_left (P.gap (g.block.toNat + i) (by omega) (by omega))
    exact (hpoke.peek _ (ok.touched_apart hc hgap)).trans (hmoved i hi)
  have hshrunk : Shrunk gs (⟨c, copy⟩ :: made) (before ++ g.left size behind) :=
    hu.shrunk.take hu.listed.chained hu.listed.small hsize fits hcopy
  have hlisted : Listed v (before ++ g.left size behind) := by
    have := P.source
    have := P.target
    have := agrees.size
    have hout : Agrees (fun b => b < g.block.toNat ∨ g.block.toNat + size.toNat ≤ b) t.mem
        (t.mem.move c.start g.block.toNat c.size) :=
      ⟨size_move (by omega) (by omega), order_move .., fun b hb =>
        (peek_move (by omega) (by omega)).trans (if_neg (by omega))⟩
    have hset := Same.of_setMem t (t.mem.move c.start g.block.toNat c.size)
    refine (hu.listed.fill same listed fits hset hout).agrees (hset.symm.trans hsame) hpoke
      fun b hb => ?_
    exact ok.touched_apart hc (hshrunk.touched (hu.same.trans (same.trans hset)) hb)
  exact hu.adds ok hc hg hn hcan P hcopy (same.trans hsame) hall hpeek (hmem ▸ hleads) hlisted
    hshrunk
    hforwarded hbytes

/-- What an attempt to copy an object gives: nothing if no gap has room for it, or a copy. -/
def Attempted (M : Migration) (s : Store) (gs : List Gap) (made : List Copy) (left : List Gap)
    (u : Store) (c : Cell) (copy : UInt32) (t : Store) : Prop :=
  c.Persistable ∧ ((copy = 0 ∧ t = u ∧ ∀ g ∈ left, g.size.toNat < c.size) ∨
    ∃ left', Adds M s gs made u ⟨c, copy⟩ left' t)

/-- The object may not be migrated, and nothing but the log has changed. -/
def Refused (u : Store) (c : Cell) (f : Fault) (t : Store) : Prop :=
  ¬ c.Persistable ∧ (∃ n, f = .fatal (.classNotPersistable c.oop n)) ∧ ∃ log, t = u.setLog log

lemma Copied.copyObject_stops (ok : M.Ok s gs) (hu : M.Copied s gs made left u)
    (hc : c ∈ M.cells) (hg : M.gone c = none) (hn : ∀ p ∈ made, p.cell ≠ c) :
    Stops (copyObject c.oop) u (Attempted M s gs made left u c) (Refused u c) := by
  have htyped := ok.typed c hc
  have hfixed := ok.fixed_of hu.agrees
  have hh := hu.rest c hc hg hn
  have := ok.listed.small
  have hstop := ok.stop_le c hc
  have := c.head_cases
  have := htyped.body_aligned
  have := c.size_eq
  obtain ⟨number, hnumber⟩ := ok.number c hc
  obtain ⟨block, head, _, hext⟩ := htyped.extent hfixed hh
  obtain ⟨len, hlen, hlen'⟩ := htyped.size u.mem c.oop c.kind hfixed hh
  have hblock := hext.block_eq
  have hhead := hext.head_eq
  have := hu.shrunk.total
  have := ok.listed.chained.total_le
  have := hu.bytes
  rw [stop] at hstop
  have hreq : (head + len).toNat = c.size := by
    rw [toNat_plus] <;> omega
  have refuse : ¬ c.Persistable → ∀ {α : Type} {f : α → Run UInt32}, Stops (do
      let number ← Class.number c.kind
      f (← fatal (.classNotPersistable c.oop number))) u (Attempted M s gs made left u c)
      (Refused u c) :=
    fun hno => .read_bind (hnumber u.mem hfixed) (.bind (Q := fun _ _ => False)
      (.fatal fun log => ⟨hno, ⟨number, rfl⟩, log, rfl⟩) fun _ _ h => h.elim)
  refine .read_bind (hh.classOf htyped.kind_aligned htyped.kind_ne)
    (.read_bind (hu.shape_eq ok hc hg hn) ?_)
  have copies : c.Persistable → Stops (do
      let block ← Block.ofObject c.oop
      let header ← minus c.oop block
      let size ← plus header (← bodySizeAs c.oop c.kind)
      let chunk ← take size false
      if chunk == 0 then return 0
      copyBytes block chunk size
      let total ← plus (← get).persistent.bytesCopied size
      update fun p => { p with bytesCopied := total }
      let copy ← plus chunk header
      forwardTo c.oop copy
      update fun p => { p with forwarded := c.oop :: p.forwarded }
      say .trace .migration fun _ =>
        Hex.word c.oop ++ " -> " ++ Hex.word copy ++ s!" ({size} bytes)"
      return copy : Run UInt32) u (Attempted M s gs made left u c) (Refused u c) := by
    intro hcan
    refine .read_bind hext.ofObject (.except_bind hext.minus (.read_bind hlen
      (.except_bind (plus_eq (by omega)) ?_)))
    obtain ⟨size, hsize, htake⟩ := hu.listed.take_ends (head + len) false (by omega)
    refine .after (Ends.and_yields htake take_persistent) fun chunk t ht => ?_
    obtain ⟨served, hpersistent⟩ := ht
    have hsize : size.toNat = c.size := by omega
    cases served with
    | refused short => exact .pure ⟨hcan, .inl ⟨rfl, rfl, fun g hg => hsize ▸ short g hg⟩⟩
    | @taken before behind g t split short fits same listed agrees _ =>
      subst split
      have P := hu.place ok hc (g := g) (by simp) (by omega)
      have hlow := P.low
      have := P.high
      have hne : (g.block == 0) = false := by
        rw [beq_eq_false_iff_ne]
        rintro h0
        rw [h0, UInt32.toNat_zero] at hlow
        omega
      have hcopy : (g.block + head).toNat = g.block.toNat + c.head := by
        rw [toNat_plus (by omega), hhead]
      have hmove : copyBytes block g.block (head + len) t.mem =
          .ok () (t.mem.move c.start g.block.toNat c.size) := by
        have := P.source
        have := P.target
        have := agrees.size
        have hstart := c.start_eq
        rw [copyBytes_eq ?_ ?_ (by omega) (by omega), hreq, hblock, hstart]
        · rintro h0
          rw [h0, UInt32.toNat_zero] at hreq
          omega
        · intro he
          rw [he] at hblock
          exact P.clear g.block.toNat (by omega) (by omega) (P.gap _ (by omega) (by omega))
      obtain ⟨m, hforward, hadds⟩ := hu.forward ok hc hg hn hcan hsize fits same listed agrees hcopy
      obtain ⟨total, hplus, htotal⟩ : ∃ total,
        plus t.persistent.bytesCopied (head + len) = .ok total ∧
          total.toNat = c.size + u.persistent.bytesCopied.toNat := by
        rw [hpersistent]
        exact ⟨_, plus_eq (by omega), by rw [toNat_plus (by omega)]; omega⟩
      generalize t.mem.move c.start g.block.toNat c.size = n at hmove hforward
      rw [hne, if_neg Bool.false_ne_true]
      refine .edit_bind hmove (.get_bind (.except_bind hplus (.modify_bind
        (.except_bind (plus_eq (by omega)) (.edit_bind hforward (.modify_bind (.say_bind fun log =>
          .pure ⟨hcan, .inr ⟨_, hadds log { t.persistent with
            bytesCopied := total, forwarded := c.oop :: t.persistent.forwarded } ?_ htotal⟩⟩)))))))
      rw [hpersistent]
  cases hs : c.shape with
  | stackChunk => exact refuse fun h => h.1 hs
  | classState n => exact refuse fun h => h.2 n hs
  | primitive | references | record =>
    exact copies (by simp [Persistable, isChunk, hs])

end Migration

end Persistent

end DeviceVm
