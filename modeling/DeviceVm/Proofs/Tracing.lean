import DeviceVm.Collection.Tracing
import DeviceVm.Proofs.Bits
import DeviceVm.Proofs.Record
import DeviceVm.Proofs.Traversal

/-!
Marking with a bounded stack. Every marked object is on the mark stack, or all that it refers to
is marked, unless a push was dropped and the objects are gone through once more. Each round that
drops a push has marked an object, so that the rounds come to an end.

A `Graph` is what marking works on. While it runs only the bitmap and the mark stack are written,
so that the objects themselves are read from the store as it was at the start.
-/

namespace DeviceVm

open SegmentRecord BitRange Traversal MarkStack List Memory Cell Store Word

namespace Store

/-- The stores differ in memory, bits, marks and log at most. -/
def Alike (s t : Store) : Prop :=
  t = { s with mem := t.mem, bits := t.bits, marks := t.marks, log := t.log }

namespace Alike

variable {s t u : Store}

lemma refl (s : Store) : s.Alike s := rfl

lemma trans (h : s.Alike t) (h' : t.Alike u) : s.Alike u := by
  unfold Alike at *
  rw [h', h]

lemma rom (h : s.Alike t) : t.rom = s.rom := (congrArg Store.rom h :)
lemma eeprom (h : s.Alike t) : t.eeprom = s.eeprom := (congrArg Store.eeprom h :)
lemma ram (h : s.Alike t) : t.ram = s.ram := (congrArg Store.ram h :)

lemma setMem (h : s.Alike t) (m : Memory) : s.Alike (t.setMem m) := h.trans rfl
lemma setBits (h : s.Alike t) (v : BitVector) : s.Alike (t.setBits v) := h.trans rfl
lemma setLog (h : s.Alike t) (l : Log) : s.Alike (t.setLog l) := h.trans rfl

end Alike

@[simps]
def setMarks (s : Store) (marks : MarkStack) : Store := { s with marks }

section

variable {s : Store} {k : MarkStack}

lemma Alike.setMarks {t : Store} (h : s.Alike t) (k : MarkStack) : s.Alike (t.setMarks k) :=
  h.trans rfl

end

end Store

/-- The words from `base` on hold the objects, the last one first. -/
def MarkStack.Stacks (base : Nat) (m : Memory) : List UInt32 → Prop
  | [] => True
  | a :: rest => m.peekWord (base + 4 * rest.length) = a ∧ Stacks base m rest

lemma MarkStack.Stacks.congr {base : Nat} {m n : Memory} {l : List UInt32}
    (h : ∀ i < l.length, n.peekWord (base + 4 * i) = m.peekWord (base + 4 * i))
    (hs : Stacks base m l) : Stacks base n l := by
  induction l with
  | nil => trivial
  | cons a l ih =>
    refine ⟨?_, ih (fun i hi => h i (by simp only [length_cons]; omega)) hs.2⟩
    rw [h l.length (by simp), hs.1]

/-- The words of an object that a traversal in place visits. -/
def Cell.Slot (c : Cell) (x : Nat) : Prop :=
  if c.isChunk then
    x = 0 ∨ x = 4 ∨ x = 8 ∨ ∃ f ∈ c.frames, f.touches 0 x ∧ x + 16 ≠ f.pos
  else ∃ i < c.slots, c.refs i = true ∧ x = 4 * i

lemma Frames.congr {w w' : Nat → UInt32} {body last pos : Nat} {fs : List Activation}
    (h : Frames w body last pos fs) (hw : ∀ x, x + 4 ≤ body → w' x = w x) :
    Frames w' body last pos fs := by
  have stands : ∀ {f : Activation}, f.Stands w body → f.Stands w' body := by
    intro f hs
    have := hs.low
    have := hs.high
    refine ⟨hs.aligned, hs.low, hs.high, ?_, ?_⟩
    · rw [hw _ (by omega)]
      exact hs.method
    · rw [hw _ (by omega)]
      exact hs.entered
  induction h with
  | nil behind => exact .nil behind
  | fresh hs entered top => exact .fresh (stands hs) entered top
  | entered hs entered low eq apart range _ ih =>
    have := hs.low
    have := hs.high
    exact .entered (stands hs) entered low (by rw [hw _ (by omega)]; exact eq) apart range ih

/-- An object whose references can be read as long as the bytes `fixed` stay. -/
structure Cell.Readable (fixed : Nat → Prop) (m : Memory) (legal : UInt32 → Prop) (c : Cell) :
    Prop where
  typed : c.Typed fixed m
  header : Header.Holds m c.oop c.kind c.count
  kept_header : ∀ b, c.start ≤ b → b < c.oop.toNat → fixed b
  inside : c.stop ≤ m.size
  kept_body : c.shape ≠ .primitive → ∀ b, c.oop.toNat ≤ b → b < c.stop → fixed b
  legal : ∀ x, c.Slot x → legal (c.words m x)
  room : c.isChunk → 20 ≤ c.body
  frames : c.isChunk → c.words m 16 ≠ 0 → c.Framed m
  idle : c.isChunk → c.words m 16 = 0 → c.frames = []
  methods : ∀ f ∈ c.frames, ∀ n, Agrees fixed m n → f.Reads n
  owner : ∀ k, c.shape = .classState k → 4 ≤ c.body

namespace Cell.Readable

variable {fixed : Nat → Prop} {m n : Memory} {legal : UInt32 → Prop} {c : Cell}

section

variable (hc : c.Readable fixed m legal) {x : Nat}
include hc

lemma slot_inside (hx : c.Slot x) : x % 4 = 0 ∧ x + 4 ≤ c.body := by
  rw [Slot] at hx
  split at hx
  · rename_i hch
    have := hc.room hch
    rcases hx with rfl | rfl | rfl | ⟨f, hf, ht, _⟩
    · exact ⟨rfl, by omega⟩
    · exact ⟨rfl, by omega⟩
    · exact ⟨rfl, by omega⟩
    by_cases h0 : c.words m 16 = 0
    · rw [hc.idle hch h0] at hf
      cases hf
    · have := ((hc.frames hch h0).frames.stands hf).touched ht
      exact ⟨this.2.1, this.2.2.1⟩
  · have := hc.typed.slots_le
    exact ⟨by omega, by omega⟩

lemma shape_ne (hx : c.Slot x) : c.shape ≠ .primitive := by
  intro hs
  have hr := hc.typed.slots _ (.refl _)
  rw [Slot, if_neg (by rw [isChunk, hs]; exact fun h => by cases h)] at hx
  simp only [SlotsRead, hs] at hr
  omega

lemma holds (hm : Agrees fixed m n) : Header.Holds n c.oop c.kind c.count :=
  hc.header.agrees hm hc.kept_header

lemma word_eq (hs : c.shape ≠ .primitive) (hm : Agrees fixed m n)
    (hx : x + 4 ≤ c.body) : n.peekWord (c.oop.toNat + x) = c.words m x :=
  hm.peekWord _ fun i hi => hc.kept_body hs _ (by omega) (by rw [stop]; omega)

lemma slot_eq (hm : Agrees fixed m n) (hx : c.Slot x) :
    c.words n x = c.words m x :=
  hc.word_eq (hc.shape_ne hx) hm (hc.slot_inside hx).2

lemma later {fixed' : Nat → Prop} {legal' : UInt32 → Prop} (hm : Agrees fixed m n)
    (hf : ∀ b, fixed b → fixed' b) (hl : ∀ v, legal v → legal' v) : c.Readable fixed' n legal' := by
  have chunk : c.isChunk → c.shape ≠ .primitive := fun hch => by
    rw [show c.shape = .stackChunk from hch]
    exact fun h => by cases h
  have words : c.isChunk → ∀ x, x + 4 ≤ c.body → c.words n x = c.words m x := fun hch x hx =>
    hc.word_eq (chunk hch) hm hx
  have onward : ∀ {k : Memory}, Agrees fixed' n k → Agrees fixed m k := fun hk =>
    hm.trans (hk.mono hf)
  constructor
  case typed =>
    refine ⟨hc.typed.kind_ne, hc.typed.kind_aligned, hc.typed.body_aligned, hc.typed.slots_le,
      fun k oop low hk => hc.typed.size k oop low (onward hk), ?_, fun k hk =>
      hc.typed.slots k (onward hk)⟩
    intro k oop low hk hh hstate
    refine hc.typed.shape k oop low (onward hk) hh fun j hj => (hstate j hj).trans ?_
    have := hc.owner j hj
    exact hc.word_eq (x := 0) (by rw [hj]; exact fun h => by cases h) hm (by omega)
  case header => exact hc.holds hm
  case kept_header => exact fun b hlo hhi => hf b (hc.kept_header b hlo hhi)
  case inside =>
    rw [hm.size]
    exact hc.inside
  case kept_body => exact fun hs b hlo hhi => hf b (hc.kept_body hs b hlo hhi)
  case legal =>
    intro x hx
    rw [hc.slot_eq hm hx]
    exact hl _ (hc.legal x hx)
  case room => exact hc.room
  case frames =>
    intro hch h16
    have hroom := hc.room hch
    rw [words hch 16 (by omega)] at h16
    have hframed := hc.frames hch h16
    refine ⟨hch, hroom, ?_, ?_⟩
    · rw [words hch 16 (by omega)]
      exact hframed.last
    · rw [words hch 16 (by omega)]
      exact hframed.frames.congr (words hch)
  case idle =>
    intro hch h16
    have := hc.room hch
    rw [words hch 16 (by omega)] at h16
    exact hc.idle hch h16
  case methods => exact fun f hf k hk => hc.methods f hf k (onward hk)
  case owner => exact hc.owner

end

end Cell.Readable

/-- What a marker works on, whichever it is: the objects that may be marked, a bitmap, a mark stack
of `capacity` words, the object that a reference leads to, and the objects that should be found. -/
structure Graph where
  cells : List Cell
  origin : Store
  range : BitRange
  bits : Nat → Bool
  base : Nat
  capacity : Nat
  lead : UInt32 → Option UInt32
  legal : UInt32 → Prop
  live : Cell → Prop

namespace Graph

variable (G : Graph)

/-- Marking does not write the byte. -/
def kept (b : Nat) : Prop :=
  ¬ G.range.covers b ∧ ¬ (G.base ≤ b ∧ b < G.base + 4 * G.capacity)

/-- An object whose references can be read while marking runs. -/
abbrev Readable (c : Cell) : Prop := c.Readable G.kept G.origin.mem G.legal

/-- What the object refers to should be found with it. -/
def Leads (c : Cell) : Prop :=
  ∀ x, c.Slot x → ∀ d ∈ G.cells, G.lead (c.words G.origin.mem x) = some d.oop → G.live d

/-- The bitmap and the mark stack have places of their own, and the objects to be found can be read,
have bits and lead to each other only. -/
structure Ok : Prop where
  small : G.origin.mem.size ≤ 16777216
  mapped : G.range.Mapped G.origin.mem.size
  stack_aligned : G.base % 4 = 0
  stack_inside : G.base + 4 * G.capacity ≤ G.origin.mem.size
  apart : ∀ b, G.range.covers b → ¬ (G.base ≤ b ∧ b < G.base + 4 * G.capacity)
  readable : ∀ c ∈ G.cells, G.live c → G.Readable c
  spans : ∀ c ∈ G.cells, G.range.Spans c.oop.toNat
  distinct : ∀ c ∈ G.cells, ∀ d ∈ G.cells, c.oop = d.oop → c = d
  few : G.cells.length < G.origin.mem.size
  lead : ∀ v, G.legal v → ∀ a, G.lead v = some a → ∃ c ∈ G.cells, c.oop = a
  closed : ∀ c ∈ G.cells, G.live c → G.Leads c

def Marked (s : Store) (c : Cell) : Prop := G.range.holds s.mem c.oop.toNat = true

instance (s : Store) (c : Cell) : Decidable (G.Marked s c) :=
  inferInstanceAs (Decidable (_ = _))

/-- How many objects have not been marked. -/
def left (s : Store) : Nat := G.cells.countP fun c => !G.range.holds s.mem c.oop.toNat

/-- The object that the word at `a` leads to is marked. -/
def Followed (a : Nat) (s : Store) : Prop :=
  ∀ d ∈ G.cells, G.lead (G.origin.mem.peekWord a) = some d.oop → G.Marked s d

/-- All references of the object were followed. -/
def Scanned (s : Store) (c : Cell) : Prop :=
  ∀ x, c.Slot x → G.Followed (c.oop.toNat + x) s

/-- No marked object is lost: each is on the stack, excused, or scanned. -/
def Accounted (excused : Cell → Prop) (stack : List UInt32) (s : Store) : Prop :=
  s.marks.overflowed = true ∨
    ∀ c ∈ G.cells, G.Marked s c → c.oop ∈ stack ∨ excused c ∨ G.Scanned s c

/-- The store while marking runs, with the objects on the mark stack. -/
structure Inv (stack : List UInt32) (level : Nat) (s : Store) : Prop where
  alike : G.origin.Alike s
  agrees : Agrees G.kept G.origin.mem s.mem
  range : s.bits.range = G.range
  rest : ∀ a, G.range.Spans a → (∀ c ∈ G.cells, c.oop.toNat ≠ a) →
    G.range.holds s.mem a = G.bits a
  inUse : s.marks.inUse = true
  base : s.marks.base.toNat = G.base
  capacity : s.marks.capacity.toNat = G.capacity
  level : s.marks.level.toNat = level
  depth : s.marks.depth.toNat = stack.length
  fits : stack.length ≤ G.capacity
  words : Stacks G.base s.mem stack
  nodup : stack.Nodup
  sound : ∀ c ∈ G.cells, G.Marked s c → G.live c
  pending : ∀ a ∈ stack, ∃ c ∈ G.cells, c.oop = a ∧ G.Marked s c

/-- What a piece of marking does: marks stay, and a push that is dropped or added is paid for by
a mark, up to `slack`. -/
structure Grows (slack : Nat) (s : Store) (stack : List UInt32) (t : Store)
    (stack' : List UInt32) : Prop where
  marked : ∀ c ∈ G.cells, G.Marked s c → G.Marked t c
  lost : t.marks.overflowed = true → s.marks.overflowed = true ∨ G.left t < G.left s + slack
  work : stack'.length + G.left t ≤ stack.length + G.left s + slack
  scan : t.bits.scan = s.bits.scan

/-- What holds when a piece of marking is done that started on `s` with `stack`. The stack it
leaves is as `only` says. -/
def After (excused : Cell → Prop) (only : List UInt32 → Prop) (level slack : Nat) (s : Store)
    (stack : List UInt32) (t : Store) : Prop :=
  ∃ stack', only stack' ∧ G.Inv stack' level t ∧ G.Accounted excused stack' t ∧
    G.Grows slack s stack t stack'

/-- What tracing does with an object that was just marked. -/
def Traces (only : List UInt32 → Prop) (level slack : Nat) (trace : UInt32 → Run Unit) : Prop :=
  ∀ ⦃c excused stack s⦄, c ∈ G.cells → c.oop ∉ stack → G.Marked s c → only stack →
    G.Inv stack level s → G.Accounted (fun d => excused d ∨ d = c) stack s →
    Ends (trace c.oop) s fun _ t => G.After excused only level slack s stack t

variable {G} {s t u : Store} {stack stack' : List UInt32} {level : Nat} {c d : Cell}
  {excused : Cell → Prop} {only : List UInt32 → Prop} {a : Nat}

lemma left_le (h : ∀ c ∈ G.cells, G.Marked s c → G.Marked t c) : G.left t ≤ G.left s := by
  apply countP_mono_left
  intro c hc hn
  cases hm : G.range.holds s.mem c.oop.toNat with
  | false => rfl
  | true => rw [h c hc hm] at hn; cases hn

lemma countP_lt {α : Type} {p q : α → Bool} {l : List α} (h : ∀ x ∈ l, p x → q x) {a : α}
    (ha : a ∈ l) (hq : q a = true) (hp : p a = false) : l.countP p < l.countP q := by
  induction l with
  | nil => cases ha
  | cons b l ih =>
    have hl : ∀ x ∈ l, p x → q x := fun x hx => h x (mem_cons_of_mem b hx)
    rw [countP_cons, countP_cons]
    rcases mem_cons.1 ha with rfl | ha
    · have := countP_mono_left hl
      simp only [hq, hp, if_true, Bool.false_eq_true, if_false]
      omega
    have := ih hl ha
    have hb := h b mem_cons_self
    by_cases hpb : p b = true
    · simp only [hpb, hb hpb]
      omega
    · simp only [hpb, Bool.false_eq_true, if_false]
      omega

lemma left_lt (h : ∀ c ∈ G.cells, G.Marked s c → G.Marked t c) (hc : c ∈ G.cells)
    (hs : ¬ G.Marked s c) (ht : G.Marked t c) : G.left t < G.left s := by
  refine countP_lt (fun d hd hn => ?_) hc (by simpa [Marked] using hs) (by simpa [Marked] using ht)
  cases hm : G.range.holds s.mem d.oop.toNat with
  | false => rfl
  | true => rw [h d hd hm] at hn; cases hn

namespace Grows

variable {m n : Nat}

lemma refl : G.Grows 0 s stack s stack :=
  ⟨fun _ _ h => h, .inl, Nat.le_refl _, rfl⟩

lemma trans {stack'' : List UInt32} (h : G.Grows m s stack t stack')
    (h' : G.Grows n t stack' u stack'') : G.Grows (m + n) s stack u stack'' where
  marked c hc hm := h'.marked c hc (h.marked c hc hm)
  lost ho := by
    have := left_le h'.marked
    have := left_le h.marked
    rcases h'.lost ho with ho | hlt
    · rcases h.lost ho with ho | hlt
      · exact .inl ho
      · exact .inr (by omega)
    · exact .inr (by omega)
  work := by
    have := h.work
    have := h'.work
    omega
  scan := h'.scan.trans h.scan

lemma mono (h : G.Grows m s stack t stack') (hmn : m ≤ n) :
    G.Grows n s stack t stack' where
  marked := h.marked
  lost ho := (h.lost ho).imp_right fun hlt => by omega
  work := by
    have := h.work
    omega
  scan := h.scan

end Grows

lemma Followed.mono (h : ∀ c ∈ G.cells, G.Marked s c → G.Marked t c)
    (hs : G.Followed a s) : G.Followed a t :=
  fun d hd hl => h d hd (hs d hd hl)

lemma Scanned.mono (h : ∀ c ∈ G.cells, G.Marked s c → G.Marked t c) (hs : G.Scanned s c) :
    G.Scanned t c :=
  fun x hx => (hs x hx).mono h

lemma Ok.oop_ne (hG : G.Ok) (hc : c ∈ G.cells) : c.oop ≠ 0 := by
  intro h0
  have hfirst := (hG.spans c hc).2.1
  have := hG.mapped.first_pos
  rw [h0, UInt32.toNat_zero] at hfirst
  omega

namespace Inv

variable {k : MarkStack}

lemma size_eq (h : G.Inv stack level s) : s.mem.size = G.origin.mem.size := h.agrees.size

lemma mapped (h : G.Inv stack level s) (hG : G.Ok) : G.range.Mapped s.mem.size :=
  h.size_eq ▸ hG.mapped

lemma holds_congr (hG : G.Ok) {m n : Memory} (ho : n.order = m.order)
    (h : ∀ b, ¬ (G.base ≤ b ∧ b < G.base + 4 * G.capacity) → n.peek b = m.peek b) {a : Nat}
    (ha : G.range.Spans a) : G.range.holds n a = G.range.holds m a :=
  BitRange.holds_congr ho fun _ hi => h _ (hG.apart _ (BitRange.Mapped.covers_word ha hi))

/-! ### Marks -/

lemma marked_raise (hG : G.Ok) (h : G.Inv stack level s) (hd : d ∈ G.cells) (hc : c ∈ G.cells) :
    G.Marked (s.setMem (G.range.raise s.mem d.oop.toNat)) c ↔ c = d ∨ G.Marked s c := by
  have hspan := hG.spans d hd
  have h4 := (hG.spans c hc).1
  simp only [Marked, setMem_mem, holds_raise (h.mapped hG).lies hspan h4,
    Bool.or_eq_true, decide_eq_true_eq]
  refine or_congr_left ⟨fun he => hG.distinct c hc d hd (UInt32.toNat_inj.1 he), ?_⟩
  rintro rfl
  rfl

lemma raise (hG : G.Ok) (h : G.Inv stack level s) (hd : d ∈ G.cells) (hlive : G.live d) :
    G.Inv stack level (s.setMem (G.range.raise s.mem d.oop.toNat)) where
  __ := h
  alike := h.alike.setMem _
  agrees := by
    refine h.agrees.trans ⟨size_raise, order_raise, fun b hb => ?_⟩
    exact peek_pokeWord_wordOf (hG.spans d hd) hb.1
  range := h.range
  rest a ha hn := by
    rw [setMem_mem, holds_raise (h.mapped hG).lies (hG.spans d hd) ha.1,
      decide_eq_false fun he => hn d hd he.symm, Bool.false_or]
    exact h.rest a ha hn
  words := by
    refine h.words.congr fun i hi => ?_
    have := h.fits
    apply peekWord_congr order_raise
    intro j hj
    apply peek_pokeWord_wordOf (hG.spans d hd)
    intro hcov
    exact hG.apart _ hcov ⟨by omega, by omega⟩
  nodup := h.nodup
  sound c hc hm := by
    rcases (marked_raise hG h hd hc).1 hm with rfl | hm
    · exact hlive
    · exact h.sound c hc hm
  pending a ha := by
    obtain ⟨c, hc, he, hm⟩ := h.pending a ha
    exact ⟨c, hc, he, (marked_raise hG h hd hc).2 (.inr hm)⟩

lemma marked_of_mem (h : G.Inv stack level s) (hG : G.Ok) (hc : c ∈ G.cells)
    (hm : c.oop ∈ stack) : G.Marked s c := by
  obtain ⟨d, hd, he, hm⟩ := h.pending c.oop hm
  exact hG.distinct c hc d hd he.symm ▸ hm

lemma mark_ends (hG : G.Ok) (h : G.Inv stack level s) (hd : d ∈ G.cells) (hlive : G.live d)
    {trace : UInt32 → Run Unit} (htrace : G.Traces only level 1 trace)
    (hacc : G.Accounted excused stack s) (honly : only stack) :
    Ends (do if !(← testAndSetBit d.oop) then trace d.oop) s fun _ t =>
      G.After excused only level 0 s stack t ∧ G.Marked t d := by
  have hspan := hG.spans d hd
  have hset : Ends (testAndSetBit d.oop) s fun b t =>
      b = G.range.holds s.mem d.oop.toNat ∧
        t = s.setMem (G.range.raise s.mem d.oop.toNat) := by
    refine .get_bind (.edit ?_ ⟨rfl, rfl⟩)
    rw [h.range]
    exact (h.mapped hG).lies.testAndSet_eq hspan
  refine .bind hset ?_
  rintro _ _ ⟨rfl, rfl⟩
  have h1 := h.raise hG hd hlive
  have hmark : ∀ c ∈ G.cells, G.Marked s c →
      G.Marked (s.setMem (G.range.raise s.mem d.oop.toNat)) c :=
    fun c hc hm => (marked_raise hG h hd hc).2 (.inr hm)
  have hself := (marked_raise hG h hd hd).2 (.inl rfl)
  by_cases hm : G.Marked s d
  · rw [if_neg (by simpa [Marked] using hm)]
    have hback : ∀ c ∈ G.cells,
        G.Marked (s.setMem (G.range.raise s.mem d.oop.toNat)) c → G.Marked s c := by
      intro c hc hmc
      rcases (marked_raise hG h hd hc).1 hmc with rfl | hmc
      · exact hm
      · exact hmc
    refine .pure ⟨⟨stack, honly, h1, ?_, hmark, .inl, ?_, rfl⟩, hself⟩
    · exact hacc.imp_right fun hacc c hc hmc =>
        (hacc c hc (hback c hc hmc)).imp_right (Or.imp_right (Scanned.mono hmark))
    · have := left_le hmark
      omega
  rw [if_pos (by simpa [Marked] using hm)]
  have hnot : d.oop ∉ stack := fun hin => hm (h.marked_of_mem hG hd hin)
  have hacc1 : G.Accounted (fun c => excused c ∨ c = d) stack
      (s.setMem (G.range.raise s.mem d.oop.toNat)) := by
    refine hacc.imp_right fun hacc c hc hmc => ?_
    rcases (marked_raise hG h hd hc).1 hmc with rfl | hmc
    · exact .inr (.inl (.inr rfl))
    · exact (hacc c hc hmc).imp_right fun h => h.elim (fun he => .inl (.inl he))
        fun hs => .inr (hs.mono hmark)
  refine (htrace hd hnot hself honly h1 hacc1).mono ?_
  rintro _ u ⟨stack', hon, hi, ha, hg⟩
  have := left_lt hmark hd hm hself
  refine ⟨⟨stack', hon, hi, ha, fun c hc hmc => hg.marked c hc (hmark c hc hmc), ?_, ?_,
    hg.scan⟩, hg.marked d hd hself⟩
  · exact fun ho => (hg.lost ho).imp_right fun hl => by omega
  · have := hg.work
    omega

/-! ### The mark stack -/

lemma points (hG : G.Ok) (h : G.Inv stack level s) {k : UInt32} (hk : k.toNat < G.capacity) :
    Points s.marks.base k.toInt32 (G.base + 4 * k.toNat) := by
  have := hG.stack_inside
  have := hG.small
  exact .nat (by omega) (by rw [h.base]) (by omega)

lemma setMarks (h : G.Inv stack level s) {level' : Nat}
    (hk : k.inUse = true ∧ k.base = s.marks.base ∧ k.capacity = s.marks.capacity ∧
      k.depth = s.marks.depth) (hl : k.level.toNat = level') :
    G.Inv stack level' (s.setMarks k) where
  __ := h
  alike := h.alike.setMarks k
  inUse := hk.1
  base := by rw [setMarks_marks, hk.2.1, h.base]
  capacity := by rw [setMarks_marks, hk.2.2.1, h.capacity]
  level := hl
  depth := by rw [setMarks_marks, hk.2.2.2, h.depth]

lemma push (hG : G.Ok) (h : G.Inv stack level s) (hc : c ∈ G.cells) (hm : G.Marked s c)
    (hn : c.oop ∉ stack) (hroom : stack.length < G.capacity)
    (hk : k.inUse = true ∧ k.base = s.marks.base ∧ k.capacity = s.marks.capacity ∧
      k.level = s.marks.level) (hdepth : k.depth.toNat = stack.length + 1) :
    G.Inv (c.oop :: stack) level
      ((s.setMem (s.mem.pokeWord (G.base + 4 * stack.length) c.oop)).setMarks k) ∧
    ∀ d, d ∈ G.cells → (G.Marked
      ((s.setMem (s.mem.pokeWord (G.base + 4 * stack.length) c.oop)).setMarks k) d ↔
        G.Marked s d) := by
  have := hG.stack_inside
  have := h.size_eq
  have hpeek : ∀ b, ¬ (G.base ≤ b ∧ b < G.base + 4 * G.capacity) →
      (s.mem.pokeWord (G.base + 4 * stack.length) c.oop).peek b = s.mem.peek b :=
    fun b hb => peek_pokeWord_ne _ (by omega)
  have hbits : ∀ a, G.range.Spans a →
      G.range.holds (s.mem.pokeWord (G.base + 4 * stack.length) c.oop) a =
        G.range.holds s.mem a :=
    fun a ha => holds_congr hG (order_pokeWord _) hpeek ha
  have hmarked : ∀ d, d ∈ G.cells → (G.Marked
      ((s.setMem (s.mem.pokeWord (G.base + 4 * stack.length) c.oop)).setMarks k) d ↔
        G.Marked s d) := by
    intro d hd
    simp only [Marked, setMarks_mem, setMem_mem, hbits _ (hG.spans d hd)]
  refine ⟨?_, hmarked⟩
  exact {
    alike := (h.alike.setMem _).setMarks _
    agrees := h.agrees.trans ⟨size_pokeWord _, order_pokeWord _,
      fun b hb => hpeek b hb.2⟩
    range := h.range
    rest := fun a ha hno => (hbits a ha).trans (h.rest a ha hno)
    inUse := hk.1
    base := by rw [setMarks_marks, hk.2.1, h.base]
    capacity := by rw [setMarks_marks, hk.2.2.1, h.capacity]
    level := by rw [setMarks_marks, hk.2.2.2, h.level]
    depth := hdepth
    fits := hroom
    words := by
      refine ⟨peekWord_pokeWord_self _ (by omega), h.words.congr fun i hi => ?_⟩
      exact peekWord_pokeWord_apart _ (.inl (by omega))
    nodup := nodup_cons.2 ⟨hn, h.nodup⟩
    sound := fun d hd hmd => h.sound d hd ((hmarked d hd).1 hmd)
    pending := fun a ha => by
      rcases mem_cons.1 ha with rfl | ha
      · exact ⟨c, hc, rfl, (hmarked c hc).2 hm⟩
      · obtain ⟨d, hd, he, hmd⟩ := h.pending a ha
        exact ⟨d, hd, he, (hmarked d hd).2 hmd⟩ }

lemma push_ends (hG : G.Ok) (h : G.Inv stack level s) (hc : c ∈ G.cells) (hm : G.Marked s c)
    (hn : c.oop ∉ stack) (hacc : G.Accounted (fun d => excused d ∨ d = c) stack s) :
    Ends (pushMark c.oop) s fun _ t => G.After excused (fun _ => True) level 1 s stack t := by
  have hd := h.depth
  have := h.capacity
  have := h.fits
  have huse : ∀ m : Memory, (liftM (require s.marks.inUse) : Edit Unit) m = .ok () m := by
    intro m
    rw [h.inUse]
    rfl
  rw [pushMark]
  apply Ends.get_bind
  by_cases hfull : s.marks.depth = s.marks.capacity
  · -- The push is dropped, and the flag tells that an object may be lost.
    have hword : s.marks.pushWord c.oop s.mem = .ok () s.mem := by
      rw [pushWord, Edit.bind_ok (huse _), if_neg (by simpa using hfull)]
      rfl
    have hpushed : s.marks.pushed = { s.marks with overflowed := true } := by
      rw [pushed, if_pos (by simpa using hfull)]
    refine .edit_bind hword (.modify ?_)
    rw [setMem_self, hpushed]
    exact ⟨stack, trivial, h.setMarks ⟨h.inUse, rfl, rfl, rfl⟩ h.level, .inl rfl,
      fun _ _ h => h, fun _ => .inr (Nat.lt_succ_self _), Nat.le_succ _, rfl⟩
  have hlt : s.marks.depth.toNat < G.capacity := by
    have : s.marks.depth.toNat ≠ s.marks.capacity.toNat := fun he =>
      hfull (UInt32.toNat_inj.1 he)
    omega
  have := hG.stack_inside
  have := hG.small
  have := h.size_eq
  have := hG.stack_aligned
  have := UInt32.toNat_one
  have hd1 : (s.marks.depth + 1).toNat = s.marks.depth.toNat + 1 := toNat_plus (by omega)
  have hword : s.marks.pushWord c.oop s.mem =
      .ok () (s.mem.pokeWord (G.base + 4 * stack.length) c.oop) := by
    rw [pushWord, Edit.bind_ok (huse _), if_pos (by simpa using hfull), ← hd]
    exact setWord_eq (h.points hG hlt) (by omega)
  have hpushed : s.marks.pushed = { s.marks with
      depth := s.marks.depth + 1, highWater := max s.marks.highWater (s.marks.depth + 1) } := by
    rw [pushed, if_neg (by simpa using hfull)]
  refine .edit_bind hword (.modify ?_)
  obtain ⟨hinv, hmarked⟩ := h.push hG hc hm hn (by omega) (k := s.marks.pushed)
    (by rw [hpushed]; exact ⟨h.inUse, rfl, rfl, rfl⟩)
    (by rw [hpushed]; exact hd1.trans (by rw [hd]))
  show G.After excused _ level 1 s stack ((s.setMem _).setMarks s.marks.pushed)
  have hmono := fun d hd => (hmarked d hd).mpr
  refine ⟨c.oop :: stack, trivial, hinv, ?_, hmono, ?_, ?_, rfl⟩
  · rw [Accounted, show s.marks.overflowed = s.marks.pushed.overflowed by rw [hpushed]] at hacc
    refine hacc.imp_right fun hacc d hd hmd => ?_
    rcases hacc d hd ((hmarked d hd).1 hmd) with hin | (hex | rfl) | hsc
    · exact .inl (mem_cons_of_mem _ hin)
    · exact .inr (.inl hex)
    · exact .inl mem_cons_self
    · exact .inr (.inr (hsc.mono hmono))
  · exact fun _ => .inr (Nat.lt_succ_of_le (left_le hmono))
  · have := left_le hmono
    simp only [length_cons]
    omega

lemma pop_nil_ends (h : G.Inv [] level s) :
    Ends popMark s fun a t => a = 0 ∧ t = s := by
  have h0 : s.marks.depth = 0 := UInt32.toNat_inj.1 h.depth
  have htop : s.marks.top s.mem = .ok 0 := by
    rw [top, Read.lift_ok (a := ()) (by simp [require, h.inUse]), if_pos (by simp [h0])]
    rfl
  have hpop : s.marks.popped = s.marks := by rw [popped, if_pos (by simp [h0])]
  apply Ends.get_bind
  refine .read_bind htop (.modify_bind (.pure ⟨rfl, ?_⟩))
  rw [hpop]

lemma pop_ends (hG : G.Ok) {a : UInt32} (h : G.Inv (a :: stack) level s) :
    Ends popMark s fun b t => b = a ∧ G.Inv stack level t ∧ t = s.setMarks t.marks ∧
      t.marks.overflowed = s.marks.overflowed := by
  have hd := h.depth
  have hfits := h.fits
  rw [length_cons] at hd hfits
  have h1 := UInt32.toNat_one
  have hd1 : (s.marks.depth - 1).toNat = stack.length := by
    rw [toNat_minus (by omega), hd, h1]
    rfl
  have hne : s.marks.depth ≠ 0 := fun h0 => by simp [h0] at hd
  have := hG.stack_inside
  have := h.size_eq
  have := hG.stack_aligned
  have hp : Points s.marks.base (s.marks.depth - 1).toInt32 (G.base + 4 * stack.length) := by
    rw [← hd1]
    exact h.points hG (by omega)
  have htop : s.marks.top s.mem = .ok a := by
    rw [top, Read.lift_ok (a := ()) (by simp [require, h.inUse]),
      if_neg (by simpa using hne), word_eq hp (by omega), h.words.1]
  have hpop : s.marks.popped = { s.marks with depth := s.marks.depth - 1 } := by
    rw [popped, if_neg (by simpa using hne)]
  apply Ends.get_bind
  refine .read_bind htop (.modify_bind (.pure ⟨rfl, ?_, rfl, by rw [hpop]⟩))
  rw [hpop]
  exact { h with
    alike := h.alike.setMarks _
    depth := hd1
    fits := by omega
    words := h.words.2
    nodup := (nodup_cons.1 h.nodup).2
    pending := fun b hb => h.pending b (mem_cons_of_mem a hb) }

end Inv

/-- The word at `a` is a reference that marking does not write. -/
structure Reference (G : Graph) (a : Nat) : Prop where
  aligned : a % 4 = 0
  inside : a + 4 ≤ G.origin.mem.size
  kept : ∀ i < 4, G.kept (a + i)
  legal : G.legal (G.origin.mem.peekWord a)
  live : ∀ d ∈ G.cells, G.lead (G.origin.mem.peekWord a) = some d.oop → G.live d

lemma Reference.word_eq {base : UInt32} {index : Int32} {m : Memory}
    (h : G.Reference a) (hm : Memory.Agrees G.kept G.origin.mem m) (hp : Points base index a) :
    Memory.word base index m = .ok (G.origin.mem.peekWord a) := by
  rw [Memory.word_eq hp ⟨h.aligned, (by rw [hm.size]; exact h.inside)⟩,
    hm.peekWord a fun i hi => h.kept i hi]

end Graph

/-- What is left to do for a word that leads to `target`. -/
def Pursues (trace : UInt32 → Run Unit) (s : Store) (post : Unit → Store → Prop) :
    (target : Option UInt32) → Prop
  | none => post () s
  | some oop => Ends (do if !(← testAndSetBit oop) then trace oop) s post

/-- A visit of a word marks the object that the word leads to, and does nothing else. -/
def Tracer.Follows (tr : Tracer) (G : Graph) : Prop :=
  ∀ ⦃trace : UInt32 → Run Unit⦄ ⦃s : Store⦄ ⦃base : UInt32⦄ ⦃index : Int32⦄ ⦃a : Nat⦄
    ⦃post : Unit → Store → Prop⦄, G.origin.Alike s → Agrees G.kept G.origin.mem s.mem →
    G.Reference a → Points base index a →
    Pursues trace s post (G.lead (G.origin.mem.peekWord a)) → Ends (tr trace base index) s post

namespace Graph

variable {G : Graph} {s t u : Store} {stack stack' : List UInt32} {level : Nat} {c d : Cell}
  {excused : Cell → Prop} {only : List UInt32 → Prop} {tr : Tracer} {trace : UInt32 → Run Unit}
  {n m : Nat} {f : MarkStack → Except Fault MarkStack} {k : MarkStack}

/-! ### Words and objects -/

lemma After.trans (h : G.Grows m s stack t stack')
    (h' : G.After excused only level n t stack' u) :
    G.After excused only level (m + n) s stack u := by
  obtain ⟨stack'', hon, hi, ha, hg⟩ := h'
  exact ⟨stack'', hon, hi, ha, h.trans hg⟩

lemma After.marked (h : G.After excused only level n s stack t) (hc : c ∈ G.cells)
    (hm : G.Marked s c) : G.Marked t c := by
  obtain ⟨_, _, _, _, hg⟩ := h
  exact hg.marked c hc hm

section

variable (hG : G.Ok) (hf : tr.Follows G) (htrace : G.Traces only level 1 trace)
  {a : Nat} {base : UInt32} {index : Int32}
include hG hf htrace

lemma visit_ends (hr : G.Reference a)
    (hp : Points base index a) (h : G.Inv stack level s) (hacc : G.Accounted excused stack s)
    (honly : only stack) :
    Ends (tr trace base index) s fun _ t =>
      G.After excused only level 0 s stack t ∧ G.Followed a t := by
  apply hf h.alike h.agrees hr hp
  cases hl : G.lead (G.origin.mem.peekWord a) with
  | none =>
    refine ⟨⟨stack, honly, h, hacc, .refl⟩, fun d _ he => ?_⟩
    rw [hl] at he
    cases he
  | some oop =>
    obtain ⟨d, hd, rfl⟩ := hG.lead _ hr.legal _ hl
    refine (h.mark_ends hG hd (hr.live d hd hl) htrace hacc honly).mono ?_
    rintro _ t ⟨ha, hm⟩
    refine ⟨ha, fun e he hle => ?_⟩
    rw [hl] at hle
    exact hG.distinct d hd e he (Option.some.inj hle) ▸ hm

lemma revisit_ends (hr : G.Reference a)
    (hp : Points base index a) (h : G.After excused only level 0 s stack t) :
    Ends (tr trace base index) t fun _ u =>
      G.After excused only level 0 s stack u ∧ G.Followed a u ∧
        ∀ c ∈ G.cells, G.Marked t c → G.Marked u c := by
  obtain ⟨stack', hon, hi, ha, hg⟩ := h
  refine (visit_ends hG hf htrace hr hp hi ha hon).mono ?_
  rintro _ u ⟨hu, hfol⟩
  exact ⟨.trans hg hu, hfol, fun c hc hm => hu.marked hc hm⟩

end

lemma Readable.reference (hc : G.Readable c) (hl : G.Leads c) {x : Nat} (hx : c.Slot x) :
    G.Reference (c.oop.toNat + x) where
  aligned := by
    have := (hc.slot_inside hx).1
    have := hc.header.aligned
    omega
  inside := by
    have := (hc.slot_inside hx).2
    have h2 := hc.inside
    rw [stop] at h2
    omega
  kept i hi := by
    have := (hc.slot_inside hx).2
    exact hc.kept_body (hc.shape_ne hx) _ (by omega) (by rw [stop]; omega)
  legal := hc.legal x hx
  live := hl x hx

section

variable (hG : G.Ok) (hf : tr.Follows G) (htrace : G.Traces only level 1 trace)
  (hc : G.Readable c) (hl : G.Leads c)
include hG hf htrace hc hl

lemma chunk_ends (hch : c.isChunk) (h : G.Inv stack level s)
    (hacc : G.Accounted excused stack s) (honly : only stack) :
    Ends (chunkInPlace (tr trace) c.oop) s fun _ t =>
      G.After excused only level 0 s stack t ∧ G.Scanned t c := by
  have hshape : c.shape ≠ .primitive := by
    rw [show c.shape = .stackChunk from hch]
    exact fun h => by cases h
  have hroom := hc.room hch
  have hin := hc.inside
  have hal := hc.header.aligned
  have hsmall := hG.small
  rw [stop] at hin
  let I : (Nat → Prop) → Store → Prop := fun done t =>
    G.After excused only level 0 s stack t ∧
      ∀ x, done x → c.Slot x → G.Followed (c.oop.toNat + x) t
  have step : ∀ {done t x base index}, I done t → c.Slot x → Points base index (c.oop.toNat + x) →
      Ends (tr trace base index) t fun _ u => I (also done x) u := by
    intro done t x base index hi hx hp
    refine (revisit_ends hG hf htrace (hc.reference hl hx) hp hi.1).mono ?_
    rintro _ u ⟨hu, hfol, hmono⟩
    refine ⟨hu, ?_⟩
    rintro y (hy | rfl) hys
    · exact (hi.2 y hy hys).mono hmono
    · exact hfol
  have agrees : ∀ {done t}, I done t → Agrees G.kept G.origin.mem t.mem := by
    rintro done t ⟨⟨_, _, hi, _, _⟩, _⟩
    exact hi.agrees
  have walk : Walk I (tr trace) c.oop.toNat c.body (c.words G.origin.mem) 0 c.frames := {
    inside := fun hi => by
      rw [(agrees hi).size]
      exact ⟨hin, hsmall⟩
    unvisited := fun hi _ hx _ => hc.word_eq hshape (agrees hi) hx
    reads := fun hi hfr => hc.methods _ hfr _ (agrees hi)
    visit := fun hi hfr ht hne _ hp => step hi (by
      rw [Slot, if_pos hch]
      exact .inr (.inr (.inr ⟨_, hfr, ht, hne⟩))) hp
    code := fun {done t f} hi hfr _ _ => by
      have hstands : f.Stands (c.words G.origin.mem) c.body := by
        by_cases h0 : c.words G.origin.mem 16 = 0
        · rw [hc.idle hch h0] at hfr
          cases hfr
        · exact (hc.frames hch h0).frames.stands hfr
      have := hstands.low
      have := hstands.high
      have hm := hc.word_eq hshape (agrees hi) (x := f.pos - 20) (by omega)
      have hp := hc.word_eq hshape (agrees hi) (x := f.pos - 16) (by omega)
      have hself : t.mem.pokeWord (c.oop.toNat + (f.pos - 16))
          (t.mem.peekWord (c.oop.toNat + (f.pos - 20)) +
            (c.words G.origin.mem (f.pos - 16) - c.words G.origin.mem (f.pos - 20))) = t.mem := by
        rw [hm, ← hp, UInt32.add_comm, UInt32.sub_add_cancel]
        exact pokeWord_peekWord (by rw [(agrees hi).size]; omega)
      rw [hself, setMem_self]
      refine ⟨hi.1, ?_⟩
      rintro y (hy | rfl) hys
      · exact hi.2 y hy hys
      -- An instruction pointer is no reference of another frame.
      rw [Slot, if_pos hch] at hys
      rcases hys with h0 | h4 | h8 | ⟨g, hg, ht, hne⟩
      · omega
      · omega
      · omega
      have h0 : c.words G.origin.mem 16 ≠ 0 := fun h0 => by
        rw [hc.idle hch h0] at hfr
        cases hfr
      have hframes := (hc.frames hch h0).frames
      have hf1 := hframes.find_eq hfr (x := f.pos - 16) ⟨by omega, by omega⟩
      have hf2 := hframes.find_eq hg ((hframes.stands hg).touched ht).1
      rw [hf1] at hf2
      rw [← Option.some.inj hf2] at hne
      omega
    link := fun _ _ _ h0 => absurd rfl h0 }
  have points : ∀ {j : Nat} {index : Int32}, index.toInt = j → j < 3 →
      Points c.oop index (c.oop.toNat + 4 * j) := by
    intro j index hj hlt
    exact .lit j hj (by omega)
  have start : I (fun _ => False) s := ⟨⟨stack, honly, h, hacc, .refl⟩, fun _ hx => hx.elim⟩
  have hlast : c.words G.origin.mem 16 ≠ 0 → (c.words G.origin.mem 16 + (c.oop - c.oop)).toNat =
      c.oop.toNat + ((c.words G.origin.mem 16).toNat - c.oop.toNat) := by
    intro h0
    have := (hc.frames hch h0).last
    rw [UInt32.sub_self, UInt32.add_zero]
    omega
  refine .bind (walk.frames_ends hal rfl (UInt32.sub_self _) hroom start (fun _ _ hx => hx) hlast
    (fun h0 => (hc.frames hch h0).frames) (fun _ _ h0 => absurd rfl h0)) fun _ t1 h1 => ?_
  have slot : ∀ x, x = 0 ∨ x = 4 ∨ x = 8 → c.Slot x := by
    intro x hx
    rw [Slot, if_pos hch]
    tauto
  refine .bind (step h1 (slot 0 (by simp)) (points (j := 0) rfl (by omega))) fun _ t2 h2 => ?_
  refine .bind (step h2 (slot 4 (by simp)) (points (j := 1) rfl (by omega))) fun _ t3 h3 => ?_
  refine (step h3 (slot 8 (by simp)) (points (j := 2) rfl (by omega))).mono fun _ t4 h4 => ?_
  refine ⟨h4.1, fun x hx => h4.2 x ?_ hx⟩
  have hx' := hx
  rw [Slot, if_pos hch] at hx'
  rcases hx' with rfl | rfl | rfl | ⟨f, hfr, ht, _⟩
  · exact .inl (.inl (.inr rfl))
  · exact .inl (.inr rfl)
  · exact .inr rfl
  · refine .inl (.inl (.inl (.inr ⟨fun h0 => ?_, .inr ⟨f, hfr, ht⟩⟩)))
    rw [hc.idle hch h0] at hfr
    cases hfr

lemma scan_ends (h : G.Inv stack level s) (hacc : G.Accounted excused stack s)
    (honly : only stack) :
    Ends (tr.scan trace c.oop) s fun _ t =>
      G.After excused only level 0 s stack t ∧ G.Scanned t c := by
  have hh := hc.holds h.agrees
  have hshape : Shape.of c.oop c.kind s.mem = .ok c.shape := by
    refine hc.typed.shape _ _ _ h.agrees hh fun k hk => ?_
    have hroom := hc.owner k hk
    exact hc.word_eq (by rw [hk]; exact fun h => by cases h) h.agrees (x := 0) hroom
  refine .read_bind (hh.classOf hc.typed.kind_aligned hc.typed.kind_ne) ?_
  by_cases hch : c.isChunk
  · refine .read_bind hshape ?_
    rw [show c.shape = .stackChunk from hch]
    exact chunk_ends hG hf htrace hc hl hch h hacc honly
  let I : (Nat → Prop) → Store → Prop := fun done t =>
    G.After excused only level 0 s stack t ∧
      ∀ x, done x → c.Slot x → G.Followed (c.oop.toNat + x) t
  have hin := hc.inside
  have := hc.typed.slots_le
  have := hG.small
  rw [stop] at hin
  have slot : ∀ {i}, i < c.slots → c.refs i = true → c.Slot (4 * i) := by
    intro i hi hr
    rw [Slot, if_neg hch]
    exact ⟨i, hi, hr, rfl⟩
  refine (object_ends (I := I) rfl (by omega) hshape hch ?_ ?_ ?_).mono ?_
  · rintro done t ⟨⟨_, _, hi, _, _⟩, _⟩
    exact hc.typed.slots _ hi.agrees
  · intro done t i base index hi hlt hr _ hp
    refine (revisit_ends hG hf htrace (hc.reference hl (slot hlt hr)) hp hi.1).mono ?_
    rintro _ u ⟨hu, hfol, hmono⟩
    refine ⟨hu, ?_⟩
    rintro y (hy | rfl) hys
    · exact (hi.2 y hy hys).mono hmono
    · exact hfol
  · exact ⟨⟨stack, honly, h, hacc, .refl⟩, fun _ hx => hx.elim⟩
  · rintro _ t ⟨hu, hfol⟩
    refine ⟨hu, fun x hx => hfol x ?_ hx⟩
    rw [Slot, if_neg hch] at hx
    exact hx

end

/-! ### Tracing -/

lemma Accounted.discharge (h : G.Accounted (fun d => excused d ∨ d = c) stack s)
    (hs : G.Scanned s c) : G.Accounted excused stack s := by
  refine h.imp_right fun h d hd hm => ?_
  rcases h d hd hm with hin | (hex | rfl) | hsc
  · exact .inl hin
  · exact .inr (.inl hex)
  · exact .inr (.inr hs)
  · exact .inr (.inr hsc)

lemma scan_excused_ends (hG : G.Ok) (hf : tr.Follows G) (htrace : G.Traces only level 1 trace)
    (hc : c ∈ G.cells) (hlive : G.live c) (h : G.Inv stack level s)
    (hacc : G.Accounted (fun d => excused d ∨ d = c) stack s) (honly : only stack) :
    Ends (tr.scan trace c.oop) s fun _ t => G.After excused only level 0 s stack t := by
  have hread := hG.readable c hc hlive
  refine (scan_ends hG hf htrace hread (hG.closed c hc hlive) h hacc honly).mono ?_
  rintro _ t ⟨⟨stack', hon, hi, ha, hg⟩, hsc⟩
  exact ⟨stack', hon, hi, ha.discharge hsc, hg⟩

lemma drain_ends (hG : G.Ok) (hf : tr.Follows G) (htrace : G.Traces only level 1 trace)
    (tails : ∀ a l, only (a :: l) → only l) (h : G.Inv stack level s)
    (hacc : G.Accounted excused stack s) (honly : only stack) {fuel : Nat}
    (hfuel : stack.length + G.left s < fuel) :
    Ends (Tracer.drain (tr.scan trace) fuel) s fun _ t =>
      G.After excused (· = []) level 0 s stack t := by
  induction fuel generalizing stack s with
  | zero => omega
  | succ fuel ih =>
    cases stack with
    | nil =>
      refine .bind h.pop_nil_ends ?_
      rintro _ _ ⟨rfl, rfl⟩
      exact .pure ⟨[], rfl, h, hacc, .refl⟩
    | cons a rest =>
      obtain ⟨c, hc, rfl, hm⟩ := h.pending a mem_cons_self
      refine .bind (h.pop_ends hG) ?_
      rintro _ t ⟨rfl, ht, hmarks, hover⟩
      have hmem : t.mem = s.mem := by rw [hmarks]; rfl
      have hbits : t.bits = s.bits := by rw [hmarks]; rfl
      have hmarked : ∀ d, G.Marked t d ↔ G.Marked s d := fun d => by rw [Marked, hmem, Marked]
      have hleft : G.left t = G.left s := by rw [left, hmem, left]
      have hacc' : G.Accounted (fun d => excused d ∨ d = c) rest t := by
        rw [Accounted, hover]
        refine hacc.imp_right fun hacc d hd hmd => ?_
        rcases hacc d hd ((hmarked d).1 hmd) with hin | hex | hsc
        · rcases mem_cons.1 hin with he | hin
          · exact .inr (.inl (.inr (hG.distinct d hd c hc he)))
          · exact .inl hin
        · exact .inr (.inl (.inl hex))
        · exact .inr (.inr (hsc.mono fun d _ => (hmarked d).mpr))
      rw [if_neg (by simpa using hG.oop_ne hc)]
      have hlive := h.sound c hc hm
      refine .bind (scan_excused_ends hG hf htrace hc hlive ht hacc' (tails _ _ honly)) ?_
      rintro _ u ⟨stack', hon, hu, ha, hg⟩
      have hpop : G.Grows 0 s (c.oop :: rest) t rest := {
        marked := fun d _ => (hmarked d).mpr
        lost := fun ho => .inl (hover ▸ ho)
        work := by
          rw [hleft, length_cons]
          omega
        scan := by rw [hbits] }
      have := hg.work
      rw [length_cons] at hfuel
      refine (ih hu ha hon (by omega)).mono ?_
      intro _ v hv
      exact (After.trans (hpop.trans hg) hv :)

lemma updateMarks_ends
    {post : Unit → Store → Prop} (hk : f s.marks = .ok k) (hp : post () (s.setMarks k)) :
    Ends (updateMarks f) s post :=
  .get_bind (.except_bind hk (.modify hp))

lemma updateMarks_bind {α : Type}
    {g : Unit → Run α} {post : α → Store → Prop} (hk : f s.marks = .ok k)
    (hg : Ends (g ()) (s.setMarks k) post) : Ends (updateMarks f >>= g) s post :=
  .next (updateMarks_ends hk hg)

lemma traceAt_zero (hG : G.Ok) : G.Traces (fun _ => True) 0 1 (tr.traceAt 0) :=
  fun _ _ _ _ hc hn hm _ h hacc => h.push_ends hG hc hm hn hacc

lemma traceAt_succ (hG : G.Ok) (hf : tr.Follows G)
    (htrace : G.Traces only level 1 (tr.traceAt level)) (nil : only [])
    (tails : ∀ a l, only (a :: l) → only l) :
    G.Traces (· = []) (level + 1) 0 (tr.traceAt (level + 1)) := by
  rintro c excused stack s hc - hm rfl h hacc
  have hlev := h.level
  have h1 := UInt32.toNat_one
  have hsub : (s.marks.level - 1).toNat = level := by
    rw [toNat_minus (by omega), hlev, h1]
    rfl
  have hpos : s.marks.level > 0 := UInt32.lt_iff_toNat_lt.2 (by rw [hlev]; exact Nat.succ_pos _)
  have hlower : s.marks.lowerLevel = .ok { s.marks with level := s.marks.level - 1 } := by
    simp only [lowerLevel, h.inUse, hpos]
    rfl
  refine updateMarks_bind hlower ?_
  have hi1 := h.setMarks (k := { s.marks with level := s.marks.level - 1 })
    ⟨h.inUse, rfl, rfl, rfl⟩ hsub
  refine .bind (scan_excused_ends hG hf htrace hc (h.sound c hc hm) hi1 hacc nil) ?_
  rintro _ t ⟨stack', hon, hi2, ha2, hg2⟩
  refine .read_bind (walkBound_eq _) ?_
  have hfuel : stack'.length + G.left t < t.mem.size + 1 := by
    have : stack'.length + G.left t ≤ 0 + G.left s + 0 := hg2.work
    have : G.left s ≤ G.cells.length := countP_le_length
    have := hG.few
    rw [hi2.size_eq]
    omega
  refine .bind (drain_ends hG hf htrace tails hi2 ha2 hon hfuel) ?_
  rintro _ u ⟨_, rfl, hi3, ha3, hg3⟩
  have hlev3 := hi3.level
  have hraise : u.marks.raiseLevel = .ok { u.marks with level := u.marks.level + 1 } := by
    have := h.level ▸ s.marks.level.toNat_lt
    simp only [raiseLevel, hi3.inUse, plus_eq (a := u.marks.level) (b := 1) (by omega)]
    rfl
  have hadd : (u.marks.level + 1).toNat = level + 1 := by
    have := h.level ▸ s.marks.level.toNat_lt
    rw [toNat_plus (by omega), hlev3, h1]
  refine updateMarks_ends hraise ?_
  have hg := hg2.trans hg3
  exact ⟨[], rfl, hi3.setMarks ⟨hi3.inUse, rfl, rfl, rfl⟩ hadd, ha3, hg.marked, hg.lost, hg.work,
    hg.scan⟩

lemma Traces.mono (h : G.Traces only level m trace) (hmn : m ≤ n) :
    G.Traces only level n trace := by
  intro c excused stack s hc hn hm hon hi hacc
  refine (h hc hn hm hon hi hacc).mono ?_
  rintro _ t ⟨stack', hon', hi', ha', hg'⟩
  exact ⟨stack', hon', hi', ha', hg'.mono hmn⟩

lemma trace_traces (hG : G.Ok) (hf : tr.Follows G) : G.Traces (· = []) 2 0 tr.trace := by
  have one : G.Traces (· = []) 1 0 (tr.traceAt 1) :=
    traceAt_succ hG hf (traceAt_zero hG) trivial fun _ _ _ => trivial
  have two : G.Traces (· = []) 2 0 (tr.traceAt 2) :=
    traceAt_succ hG hf (one.mono (by omega)) rfl fun _ _ h => by cases h
  intro c excused stack s hc hn hm hon h hacc
  have hlevel : s.marks.currentLevel = .ok s.marks.level := by
    simp only [currentLevel, h.inUse]
    rfl
  refine .get_bind (.except_bind hlevel ?_)
  rw [h.level]
  exact two hc hn hm hon h hacc

/-! ### From source to source -/

/-- Nothing is left to do: the mark stack is empty and what is marked was scanned. -/
structure Steady (G : Graph) (s : Store) : Prop where
  inv : G.Inv [] 2 s
  accounted : G.Accounted (fun _ => False) [] s

/-- One turn of a marker keeps what was marked. -/
structure Advances (G : Graph) (s t : Store) : Prop where
  steady : G.Steady t
  scan : t.bits.scan = s.bits.scan
  marked : ∀ c ∈ G.cells, G.Marked s c → G.Marked t c

lemma Advances.refl (h : G.Steady s) : G.Advances s s := ⟨h, rfl, fun _ _ hm => hm⟩

lemma Advances.trans (h : G.Advances s t) (h' : G.Advances t u) : G.Advances s u :=
  ⟨h'.steady, h'.scan.trans h.scan, fun c hc hm => h'.marked c hc (h.marked c hc hm)⟩

lemma After.advances (h : G.After (fun _ => False) (· = []) 2 n s stack t) :
    G.Advances s t := by
  obtain ⟨_, rfl, hi, ha, hg⟩ := h
  exact ⟨⟨hi, ha⟩, hg.scan, hg.marked⟩

/-- A mark stack that was set up and is empty. -/
structure Fresh (G : Graph) (k : MarkStack) : Prop where
  inUse : k.inUse = true
  base : k.base.toNat = G.base
  capacity : k.capacity.toNat = G.capacity
  level : k.level.toNat = 2
  depth : k.depth = 0

lemma Fresh.steady (hk : G.Fresh s.marks) (ha : G.origin.Alike s)
    (hm : Agrees G.kept G.origin.mem s.mem) (hr : s.bits.range = G.range)
    (hb : ∀ a, G.range.Spans a → G.range.holds s.mem a = G.bits a)
    (hc : ∀ c ∈ G.cells, ¬ G.Marked s c) : G.Steady s where
  inv := { hk with
    alike := ha
    agrees := hm
    range := hr
    rest := fun a hs _ => hb a hs
    depth := by rw [hk.depth]; rfl
    fits := Nat.zero_le _
    words := trivial
    nodup := nodup_nil
    sound := fun c hm hmc => absurd hmc (hc c hm)
    pending := fun a hin => by cases hin }
  accounted := .inr fun c hm hmc => absurd hmc (hc c hm)

lemma trace_paid (hG : G.Ok) (hf : tr.Follows G) : G.Traces (· = []) 2 1 tr.trace :=
  (trace_traces hG hf).mono (by omega)

namespace Steady

variable (hG : G.Ok) (hf : tr.Follows G) (h : G.Steady s)
include hG hf h

lemma visit_ends {a : Nat} {base : UInt32} {index : Int32} (hr : G.Reference a)
    (hp : Points base index a) :
    Ends (tr.visit base index) s fun _ t => G.Advances s t ∧ G.Followed a t := by
  have htrace := trace_paid hG hf
  refine (Graph.visit_ends hG hf htrace hr hp h.inv h.accounted rfl).mono ?_
  rintro _ t ⟨ha, hfol⟩
  exact ⟨ha.advances, hfol⟩

lemma roots_ends {start : UInt32} {f : Int32 → Run PUnit} {skip : Nat → Prop}
    (room : start.toNat + 64 ≤ 4294967296)
    (each : ∀ k < 8, (skip k ∧ f (Int32.ofNat k) = pure ()) ∨
      (f (Int32.ofNat k) = tr.visit start (roots + Int32.ofNat k) ∧
        G.Reference (start.toNat + 4 * (k + 8)))) :
    Ends (Root.all.forM f) s fun _ t => G.Advances s t ∧
      ∀ k < 8, ¬ skip k → G.Followed (start.toNat + 4 * (k + 8)) t := by
  refine .forRoots (fun j t => G.Advances s t ∧ ∀ k < j, ¬ skip k →
    G.Followed (start.toNat + 4 * (k + 8)) t) ?_ ⟨.refl h, fun k hk => by omega⟩
  rintro k t hk ⟨hadv, hfol⟩
  have earlier : ∀ {j}, j < k + 1 → j ≠ k → j < k := by omega
  rcases each k hk with ⟨hskip, he⟩ | ⟨he, hr⟩
  · rw [he]
    exact .pure ⟨hadv, fun j hj hne => hfol j (earlier hj fun hjk => hne (hjk ▸ hskip)) hne⟩
  have hindex : (roots + Int32.ofNat k).toInt = (k + 8 : Nat) :=
    (by decide : ∀ k < 8, (roots + Int32.ofNat k).toInt = (k + 8 : Nat)) k hk
  rw [he]
  refine (visit_ends hG hf hadv.steady hr (.lit _ hindex)).mono ?_
  rintro _ u ⟨hu, hf⟩
  refine ⟨hadv.trans hu, fun j hj hne => ?_⟩
  by_cases hjk : j = k
  · rw [hjk]
    exact hf
  · exact (hfol j (earlier hj hjk) hne).mono hu.marked

lemma mark_ends (hd : d ∈ G.cells) (hl : G.live d) :
    Ends (do if !(← testAndSetBit d.oop) then tr.trace d.oop) s fun _ t =>
      G.Advances s t ∧ G.Marked t d := by
  have htrace := trace_paid hG hf
  refine (h.inv.mark_ends hG hd hl htrace h.accounted rfl).mono ?_
  rintro _ t ⟨ha, hm⟩
  exact ⟨ha.advances, hm⟩

lemma scan_ends (hc : G.Readable c) (hl : G.Leads c) :
    Ends (tr.scan tr.trace c.oop) s fun _ t => G.Advances s t ∧ G.Scanned t c := by
  have htrace := trace_paid hG hf
  refine (Graph.scan_ends hG hf htrace hc hl h.inv h.accounted rfl).mono ?_
  rintro _ t ⟨ha, hs⟩
  exact ⟨ha.advances, hs⟩

lemma chunk_ends (hc : G.Readable c) (hl : G.Leads c) (hch : c.isChunk) :
    Ends (chunkInPlace tr.visit c.oop) s fun _ t =>
      G.Advances s t ∧ G.Scanned t c := by
  have htrace := trace_paid hG hf
  refine (Graph.chunk_ends hG hf htrace hc hl hch h.inv h.accounted rfl).mono ?_
  rintro _ t ⟨ha, hs⟩
  exact ⟨ha.advances, hs⟩

end Steady

/-! ### Recovery from dropped pushes -/

lemma Inv.setScan (h : G.Inv stack level s) (scan : BitScan) :
    G.Inv stack level (s.setBits { s.bits with scan }) :=
  { h with alike := h.alike.setBits _, range := h.range }

lemma Inv.setLog (h : G.Inv stack level s) (log : Log) : G.Inv stack level (s.setLog log) :=
  { h with alike := h.alike.setLog log }

/-- Every marked object is scanned and no push was dropped. -/
structure Complete (G : Graph) (s : Store) : Prop where
  inv : G.Inv [] 2 s
  scanned : ∀ c ∈ G.cells, G.Marked s c → G.Scanned s c
  kept_all : s.marks.overflowed = false
  idle : s.bits.scan.active = false

/-- The addresses behind `before` up to `last` are those of the objects that can be marked. -/
structure Covers (G : Graph) (before last : UInt32) : Prop where
  before_aligned : before.toNat % 4 = 0
  last_aligned : last.toNat % 4 = 0
  le : before.toNat ≤ last.toNat
  low : G.range.first.toNat ≤ before.toNat + 4
  high : last.toNat ≤ G.range.last.toNat
  cells : ∀ c ∈ G.cells, before.toNat < c.oop.toNat ∧ c.oop.toNat ≤ last.toNat
  clean : ∀ a, G.range.Spans a → before.toNat < a → a ≤ last.toNat → G.bits a = true →
    ∃ c ∈ G.cells, c.oop.toNat = a

section

variable {before last : UInt32} (hG : G.Ok) (hf : tr.Follows G) (hcov : G.Covers before last)
  {announce : Run Unit}
include hG hf hcov

lemma rescan_ends (h : G.Inv [] 2 s) (hclear : s.marks.overflowed = false)
    (hidle : s.bits.scan.active = false) :
    Ends (forEachBit before last tr.trace) s fun _ t =>
      t.bits.scan.active = false ∧ G.Inv [] 2 t ∧ G.Accounted (fun _ => False) [] t ∧
        (∀ c ∈ G.cells, G.Marked s c → G.Marked t c) ∧
        (t.marks.overflowed = true → G.left t < G.left s) := by
  let J : Nat → Unit → Store → Prop := fun a _ t =>
    G.Inv [] 2 t ∧ G.Accounted (fun c => a ≤ c.oop.toNat) [] t ∧
      (∀ c ∈ G.cells, G.Marked s c → G.Marked t c) ∧
      (t.marks.overflowed = true → G.left t < G.left s)
  have loop : BitLoop G.range (fun _ => tr.trace) J (before.toNat + 4) (last.toNat + 4) := {
    mapped := fun hj => ⟨hj.1.range, hj.1.mapped hG⟩
    blind := fun scan hj => ⟨hj.1.setScan scan, hj.2.1, hj.2.2⟩
    step := by
      rintro addr _ t hlo hhi h4 hset ⟨hi, ha, hmono, hlost⟩
      have hspan : G.range.Spans addr.toNat := by
        have := hcov.low
        have := hcov.high
        have := hcov.last_aligned
        exact ⟨h4, by omega, by omega⟩
      have hcell : ∃ c ∈ G.cells, c.oop.toNat = addr.toNat := by
        by_contra hnone
        have hrest := hi.rest addr.toNat hspan fun c hc he => hnone ⟨c, hc, he⟩
        have := hcov.last_aligned
        exact hnone (hcov.clean _ hspan (by omega) (by omega) (hrest ▸ hset))
      obtain ⟨c, hc, he⟩ := hcell
      obtain rfl := UInt32.toNat_inj.1 he
      have ha' : G.Accounted (fun d => c.oop.toNat + 4 ≤ d.oop.toNat ∨ d = c) [] t := by
        refine ha.imp_right fun ha d hd hm => (ha d hd hm).imp_right (Or.imp_left fun hge => ?_)
        by_cases hdc : d = c
        · exact .inr hdc
        · have : d.oop.toNat ≠ c.oop.toNat := fun he =>
            hdc (hG.distinct d hd c hc (UInt32.toNat_inj.1 he))
          have := (hG.spans d hd).1
          exact .inl (by omega)
      refine (trace_traces hG hf hc not_mem_nil hset rfl hi ha').mono ?_
      rintro _ u ⟨_, rfl, hi', ha'', hg⟩
      refine ⟨hg.scan, hi', ha'', fun d hd hm => hg.marked d hd (hmono d hd hm), fun ho => ?_⟩
      have := left_le hg.marked
      rcases hg.lost ho with ho | hlt
      · have := hlost ho
        omega
      · have := left_le hmono
        omega
    skip := by
      rintro a _ t hlo hhi h4 hunset ⟨hi, ha, hrest⟩
      refine ⟨hi, ?_, hrest⟩
      refine ha.imp_right fun ha d hd hm => (ha d hd hm).imp_right (Or.imp_left fun hge => ?_)
      have : d.oop.toNat ≠ a := by
        intro he
        rw [Marked, he, hunset] at hm
        cases hm
      have := (hG.spans d hd).1
      omega }
  have start : J (before.toNat + 4) () s := by
    refine ⟨h, .inr fun c hc _ => .inr (.inl ?_), fun _ _ hm => hm, fun ho => ?_⟩
    · have := (hcov.cells c hc).1
      have := (hG.spans c hc).1
      have := hcov.before_aligned
      omega
    · rw [hclear] at ho
      cases ho
  refine (loop.foldBits_ends hcov.before_aligned hcov.last_aligned hcov.le hcov.low hcov.high
    hidle start).mono ?_
  rintro _ t ⟨hact, hi, ha, hrest⟩
  refine ⟨hact, hi, ?_, hrest⟩
  refine ha.imp_right fun ha d hd hm => (ha d hd hm).imp_right (Or.imp_left fun hge => ?_)
  have := (hcov.cells d hd).2
  omega

lemma recoverWithin_ends
    (hann : ∀ s, Ends announce s fun _ t => ∃ log, t = s.setLog log) (h : G.Inv [] 2 s)
    (hacc : G.Accounted (fun _ => False) [] s) (hidle : s.bits.scan.active = false) {fuel : Nat}
    (hfuel : G.left s + s.marks.overflowed.toNat < fuel) :
    Ends (tr.recoverWithin before last announce fuel) s fun _ t =>
      G.Complete t ∧ ∀ c ∈ G.cells, G.Marked s c → G.Marked t c := by
  induction fuel generalizing s with
  | zero => omega
  | succ fuel ih =>
    have hflag : s.marks.isOverflowed = .ok s.marks.overflowed := by
      simp only [isOverflowed, h.inUse]
      rfl
    refine .get_bind (.except_bind hflag ?_)
    cases ho : s.marks.overflowed with
    | false =>
      refine .pure ⟨⟨h, fun c hc hm => ?_, ho, hidle⟩, fun _ _ hm => hm⟩
      rcases hacc with hover | hacc
      · rw [ho] at hover
        cases hover
      · rcases hacc c hc hm with hin | hex | hsc
        · cases hin
        · exact hex.elim
        · exact hsc
    | true =>
      have hreset : s.marks.resetOverflow = .ok { s.marks with overflowed := false } := by
        simp only [resetOverflow, h.inUse]
        rfl
      refine updateMarks_bind hreset ?_
      have h1 := h.setMarks (k := { s.marks with overflowed := false })
        ⟨h.inUse, rfl, rfl, rfl⟩ h.level
      refine .bind (hann _) ?_
      rintro _ _ ⟨log, rfl⟩
      refine .bind (rescan_ends hG hf hcov (h1.setLog log) rfl hidle) ?_
      rintro _ t ⟨hact, hi, ha, hmono, hlost⟩
      have hless : G.left t + t.marks.overflowed.toNat < fuel := by
        have : G.left t ≤ G.left s := left_le hmono
        have hlost' : t.marks.overflowed = true → G.left t < G.left s := hlost
        rw [ho, Bool.toNat_true] at hfuel
        cases hagain : t.marks.overflowed with
        | false =>
          rw [Bool.toNat_false]
          omega
        | true =>
          have := hlost' hagain
          rw [Bool.toNat_true]
          omega
      refine (ih hi ha hact hless).mono ?_
      rintro _ u ⟨hu, hmono'⟩
      exact ⟨hu, fun c hc hm => hmono' c hc (hmono c hc hm)⟩

lemma recover_ends
    (hann : ∀ s, Ends announce s fun _ t => ∃ log, t = s.setLog log) (h : G.Steady s)
    (hidle : s.bits.scan.active = false) :
    Ends (tr.recover before last announce) s fun _ t =>
      G.Complete t ∧ ∀ c ∈ G.cells, G.Marked s c → G.Marked t c := by
  refine .read_bind (walkBound_eq _) ?_
  refine recoverWithin_ends hG hf hcov hann h.inv h.accounted hidle ?_
  have : G.left s ≤ G.cells.length := countP_le_length
  have := hG.few
  have := Bool.toNat_le s.marks.overflowed
  rw [h.inv.size_eq]
  omega

end

end Graph

/-- Found from the sources by references of objects that were found. -/
inductive Reached (cells : List Cell) (m : Memory) (source : UInt32 → Prop) : Cell → Prop
  | source {c : Cell} (hc : c ∈ cells) (h : source c.oop) : Reached cells m source c
  | step {c d : Cell} {x : Nat} (h : Reached cells m source c) (hx : c.Slot x) (hd : d ∈ cells)
      (he : c.words m x = d.oop) : Reached cells m source d

variable {m : Memory} {source : UInt32 → Prop} {c : Cell} {G : Graph} {t : Store}

lemma Reached.mem {cells : List Cell}
    (h : Reached cells m source c) : c ∈ cells := by
  cases h with
  | source hc _ => exact hc
  | step _ _ hd _ => exact hd

lemma Graph.Complete.exact {before last : UInt32} {a : Nat}
    (h : G.Complete t) (hcov : G.Covers before last) (hlive : ∀ c, G.live c → G.Marked t c)
    (aligned : a % 4 = 0) (low : before.toNat < a) (high : a ≤ last.toNat) :
    G.range.holds t.mem a = true ↔ ∃ c, G.live c ∧ c.oop.toNat = a := by
  constructor
  · intro hset
    have hspan : G.range.Spans a := by
      have := hcov.before_aligned
      have := hcov.low
      have := hcov.high
      exact ⟨aligned, by omega, by omega⟩
    have hcell : ∃ c ∈ G.cells, c.oop.toNat = a := by
      by_contra hnone
      refine hnone (hcov.clean a hspan low high ?_)
      rw [← h.inv.rest a hspan fun c hm he => hnone ⟨c, hm, he⟩, hset]
    obtain ⟨c, hm, rfl⟩ := hcell
    exact ⟨c, h.inv.sound c hm hset, rfl⟩
  · rintro ⟨c, hl, rfl⟩
    exact hlive c hl

lemma Graph.Complete.marked
    (h : G.Complete t) (hlead : ∀ d ∈ G.cells, G.lead d.oop = some d.oop)
    (hs : ∀ d ∈ G.cells, source d.oop → G.Marked t d)
    (hr : Reached G.cells G.origin.mem source c) : G.Marked t c := by
  induction hr with
  | source hc h => exact hs _ hc h
  | @step c d x hc hx hd he ih =>
    refine h.scanned c hc.mem ih x hx d hd ?_
    show G.lead (c.words G.origin.mem x) = _
    rw [he, hlead d hd]

end DeviceVm
