import DeviceVm.Collection.Shape
import DeviceVm.Proofs.Header

/-!
Objects as they lie in memory. A `Cell` is an object with its extent and with what its class
says about its words; a stack chunk also has its frames. The role of a word tells how it changes
when objects move.
-/

namespace DeviceVm

open List Header Word Block

/-- What a collector does with a word when objects move. A link is an address inside of the same
chunk, the listed word is that by which a collector lists chunks, and next leads to a chunk that may
be given up. -/
inductive Role where
  | data
  | pointer
  /-- An instruction pointer; the word in front of it is its method. -/
  | code
  | link
  | listed
  | next
  deriving DecidableEq, Repr

/-- A frame as a collector sees it, at `pos` bytes from the start of its chunk. Before its first
instruction a method has parameters only. -/
structure Activation where
  pos : Nat
  method : UInt32
  header : UInt32
  entered : Bool
  count : UInt32
  refs : Nat → Bool

namespace Activation

def role (f : Activation) (x : Nat) : Role :=
  if x + 20 = f.pos ∨ x + 8 = f.pos then .pointer
  else if x + 16 = f.pos then .code
  else if x + 12 = f.pos then .link
  else if f.pos ≤ x ∧ f.refs ((x - f.pos) / 4) then .pointer
  else .data

/-- The word is one of the five in front of the locals or a local. -/
def spans (f : Activation) (x : Nat) : Prop :=
  f.pos ≤ x + 20 ∧ x < f.pos + 4 * f.count.toNat

instance (f : Activation) (x : Nat) : Decidable (f.spans x) :=
  inferInstanceAs (Decidable (_ ∧ _))

/-- The method of the frame tells how many locals there are and which are references. -/
structure Reads (m : Memory) (f : Activation) : Prop where
  room : f.method.toNat + 5 < 4294967296
  header : Method.headerSize f.method m = .ok f.header
  count : (if f.entered then Method.localCount f.method else Method.parameterCount f.method) m =
    .ok f.count
  refs : ∀ i : UInt32, i < f.count →
    Class.mapBit (f.method + Method.mapOffset) i m = .ok (f.refs i.toNat)

/-- The frame is in a chunk of `body` bytes that holds the words `w`. -/
structure Stands (w : Nat → UInt32) (body : Nat) (f : Activation) : Prop where
  aligned : f.pos % 4 = 0
  low : 40 ≤ f.pos
  high : f.pos + 4 * f.count.toNat ≤ body
  method : w (f.pos - 20) = f.method
  entered : f.entered = (w (f.pos - 16) - f.method != f.header)

end Activation

/-- The frames from `pos` up to `last` of a chunk that holds the words `w`. -/
inductive Frames (w : Nat → UInt32) (body last : Nat) : (pos : Nat) → List Activation → Prop
  | nil {pos : Nat} (behind : last < pos) : Frames w body last pos []
  | fresh {f : Activation} (stands : f.Stands w body) (entered : f.entered = false)
      (top : f.pos = last) : Frames w body last f.pos [f]
  | entered {f : Activation} {rest : List Activation} {above : Nat}
      (stands : f.Stands w body) (entered : f.entered = true) (low : f.pos ≤ last)
      (eq : above = f.pos + (w (f.pos - 4)).toNat + 4)
      (apart : above ≤ last → f.pos + 4 * f.count.toNat + 20 ≤ above)
      (range : above < 2147483648) (frames : Frames w body last above rest) :
      Frames w body last f.pos (f :: rest)

/-- An object: its address, its class, its count, its body and where its references are. -/
structure Cell where
  oop : UInt32
  kind : UInt32
  count : UInt32
  body : Nat
  shape : Shape
  slots : Nat
  refs : Nat → Bool
  frames : List Activation

namespace Cell

def head (c : Cell) : Nat := bytes c.count

def start (c : Cell) : Nat := c.oop.toNat - c.head

def stop (c : Cell) : Nat := c.oop.toNat + c.body

def size (c : Cell) : Nat := c.head + c.body

variable {m : Memory} {c : Cell} {fixed : Nat → Prop} {oop : UInt32}

lemma start_eq (c : Cell) : c.start = c.oop.toNat - c.head := rfl
lemma stop_eq (c : Cell) : c.stop = c.oop.toNat + c.body := rfl
lemma size_eq (c : Cell) : c.size = c.head + c.body := rfl

def isChunk (c : Cell) : Prop := c.shape = .stackChunk

instance (c : Cell) : Decidable c.isChunk := inferInstanceAs (Decidable (_ = _))

def role (c : Cell) (x : Nat) : Role :=
  if c.isChunk then
    if x = 0 then .listed else if x = 4 then .next else if x = 8 then .pointer
    else if x = 16 then .link
    else match c.frames.find? (·.spans x) with
      | some f => f.role x
      | none => .data
  else if x / 4 < c.slots ∧ c.refs (x / 4) then .pointer
  else .data

/-- The words that hold references agree with the shape. -/
def SlotsRead (m : Memory) (c : Cell) : Prop :=
  match c.shape with
  | .primitive | .stackChunk => c.slots = 0
  | .references n | .classState n => c.slots = n.toNat ∧ ∀ i < c.slots, c.refs i = true
  | .record map n => c.slots = n.toNat ∧
    ∀ i : UInt32, i < n → Class.mapBit map i m = .ok (c.refs i.toNat)

/-- Size and shape are read from fixed bytes and from the header. -/
structure Typed (fixed : Nat → Prop) (m : Memory) (c : Cell) : Prop where
  kind_ne : c.kind ≠ 0
  kind_aligned : c.kind.toNat % 4 = 0
  body_aligned : c.body % 4 = 0
  slots_le : 4 * c.slots ≤ c.body
  size : ∀ n oop low, Memory.Agrees fixed m n → Header.Holds n oop low c.count →
    ∃ r, bodySizeAs oop c.kind n = .ok r ∧ r.toNat = c.body
  shape : ∀ n oop low, Memory.Agrees fixed m n → Header.Holds n oop low c.count →
    (∀ k, c.shape = .classState k → n.peekWord oop.toNat = m.peekWord c.oop.toNat) →
    Shape.of oop c.kind n = .ok c.shape
  slots : ∀ n, Memory.Agrees fixed m n → c.SlotsRead n

lemma Typed.mono {fixed' : Nat → Prop} (h : c.Typed fixed m)
    (hf : ∀ b, fixed b → fixed' b) : c.Typed fixed' m where
  __ := h
  slots_le := h.slots_le
  size n oop low hn := h.size n oop low (hn.mono hf)
  shape n oop low hn := h.shape n oop low (hn.mono hf)
  slots n hn := h.slots n (hn.mono hf)

/-- The extent of an object as it is read: its block, its header and its body. -/
structure Extent (m : Memory) (oop : UInt32) (c : Cell) (block head len : UInt32) : Prop where
  ofObject : ofObject oop m = .ok block
  minus : minus oop block = .ok head
  bodySize : bodySize oop m = .ok len
  block_eq : block.toNat = oop.toNat - c.head
  head_eq : head.toNat = c.head
  len_eq : len.toNat = c.body

lemma Typed.extent {n : Memory} (h : c.Typed fixed m)
    (hn : Memory.Agrees fixed m n) (hh : Header.Holds n oop c.kind c.count) :
    ∃ block head len, Extent n oop c block head len := by
  have hd : (sizeForCount c.count).toNat = c.head := toNat_sizeForCount c.count
  have : c.head ≤ oop.toNat := hh.room
  obtain ⟨len, hlen, hbody⟩ := h.size n oop c.kind hn hh
  have hblock : (oop - sizeForCount c.count).toNat = oop.toNat - c.head := by
    rw [toNat_minus (by omega), hd]
  refine ⟨oop - sizeForCount c.count, oop - (oop - sizeForCount c.count), len, ?_,
    minus_eq (by omega), ?_, hblock, ?_, hbody⟩
  · rw [ofObject, Read.bind_ok hh.size]
    exact minus_eq (by omega)
  · rw [bodySize, Read.bind_ok (hh.classOf h.kind_aligned h.kind_ne)]
    exact hlen
  · rw [toNat_minus] <;> omega

lemma Extent.after {block head len : UInt32}
    (h : Extent m oop c block head len) (hr : oop.toNat + c.body < 4294967296) :
    after oop m = .ok (oop + len) ∧ (oop + len).toNat = oop.toNat + c.body := by
  have hl := h.len_eq
  refine ⟨?_, ?_⟩
  · rw [Block.after, Read.bind_ok h.bodySize]
    exact plus_eq (by omega)
  · rw [toNat_plus (by omega), hl]

def words (m : Memory) (c : Cell) (x : Nat) : UInt32 := m.peekWord (c.oop.toNat + x)

/-- The chunk is in use and its frames can be followed from the innermost one to the outermost. -/
structure Framed (m : Memory) (c : Cell) : Prop where
  isChunk : c.isChunk
  room : 20 ≤ c.body
  last : c.oop.toNat ≤ (c.words m 16).toNat
  frames : Frames (c.words m) c.body ((c.words m 16).toNat - c.oop.toNat) 40 c.frames

end Cell

/-! ### Roles of the words of frames -/

namespace Frames

variable {w : Nat → UInt32} {body last pos : Nat} {fs : List Activation} {f : Activation}

lemma stands (h : Frames w body last pos fs) (hf : f ∈ fs) : f.Stands w body := by
  induction h with
  | nil => exact absurd hf not_mem_nil
  | fresh stands => exact mem_singleton.1 hf ▸ stands
  | entered stands _ _ _ _ _ _ ih =>
    rcases mem_cons.1 hf with rfl | hf
    · exact stands
    · exact ih hf

lemma pos_le (h : Frames w body last pos fs) (hf : f ∈ fs) : pos ≤ f.pos ∧ pos ≤ last := by
  induction h with
  | nil => exact absurd hf not_mem_nil
  | fresh _ _ top =>
    rw [mem_singleton.1 hf]
    exact ⟨Nat.le_refl _, by omega⟩
  | @entered g rest above stands _ low eq apart _ _ ih =>
    rcases mem_cons.1 hf with rfl | hf
    · exact ⟨Nat.le_refl _, low⟩
    · have := ih hf
      omega

lemma find_eq (h : Frames w body last pos fs) (hf : f ∈ fs) {x : Nat} (hx : f.spans x) :
    fs.find? (·.spans x) = some f := by
  induction h with
  | nil => exact absurd hf not_mem_nil
  | fresh =>
    obtain rfl := mem_singleton.1 hf
    simp [hx]
  | @entered g rest above stands _ low eq apart _ frames ih =>
    rcases mem_cons.1 hf with rfl | hf
    · simp [hx]
    · have := frames.pos_le hf
      have hg : ¬ g.spans x := by
        rintro ⟨_, hlt⟩
        have := hx.1
        omega
      rw [find?_cons_of_neg (by simpa using hg)]
      exact ih hf

end Frames

namespace Cell

variable {c : Cell} {x : Nat}

lemma role_frame (hc : c.isChunk) {w : Nat → UInt32} {last pos : Nat}
    (h : Frames w c.body last pos c.frames) {f : Activation} (hf : f ∈ c.frames)
    (hx : f.spans x) : c.role x = f.role x := by
  have := (h.stands hf).low
  have := hx.1
  rw [role, if_pos hc, if_neg (by omega), if_neg (by omega), if_neg (by omega), if_neg (by omega),
    h.find_eq hf hx]

lemma role_self (hc : c.isChunk) : c.role 0 = .listed := by
  rw [role, if_pos hc, if_pos rfl]

lemma role_next (hc : c.isChunk) : c.role 4 = .next := by
  rw [role, if_pos hc, if_neg (by omega), if_pos rfl]

lemma role_prev (hc : c.isChunk) : c.role 8 = .pointer := by
  rw [role, if_pos hc, if_neg (by omega), if_neg (by omega), if_pos rfl]

lemma role_last (hc : c.isChunk) : c.role 16 = .link := by
  rw [role, if_pos hc, if_neg (by omega), if_neg (by omega), if_neg (by omega), if_pos rfl]

lemma role_plain (hc : ¬ c.isChunk) : c.role x =
    if x / 4 < c.slots ∧ c.refs (x / 4) then .pointer else .data := by
  rw [role, if_neg hc]

end Cell

end DeviceVm
