import DeviceVm.Proofs.Stack.Saving
import DeviceVm.Proofs.Stack.Simulation

/-!
Contexts whose chunks have moved. A collector changes the words of a chunk as their roles tell; its
frames are those of the calls that are in it, so that the context is found again where its chunks
have gone, with the same frames in as many chunks.
-/

namespace DeviceVm

open List Memory

namespace Memory

def wordsAt (m : Memory) : (a k : Nat) → List UInt32
  | _, 0 => []
  | a, k + 1 => m.peekWord a :: m.wordsAt (a + 4) k

variable {m : Memory} {a k : Nat}

lemma length_wordsAt : (m.wordsAt a k).length = k := by
  induction k generalizing a with
  | zero => rfl
  | succ k ih => exact congrArg (· + 1) ih

lemma Lists.unique {vs ws : List UInt32} (h : m.Lists a vs) (h' : m.Lists a ws)
    (length : vs.length = ws.length) : vs = ws := by
  apply ext_getElem? fun i => ?_
  by_cases hi : i < vs.length
  · have hv := getElem?_eq_getElem hi
    have hw := getElem?_eq_getElem (length ▸ hi)
    rw [hv, hw, ← h.get hv, ← h'.get hw]
  · rw [getElem?_eq_none (by omega), getElem?_eq_none (by omega)]

lemma lists_wordsAt : m.Lists a (m.wordsAt a k) := by
  induction k generalizing a with
  | zero => trivial
  | succ k ih => exact ⟨rfl, ih⟩

end Memory

lemma Word.toNat_moved {v o a : UInt32} (low : o.toNat ≤ v.toNat)
    (high : v.toNat - o.toNat + a.toNat < 4294967296) :
    (v + (a - o)).toNat = v.toNat - o.toNat + a.toNat := by
  have := o.toNat_lt
  rw [UInt32.toNat_add, UInt32.toNat_sub]
  omega

lemma Frames.head {w : Nat → UInt32} {body last pos : Nat} {fs : List Activation}
    (h : Frames w body last pos fs) (hl : pos ≤ last) : ∃ f ∈ fs, f.pos = pos := by
  cases h with
  | nil behind => omega
  | fresh => exact ⟨_, mem_cons_self, rfl⟩
  | entered => exact ⟨_, mem_cons_self, rfl⟩

/-- The header of a frame that has gone from `lp` to `lp'`, with its chunk from `o` to `a`. -/
structure Frame.Carried (move : UInt32 → UInt32 → Prop) (m n : Memory) (o a : UInt32)
    (lp lp' : Nat) : Prop where
  method : move (m.peekWord (lp - 20)) (n.peekWord (lp' - 20))
  ip : n.peekWord (lp' - 16) =
    n.peekWord (lp' - 20) + (m.peekWord (lp - 16) - m.peekWord (lp - 20))
  previous : n.peekWord (lp' - 12) =
    if m.peekWord (lp - 12) = 0 then 0 else m.peekWord (lp - 12) + (a - o)
  offset : n.peekWord (lp' - 4) = m.peekWord (lp - 4)

namespace Cell

/-- The chunk of the memory `m` is at `a` in the memory `n`. Its words are what their roles tell;
`move` tells what becomes of references. -/
structure Carried (move : UInt32 → UInt32 → Prop) (m n : Memory) (c : Cell) (a : UInt32) :
    Prop where
  framed : c.Framed m
  reads : ∀ f ∈ c.frames, f.Reads m
  data : ∀ x, x % 4 = 0 → x + 4 ≤ c.body → c.role x = .data →
    n.peekWord (a.toNat + x) = c.words m x
  pointer : ∀ x, x % 4 = 0 → x + 4 ≤ c.body → c.role x = .pointer →
    move (c.words m x) (n.peekWord (a.toNat + x))
  code : ∀ x, x % 4 = 0 → x + 4 ≤ c.body → c.role x = .code →
    ∃ mp, move (c.words m (x - 4)) mp ∧
      n.peekWord (a.toNat + x) = mp + (c.words m x - c.words m (x - 4))
  link : ∀ x, x % 4 = 0 → x + 4 ≤ c.body → c.role x = .link →
    n.peekWord (a.toNat + x) = if c.words m x = 0 then 0 else c.words m x + (a - c.oop)

variable {move : UInt32 → UInt32 → Prop} {m n : Memory} {c : Cell} {a : UInt32} {f : Activation}

lemma role_size {w : Nat → UInt32} {last : Nat} (hc : c.isChunk)
    (h : Frames w c.body last 40 c.frames) : c.role 12 = .data := by
  have hnone : c.frames.find? (·.spans 12) = none := by
    refine find?_eq_none.2 fun f hf => ?_
    have := (h.stands hf).low
    have : ¬ f.spans 12 := fun hs => by
      have := hs.1
      omega
    simpa using this
  rw [role, if_pos hc, if_neg (by omega), if_neg (by omega), if_neg (by omega), if_neg (by omega),
    hnone]

namespace Carried

variable (h : c.Carried move m n a)
include h

lemma prev : move (m.peekWord (c.oop.toNat + 8)) (n.peekWord (a.toNat + 8)) := by
  have := h.framed.room
  exact h.pointer 8 rfl (by omega) (role_prev h.framed.isChunk)

lemma size : n.peekWord (a.toNat + 12) = m.peekWord (c.oop.toNat + 12) := by
  have := h.framed.room
  exact h.data 12 rfl (by omega) (role_size h.framed.isChunk h.framed.frames)

lemma last : n.peekWord (a.toNat + 16) = if m.peekWord (c.oop.toNat + 16) = 0 then 0
    else m.peekWord (c.oop.toNat + 16) + (a - c.oop) :=
  h.link 16 rfl h.framed.room (role_last h.framed.isChunk)

lemma frame (unique : ∀ {u v v'}, move u v → move u v' → v = v') (hf : f ∈ c.frames) :
    Frame.Carried move m n c.oop a (c.oop.toNat + f.pos) (a.toNat + f.pos) := by
  have hs := h.framed.frames.stands hf
  have := hs.low
  have := hs.high
  have := hs.aligned
  have role : ∀ {x}, f.spans x → c.role x = f.role x := fun hx =>
    role_frame h.framed.isChunk h.framed.frames hf hx
  have word : ∀ (mem : Memory) (o k : Nat), k ≤ 40 →
      mem.peekWord (o + (f.pos - k)) = mem.peekWord (o + f.pos - k) := fun mem o k hk => by
    rw [show o + (f.pos - k) = o + f.pos - k by omega]
  have method := h.pointer (f.pos - 20) (by omega) (by omega) (by
    rw [role ⟨by omega, by omega⟩]
    exact Activation.role_pointer (.inl (by omega)) (by omega))
  have code := h.code (f.pos - 16) (by omega) (by omega) (by
    rw [role ⟨by omega, by omega⟩]
    exact Activation.role_code (by omega))
  have previous := h.link (f.pos - 12) (by omega) (by omega) (by
    rw [role ⟨by omega, by omega⟩, Activation.role, if_neg (by omega), if_neg (by omega),
      if_pos (by omega)])
  have offset := h.data (f.pos - 4) (by omega) (by omega) (by
    rw [role ⟨by omega, by omega⟩, Activation.role, if_neg (by omega), if_neg (by omega),
      if_neg (by omega), if_neg (by omega)])
  simp only [words, Nat.sub_sub, word _ _ 20 (by omega), word _ _ 16 (by omega),
    word _ _ 12 (by omega), word _ _ 4 (by omega)] at method code previous offset
  refine ⟨method, ?_, previous, offset⟩
  obtain ⟨mp, hmp, hip⟩ := code
  rw [hip, unique hmp method]

end Carried

end Cell

namespace Stack

open Word

variable {S S' : Scene} {s t : Store} {m n : Memory} {move : UInt32 → UInt32 → Prop} {r r' : Room}
  {c d : Call} {cs ds : List Call} {w w' v v' : Placement} {σ : Calls} {a : UInt32}
  {rs rs' : List Room}

/-! ### Frames of calls -/

lemma Room.frame_ne_zero (hcs : cs ≠ []) : r.frame cs ≠ 0 := by
  cases cs with
  | nil => exact absurd rfl hcs
  | cons c cs =>
    have := @Room.above_ge r cs
    rw [Room.frame]
    omega

namespace Scene

lemma Holds.chunk_ne (h : S.Holds s r) : r.chunk ≠ 0 := by
  intro hz
  have := UInt32.toNat_zero
  have := h.low
  rw [hz] at this
  omega

lemma entered_of_behind (ok : S.Ok) (ha : Agrees S.fixed S.mem m) {f : Activation}
    {w : Nat → UInt32} {body : Nat} (stands : f.Stands w body) (reads : f.Reads m)
    (known : S.isMethod f.method) (behind : w (f.pos - 16) ≠ S.entry f.method) :
    f.entered = true := by
  have hheader : f.header = UInt32.ofNat (S.form f.method).header :=
    Except.ok.inj (reads.header.symm.trans ((ok.method _ known).header m ha))
  rw [stands.entered, bne_iff_ne]
  intro he
  rw [hheader] at he
  refine behind ?_
  rw [entry, ← he, UInt32.add_comm]
  exact (UInt32.sub_add_cancel _ _).symm

lemma Held.frames (h : S.Held m r cs) (ok : S.Ok) (ha : Agrees S.fixed S.mem m)
    {b : Cell} (ho : b.oop = r.chunk) {fs : List Activation} {body last : Nat}
    (hfs : Frames (b.words m) body last 40 fs) (reads : ∀ f ∈ fs, f.Reads m)
    (hl : 40 + reach cs ≤ last) :
    ∃ rest, (∀ f ∈ rest, f ∈ fs) ∧ Frames (b.words m) body last (40 + reach cs) rest := by
  induction cs with
  | nil => exact ⟨fs, fun _ hf => hf, hfs⟩
  | cons c cs ih =>
    rw [reach_cons] at hl
    obtain ⟨rest, hsub, hrest⟩ := ih h.2 (by omega)
    have hw := h.1
    have word : ∀ k ≤ 40, b.words m (40 + reach cs - k) = m.peekWord (r.above cs - k) :=
      fun k hk => by
        rw [Cell.words, ho, Room.above]
        exact congrArg m.peekWord (by omega)
    generalize hpos : 40 + reach cs = pos at hrest word
    have entered : ∀ f ∈ rest, f.pos = pos → f.entered = true := by
      rintro f hf rfl
      have stands := hrest.stands hf
      have hm : f.method = c.method := by
        rw [← stands.method, word 20 (by omega)]
        exact hw.method
      refine entered_of_behind ok ha stands (reads f (hsub f hf)) (hm ▸ hw.known) ?_
      rw [word 16 (by omega), hm, hw.ip]
      exact hw.behind
    cases hrest with
    | nil behind => omega
    | @fresh f _ he => exact absurd (entered f mem_cons_self rfl) (by simp [he])
    | @entered f rest' above _ _ _ eq _ _ frames =>
      refine ⟨rest', fun g hg => hsub g (mem_cons_of_mem _ hg), ?_⟩
      have := hw.offset
      rw [word 4 (by omega)] at eq
      have hpos : 40 + reach (c :: cs) = above := by
        rw [reach_cons]
        omega
      exact hpos ▸ frames

lemma Held.frame_le (h : S.Held m r cs) : r.frame cs ≤ r.stop := by
  cases cs with
  | nil => exact Nat.zero_le _
  | cons c cs =>
    have := h.1.fits
    rw [Room.frame]
    omega

lemma Held.frame (h : S.Held m r cs) (ok : S.Ok) (ha : Agrees S.fixed S.mem m)
    {b : Cell} (ho : b.oop = r.chunk) (hb : b.Framed m) (reads : ∀ f ∈ b.frames, f.Reads m)
    (hl : r.above cs ≤ (m.peekWord (r.chunk.toNat + 16)).toNat) :
    ∃ f ∈ b.frames, f.pos = 40 + reach cs := by
  have hl' : 40 + reach cs ≤ (b.words m 16).toNat - b.oop.toNat := by
    rw [Cell.words, ho]
    rw [Room.above] at hl
    omega
  obtain ⟨rest, hsub, hrest⟩ := h.frames ok ha ho hb.frames reads hl'
  obtain ⟨f, hf, hpos⟩ := hrest.head hl'
  exact ⟨f, hsub f hf, hpos⟩

end Scene

/-! ### Calls that have moved with their chunk -/

/-- The call, where its method has gone to. Its class, its locals and its operands may have
moved. -/
structure Call.Carried (move : UInt32 → UInt32 → Prop) (c d : Call) : Prop where
  method : move c.method d.method
  ip : d.ip = d.method + (c.ip - c.method)
  locals : d.locals.length = c.locals.length
  operands : d.operands.length = c.operands.length

lemma exists_of_mem {α β : Type} {R : α → β → Prop} {l : List α} {l' : List β} {y : β}
    (h : Forall₂ R l l') (hy : y ∈ l') : ∃ x ∈ l, R x y := by
  induction h with
  | nil => exact absurd hy not_mem_nil
  | @cons x z l l' hx _ ih =>
    rcases mem_cons.1 hy with rfl | hy
    · exact ⟨x, mem_cons_self, hx⟩
    · obtain ⟨u, hu, hr⟩ := ih hy
      exact ⟨u, .tail _ hu, hr⟩

lemma reach_carried (h : Forall₂ (Call.Carried move) cs ds) : reach ds = reach cs := by
  induction h with
  | nil => rfl
  | cons hc _ ih => rw [reach_cons, reach_cons, ih, hc.locals]

/-- The chunk has gone from one place to the other. -/
structure Room.Carried (move : UInt32 → UInt32 → Prop) (r r' : Room) : Prop where
  chunk : move r.chunk r'.chunk
  words : r'.words = r.words

/-- The chunk has gone with its frames. -/
structure Stretch.Carried (move : UInt32 → UInt32 → Prop) (x y : Stretch) : Prop where
  room : x.room.Carried move y.room
  calls : Forall₂ (Call.Carried move) x.calls y.calls

/-- The calls are in as many chunks as before. Chunks without calls may have been dropped. -/
structure Placement.Carried (move : UInt32 → UInt32 → Prop) (w w' : Placement) : Prop where
  room : w.room.Carried move w'.room
  inner : Forall₂ (Call.Carried move) w.inner w'.inner
  below : Forall₂ (Stretch.Carried move) w.below w'.below
  spares : ∃ rs, rs.Sublist w.spares ∧ Forall₂ (Room.Carried move) rs w'.spares

lemma Room.above_carried (h : Forall₂ (Call.Carried move) cs ds) :
    r'.above ds = r'.chunk.toNat + (40 + reach cs) := by
  rw [Room.above, reach_carried h, Nat.add_assoc]

lemma Room.frame_le_above : r.frame cs ≤ r.above cs := by
  cases cs with
  | nil => exact Nat.zero_le _
  | cons c cs =>
    rw [frame, Room.above_cons]
    omega

lemma Room.frame_carried (h : Forall₂ (Call.Carried move) cs ds) {v : UInt32}
    (hv : v.toNat = r.frame cs) (small : r'.frame ds < 4294967296) :
    (if v = 0 then 0 else v + (r'.chunk - r.chunk)).toNat = r'.frame ds := by
  cases h with
  | nil =>
    rw [if_pos (UInt32.toNat_inj.1 hv)]
    rfl
  | @cons c d cs ds _ hcs =>
    have hframe : r.frame (c :: cs) ≠ 0 := Room.frame_ne_zero (by simp)
    have hne : v ≠ 0 := fun h0 => hframe (by rw [← hv, h0]; rfl)
    rw [frame] at hv small
    rw [if_neg hne, frame, toNat_moved]
    all_goals
      rw [above] at *
      have := reach_carried hcs
      omega

/-- The scene `S'` describes what runs when the chunks `rs` have moved. Methods are the same where
they have gone, and nothing is fixed that contexts write. -/
structure Scene.Renews (S S' : Scene) (t : Store) (move : UInt32 → UInt32 → Prop)
    (rs : List Room) : Prop where
  ok : S'.Ok
  rom : t.rom = S'.rom
  eeprom : t.eeprom = S'.eeprom
  ram : t.ram = S'.ram
  agrees : Agrees S'.fixed S'.mem t.mem
  method : ∀ {mp mp'}, S.isMethod mp → move mp mp' → S'.isMethod mp' ∧ S'.form mp' = S.form mp
  free : ∀ b, S'.fixed b → b < (t.recorded 3).toNat ∨ (t.recorded 4).toNat ≤ b
  chunk : ∀ b r a, S'.fixed b → r ∈ rs → move r.chunk a →
    b < a.toNat ∨ a.toNat + 4 * r.words ≤ b

/-- The chunks `rs` have moved, with all that contexts need of them. References have changed by
`move`, which is a function; chunks in use keep their frames and their order, spare chunks may be
lost, and what did not overlap does not. -/
structure Relocation (S S' : Scene) (s t : Store) (move : UInt32 → UInt32 → Prop)
    (rs : List Room) : Prop where
  ready : S'.Ready t
  unique : ∀ {u v v'}, move u v → move u v' → v = v'
  zero : ∀ {v}, move 0 v → v = 0
  method : ∀ {mp mp'}, S.isMethod mp → move mp mp' → S'.isMethod mp' ∧ S'.form mp' = S.form mp
  chunk : ∀ {r a}, r ∈ rs → s.mem.peekWord (r.chunk.toNat + 16) ≠ 0 → move r.chunk a →
    S'.Holds t ⟨a, r.words⟩ ∧ ∃ b : Cell, b.oop = r.chunk ∧ b.Carried move s.mem t.mem a
  next : ∀ {r a v}, r ∈ rs → s.mem.peekWord (r.chunk.toNat + 16) ≠ 0 → move r.chunk a →
    s.mem.peekWord (r.chunk.toNat + 4) = v → s.mem.peekWord (v.toNat + 16) ≠ 0 → v ≠ 0 →
    move v (t.mem.peekWord (a.toNat + 4))
  spares : ∀ {r a us}, r ∈ rs → (∀ u ∈ us, u ∈ rs) →
    s.mem.peekWord (r.chunk.toNat + 16) ≠ 0 → move r.chunk a →
    Scene.Spare s.mem (s.mem.peekWord (r.chunk.toNat + 4)) us →
    ∃ us₁ us', us₁.Sublist us ∧ Forall₂ (Room.Carried move) us₁ us' ∧
      (∀ u ∈ us', S'.Holds t u) ∧
      Scene.Spare t.mem (t.mem.peekWord (a.toNat + 4)) us'
  apart : ∀ {r r' u u' : Room}, r ∈ rs → r' ∈ rs → r.Carried move u → r'.Carried move u' →
    r.Apart r' → u.Apart u'

/-- The call as it can be read at `lp`. -/
def Call.reread (c : Call) (n : Memory) (lp : Nat) : Call where
  method := n.peekWord (lp - 20)
  ip := n.peekWord (lp - 16)
  owner := n.peekWord (lp - 8)
  locals := n.wordsAt lp c.locals.length
  operands := n.wordsAt (lp + 4 * (c.locals.length + 5)) c.operands.length

section

variable {o : UInt32} {lp lp' previous previous' : Nat}

lemma Call.Lies.carried (h : c.Lies m lp previous) (ip : m.peekWord (lp - 16) = c.ip)
    (hf : Frame.Carried move m n o a lp lp') : c.Carried move (c.reread n lp') where
  method := h.method ▸ hf.method
  ip := by rw [← ip, ← h.method]; exact hf.ip
  locals := length_wordsAt
  operands := length_wordsAt

lemma Call.reread_lies (hp : (n.peekWord (lp' - 12)).toNat = previous') :
    (c.reread n lp').Lies n lp' previous' :=
  ⟨rfl, hp, rfl, lists_wordsAt⟩

end

namespace Relocation

variable (R : Relocation S S' s t move rs) (ok : S.Ok) (ready : S.Ready s)
include R

omit R in
lemma used (hl : r.above cs ≤ (s.mem.peekWord (r.chunk.toNat + 16)).toNat) :
    s.mem.peekWord (r.chunk.toNat + 16) ≠ 0 := fun h0 => by
  have := @Room.above_ge r cs
  rw [h0, UInt32.toNat_zero] at hl
  omega

lemma holds (hr : r ∈ rs) (used : s.mem.peekWord (r.chunk.toNat + 16) ≠ 0)
    (hc : r.Carried move r') : S'.Holds t r' := by
  have h := (R.chunk hr used hc.chunk).1
  rw [← hc.words] at h
  exact h

include ok ready

lemma frame (hr : r ∈ rs) (hc : r.Carried move r') (hcs : Forall₂ (Call.Carried move) cs ds)
    (h : S.Held s.mem r cs) (hl : r.above cs ≤ (s.mem.peekWord (r.chunk.toNat + 16)).toNat) :
    Frame.Carried move s.mem t.mem r.chunk r'.chunk (r.above cs) (r'.above ds) := by
  obtain ⟨-, b, ho, hb⟩ := R.chunk hr (used hl) hc.chunk
  obtain ⟨f, hf, hpos⟩ := h.frame ok ready.agrees ho hb.framed hb.reads hl
  have := hb.frame R.unique hf
  rw [hpos, ho] at this
  rw [Room.above_carried hcs, Room.above, Nat.add_assoc]
  exact this

omit ok ready in
lemma shaped (hc : r.Carried move r') (hcs : Forall₂ (Call.Carried move) cs ds)
    (hd : c.Carried move d) (h : S.Shaped s.mem r (r.above cs) (r.frame cs) c)
    (lies : d.Lies t.mem (r'.above ds) (r'.frame ds)) :
    S'.Shaped t.mem r' (r'.above ds) (r'.frame ds) d := by
  obtain ⟨known, form⟩ := R.method h.known hd.method
  refine ⟨lies, known, ?_, ?_⟩
  · rw [hd.locals, form, h.count]
  · have hfits := h.fits
    rw [Room.above, Room.stop] at hfits
    rw [hd.locals, form, Room.above_carried hcs, Room.stop, hc.words]
    omega

omit ok ready in
lemma ip_entry (hd : c.Carried move d) (known : S.isMethod c.method) :
    d.ip = S'.entry d.method ↔ c.ip = S.entry c.method := by
  rw [hd.ip, Scene.entry, (R.method known hd.method).2, Scene.entry, UInt32.add_right_inj]
  constructor
  · intro he
    rw [← he, UInt32.add_comm]
    exact (UInt32.sub_add_cancel _ _).symm
  · intro he
    rw [he, UInt32.add_comm, UInt32.add_sub_cancel]

lemma lies (hr : r ∈ rs) (hc : r.Carried move r') (hcs : Forall₂ (Call.Carried move) cs ds)
    (held : S.Held s.mem r cs) (hl : r.above cs ≤ (s.mem.peekWord (r.chunk.toNat + 16)).toNat)
    (h : c.Lies s.mem (r.above cs) (r.frame cs))
    (fits : r.above cs ≤ r.stop) :
    (c.reread t.mem (r'.above ds)).Lies t.mem (r'.above ds) (r'.frame ds) := by
  have hf := R.frame ok ready hr hc hcs held hl
  refine Call.reread_lies ?_
  rw [hf.previous]
  refine Room.frame_carried hcs h.previous ?_
  have hstop := (R.holds hr (used hl) hc).high
  have hle := @Room.frame_le_above r' ds
  have := (t.recorded 3).toNat_lt
  rw [Room.above, Room.stop] at fits
  rw [Room.above_carried hcs] at hle
  rw [Room.stop, hc.words] at hstop
  omega

lemma held (hr : r ∈ rs) (hc : r.Carried move r') (h : S.Held s.mem r cs)
    (hl : r.frame cs ≤ (s.mem.peekWord (r.chunk.toNat + 16)).toNat) :
    ∃ ds, S'.Held t.mem r' ds ∧ Forall₂ (Call.Carried move) cs ds := by
  induction cs with
  | nil => exact ⟨[], trivial, .nil⟩
  | cons c cs ih =>
    have := @Room.frame_le_above r cs
    rw [Room.frame] at hl
    obtain ⟨ds, hds, hcs⟩ := ih h.2 (by omega)
    have hw := h.1
    have hf := R.frame ok ready hr hc hcs h.2 hl
    have hd := hw.toLies.carried hw.ip hf
    have hlies := R.lies ok ready hr hc hcs h.2 hl hw.toLies (by have := hw.fits; omega)
    refine ⟨c.reread t.mem (r'.above ds) :: ds, ⟨?_, hds⟩, .cons hd hcs⟩
    refine ⟨⟨R.shaped hc hcs hd hw.toShaped hlies, ?_⟩, rfl, ?_, ?_⟩
    · rw [hf.offset, hd.locals]
      exact hw.offset
    · exact fun he => hw.behind ((R.ip_entry hd hw.known).1 he)
    · exact eq_nil_of_length_eq_zero (by rw [hd.operands, hw.operands]; rfl)

omit ok ready in
lemma last (hr : r ∈ rs) (hc : r.Carried move r') (hcs : Forall₂ (Call.Carried move) cs ds)
    (used : s.mem.peekWord (r.chunk.toNat + 16) ≠ 0)
    (hl : (s.mem.peekWord (r.chunk.toNat + 16)).toNat = r.frame cs) (fits : r.frame cs ≤ r.stop) :
    (t.mem.peekWord (r'.chunk.toNat + 16)).toNat = r'.frame ds := by
  obtain ⟨hold, b, ho, hb⟩ := R.chunk hr used hc.chunk
  have := hb.last
  rw [ho] at this
  rw [this]
  refine Room.frame_carried hcs hl ?_
  have hstop := hold.high
  have := (t.recorded 3).toNat_lt
  rw [Room.stop] at fits hstop
  dsimp only at hstop
  cases hcs with
  | nil => exact Nat.zero_lt_succ _
  | cons _ hcs =>
    rw [Room.frame, Room.above] at *
    rw [reach_carried hcs]
    omega

lemma linked {chunk a : UInt32} {ts : List Stretch} (h : S.Linked s.mem chunk ts)
    (hold : ∀ x ∈ ts, S.Holds s x.room) (hsub : ∀ x ∈ ts, x.room ∈ rs)
    (prev : move (s.mem.peekWord (chunk.toNat + 8)) (t.mem.peekWord (a.toNat + 8)))
    (hm : move chunk a) (used : s.mem.peekWord (chunk.toNat + 16) ≠ 0) (ne : chunk ≠ 0) :
    ∃ ts', S'.Linked t.mem a ts' ∧ Forall₂ (Stretch.Carried move) ts ts' ∧
      ∀ y ∈ ts', S'.Holds t y.room := by
  induction ts generalizing chunk a with
  | nil =>
    rw [h] at prev
    exact ⟨[], R.zero prev, .nil, fun _ hy => absurd hy not_mem_nil⟩
  | cons x ts ih =>
    obtain ⟨hx, sus, rest⟩ := h
    have hr := hsub x mem_cons_self
    have hlast := sus.last
    have hused : s.mem.peekWord (x.room.chunk.toNat + 16) ≠ 0 := fun h0 =>
      Room.frame_ne_zero sus.some_call (by rw [← hlast, h0]; rfl)
    rw [hx] at prev
    generalize hb : t.mem.peekWord (a.toNat + 8) = b at prev
    have hc : x.room.Carried move ⟨b, x.room.words⟩ := ⟨prev, rfl⟩
    obtain ⟨ds, hds, hcs⟩ := R.held ok ready hr hc sus.held (Nat.le_of_eq hlast.symm)
    obtain ⟨-, d, ho, hd⟩ := R.chunk hr hused prev
    have hprev := hd.prev
    rw [ho] at hprev
    obtain ⟨ts', hts, hall, hholds⟩ := ih rest (fun y hy => hold y (mem_cons_of_mem _ hy))
      (fun y hy => hsub y (mem_cons_of_mem _ hy)) hprev prev hused
      (hold x mem_cons_self).chunk_ne
    refine ⟨⟨⟨b, x.room.words⟩, ds⟩ :: ts',
      ⟨hb, ⟨?_, ?_, R.last hr hc hcs hused hlast sus.held.frame_le, hds⟩,
      hts⟩, .cons ⟨hc, hcs⟩ hall, ?_⟩
    · exact R.unique (R.next hr hused prev sus.next used ne) hm
    · rintro rfl
      exact sus.some_call (forall₂_nil_right_iff.1 hcs)
    · intro y hy
      rcases mem_cons.1 hy with rfl | hy
      · exact R.holds hr hused hc
      · exact hholds y hy

omit ok ready in
lemma pairwise {us us' : List Room} (h : Forall₂ (Room.Carried move) us us')
    (hsub : ∀ u ∈ us, u ∈ rs) (hp : us.Pairwise Room.Apart) : us'.Pairwise Room.Apart := by
  induction h with
  | nil => exact .nil
  | @cons u u' us us' hu hall ih =>
    obtain ⟨hfirst, hrest⟩ := pairwise_cons.1 hp
    refine pairwise_cons.2 ⟨fun v' hv' => ?_, ih (fun x hx => hsub x (.tail _ hx)) hrest⟩
    obtain ⟨v, hv, hvv⟩ := exists_of_mem hall hv'
    exact R.apart (hsub u mem_cons_self) (hsub v (.tail _ hv)) hu hvv (hfirst v hv)

end Relocation

lemma Placement.Carried.rooms (h : w.Carried move w') :
    ∃ us, us.Sublist w.rooms ∧ Forall₂ (Room.Carried move) us w'.rooms := by
  obtain ⟨us, hsub, hus⟩ := h.spares
  refine ⟨w.room :: (w.below.map (·.room) ++ us), .cons_cons _ (.append (.refl _) hsub),
    .cons h.room (rel_append ?_ hus)⟩
  rw [forall₂_map_left_iff, forall₂_map_right_iff]
  exact h.below.imp fun _ _ hx => hx.room

namespace Relocation

variable (R : Relocation S S' s t move rs) (ok : S.Ok)
include R ok

lemma rests (h : S.Rests s w) (hsub : ∀ r ∈ w.rooms, r ∈ rs) (hm : move w.room.chunk a)
    (hl : w.lp ≤ (s.mem.peekWord (w.room.chunk.toNat + 16)).toNat) :
    ∃ w', S'.Rests t w' ∧ w.Carried move w' ∧ w'.room.chunk = a := by
  have hr := hsub w.room mem_cons_self
  have hused := used hl
  have hle := @Room.frame_le_above w.room w.inner
  have hc : w.room.Carried move ⟨a, w.room.words⟩ := ⟨hm, rfl⟩
  obtain ⟨hold, b, ho, hb⟩ := R.chunk hr hused hm
  have hprev := hb.prev
  rw [ho] at hprev
  have hbelow : ∀ x ∈ w.below, x.room ∈ w.rooms := fun x hx =>
    .tail _ (mem_append_left _ (mem_map_of_mem hx))
  have hspare : ∀ u ∈ w.spares, u ∈ w.rooms := fun u hu => .tail _ (mem_append_right _ hu)
  obtain ⟨ds, hds, hcs⟩ := R.held ok h.ready hr hc h.inner (Nat.le_trans hle hl)
  obtain ⟨ts', hts, hall, hholds⟩ := R.linked ok h.ready h.below
    (fun x hx => h.rooms _ (hbelow x hx))
    (fun x hx => hsub _ (hbelow x hx)) hprev hm hused (h.rooms _ mem_cons_self).chunk_ne
  obtain ⟨us, us', hus, hall', hholds', hspares⟩ := R.spares hr (fun u hu => hsub u (hspare u hu))
    hused hm h.spares
  have hcar : w.Carried move ⟨⟨a, w.room.words⟩, ds, ts', us'⟩ := ⟨hc, hcs, hall, us, hus, hall'⟩
  obtain ⟨vs, hvs, hrooms⟩ := hcar.rooms
  refine ⟨⟨⟨a, w.room.words⟩, ds, ts', us'⟩, ⟨R.ready, ?_, ?_, hds, hts, hspares⟩, hcar, rfl⟩
  · intro r hr
    rcases mem_cons.1 hr with rfl | hr
    · exact hold
    rcases mem_append.1 hr with hr | hr
    · obtain ⟨y, hy, rfl⟩ := mem_map.1 hr
      exact hholds y hy
    · exact hholds' r hr
  · exact R.pairwise hrooms (fun u hu => hsub u (hvs.subset hu)) (h.apart.sublist hvs)

section

variable (hw : w.Carried move w') (hd : c.Carried move d)
  (offset : t.mem.peekWord (w'.lp - 4) = s.mem.peekWord (w.lp - 4))
  (lies : d.Lies t.mem w'.lp w'.previous)
include hw hd offset lies

omit ok in
lemma paused (operands : t.mem.Lists (w'.lp + 4 * (d.locals.length + 5)) d.operands)
    (h : S.Paused s.mem w c) : S'.Paused t.mem w' d where
  toShaped := R.shaped hw.room hw.inner hd h.toShaped lies
  operands := operands
  within := by
    rw [hd.operands, (R.method h.known hd.method).2]
    exact h.within
  offset := by
    rw [hd.locals, hd.operands, offset]
    exact h.offset
  behind he := h.behind ((R.ip_entry hd h.known).1 he)

omit ok in
lemma pending (h : S.Pending s.mem w c) : S'.Pending t.mem w' d := by
  obtain ⟨known, form⟩ := R.method h.known hd.method
  have : w'.lp = w'.room.chunk.toNat + (40 + reach w.inner) := Room.above_carried hw.inner
  have : w.lp = w.room.chunk.toNat + 40 + reach w.inner := rfl
  have : w'.room.stop = w'.room.chunk.toNat + 4 * w.room.words := by
    rw [Room.stop, hw.room.words]
  have := w.room.stop_eq
  refine ⟨lies, known, ?_, ?_, ?_, ?_, ?_, (R.ip_entry hd h.known).2 h.start⟩
  · rw [hd.locals, form]
    exact h.count
  · exact eq_nil_of_length_eq_zero (by rw [hd.operands, h.operands]; rfl)
  · have := h.inside
    rw [hd.locals]
    omega
  · intro hn
    have hin : w.inner = [] := forall₂_nil_right_iff.1 (hn ▸ hw.inner)
    have := h.first hin
    rw [form]
    omega
  · rw [hd.locals, offset]
    exact h.offset

end

lemma saved (h : S.Saved s σ w) (hsub : ∀ r ∈ w.rooms, r ∈ rs) (hm : move w.room.chunk a) :
    ∃ τ w', S'.Saved t τ w' ∧ w.Carried move w' ∧ w'.room.chunk = a ∧
      σ.top.Carried move τ.top ∧ τ.entered = σ.entered := by
  have hr := hsub w.room mem_cons_self
  have hl := Nat.le_of_eq h.last.symm
  obtain ⟨w', hw', hcar, ha⟩ := R.rests ok h.rests hsub hm hl
  have ready := h.rests.ready
  have hlies := h.lies
  have hf : Frame.Carried move s.mem t.mem w.room.chunk w'.room.chunk w.lp w'.lp :=
    R.frame ok ready hr hcar.room hcar.inner h.rests.inner hl
  have hd := hlies.carried h.ip hf
  have hlies' : (σ.top.reread t.mem w'.lp).Lies t.mem w'.lp w'.previous :=
    R.lies ok ready hr hcar.room hcar.inner h.rests.inner hl hlies h.inside
  have hops : t.mem.Lists (w'.lp + 4 * ((σ.top.reread t.mem w'.lp).locals.length + 5))
      (σ.top.reread t.mem w'.lp).operands := by
    rw [hd.locals]
    exact lists_wordsAt
  refine ⟨⟨σ.top.reread t.mem w'.lp, σ.entered, w'.callers⟩, w', ⟨hw', ?_, rfl, rfl, ?_⟩, hcar, ha,
    hd, rfl⟩
  · exact R.last hr hcar.room (.cons hd hcar.inner) (used hl) h.last h.inside
  have htop := h.top
  cases he : σ.entered with
  | true =>
    rw [if_pos he] at htop
    exact R.paused hcar hd hf.offset hlies' hops htop
  | false =>
    rw [if_neg (by simp [he])] at htop
    exact R.pending hcar hd hf.offset hlies' htop

end Relocation

end Stack

end DeviceVm
