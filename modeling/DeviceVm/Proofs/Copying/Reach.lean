import DeviceVm.Proofs.Copying.Scan

/-!
What the collector finds. Objects are reached over their references; a chunk is left over its link
to the next chunk only if that has frames. When every copy is updated, the copied objects refer
to copied objects only.
-/

namespace DeviceVm.Copying

open Store Word Traversal

namespace Scene

variable (S : Scene) (orig : Cell → Nat → UInt32)

/-- One object refers to another, both in the half in use. -/
inductive Refers (c d : Cell) : Prop
  | pointer {x : Nat} (hx : x % 4 = 0) (hb : x + 4 ≤ c.body) (hr : c.role x = .pointer)
      (hd : S.Fresh d) (he : d.oop = orig c x)
  | next (hc : c.isChunk) (hb : 8 ≤ c.body) (hd : S.Fresh d) (hd' : d.isChunk)
      (he : d.oop = orig c 4) (hu : orig d 16 ≠ 0)

/-- Found from the first objects by references. -/
inductive Reached (first : Cell → Prop) : Cell → Prop
  | first {c : Cell} (h : first c) : Reached first c
  | step {c d : Cell} (h : Reached first c) (hr : S.Refers orig c d) : Reached first d

/-- A reference: to nothing, to something that does not move, to an object with a persistent
copy or to an object of the half in use. A chunk has frames. -/
inductive Legal : UInt32 → Prop
  | still {v : UInt32} (h : S.Still v) : Legal v
  | gone {c : Cell} {e : UInt32} (hm : c ∈ S.cells) (hr : S.ram.Has c.oop)
      (he : S.gone c = some e) : Legal c.oop
  | fresh {c : Cell} (hf : S.Fresh c) (framed : c.isChunk → S.Framed c (orig c)) : Legal c.oop

/-- What an object that is found must be like, so that its copy can be updated. -/
structure Sound (c : Cell) : Prop where
  framed : c.isChunk → S.Framed c (orig c)
  pointer : ∀ x, x % 4 = 0 → x + 4 ≤ c.body → c.role x = .pointer → S.Legal orig (orig c x)
  /-- The next chunk may be a spare one. -/
  next : c.isChunk → orig c 4 = 0 ∨ ∃ d, S.Fresh d ∧ d.isChunk ∧ 20 ≤ d.body ∧
    d.oop = orig c 4
  /-- The class of a class state tells its shape. -/
  owner : ∀ k, c.shape = .classState k → 4 ≤ c.body ∧ orig c 0 = c.words S.mem 0

end Scene

variable {S : Scene} {g : Progress} {s : Store} {orig : Cell → Nat → UInt32} {c d : Cell}
  {first : Cell → Prop} {v : UInt32}

lemma Scene.Legal.follows (h : S.Legal orig v) {live : Cell → Prop}
    (hl : ∀ c, S.Fresh c → c.oop = v → live c) : S.Follows live v := by
  cases h with
  | still h => exact .still h
  | gone hm hr he => exact .gone hm hr he
  | fresh hf _ => exact .live (hl _ hf rfl)

lemma Scene.Reached.closed (hs : ∀ c, S.Reached orig first c → S.Fresh c ∧ S.Sound orig c) :
    Closed S orig (S.Reached orig first) where
  fresh c h := (hs c h).1
  framed c h hc := (hs c h).2.framed hc
  pointer c x h hx hb hr := ((hs c h).2.pointer x hx hb hr).follows fun d hd he =>
    h.step (.pointer hx hb hr hd he)
  next c h hc := by
    rcases (hs c h).2.next hc with h0 | ⟨d, hd, hdc, hb, he⟩
    · exact .inl h0
    · have := ((hs c h).2.framed hc).room
      exact .inr ⟨d, hd, hdc, hb, he, fun hu => h.step (.next hc (by omega) hd hdc he hu)⟩
  owner c k h := (hs c h).2.owner k

lemma Scene.Image.placed {order : List Cell} (ok : S.Ok) (hf : S.Fresh d)
    (h : S.Image order d.oop v) : Placed S.target order d v.toNat := by
  generalize ho : d.oop = w at h
  cases h with
  | still h => exact absurd (ho ▸ h) (ok.not_still hf.mem hf.inRam)
  | gone hm hr he =>
    rw [← ok.cell_eq hf.mem hm ho, hf.stays] at he
    cases he
  | copied hf' hp => rwa [ok.cell_eq hf.mem hf'.mem ho]

lemma Inv.refers (h : Inv S g s) (ok : S.Ok)
    (hdone : g.done = (· < S.target + Cell.total g.order))
    (hc : c ∈ g.order) (hr : S.Refers g.orig c d) : d ∈ g.order := by
  obtain ⟨a, -, hp⟩ := h.place ok hc
  have := hp.high
  have updated : ∀ x, x % 4 = 0 → x + 4 ≤ c.body → ∃ v, S.Updated g c a x v := fun x hx hb =>
    ⟨_, h.updated c a x hp hx hb (by rw [hdone]; omega)⟩
  cases hr with
  | pointer hx hb hr hd he =>
    obtain ⟨v, hv⟩ := updated _ hx hb
    simp only [Scene.Updated, hr, ← he] at hv
    exact (hv.placed ok hd).mem
  | next hc hb hd hdc he hu =>
    obtain ⟨v, hv⟩ := updated 4 rfl hb
    simp only [Scene.Updated, Cell.role_next hc, ← he] at hv
    rcases hv with ⟨-, h0 | ⟨e, hf, -, heo, hz⟩⟩ | ⟨e, hf, -, -, -, hi⟩
    · exact absurd h0 (ok.oop_ne_zero hd.mem)
    · rw [ok.cell_eq hf.mem hd.mem heo] at hz
      exact absurd hz hu
    · exact (hi.placed ok hd).mem

lemma Inv.reached (h : Inv S g s) (ok : S.Ok)
    (hdone : g.done = (· < S.target + Cell.total g.order)) (hfirst : ∀ c, first c → c ∈ g.order)
    (hr : S.Reached g.orig first c) : c ∈ g.order := by
  induction hr with
  | first h => exact hfirst _ h
  | step _ hr ih => exact h.refers ok hdone ih hr

/-! ### Links that are rewritten -/

/-- Some words of objects other than chunks and class states are rewritten; they need no further
change. -/
def Scene.Rewritten (S : Scene) (orig orig' : Cell → Nat → UInt32) : Prop :=
  ∀ c x, c ∈ S.cells → orig' c x = orig c x ∨
    (¬ c.isChunk ∧ (∀ k, c.shape ≠ .classState k) ∧ S.Still (orig' c x))

lemma Scene.Reached.mem (h : S.Reached orig first c) (hf : ∀ c, first c → c ∈ S.cells) :
    c ∈ S.cells := by
  cases h with
  | first h => exact hf _ h
  | step _ hr =>
    cases hr with
    | pointer _ _ _ hd _ => exact hd.mem
    | next _ _ hd _ _ _ => exact hd.mem

namespace Scene.Rewritten

variable {orig' : Cell → Nat → UInt32}

section

variable (h : S.Rewritten orig orig')
include h

lemma chunk (hm : c ∈ S.cells) (hc : c.isChunk) : orig' c = orig c := by
  funext x
  rcases h c x hm with he | ⟨hn, _⟩
  · exact he
  · exact absurd hc hn

lemma refers (ok : S.Ok) (hm : c ∈ S.cells) (hr : S.Refers orig' c d) : S.Refers orig c d := by
  cases hr with
  | @pointer x hx hb hr hd he =>
    rcases h c x hm with heq | ⟨_, _, hs⟩
    · exact .pointer hx hb hr hd (he.trans heq)
    · exact absurd (he ▸ hs) (ok.not_still hd.mem hd.inRam)
  | next hc hb hd hdc he hu =>
    rw [h.chunk hm hc] at he
    rw [h.chunk hd.mem hdc] at hu
    exact .next hc hb hd hdc he hu

lemma reached (ok : S.Ok) (hf : ∀ c, first c → c ∈ S.cells) (hr : S.Reached orig' first c) :
    S.Reached orig first c := by
  induction hr with
  | first hf => exact .first hf
  | step hc hr ih => exact ih.step (h.refers ok (hc.mem hf) hr)

lemma legal (hl : S.Legal orig v) : S.Legal orig' v := by
  cases hl with
  | still hs => exact .still hs
  | gone hm hr he => exact .gone hm hr he
  | fresh hf framed =>
    refine .fresh hf fun hc => ?_
    rw [h.chunk hf.mem hc]
    exact framed hc

lemma sound (hm : c ∈ S.cells) (hs : S.Sound orig c) : S.Sound orig' c where
  framed hc := by
    rw [h.chunk hm hc]
    exact hs.framed hc
  pointer x hx hb hr := by
    rcases h c x hm with he | ⟨_, _, hst⟩
    · rw [he]
      exact h.legal (hs.pointer x hx hb hr)
    · exact .still hst
  next hc := by
    rw [h.chunk hm hc]
    exact hs.next hc
  owner k hk := by
    rcases h c 0 hm with he | ⟨_, hn, _⟩
    · rw [he]
      exact hs.owner k hk
    · exact absurd hk (hn k)

end

end Scene.Rewritten

lemma Scene.Reached.mono {other : Cell → Prop} (h : S.Reached orig first c)
    (hf : ∀ c, first c → S.Reached orig other c) : S.Reached orig other c := by
  induction h with
  | first h => exact hf _ h
  | step _ hr ih => exact ih.step hr

end DeviceVm.Copying
