import DeviceVm.Proofs.Copying.Write

/-!
The copies are updated one after another. Each reference word of a copy becomes the image of what
it was, which may make further copies; at the end every word of every copy is updated.
-/

namespace DeviceVm.Copying

open List Memory Header Cell Chunk Store Word Traversal

variable {S : Scene} {g : Progress} {s : Store} {c d : Cell} {a b : UInt32} {x y : Nat}

variable {orig : Cell → Nat → UInt32} {v : UInt32} {live : Cell → Prop}

lemma Closed.leads (cl : Closed S orig live) (hv : S.Follows live v) (hr : S.ram.Has v)
    {order : List Cell} {done : Nat → Prop} {record : Nat → UInt32} {scan : UInt32} :
    S.Leads { order, orig, record, done, scan } v := by
  cases hv with
  | still h =>
    rcases h with h | h
    · exact absurd hr h
    · exact .target h.1 h.2
  | gone hm hr he => exact .gone hm hr he
  | live h =>
    refine .fresh (cl.fresh _ h) fun hc => ?_
    have := cl.framed _ h hc
    exact ⟨this.room, this.used⟩

lemma Closed.live_of
    (cl : Closed S orig live) (ok : S.Ok) (hv : S.Follows live v) (hf : S.Fresh d)
    (hd : d.oop = v) : live d := by
  cases hv with
  | still h => exact absurd (hd ▸ h) (ok.not_still hf.mem hf.inRam)
  | gone hm _ he =>
    have := ok.cell_eq hf.mem hm hd
    subst this
    rw [hf.stays] at he
    exact absurd he (by simp)
  | live h =>
    have := ok.cell_eq hf.mem (cl.fresh _ h).mem hd
    exact this ▸ h

lemma done_also (P D : Nat → Prop) (n x : Nat) :
    (fun y => (P y ∨ ∃ z, also D x z ∧ y = n + z)) =
      also (fun y => P y ∨ ∃ z, D z ∧ y = n + z) (n + x) := by
  funext y
  simp only [also]
  grind

/-- While the words in `D` of the copy at `a` have been updated. -/
def During (S : Scene) (live : Cell → Prop) (g : Progress) (a : UInt32) (D : Nat → Prop)
    (t : Store) : Prop :=
  ∃ more, Inv S { g with
    order := g.order ++ more
    done := fun y => g.done y ∨ ∃ x, D x ∧ y = a.toNat + x } t ∧ ∀ d ∈ more, live d

variable {D : Nat → Prop} {base : UInt32} {index : Int32}

/-- The copy of a live object whose words were not updated. -/
structure Pending (S : Scene) (live : Cell → Prop) (g : Progress) (c : Cell) (a : UInt32) :
    Prop where
  placed : Placed S.target g.order c a.toNat
  live : live c
  waits : ∀ x, x + 4 ≤ c.body → ¬ g.done (a.toNat + x)

namespace During

lemma inside (h : During S live g a D s) (ok : S.Ok) (p : Pending S live g c a) :
    a.toNat % 4 = 0 ∧ a.toNat + c.body ≤ s.mem.size ∧ s.mem.size ≤ 16777216 ∧
      (c.oop ≠ a ∧ 0 < a.toNat) := by
  obtain ⟨more, h, _⟩ := h
  have hp := p.placed.append more
  have := h.placed_bounds ok hp
  have := ok.bounds
  have := h.mem_size
  have := ok.cell_low (h.fresh c hp.mem).mem
  have := ok.cell_high (h.fresh c hp.mem).mem
  have := ok.halves
  have := c.head_cases
  refine ⟨h.placed_aligned ok hp, by omega, by omega, ?_, by omega⟩
  rintro rfl
  omega

lemma word (h : During S live g a D s) (p : Pending S live g c a) (hx : x % 4 = 0)
    (hb : x + 4 ≤ c.body) (hd : ¬ D x) : s.mem.peekWord (a.toNat + x) = g.orig c x := by
  obtain ⟨more, h, _⟩ := h
  refine h.waiting c a x (p.placed.append more) hx hb ?_
  rintro (hh | ⟨z, hz, he⟩)
  · exact p.waits x hb hh
  · exact hd (show x = z by omega ▸ hz)

lemma updated (h : During S live g a D s) (p : Pending S live g c a) (hx : x % 4 = 0)
    (hb : x + 4 ≤ c.body) (hd : D x) : ∃ more,
      S.Updated { g with order := g.order ++ more } c a x (s.mem.peekWord (a.toNat + x)) ∧
      Inv S { g with
        order := g.order ++ more
        done := fun y => g.done y ∨ ∃ x, D x ∧ y = a.toNat + x } s ∧ ∀ d ∈ more, live d := by
  obtain ⟨more, h, hl⟩ := h
  exact ⟨more, h.updated c a x (p.placed.append more) hx hb (.inr ⟨x, hd, rfl⟩), h, hl⟩

section

variable (h : During S live g a D s) (ok : S.Ok) (p : Pending S live g c a) (hx : x % 4 = 0)
include h ok p hx

lemma write (hb : x + 4 ≤ c.body) {v : UInt32}
    (hv : ∀ order done, S.Updated { g with order, done } c a x v) :
    During S live g a (also D x) (s.setMem (s.mem.pokeWord (a.toNat + x) v)) := by
  obtain ⟨more, h, hl⟩ := h
  refine ⟨more, ?_, hl⟩
  rw [done_also]
  exact h.update ok (p.placed.append more) hx hb (hv _ _)

lemma leave (hb : x + 4 ≤ c.body) (hd : ¬ D x)
    (hv : ∀ order done, S.Updated { g with order, done } c a x (g.orig c x)) :
    During S live g a (also D x) s := by
  have hw := h.word p hx hb hd
  obtain ⟨more, h, hl⟩ := h
  refine ⟨more, ?_, hl⟩
  rw [done_also]
  refine h.update_same ok (p.placed.append more) hx hb ?_
  rw [hw]
  exact hv _ _

lemma writeCode (hb : x + 4 ≤ c.body) (h4 : 4 ≤ x) (hd : D (x - 4)) (hr : c.role x = .code)
    (hm : c.role (x - 4) = .pointer) :
    During S live g a (also D x) (s.setMem (s.mem.pokeWord (a.toNat + x)
      (s.mem.peekWord (a.toNat + (x - 4)) + (g.orig c x - g.orig c (x - 4))))) := by
  obtain ⟨more, hu, h, hl⟩ := h.updated p (by omega) (by omega) hd
  refine ⟨more, ?_, hl⟩
  rw [done_also]
  refine h.update ok (p.placed.append more) hx hb ?_
  simp only [Scene.Updated, hm] at hu
  simp only [Scene.Updated, hr]
  exact ⟨_, hu, rfl⟩

end

end During

lemma copyWord_ends (ok : S.Ok) (cl : Closed S g.orig live) (h : During S live g a D s)
    (p : Pending S live g c a) (hx : x % 4 = 0) (hb : x + 4 ≤ c.body) (hd : ¬ D x)
    (hv : S.Follows live (g.orig c x))
    (up : ∀ order done v, S.Image order (g.orig c x) v →
      S.Updated { g with order, done } c a x v)
    (hpt : Points base index (a.toNat + x)) :
    Ends (copyWord S.space base index) s fun _ t => During S live g a (also D x) t := by
  have := h.inside ok p
  have same : S.Still (g.orig c x) → During S live g a (also D x) s := fun hs =>
    h.leave ok p hx hb hd fun _ _ => up _ _ _ (.still hs)
  refine .read_bind ((word_eq hpt (by omega)).trans
    (congrArg _ (h.word p hx hb hd))) ?_
  by_cases h0 : g.orig c x = 0
  · rw [if_neg (by simpa using h0)]
    refine .pure (same (.inl ?_))
    rw [h0]
    rintro ⟨hlow, _⟩
    have := ok.ram_pos
    simp at hlow
    omega
  rw [if_pos (by simpa using h0)]
  obtain ⟨more, h, hl⟩ := h
  refine .query_bind (h.inRam ok _) ?_
  by_cases hr : S.ram.Has (g.orig c x)
  · rw [decide_eq_true hr, if_pos rfl]
    refine .bind (copyObject_ends ok h (cl.leads hv hr)) fun v t ht => ?_
    obtain ⟨new, hi, him, hnew⟩ := ht
    rw [append_assoc] at hi him
    have := h.mem_size
    have := hi.mem_size
    refine .edit (setWord_eq hpt (by omega)) ⟨more ++ new, ?_, ?_⟩
    · rw [done_also]
      exact hi.update ok (p.placed.append _) hx hb (up _ _ _ him)
    intro d hd
    rcases mem_append.1 hd with hd | hd
    · exact hl d hd
    · refine cl.live_of ok hv ?_ (hnew d hd)
      exact hi.fresh d (by simp [hd])
  · rw [decide_eq_false hr, if_neg Bool.false_ne_true]
    exact .pure (same (.inl hr))

namespace During

lemma walk (ok : S.Ok) (cl : Closed S g.orig live) (p : Pending S live g c a) (hc : c.isChunk) :
    Walk (During S live g a) (copyWord S.space) a.toNat c.body (g.orig c) (a - c.oop)
      c.frames where
  inside h := ⟨(h.inside ok p).2.1, (h.inside ok p).2.2.1⟩
  unvisited h hx hb hd := h.word p hx hb hd
  reads := by
    rintro done s f ⟨more, h, _⟩ hf
    exact (cl.framed c p.live hc).reads f hf _ h.agrees
  visit := by
    intro done s f x base index h hf hx hcode hd hpt
    have hfr := (cl.framed c p.live hc).frames
    obtain ⟨hspan, hx4, hxb, _⟩ := (hfr.stands hf).touched hx
    have hrole : c.role x = .pointer := by
      rw [role_frame hc hfr hf hspan, Activation.role_pointer hx hcode]
    refine copyWord_ends ok cl h p hx4 hxb hd
      (cl.pointer c x p.live hx4 hxb hrole) (fun order done v hv => ?_) hpt
    simpa only [Scene.Updated, hrole] using hv
  code := by
    intro done s f h hf hm hd
    have hfr := (cl.framed c p.live hc).frames
    have hs := hfr.stands hf
    have := hs.low
    have hip : f.touches 0 (f.pos - 16) := .inr (.inr (.inl (by omega)))
    have hmp : f.touches 0 (f.pos - 20) := .inl (by omega)
    obtain ⟨hspan, hx4, hxb, _⟩ := hs.touched hip
    obtain ⟨hspan', _, _, _⟩ := hs.touched hmp
    have hrole : c.role (f.pos - 16) = .code := by
      rw [role_frame hc hfr hf hspan, Activation.role_code (by omega)]
    have hrole' : c.role (f.pos - 20) = .pointer := by
      rw [role_frame hc hfr hf hspan', Activation.role_pointer (.inl (by omega)) (by omega)]
    exact h.writeCode ok p hx4 hxb (by omega) hm hrole hrole'
  link := by
    intro done s f h hf hd hshift
    have hfr := (cl.framed c p.live hc).frames
    have hs := hfr.stands hf
    have := hs.low
    have hlink : f.touches (a - c.oop) (f.pos - 12) :=
      .inr (.inr (.inr (.inl ⟨by omega, hshift⟩)))
    obtain ⟨hspan, hx4, hxb, _⟩ := hs.touched hlink
    have hrole : c.role (f.pos - 12) = .link := by
      rw [role_frame hc hfr hf hspan, Activation.role_link (by omega)]
    refine h.write ok p hx4 hxb fun order done => ?_
    simp only [Scene.Updated, hrole]

end During

namespace Inv

lemma resolve_fresh (h : Inv S g s) (ok : S.Ok) (hf : S.Fresh d) :
    ∃ current : UInt32, resolve d.oop s.mem = .ok current ∧
      ((d ∉ g.order ∧ current = d.oop) ∨ Placed S.target g.order d current.toNat) := by
  by_cases hd : d ∈ g.order
  · obtain ⟨b, hb, hp⟩ := h.place ok hd
    have h2 : (b + 2).toNat % 4 = 2 := by
      rw [toNat_add_two (by omega)]
      omega
    refine ⟨b, ?_, .inr hp⟩
    rw [(h.moved d b hp).resolve_forwarded h2, add_two_sub]
  · have := (ok.kind d hf.mem).1
    exact ⟨d.oop, (h.unmoved d hf.mem hf.stays hd).resolve_self (by omega), .inl ⟨hd, rfl⟩⟩

lemma lastFrame_eq (h : Inv S g s) (ok : S.Ok) (hf : S.Fresh d) (hc : d.isChunk)
    (hb : 20 ≤ d.body) (hl : g.orig d 16 ≠ 0 → S.Framed d (g.orig d)) {current : UInt32}
    (hcur : (d ∉ g.order ∧ current = d.oop) ∨ Placed S.target g.order d current.toNat) :
    ∃ last, lastFrame current s.mem = .ok last ∧ (last = 0 ↔ g.orig d 16 = 0) := by
  rcases hcur with ⟨hn, rfl⟩ | hp
  · exact ⟨_, h.last_word ok hf hn hb, Iff.rfl⟩
  have := h.placed_bounds ok hp
  have := ok.bounds
  have := h.mem_size
  have := h.placed_aligned ok hp
  refine ⟨s.mem.peekWord (current.toNat + 16), word_eq
    (.lit 4 rfl) (by omega), ?_⟩
  by_cases hd : g.done (current.toNat + 16)
  · have hu := h.updated d current 16 hp rfl hb hd
    simp only [Scene.Updated, role_last hc] at hu
    rw [hu]
    by_cases h0 : g.orig d 16 = 0
    · simp [h0]
    rw [if_neg h0]
    refine iff_of_false (fun he => ?_) h0
    -- The frame is behind the copy by less than half of all addresses.
    have hfr := hl h0
    have := hfr.frames.last_lt (by omega)
    have := hfr.last
    have hn := congrArg UInt32.toNat he
    simp only [UInt32.toNat_add, UInt32.toNat_sub] at hn
    have := d.oop.toNat_lt
    have := UInt32.toNat_zero
    omega
  · rw [h.waiting d current 16 hp rfl hb hd]

end Inv

lemma copyNext_ends (ok : S.Ok) (cl : Closed S g.orig live) (h : During S live g a D s)
    (p : Pending S live g c a) (hc : c.isChunk) (hd : ¬ D 4) {rest : Run Unit}
    {post : Unit → Store → Prop}
    (hrest : ∀ t, During S live g a (also D 4) t → Ends rest t post) :
    Ends (do
      let next ← next a
      if next != 0 then
        let current ← resolve next
        if (← lastFrame current) == 0 then setNext a 0
        else copyWord S.space a 1
      rest) s post := by
  have := h.inside ok p
  have := (cl.framed c p.live hc).room
  have hpt : Points a 1 (a.toNat + 4) := .lit 1 rfl (by omega)
  have hread : next a s.mem = .ok (g.orig c 4) := by
    rw [← h.word p rfl (by omega) hd]
    exact word_eq hpt (by omega)
  have hrole := role_next hc
  refine .read_bind hread ?_
  rcases cl.next c p.live hc with h0 | ⟨d, hf, hdc, hb, hoop, hlive⟩
  · rw [if_neg (by simpa using h0)]
    refine hrest s (h.leave ok p rfl (by omega) hd fun order done => ?_)
    simp only [Scene.Updated, hrole]
    exact .inl ⟨h0, .inl h0⟩
  have h0 : g.orig c 4 ≠ 0 := hoop ▸ ok.oop_ne_zero hf.mem
  rw [if_pos (by simpa using h0)]
  obtain ⟨more, hi, hl⟩ := id h
  obtain ⟨current, hres, hcur⟩ := hi.resolve_fresh ok hf
  obtain ⟨last, hlast, hiff⟩ := hi.lastFrame_eq ok hf hdc hb
    (fun hne => cl.framed d (hlive hne) hdc) hcur
  rw [hoop] at hres
  refine .read_bind hres (.read_bind hlast ?_)
  by_cases hz : g.orig d 16 = 0
  · rw [if_pos (by simpa using hiff.2 hz)]
    refine .edit_bind (setWord_eq hpt (by omega)) (hrest _ ?_)
    refine h.write ok p rfl (by omega) fun order done => ?_
    simp only [Scene.Updated, hrole]
    exact .inl ⟨trivial, .inr ⟨d, hf, hdc, hoop, hz⟩⟩
  rw [if_neg (by simpa using fun hlz => hz (hiff.1 hlz))]
  refine .bind (copyWord_ends ok cl h p rfl (by omega) hd
    (hoop ▸ .live (hlive hz)) (fun order done v hv => ?_) hpt) fun _ t ht => hrest t ht
  simp only [Scene.Updated, hrole]
  exact .inr ⟨d, hf, hdc, hoop, hz, hv⟩

lemma copyChunk_ends (ok : S.Ok) (cl : Closed S g.orig live)
    (h : During S live g a (fun _ => False) s) (p : Pending S live g c a) (hc : c.isChunk) :
    Ends (copyChunk S.space a) s fun _ t => During S live g a
      (fun x => (x = 0 ∨ x = 4 ∨ x = 8 ∨ x = 16) ∨ ∃ f ∈ c.frames, f.touches (a - c.oop) x)
      t := by
  have hin := h.inside ok p
  have hfr := cl.framed c p.live hc
  have hroom := hfr.room
  have hpt : Points a 0 (a.toNat + 0) := .lit 0 rfl (by omega)
  have hself : self a s.mem = .ok c.oop := by
    rw [← hfr.self, ← h.word p rfl (by omega) id]
    exact word_eq hpt (by omega)
  have htouch : ∀ f ∈ c.frames, ∀ x, f.touches (a - c.oop) x → 20 ≤ x :=
    fun f hf x hx => ((hfr.frames.stands hf).touched hx).2.2.2
  have hlast : (g.orig c 16 + (a - c.oop)).toNat =
      a.toNat + ((g.orig c 16).toNat - c.oop.toNat) := by
    have := hfr.frames.last_lt (by omega)
    have := hfr.last
    have := c.oop.toNat_lt
    rw [UInt32.toNat_add, UInt32.toNat_sub]
    omega
  refine .read_bind hself ?_
  refine .bind ((During.walk ok cl p hc).frames_ends hin.1 rfl rfl hroom h
    (fun _ _ => id) (fun _ => hlast) (fun _ => hfr.frames) ?_) fun _ t ht => ?_
  · intro t ht _ _
    refine ht.write ok p rfl (by omega) fun order done => ?_
    simp only [Scene.Updated, role_last hc, if_neg hfr.used]
  refine copyNext_ends ok cl ht p hc ?_ fun t ht => ?_
  · rintro (hf | ⟨_, ⟨h4, _⟩ | ⟨f, hf, hx⟩⟩)
    · exact hf
    · omega
    · exact absurd (htouch f hf 4 hx) (by omega)
  refine .bind (copyWord_ends ok cl ht p rfl (by omega) ?_
    (cl.pointer c 8 p.live rfl (by omega) (role_prev hc)) (fun _ _ _ hv => ?_)
    (.lit 2 rfl)) fun _ t ht => ?_
  · rintro ((hf | ⟨_, ⟨h4, _⟩ | ⟨f, hf, hx⟩⟩) | h8)
    · exact hf
    · omega
    · exact absurd (htouch f hf 8 hx) (by omega)
    · omega
  · simpa only [Scene.Updated, role_prev hc] using hv
  have := ht.inside ok p
  refine .edit (setWord_eq hpt (by omega)) ?_
  refine cast (congrArg (fun D => During S live g a D _) (funext fun x => propext ?_))
    (ht.write ok p rfl (by omega) fun order done => ?_)
  · simp only [also]
    have := hfr.used
    grind
  · simp only [Scene.Updated, role_self hc]

/-! ### The scan -/

lemma During.finish (h : During S live g a D s) (ok : S.Ok) (p : Pending S live g c a)
    (hdone : g.done = (· < a.toNat - c.head)) (hin : ∀ z, D z → z + 4 ≤ c.body)
    (hD : ∀ z, z % 4 = 0 → z + 4 ≤ c.body → ¬ D z → c.role z = .data) :
    ∃ more, Inv S { g with order := g.order ++ more, done := (· < a.toNat + c.body) } s ∧
      ∀ d ∈ more, live d := by
  have hw : ∀ z, z % 4 = 0 → z + 4 ≤ c.body → ¬ D z →
      s.mem.peekWord (a.toNat + z) = g.orig c z := fun z hz hb => h.word p hz hb
  obtain ⟨more, h, hl⟩ := h
  have hp := p.placed.append more
  have hbound := h.placed_bounds ok hp
  refine ⟨more, { h with done_lt := ?_, waiting := ?_, updated := ?_ }, hl⟩
  · intro y hy
    dsimp only at hy hbound ⊢
    omega
  · intro d e z hq hz hzb hn
    refine h.waiting d e z hq hz hzb ?_
    rw [hdone]
    rintro (hlt | ⟨x, hx, he⟩)
    · omega
    · have := hin x hx
      omega
  intro d e z hq hz hzb hlt
  rcases hp.apart hq with ⟨rfl, hae⟩ | hap | hap
  · obtain rfl := UInt32.toNat_inj.1 hae
    by_cases hd : D z
    · exact h.updated c a z hq hz hzb (.inr ⟨z, hd, rfl⟩)
    · rw [hw z hz hzb hd]
      simp only [Scene.Updated, hD z hz hzb hd]
  · omega
  · refine h.updated d e z hq hz hzb (.inl ?_)
    rw [hdone]
    omega

section

variable (ok : S.Ok) (cl : Closed S g.orig live) {before after : List Cell}
include ok cl

lemma traverse_ends (h : Inv S g s) (p : Pending S live g c a)
    (hdone : g.done = (· < a.toNat - c.head)) :
    Ends (Traversal.object { word := copyWord S.space, chunk := copyChunk S.space } a c.kind) s
      fun _ t => ∃ more, Inv S { g with
        order := g.order ++ more, done := (· < a.toNat + c.body) } t ∧ ∀ d ∈ more, live d := by
  have hstart : During S live g a (fun _ => False) s := by
    refine ⟨[], ?_, by simp⟩
    simpa only [append_nil, false_and, exists_false, or_false] using h
  have hf := h.fresh c p.placed.mem
  have typed := ok.typed c hf
  have hin := hstart.inside ok p
  have hshape : Shape.of a c.kind s.mem = .ok c.shape := by
    refine typed.shape s.mem a c.kind h.agrees (h.copies c a p.placed) fun k hk => ?_
    obtain ⟨hroom, howner⟩ := cl.owner c k p.live hk
    exact (hstart.word p (x := 0) rfl (by omega) id).trans howner
  have := typed.slots_le
  by_cases hc : c.isChunk
  · have hfr := cl.framed c p.live hc
    have hroom := hfr.room
    have hshift : a - c.oop ≠ 0 := fun he => hin.2.2.2.1 (by
      have := congrArg (· + c.oop) he
      simpa using this.symm)
    refine .read_bind hshape ?_
    simp only [show c.shape = .stackChunk from hc]
    refine (copyChunk_ends ok cl hstart p hc).mono fun _ t ht => ?_
    refine ht.finish ok p hdone ?_ fun z hz hzb hn => ?_
    · rintro z (hz | ⟨f, hf, hz⟩)
      · omega
      · exact ((hfr.frames.stands hf).touched hz).2.2.1
    · simp only [not_or, not_exists, not_and] at hn
      exact role_rest hc hfr.frames hz hn.1 hshift hn.2
  refine (object_ends rfl (by omega) hshape hc ?_ ?_ hstart).mono
    fun _ t ht => ?_
  · rintro done t ⟨more, ht, _⟩
    exact typed.slots t.mem ht.agrees
  · intro done t i base index ht hi hr hd hpt
    have hrole : c.role (4 * i) = .pointer := by
      rw [role_plain hc, Nat.mul_div_cancel_left i (by omega), if_pos ⟨hi, hr⟩]
    refine copyWord_ends ok cl ht p (by omega) (by omega) hd
      (cl.pointer c (4 * i) p.live (by omega) (by omega) hrole) (fun _ _ v hv => ?_) hpt
    simpa only [Scene.Updated, hrole] using hv
  · refine ht.finish ok p hdone ?_ fun z hz hzb hn => ?_
    · rintro z ⟨i, hi, _, rfl⟩
      omega
    · rw [role_plain hc, if_neg]
      exact fun hr => hn ⟨z / 4, hr.1, hr.2, by omega⟩

/-- The first copies were updated, those behind were not. -/
structure Half (S : Scene) (live : Cell → Prop) (g : Progress) (before after : List Cell)
    (s : Store) : Prop where
  inv : Inv S g s
  order : g.order = before ++ after
  done : g.done = (· < S.target + total before)
  scan : g.scan.toNat = S.target + total before
  live : ∀ c ∈ after, live c

lemma Half.step_ends (h : Half S live g before (c :: after) s) {rest : Run Unit}
    {post : Unit → Store → Prop}
    (hrest : ∀ more scan t,
      Half S live { g with order := g.order ++ more, done := (· < scan.toNat), scan }
      (before ++ [c]) (after ++ more) t → Ends rest t post) :
    Ends (do
      let oop ← Block.toObject s.copying.scan
      let k ← classOf oop
      require (!(← inRam k))
      Traversal.object { word := copyWord S.space, chunk := copyChunk S.space } oop k
      let behind ← Block.after oop
      update fun c => { c with scan := behind }
      rest) s post := by
  have hi := h.inv
  have hc : c ∈ g.order := by simp [h.order]
  have hf := hi.fresh c hc
  have hkind := ok.kind c hf.mem
  -- The place of the copy.
  obtain ⟨a, ha, _⟩ := hi.address ok ⟨before, after, h.order, rfl⟩
  have hp : Placed S.target g.order c a.toNat := ⟨before, after, h.order, ha⟩
  have := hi.placed_bounds ok hp
  have := ok.bounds
  have pending : Pending S live g c a := by
    refine ⟨hp, h.live c mem_cons_self, fun x _ => ?_⟩
    rw [h.done]
    omega
  have hh := hi.copies c a hp
  refine .read_bind (hh.toObject (by omega) ?_) ?_
  · rw [hi.scan, h.scan, ha]
    rfl
  refine .read_bind (hh.classOf hkind.1 hkind.2.1) ?_
  refine .query_bind (hi.inRam ok c.kind) ?_
  rw [decide_eq_false (ok.kind_outside c hf)]
  refine .except_bind rfl ?_
  refine .bind (traverse_ends ok cl hi pending ?_) fun _ t ht => ?_
  · rw [h.done, ha]
    funext y
    exact propext (by omega)
  obtain ⟨more, ht, hl⟩ := ht
  obtain ⟨block, head, len, he⟩ := (ok.typed c hf).extent ht.agrees
    (ht.copies c a (hp.append more))
  obtain ⟨hafter, hlen⟩ := he.after (by omega)
  refine .read_bind hafter ?_
  refine .modify_bind (hrest more (a + len) _ ?_)
  have : Cell.total (before ++ [c]) = Cell.total before + c.head + c.body := by
    simp [Cell.size]
    omega
  have hend : (a + len).toNat = S.target + Cell.total (before ++ [c]) := by
    omega
  exact {
    inv := by
      rw [hlen]
      apply ht.of_eq <;> rfl
    order := by simp [h.order]
    done := by rw [hend]
    scan := hend
    live := by
      intro d hd
      rcases mem_append.1 hd with hd | hd
      · exact h.live d (mem_cons_of_mem c hd)
      · exact hl d hd }

lemma scanFrom_ends {fuel : Nat} (hfuel : S.half < total before + fuel)
    (h : Half S live g before after s) :
    Ends (scanFrom S.space fuel) s fun _ t => ∃ more scan, Half S live
      { g with order := g.order ++ more, done := (· < scan.toNat), scan } (g.order ++ more) [] t ∧
      ∀ c ∈ more, live c := by
  induction fuel generalizing g before after s with
  | zero =>
    have hle := h.inv.total_le ok
    rw [h.order, total_append] at hle
    omega
  | succ fuel ih =>
    refine .get_bind ?_
    have hscan : s.copying.scan.toNat = S.target + total before := by rw [h.inv.scan, h.scan]
    have hfree := h.inv.free
    rw [h.order, total_append] at hfree
    cases after with
    | nil =>
      simp only [total_nil] at hfree
      have hlt : ¬ s.copying.scan < s.copying.free := by
        rw [UInt32.lt_iff_toNat_lt]
        omega
      rw [if_neg hlt]
      refine .pure ⟨[], g.scan, ?_, by simp⟩
      have hdone : g.done = (· < g.scan.toNat) := by rw [h.done, h.scan]
      rw [append_nil, ← hdone]
      have horder : g.order = before := by simpa using h.order
      exact { h with
        order := by simp
        done := by rw [horder, h.done]
        scan := by rw [horder, h.scan] }
    | cons c after =>
      have := c.head_cases
      have hlt : s.copying.scan < s.copying.free := by
        rw [UInt32.lt_iff_toNat_lt, hscan, hfree, Cell.total_cons, Cell.size]
        omega
      rw [if_pos hlt]
      refine h.step_ends ok cl fun more scan t ht => ?_
      have hfuel' : S.half < Cell.total (before ++ [c]) + fuel := by
        simp only [Cell.total_append, Cell.total_cons, Cell.size]
        omega
      refine (ih (g := { g with order := g.order ++ more, done := (· < scan.toNat), scan }) cl
        hfuel' ht).mono fun _ u hu => ?_
      obtain ⟨more', scan', hu, hl⟩ := hu
      refine ⟨more ++ more', scan', ?_, ?_⟩
      · rw [← append_assoc]
        exact hu
      · intro d hd
        rcases mem_append.1 hd with hd | hd
        · exact ht.live d (by simp [hd])
        · exact hl d hd

lemma scan_ends (h : Half S live g before after s) :
    Ends (scan S.space) s fun _ t => ∃ more scan, Half S live
      { g with order := g.order ++ more, done := (· < scan.toNat), scan } (g.order ++ more) [] t ∧
      ∀ c ∈ more, live c := by
  refine .read_bind (walkBound_eq _) (scanFrom_ends ok cl ?_ h)
  have := h.inv.mem_size
  have := ok.bounds
  omega

end

lemma scan_idle {space : Space} (h : s.copying.scan = s.copying.free) :
    Ends (scan space) s fun _ t => t = s := by
  refine .read_bind (walkBound_eq _) ?_
  refine .get_bind ?_
  rw [if_neg (by rw [h]; exact UInt32.lt_irrefl _)]
  exact .pure rfl

end DeviceVm.Copying
