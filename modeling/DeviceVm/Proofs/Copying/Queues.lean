import DeviceVm.Proofs.Copying.Reach
import DeviceVm.Proofs.Liveness

/-!
References that are followed while the fate of associations is decided. They may be out of date:
what they refer to may have been copied since.
-/

namespace DeviceVm.Copying

open UInt32 List Header

open Store Word Traversal Association

namespace Scene

variable (S : Scene) (orig : Cell → Nat → UInt32)

/-- The address means the object: its own, that of its copy, or that of an object that was migrated
to it. -/
inductive Names (order : List Cell) : UInt32 → Cell → Prop
  | fresh {c : Cell} (hf : S.Fresh c) : Names order c.oop c
  | copy {c : Cell} {a : UInt32} (hp : Placed S.target order c a.toNat) : Names order a c
  | pin {c : Cell} (hc : c ∈ S.pins) : Names order c.oop c
  | gone {c d : Cell} (hc : c ∈ S.pins) (hm : d ∈ S.cells) (hr : S.ram.Has d.oop)
      (he : S.gone d = some c.oop) : Names order d.oop c

/-- Nothing, or an object outside of RAM that was not moved. -/
structure Outside (v : UInt32) : Prop where
  outside : ¬ S.ram.Has v
  /-- Not even at the end of the half in use, where an object without a body is out of RAM when the
  half is the second one, and yet taken for dead. -/
  apart : v.toNat ≤ S.source ∨ S.source + S.half < v.toNat
  /-- Its header can be read and does not lead elsewhere. -/
  resolve : ∀ n, Memory.Agrees S.fixed S.mem n → resolve v n = .ok v

/-- An object that an association may have. A chunk must have frames. -/
inductive Proper : UInt32 → Prop
  | outside {v : UInt32} (h : S.Outside v) : Proper v
  | gone {c : Cell} {e : UInt32} (hm : c ∈ S.cells) (hr : S.ram.Has c.oop)
      (he : S.gone c = some e) (ho : S.Outside e) : Proper c.oop
  | fresh {c : Cell} (hf : S.Fresh c) (framed : c.isChunk → S.Framed c (orig c)) : Proper c.oop

end Scene

variable {S : Scene} {g : Progress} {s : Store} {orig : Cell → Nat → UInt32} {c d : Cell}
  {v w : UInt32} {order : List Cell} {x : Nat}

namespace Inv

section

variable (h : Inv S g s) (ok : S.Ok)
include h ok

lemma image_still (hi : S.Image g.order v w) : S.Still w := by
  cases hi with
  | still h => exact h
  | gone _ _ he => exact .inl (ok.gone_outside _ _ he).2
  | @copied c _ _ hp =>
    have := h.placed_bounds ok hp
    have := c.head_cases
    exact .inr ⟨by omega, by omega⟩

lemma image_zero (hi : S.Image g.order v w) : w = 0 ↔ v = 0 := by
  cases hi with
  | still _ => rfl
  | gone hm _ he => exact iff_of_false (ok.gone_outside _ _ he).1 (ok.oop_ne_zero hm)
  | @copied c a hf hp =>
    refine iff_of_false (fun h0 => ?_) (ok.oop_ne_zero hf.mem)
    have := h.placed_bounds ok hp
    have := c.head_cases
    subst h0
    have := UInt32.toNat_zero
    omega

lemma resolve_copy (hp : Placed S.target g.order c v.toNat) : resolve v s.mem = .ok v := by
  have := (ok.kind c (h.fresh c hp.mem).mem).1
  exact (h.copies c v hp).resolve_self (by omega)

lemma resolve_gone (hm : c ∈ S.cells) (he : S.gone c = some v) :
    resolve c.oop s.mem = .ok v := by
  have := ok.gone_aligned c v he
  have h2 : (v + 2).toNat % 4 = 2 := by
    rw [toNat_add_two (by omega)]
    omega
  rw [(h.gone c v hm he).resolve_forwarded h2, add_two_sub]

lemma resolve_names (hn : S.Names g.order v c) :
    ∃ a, resolve v s.mem = .ok a ∧ S.At g.order c a := by
  cases hn with
  | fresh hf =>
    obtain ⟨a, ha, ⟨hn, rfl⟩ | hp⟩ := h.resolve_fresh ok hf
    · exact ⟨_, ha, .here hf hn⟩
    · exact ⟨a, ha, .copy hp⟩
  | copy hp => exact ⟨v, h.resolve_copy ok hp, .copy hp⟩
  | pin hc => exact ⟨_, ok.pins_resolve c _ hc h.agrees, .pin hc⟩
  | gone hc hm _ he => exact ⟨c.oop, h.resolve_gone ok hm he, .pin hc⟩

lemma at_bounds (hat : S.At g.order c v) :
    v.toNat % 4 = 0 ∧ v.toNat + c.body ≤ s.mem.size ∧ s.mem.size < 16777216 := by
  have := h.mem_size
  have := ok.bounds
  cases hat with
  | here hf hn =>
    have := ok.cell_high hf.mem
    exact ⟨(ok.aligned c hf.mem).1, by omega, by omega⟩
  | copy hp =>
    have := h.placed_bounds ok hp
    exact ⟨h.placed_aligned ok hp, by omega, by omega⟩
  | pin hc =>
    have h4 := ok.pins c hc
    exact ⟨h4.1, by omega, by omega⟩

end

lemma word_at (h : Inv S g s) (hat : S.At g.order c v) (hc : ¬ c.isChunk) (hx : x % 4 = 0)
    (hb : x + 4 ≤ c.body) :
    s.mem.peekWord (v.toNat + x) = g.orig c x ∨
      (c.role x = .pointer ∧ S.Image g.order (g.orig c x) (s.mem.peekWord (v.toNat + x))) := by
  cases hat with
  | here hf hn => exact .inl (h.words c x hf.mem hf.stays hn hx hb)
  | pin hp => exact .inl (h.pinned c x hp hx hb)
  | copy hp =>
    by_cases hd : g.done (v.toNat + x)
    · have hu := h.updated c v x hp hx hb hd
      by_cases hr : x / 4 < c.slots ∧ c.refs (x / 4)
      · have hrole : c.role x = .pointer := by rw [Cell.role_plain hc, if_pos hr]
        simp only [Scene.Updated, hrole] at hu
        exact .inr ⟨hrole, hu⟩
      · have hrole : c.role x = .data := by rw [Cell.role_plain hc, if_neg hr]
        simp only [Scene.Updated, hrole] at hu
        exact .inl hu
    · exact .inl (h.waiting c v x hp hx hb hd)

end Inv

lemma ne_zero_of_pos {u : UInt32} (h : 0 < u.toNat) : u ≠ 0 := by
  rintro rfl
  exact absurd h (by decide)

lemma Inv.placed_ne_zero (h : Inv S g s) (ok : S.Ok) (hp : Placed S.target g.order c v.toNat) :
    v ≠ 0 := by
  have := h.placed_bounds ok hp
  have := c.head_cases
  exact ne_zero_of_pos (by omega)

lemma Scene.At.ne_zero (hat : S.At g.order c v) (ok : S.Ok) (h : Inv S g s) : v ≠ 0 := by
  cases hat with
  | here hf _ => exact ok.oop_ne_zero hf.mem
  | copy hp => exact h.placed_ne_zero ok hp
  | pin hc => exact ne_zero_of_pos (ok.pins c hc).2.1

lemma Scene.Names.ne_zero (hn : S.Names g.order v c) (ok : S.Ok) (h : Inv S g s) : v ≠ 0 := by
  cases hn with
  | fresh hf => exact ok.oop_ne_zero hf.mem
  | copy hp => exact h.placed_ne_zero ok hp
  | pin hc => exact ne_zero_of_pos (ok.pins c hc).2.1
  | gone _ hm _ _ => exact ok.oop_ne_zero hm

/-! ### The object of an association -/

lemma Scene.Proper.framed (h : S.Proper orig v) (ok : S.Ok) (hf : S.Fresh c) (he : c.oop = v)
    (hc : c.isChunk) : S.Framed c (orig c) := by
  cases h with
  | outside ho => exact absurd (he ▸ hf.inRam) ho.outside
  | gone hm _ hg =>
    rw [← ok.cell_eq hf.mem hm he, hf.stays] at hg
    cases hg
  | fresh hf' framed =>
    obtain rfl := ok.cell_eq hf.mem hf'.mem he
    exact framed hc

/-- Where an object is at present: where its image is, or in its old place if it was not copied. -/
inductive Scene.Current (S : Scene) (order : List Cell) (v : UInt32) : UInt32 → Prop
  | image {w : UInt32} (h : S.Image order v w)
      (ho : w.toNat ≤ S.source ∨ S.source + S.half < w.toNat) : Current S order v w
  | dead {c : Cell} {w : UInt32} (hf : S.Fresh c) (hn : c ∉ order) (he : c.oop = v)
      (hw : w = v) : Current S order v w

namespace Inv

lemma resolve_proper (h : Inv S g s) (ok : S.Ok) (hp : S.Proper orig v)
    (hw : w = v ∨ S.Image g.order v w) :
    ∃ a, resolve w s.mem = .ok a ∧ S.Current g.order v a := by
  cases hp with
  | outside ho =>
    have hv : w = v := by
      rcases hw with hw | hw
      · exact hw
      · exact hw.unique ok h.nodup (.still (.inl ho.outside))
    rw [hv]
    exact ⟨v, ho.resolve _ h.agrees, .image (.still (.inl ho.outside)) ho.apart⟩
  | @gone c e hm hr he ho =>
    refine ⟨e, ?_, .image (.gone hm hr he) ho.apart⟩
    rcases hw with rfl | hw
    · exact h.resolve_gone ok hm he
    · rw [hw.unique ok h.nodup (.gone hm hr he)]
      exact ho.resolve _ h.agrees
  | @fresh c hf _ =>
    have placed : ∀ a : UInt32, Placed S.target g.order c a.toNat → S.Current g.order c.oop a := by
      intro a hp
      have := h.placed_bounds ok hp
      have := ok.halves
      have := c.head_cases
      exact .image (.copied hf hp) (by omega)
    rcases hw with rfl | hw
    · obtain ⟨a, ha, ⟨hn, rfl⟩ | hp⟩ := h.resolve_fresh ok hf
      · exact ⟨_, ha, .dead hf hn rfl rfl⟩
      · exact ⟨a, ha, placed a hp⟩
    · have hp := hw.placed ok hf
      exact ⟨w, h.resolve_copy ok hp, placed w hp⟩

end Inv

/-- The record says which half is in use. -/
structure Scene.Halves (S : Scene) (record : Nat → UInt32) : Prop where
  start : (record 2).toNat = S.source
  stop : (record 4).toNat = S.source + S.half

lemma alive_ends (ok : S.Ok) (h : Inv S g s) (hh : S.Halves g.record) (v : UInt32) :
    Ends ((liveness S.space).alive v) s fun b t =>
      b = decide (v.toNat ≤ S.source ∨ S.source + S.half < v.toNat) ∧ t = s := by
  have h2 : partitionStart s = .ok (g.record 2) := by
    rw [partitionStart, (h.recorded ok).record_eq (j := 2) rfl (by omega), h.recorded_eq (by omega)]
  have h4 : partitionEnd s = .ok (g.record 4) := by
    rw [partitionEnd, (h.recorded ok).record_eq (j := 4) rfl (by omega), h.recorded_eq (by omega)]
  have := hh.start
  have := hh.stop
  refine .query_bind h2 ?_
  by_cases hl : v > g.record 2
  · have := lt_iff_toNat_lt.1 hl
    rw [if_pos hl]
    refine .query_bind h4 (.pure ⟨decide_eq_decide.mpr ?_, rfl⟩)
    rw [gt_iff_lt, lt_iff_toNat_lt]
    omega
  · have : ¬ (g.record 2).toNat < v.toNat := fun hh => hl (lt_iff_toNat_lt.2 hh)
    rw [if_neg hl]
    exact .pure ⟨(decide_eq_true (by omega)).symm, rfl⟩

lemma keep_still_ends (ok : S.Ok) (h : Inv S g s) (hv : S.Still v) :
    Ends ((liveness S.space).keep v) s fun a t => a = v ∧ t = s := by
  refine .query_bind (h.inRam ok v) ?_
  by_cases hr : S.ram.Has v
  · rw [decide_eq_true hr, if_pos rfl]
    rcases hv with hv | hv
    · exact absurd hr hv
    · rw [copyObject, if_pos (by simp [Scene.has_eq ok, hv])]
      exact .pure ⟨rfl, rfl⟩
  · rw [decide_eq_false hr, if_neg Bool.false_ne_true]
    exact .pure ⟨rfl, rfl⟩

lemma keep_ends (ok : S.Ok) (h : Inv S g s) (hv : S.Leads g v) (hr : S.ram.Has v) :
    Ends ((liveness S.space).keep v) s fun a t => ∃ more,
      Inv S { g with order := g.order ++ more } t ∧ S.Image (g.order ++ more) v a ∧
        ∀ c ∈ more, c.oop = v := by
  refine .query_bind (h.inRam ok v) ?_
  rw [decide_eq_true hr, if_pos rfl]
  exact copyObject_ends ok h hv

lemma keep_object_ends (ok : S.Ok) (h : Inv S g s)
    (hw : S.Image g.order v w ∨ (w = v ∧ ∃ c, S.Fresh c ∧ c.oop = v ∧
      (c.isChunk → 20 ≤ c.body ∧ g.orig c 16 ≠ 0))) :
    Ends ((liveness S.space).keep w) s fun a t => ∃ more,
      Inv S { g with order := g.order ++ more } t ∧ S.Image (g.order ++ more) v a ∧
        ∀ c ∈ more, c.oop = v := by
  rcases hw with hi | ⟨rfl, c, hf, rfl, used⟩
  · refine (keep_still_ends ok h (h.image_still ok hi)).mono fun a t ha => ⟨[], ?_, ?_, by simp⟩
    · rw [append_nil, ha.2]
      exact h
    · rw [append_nil, ha.1]
      exact hi
  · exact keep_ends ok h (.fresh hf used) hf.inRam

/-- Where an object is after the collection. -/
inductive Scene.Home (S : Scene) (order : List Cell) : Cell → UInt32 → Prop
  | copy {c : Cell} {a : UInt32} (hp : Placed S.target order c a.toNat) : Home S order c a
  | pin {c : Cell} (hc : c ∈ S.pins) : Home S order c c.oop

lemma Scene.Ok.zero_still (ok : S.Ok) : S.Still 0 := by
  refine .inl fun hr => ?_
  have := ok.ram_pos
  have := hr.1
  have := UInt32.toNat_zero
  omega

lemma Scene.Ok.pin_still (ok : S.Ok) (hc : c ∈ S.pins) (hb : 0 < c.body) : S.Still c.oop := by
  refine .inl fun hr => ?_
  have := ok.pins c hc
  have := hr.1
  have := hr.2
  omega

lemma keep_names_ends (ok : S.Ok) (h : Inv S g s) (hn : S.Names g.order v c)
    (hc : ¬ c.isChunk) (hb : 0 < c.body) :
    Ends ((liveness S.space).keep v) s fun a t => ∃ more,
      Inv S { g with order := g.order ++ more } t ∧ S.Home (g.order ++ more) c a ∧
        ∀ d ∈ more, d = c := by
  have stay : S.Still v → S.Home g.order c v → Ends ((liveness S.space).keep v) s fun a t =>
      ∃ more, Inv S { g with order := g.order ++ more } t ∧ S.Home (g.order ++ more) c a ∧
        ∀ d ∈ more, d = c := by
    intro hs hh
    refine (keep_still_ends ok h hs).mono fun a t ha => ⟨[], ?_, ?_, by simp⟩
    · rw [append_nil, ha.2]
      exact h
    · rw [append_nil, ha.1]
      exact hh
  cases hn with
  | fresh hf =>
    refine (keep_ends ok h (.fresh hf fun hh => absurd hh hc) hf.inRam).mono fun a t ht => ?_
    obtain ⟨more, ht, hi, hm⟩ := ht
    exact ⟨more, ht, .copy (hi.placed ok hf), fun d hd =>
      ok.cell_eq (ht.fresh d (by simp [hd])).mem hf.mem (hm d hd)⟩
  | copy hp => exact stay (h.image_still ok (.copied (h.fresh c hp.mem) hp)) (.copy hp)
  | pin hp => exact stay (ok.pin_still hp hb) (.pin hp)
  | @gone c d hp hm hr he =>
    refine (keep_ends ok h (.gone hm hr he) hr).mono fun a t ht => ?_
    obtain ⟨more, ht, hi, hnew⟩ := ht
    rw [hi.unique ok ht.nodup (.gone hm hr he)]
    refine ⟨more, ht, .pin hp, fun e hm' => ?_⟩
    have hf := ht.fresh e (by simp [hm'])
    rw [← ok.cell_eq hf.mem hm (hnew e hm'), hf.stays] at he
    cases he

/-! ### Chains of associations -/

/-- The chain of associations from an address on. -/
inductive Scene.Linked (S : Scene) (order : List Cell) (orig : Cell → Nat → UInt32) :
    UInt32 → List Cell → Prop
  | nil : Linked S order orig 0 []
  | cons {v : UInt32} {q : Cell} {rest : List Cell} (names : S.Names order v q)
      (links : Linked S order orig (orig q 4) rest) : Linked S order orig v (q :: rest)

/-- A chain that was built of what is kept. Behind it follows `stop`. -/
inductive Scene.Built (S : Scene) (order : List Cell) (orig : Cell → Nat → UInt32)
    (stop : UInt32) : UInt32 → List Cell → Prop
  | nil : Built S order orig stop stop []
  | cons {v : UInt32} {q : Cell} {rest : List Cell} (home : S.Home order q v)
      (links : Built S order orig stop (orig q 4) rest) : Built S order orig stop v (q :: rest)

variable {l more : List Cell} {orig' : Cell → Nat → UInt32} {stop : UInt32}

lemma Scene.Names.append (h : S.Names order v c) (more : List Cell) :
    S.Names (order ++ more) v c := by
  cases h with
  | fresh hf => exact .fresh hf
  | copy hp => exact .copy (hp.append more)
  | pin hc => exact .pin hc
  | gone hc hm hr he => exact .gone hc hm hr he

lemma Scene.Names.image (h : Inv S g s) (ok : S.Ok) (hn : S.Names g.order v c)
    (hb : 0 < c.body) (hi : S.Image g.order v w) : S.Names g.order w c := by
  cases hn with
  | fresh hf => exact .copy (hi.placed ok hf)
  | copy hp =>
    rw [hi.unique ok h.nodup (.still (h.image_still ok (.copied (h.fresh c hp.mem) hp)))]
    exact .copy hp
  | pin hc =>
    rw [hi.unique ok h.nodup (.still (ok.pin_still hc hb))]
    exact .pin hc
  | gone hc hm hr he =>
    rw [hi.unique ok h.nodup (.gone hm hr he)]
    exact .pin hc

lemma Scene.Linked.append (h : S.Linked order orig v l) (more : List Cell) :
    S.Linked (order ++ more) orig v l := by
  induction h with
  | nil => exact .nil
  | cons names _ ih => exact .cons (names.append more) ih

lemma Scene.Linked.image (h : Inv S g s) (ok : S.Ok) (hl : S.Linked g.order orig v l)
    (hb : ∀ q ∈ l, 0 < q.body) (hi : S.Image g.order v w) : S.Linked g.order orig w l := by
  cases hl with
  | nil =>
    rw [(h.image_zero ok hi).2 rfl]
    exact .nil
  | cons names links => exact .cons (names.image h ok (hb _ mem_cons_self) hi) links

lemma Scene.Home.append (h : S.Home order c v) (more : List Cell) :
    S.Home (order ++ more) c v := by
  cases h with
  | copy hp => exact .copy (hp.append more)
  | pin hc => exact .pin hc

lemma Scene.Home.at (h : S.Home order c v) : S.At order c v := by
  cases h with
  | copy hp => exact .copy hp
  | pin hc => exact .pin hc

lemma Scene.Home.still (h : S.Home g.order c v) (ok : S.Ok) (hi : Inv S g s)
    (hb : 0 < c.body) : S.Still v := by
  cases h with
  | copy hp => exact hi.image_still ok (.copied (hi.fresh c hp.mem) hp)
  | pin hc => exact ok.pin_still hc hb

lemma Scene.Built.append (h : S.Built order orig stop v l) (more : List Cell) :
    S.Built (order ++ more) orig stop v l := by
  induction h with
  | nil => exact .nil
  | cons home _ ih => exact .cons (home.append more) ih

lemma Scene.Built.congr (h : S.Built order orig stop v l)
    (he : ∀ q ∈ l, orig' q 4 = orig q 4) : S.Built order orig' stop v l := by
  induction h with
  | nil => exact .nil
  | cons home _ ih =>
    refine .cons home ?_
    rw [he _ mem_cons_self]
    exact ih fun q hq => he q (mem_cons_of_mem _ hq)

lemma Scene.Built.still (h : S.Built g.order orig stop v l) (ok : S.Ok) (hi : Inv S g s)
    (hb : ∀ q ∈ l, 0 < q.body) (hs : S.Still stop) : S.Still v := by
  cases h with
  | nil => exact hs
  | cons home _ => exact home.still ok hi (hb _ mem_cons_self)

end DeviceVm.Copying
