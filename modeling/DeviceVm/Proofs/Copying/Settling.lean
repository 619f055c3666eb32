import DeviceVm.Proofs.Copying.Queues

/-!
The fate of associations. Whether an association stays depends on what has been copied when its
turn comes, and if it stays, it and its object are copied.
-/

namespace DeviceVm.Copying

open Progress List Memory Store Word Traversal Association Liveness

namespace Scene

variable (S : Scene) (orig : Cell → Nat → UInt32) (table : Cell)

/-- The monitor of an association, and whether it is in use. Its word is read without asking where
it is: out of RAM, also by way of an object that was migrated, or in an object with room for it. -/
inductive Monitor : UInt32 → Bool → Prop
  | none : Monitor 0 false
  | outside {v : UInt32} {b : Bool} (ho : S.Outside v) (h0 : v ≠ 0)
      (hr : ∀ n, Memory.Agrees S.fixed S.mem n → monitorInUse v n = .ok b) : Monitor v b
  | gone {c : Cell} {e : UInt32} {b : Bool} (hm : c ∈ S.cells) (hr : S.ram.Has c.oop)
      (he : S.gone c = some e) (ho : S.Outside e)
      (hr : ∀ n, Memory.Agrees S.fixed S.mem n → monitorInUse e n = .ok b) : Monitor c.oop b
  | fresh {c : Cell} (hf : S.Fresh c) (hc : ¬ c.isChunk) (hb : 20 ≤ c.body) (hne : c ≠ table) :
      Monitor c.oop (orig c 16 != 0)

/-- An object that may be queued as an association. Its object and its monitor can be read at any
time, the table is neither of them, and if it is out of RAM its object is too, since nothing else
would update its reference. -/
structure IsAssociation (q : Cell) : Prop where
  known : S.Fresh q ∨ q ∈ S.pins
  room : 20 ≤ q.body
  plain : ¬ q.isChunk
  stateless : ∀ k, q.shape ≠ .classState k
  loose : ∀ b, S.fixed b → b < q.oop.toNat ∨ q.oop.toNat + q.body ≤ b
  ne_table : q ≠ table
  object : S.Proper orig (orig q 0)
  object_role : S.Fresh q → q.role 0 = .pointer
  object_pinned : q ∈ S.pins → S.Outside (orig q 0)
  object_table : table.oop ≠ orig q 0
  monitor : ∃ b, S.Monitor orig table (orig q 8) b
  hash_role : q.role 12 = .data
  flags_role : q.role 16 = .data

/-- The object of the association was copied, or it is not one that is. -/
def Alive (copied : Cell → Prop) (q : Cell) : Prop :=
  ∀ d, S.Fresh d → d.oop = orig q 0 → copied d

/-- The association says something about its object. -/
def Informative (q : Cell) : Prop :=
  orig q 12 ≠ 0 ∨ orig q 16 &&& (finalizerFlag ||| migratableFlag) ≠ 0

def Finalizes (q : Cell) : Prop := orig q 16 &&& finalizerFlag ≠ 0

/-- An association stays if its monitor is in use, or if its object was found and it says something
about it. -/
def Stays (copied : Cell → Prop) (q : Cell) : Prop :=
  S.Monitor orig table (orig q 8) true ∨ (S.Alive orig copied q ∧ Informative orig q)

/-- The fates of associations, decided one after the other when the objects in `first` were
copied. -/
inductive Settled (first : Cell → Prop) : (decided kept finalized : List Cell) →
    (copied : Cell → Prop) → Prop
  | start : Settled first [] [] [] first
  | keep {decided kept finalized : List Cell} {copied : Cell → Prop} {q : Cell}
      (h : Settled first decided kept finalized copied) (hs : S.Stays orig table copied q) :
      Settled first (decided ++ [q]) (kept ++ [q]) finalized
        fun d => copied d ∨ (S.Fresh d ∧ (d = q ∨ d.oop = orig q 0))
  | finalize {decided kept finalized : List Cell} {copied : Cell → Prop} {q : Cell}
      (h : Settled first decided kept finalized copied) (hs : ¬ S.Stays orig table copied q)
      (hf : Finalizes orig q) :
      Settled first (decided ++ [q]) kept (finalized ++ [q])
        fun d => copied d ∨ (S.Fresh d ∧ d = q)
  | drop {decided kept finalized : List Cell} {copied : Cell → Prop} {q : Cell}
      (h : Settled first decided kept finalized copied) (hs : ¬ S.Stays orig table copied q)
      (hf : ¬ Finalizes orig q) :
      Settled first (decided ++ [q]) kept finalized copied

end Scene

variable {S : Scene} {orig : Cell → Nat → UInt32} {table : Cell}

variable {first copied : Cell → Prop} {decided kept finalized : List Cell}

lemma Scene.Settled.kept_sublist
    (h : S.Settled orig table first decided kept finalized copied) : kept.Sublist decided := by
  induction h with
  | start => exact .slnil
  | keep _ _ ih => exact ih.append (List.Sublist.refl _)
  | finalize _ _ _ ih | drop _ _ _ ih => exact ih.trans (sublist_append_left _ _)

lemma Scene.Settled.kept_mem
    (h : S.Settled orig table first decided kept finalized copied) :
    (∀ q ∈ kept, q ∈ decided) ∧ ∀ q ∈ finalized, q ∈ decided := by
  induction h with
  | start => exact ⟨fun _ h => h, fun _ h => h⟩
  | keep _ _ ih | finalize _ _ _ ih | drop _ _ _ ih =>
    grind

/-- What holds while associations are decided. `start` is what had been done before. -/
structure Deciding (S : Scene) (orig : Cell → Nat → UInt32) (table : Cell) (start : Progress)
    (taken : Nat) (decided kept finalized : List Cell) (lists : Nat → List Cell)
    (heads : Array UInt32) (g : Progress) (s : Store) : Prop where
  inv : Inv S g s
  order : ∃ more, g.order = start.order ++ more
  done : g.done = start.done
  scan : g.scan = start.scan
  record : ∀ j, j ≠ 15 → g.record j = start.record j
  /-- Only links of associations and entries of the table were written. -/
  same : ∀ c x, ¬ (c ∈ decided ∧ x = 4) → ¬ (c = table ∧ x < 4 * taken ∧ x % 4 = 0) →
    g.orig c x = orig c x
  cut : ∀ q ∈ decided, S.Still (g.orig q 4)
  emptied : ∀ i < taken, g.orig table (4 * i) = 0
  settled : S.Settled orig table (· ∈ start.order) decided kept finalized (· ∈ g.order)
  size : heads.size = 16
  built : ∀ i < 16, S.Built g.order g.orig 0 (heads.getD i 0) (lists i)
  sub : ∀ i, (lists i).Sublist kept.reverse
  listed : ∀ q ∈ kept, ∃ key, S.Image g.order (orig q 0) key ∧
    q ∈ lists (queueOf key).toNat
  keyed : ∀ i q, i < 16 → q ∈ lists i → ∃ key, S.Image g.order (orig q 0) key ∧
    (queueOf key).toNat = i
  final : S.Built g.order g.orig (start.record 15) (g.record 15) finalized.reverse

/-! ### What is read of an association -/

variable {g start : Progress} {s : Store} {q : Cell} {a cur v w : UInt32} {x : Nat}

lemma Inv.field (h : Inv S g s) (ok : S.Ok) (hat : S.At g.order q cur) (hb : 20 ≤ q.body)
    {index : Int32} {j : Nat} (hi : index.toInt = j) (hj : j < 5) :
    word cur index s.mem = .ok (s.mem.peekWord (cur.toNat + 4 * j)) := by
  have := h.at_bounds ok hat
  exact word_eq (.lit j hi) (by omega)

lemma Inv.setNext_eq (h : Inv S g s) (ok : S.Ok) (hat : S.At g.order q cur) (hb : 20 ≤ q.body)
    (v : UInt32) : setNext cur v s.mem = .ok () (s.mem.pokeWord (cur.toNat + 4) v) := by
  have := h.at_bounds ok hat
  exact setWord_eq (.lit 1 rfl) (by omega)

lemma Inv.data_field (h : Inv S g s) (hat : S.At g.order q cur) (hc : ¬ q.isChunk)
    (hx : x % 4 = 0) (hb : x + 4 ≤ q.body) (hr : q.role x = .data) :
    s.mem.peekWord (cur.toNat + x) = g.orig q x := by
  rcases h.word_at hat hc hx hb with hw | ⟨hp, _⟩
  · exact hw
  · rw [hr] at hp
    cases hp

lemma Inv.monitor_eq (h : Inv S g s) (ok : S.Ok) {b : Bool} (hm : S.Monitor orig table v b)
    (hsame : ∀ c, c ≠ table → g.orig c 16 = orig c 16) (hw : w = v ∨ S.Image g.order v w) :
    ∃ u, Header.resolve w s.mem = .ok u ∧
      if u = 0 then b = false else monitorInUse u s.mem = .ok b := by
  cases hm with
  | none =>
    have hw0 : w = 0 := by
      rcases hw with hw | hw
      · exact hw
      · exact (h.image_zero ok hw).2 rfl
    exact ⟨0, by rw [hw0]; rfl, rfl⟩
  | outside ho h0 hr =>
    have hv : w = v := by
      rcases hw with hw | hw
      · exact hw
      · exact hw.unique ok h.nodup (.still (.inl ho.outside))
    rw [hv]
    exact ⟨v, ho.resolve _ h.agrees, by rw [if_neg h0]; exact hr _ h.agrees⟩
  | @gone c e _ hm hr he ho hread =>
    refine ⟨e, ?_, by rw [if_neg (ok.gone_outside c e he).1]; exact hread _ h.agrees⟩
    rcases hw with rfl | hw
    · exact h.resolve_gone ok hm he
    · rw [hw.unique ok h.nodup (.gone hm hr he)]
      exact ho.resolve _ h.agrees
  | @fresh c hf hc hb hne =>
    have hn : S.Names g.order w c := by
      rcases hw with rfl | hw
      · exact .fresh hf
      · exact .copy (hw.placed ok hf)
    obtain ⟨u, hu, hat⟩ := h.resolve_names ok hn
    refine ⟨u, hu, ?_⟩
    rw [if_neg (hat.ne_zero ok h)]
    have hread : monitorInUse u s.mem = .ok (s.mem.peekWord (u.toNat + 16) != 0) := by
      rw [monitorInUse, Read.bind_ok (h.field ok hat hb (j := 4) rfl (by omega))]
      rfl
    rw [hread, ← hsame c hne]
    rcases h.word_at hat hc rfl hb with he | ⟨_, hi⟩
    · rw [he]
    · congr 1
      rw [bne, bne, Bool.eq_iff_iff]
      simpa using not_congr (h.image_zero ok hi)

/-- The association as the collector reads it at `cur`. -/
structure Scene.Found (S : Scene) (orig : Cell → Nat → UInt32) (table : Cell) (order : List Cell)
    (q : Cell) (cur : UInt32) (e : Entry) : Prop where
  at' : S.At order q cur
  following : e.following = orig q 4 ∨ S.Image order (orig q 4) e.following
  object : S.Current order (orig q 0) e.object
  monitor : S.Monitor orig table (orig q 8) e.inUse
  hash : e.hash = orig q 12
  flags : e.flags = orig q 16

lemma Inv.found (h : Inv S g s) (ok : S.Ok) (ha : S.IsAssociation orig table q)
    (hn : S.Names g.order a q) (hsame : ∀ x, g.orig q x = orig q x)
    (hmon : ∀ c, c ≠ table → g.orig c 16 = orig c 16) :
    ∃ cur e, S.Found orig table g.order q cur e ∧
      e.Reads s.mem a (s.mem.pokeWord (cur.toNat + 4) 0) := by
  obtain ⟨cur, hcur, hat⟩ := h.resolve_names ok hn
  have := h.at_bounds ok hat
  have hb := ha.room
  have word : ∀ x, x % 4 = 0 → x + 4 ≤ q.body → s.mem.peekWord (cur.toNat + x) = orig q x ∨
      S.Image g.order (orig q x) (s.mem.peekWord (cur.toNat + x)) := by
    intro x hx hxb
    rcases h.word_at hat ha.plain hx hxb with hw | hw
    · exact .inl (hw.trans (hsame x))
    · rw [hsame x] at hw
      exact .inr hw.2
  have hhash : hashCode cur (s.mem.pokeWord (cur.toNat + 4) 0) =
      .ok (s.mem.peekWord (cur.toNat + 12)) := by
    rw [← peekWord_pokeWord_apart (a := cur.toNat + 4) 0 (by omega)]
    exact word_eq (.lit 3 rfl) ⟨by omega, (by rw [size_pokeWord]; omega)⟩
  obtain ⟨object, hobject, hcurrent⟩ := h.resolve_proper ok ha.object (word 0 rfl (by omega))
  obtain ⟨inUse, hmonitor⟩ := ha.monitor
  obtain ⟨u, hu, huse⟩ := h.monitor_eq ok hmonitor hmon (word 8 rfl (by omega))
  refine ⟨cur, {
    current := cur
    following := s.mem.peekWord (cur.toNat + 4)
    object, inUse
    hash := s.mem.peekWord (cur.toNat + 12)
    flags := s.mem.peekWord (cur.toNat + 16) }, ?_, ?_⟩
  · exact {
      at' := hat
      following := word 4 rfl (by omega)
      object := hcurrent
      monitor := hmonitor
      hash := (h.data_field hat ha.plain rfl (by omega) ha.hash_role).trans (hsame 12)
      flags := (h.data_field hat ha.plain rfl (by omega) ha.flags_role).trans (hsame 16) }
  · exact {
      current := hcur
      following := h.field ok hat hb (j := 1) rfl (by omega)
      object := ⟨_, h.field ok hat hb (j := 0) rfl (by omega), hobject⟩
      monitor := ⟨_, u, h.field ok hat hb (j := 2) rfl (by omega), hu, huse⟩
      flags := h.field ok hat hb (j := 4) rfl (by omega)
      cut := h.setNext_eq ok hat hb 0
      hash := hhash }

/-! ### Fates as they are computed -/

lemma Scene.Monitor.unique (ok : S.Ok) {b₁ b₂ : Bool} (h₁ : S.Monitor orig table v b₁)
    (h₂ : S.Monitor orig table v b₂) : b₁ = b₂ := by
  have agrees : Memory.Agrees S.fixed S.mem S.mem := .refl S.mem
  have read : ∀ {u : UInt32} {b b' : Bool}, monitorInUse u S.mem = .ok b →
      monitorInUse u S.mem = .ok b' → b = b' := fun h h' => by
    rw [h] at h'
    exact Except.ok.inj h'
  generalize hv : v = u at h₂
  cases h₁ with
  | none =>
    cases h₂ with
    | none => rfl
    | outside _ h0 _ => exact absurd hv.symm h0
    | gone hm _ _ _ _ => exact absurd hv.symm (ok.oop_ne_zero hm)
    | fresh hf _ _ _ => exact absurd hv.symm (ok.oop_ne_zero hf.mem)
  | outside ho h0 hr =>
    cases h₂ with
    | none => exact absurd hv h0
    | outside _ _ hr' => exact read (hv ▸ hr _ agrees) (hr' _ agrees)
    | gone _ hh _ _ _ => exact absurd (hv ▸ hh) ho.outside
    | fresh hf _ _ _ => exact absurd (hv ▸ hf.inRam) ho.outside
  | gone hm hh he _ hr =>
    cases h₂ with
    | none => exact absurd hv (ok.oop_ne_zero hm)
    | outside ho _ _ => exact absurd (hv ▸ hh) ho.outside
    | gone hm' _ he' _ hr' =>
      rw [ok.cell_eq hm hm' hv, he'] at he
      cases he
      exact read (hr _ agrees) (hr' _ agrees)
    | fresh hf _ _ _ =>
      rw [ok.cell_eq hm hf.mem hv, hf.stays] at he
      cases he
  | fresh hf _ _ _ =>
    cases h₂ with
    | none => exact absurd hv (ok.oop_ne_zero hf.mem)
    | outside ho _ _ => exact absurd (hv ▸ hf.inRam) ho.outside
    | gone hm _ he _ _ =>
      rw [← ok.cell_eq hf.mem hm hv, hf.stays] at he
      cases he
    | fresh hf' _ _ _ => rw [ok.cell_eq hf.mem hf'.mem hv]

/-- The address is not in the half in use, up to its end. -/
def Scene.clear (S : Scene) (v : UInt32) : Bool :=
  decide (v.toNat ≤ S.source ∨ S.source + S.half < v.toNat)

namespace Scene.Found

variable {order : List Cell} {e : Entry}

section

variable (f : S.Found orig table order q cur e)
include f

lemma clear_iff (ok : S.Ok) : S.clear e.object = true ↔ S.Alive orig (· ∈ order) q := by
  rw [Scene.clear, decide_eq_true_iff]
  cases f.object with
  | image hi ho =>
    refine iff_of_true ho fun d hd he => ?_
    rw [← he] at hi
    exact (hi.placed ok hd).mem
  | @dead c w hf hn he hw =>
    have := ok.cell_low hf.mem
    have := ok.cell_high hf.mem
    have := c.head_cases
    refine iff_of_false ?_ fun hh => hn (hh c hf he)
    rw [hw, ← he]
    omega

lemma informative_iff : e.informative = true ↔ Informative orig q := by
  rw [Entry.informative, f.hash, f.flags, Informative]
  simp

lemma finalizes_iff : e.hasFinalizer = true ↔ Finalizes orig q := by
  rw [Entry.hasFinalizer, f.flags, Finalizes]
  simp

lemma stays_iff (ok : S.Ok) : (e.inUse || (S.clear e.object && e.informative)) = true ↔
      S.Stays orig table (· ∈ order) q := by
  rw [Stays, Bool.or_eq_true, Bool.and_eq_true, f.clear_iff ok, f.informative_iff]
  refine or_congr ⟨fun h => h ▸ f.monitor, fun h => ?_⟩ Iff.rfl
  exact f.monitor.unique ok h

end

end Scene.Found

/-! ### One decision -/

namespace Deciding

variable {taken : Nat} {decided kept finalized new : List Cell} {lists : Nat → List Cell}
  {heads : Array UInt32} {g' : Progress} {t : Store} {e : Entry} {tally : QueueTally}

section

variable (D : Deciding S orig table start taken decided kept finalized lists heads g s)
include D

lemma extend (hq : q ≠ table) {kept' finalized' : List Cell} {lists' : Nat → List Cell}
    {heads' : Array UInt32} (inv : Inv S g' t) (order : g'.order = g.order ++ new)
    (done : g'.done = g.done) (scan : g'.scan = g.scan)
    (record : ∀ j, j ≠ 15 → g'.record j = g.record j)
    (same : ∀ c x, ¬ (c = q ∧ x = 4) → g'.orig c x = g.orig c x) (still : S.Still (g'.orig q 4))
    (settled : S.Settled orig table (· ∈ start.order) (decided ++ [q]) kept' finalized'
      (· ∈ g'.order))
    (size : heads'.size = 16)
    (built : ∀ i < 16, S.Built g'.order g'.orig 0 (heads'.getD i 0) (lists' i))
    (sub : ∀ i, (lists' i).Sublist kept'.reverse)
    (listed : ∀ p ∈ kept', ∃ key, S.Image g'.order (orig p 0) key ∧
      p ∈ lists' (queueOf key).toNat)
    (keyed : ∀ i p, i < 16 → p ∈ lists' i → ∃ key, S.Image g'.order (orig p 0) key ∧
      (queueOf key).toNat = i)
    (final : S.Built g'.order g'.orig (start.record 15) (g'.record 15) finalized'.reverse) :
    Deciding S orig table start taken (decided ++ [q]) kept' finalized' lists' heads' g' t where
  inv := inv
  order := by
    obtain ⟨more, hm⟩ := D.order
    exact ⟨more ++ new, by rw [order, hm, append_assoc]⟩
  done := done.trans D.done
  scan := scan.trans D.scan
  record j hj := (record j hj).trans (D.record j hj)
  same c x hn ht := by
    have hne : ¬ (c = q ∧ x = 4) := fun hh => hn ⟨by simp [hh.1], hh.2⟩
    rw [same c x hne]
    exact D.same c x (fun hh => hn ⟨by simp [hh.1], hh.2⟩) ht
  cut p hp := by
    by_cases he : p = q
    · exact he ▸ still
    · rw [same p 4 fun hh => he hh.1]
      rcases mem_append.1 hp with hp | hp
      · exact D.cut p hp
      · exact absurd (mem_singleton.1 hp) he
  emptied i hi := by
    rw [same table _ fun hh => hq hh.1.symm]
    exact D.emptied i hi
  settled := settled
  size := size
  built := built
  sub := sub
  listed := listed
  keyed := keyed
  final := final

omit D in
lemma built_keep (hq : q ∉ decided) (order : g'.order = g.order ++ new)
    (same : ∀ c x, ¬ (c = q ∧ x = 4) → g'.orig c x = g.orig c x) {stop : UInt32}
    {l : List Cell} (hl : ∀ p ∈ l, p ∈ decided) (hb : S.Built g.order g.orig stop v l) :
    S.Built g'.order g'.orig stop v l := by
  rw [order]
  refine (hb.append new).congr fun p hp => same p 4 fun hh => ?_
  exact hq (hh.1 ▸ hl p hp)

lemma lists_decided {i : Nat} : ∀ p ∈ lists i, p ∈ decided := fun p hp =>
  D.settled.kept_mem.1 p (mem_reverse.1 ((D.sub i).subset hp))

lemma final_decided :
    ∀ p ∈ finalized.reverse, p ∈ decided := fun p hp =>
  D.settled.kept_mem.2 p (mem_reverse.1 hp)

omit D in
lemma copied_iff (ok : S.Ok) (fresh : ∀ c ∈ g.order ++ new, S.Fresh c)
    (ha : S.IsAssociation orig table q) (home : S.Home (g.order ++ new) q a) {P : Cell → Prop}
    (hmore : ∀ d, S.Fresh d → P d → d ∈ g.order ++ new)
    (hnew : ∀ d ∈ new, d = q ∨ P d) {d : Cell} :
    (d ∈ g.order ∨ (S.Fresh d ∧ (d = q ∨ P d))) ↔ d ∈ g.order ++ new := by
  constructor
  · rintro (hd | ⟨hf, rfl | hd⟩)
    · exact mem_append_left _ hd
    · cases home with
      | copy hp => exact hp.mem
      | pin hc =>
        have := ha.room
        exact absurd rfl (ok.cell_ne_pin hf.mem hc (x := 0) (by omega))
    · exact hmore d hf hd
  · intro hd
    exact (mem_append.1 hd).imp_right fun hn => ⟨fresh d hd, hnew d hn⟩

lemma drop (ha : S.IsAssociation orig table q) (hq : q ∉ decided)
    (hs : ¬ S.Stays orig table (· ∈ g.order) q) (hf : ¬ Scene.Finalizes orig q)
    (inv : Inv S (g.write q 4 0) t) (h0 : S.Still 0) :
    Deciding S orig table start taken (decided ++ [q]) kept finalized lists heads
      (g.write q 4 0) t := by
  have order : (g.write q 4 0).order = g.order ++ [] := (append_nil _).symm
  have same : ∀ c x, ¬ (c = q ∧ x = 4) → (g.write q 4 0).orig c x = g.orig c x :=
    fun c x hn => write_ne hn
  refine D.extend ha.ne_table inv order rfl rfl (fun _ _ => rfl) same ?_ ?_ D.size ?_ D.sub
    D.listed D.keyed ?_
  · rw [write_self]
    exact h0
  · exact .drop D.settled hs hf
  · exact fun i hi => built_keep hq order same D.lists_decided (D.built i hi)
  · exact built_keep hq order same D.final_decided D.final

lemma finalize (ok : S.Ok) (ha : S.IsAssociation orig table q) (hq : q ∉ decided)
    (hs : ¬ S.Stays orig table (· ∈ g.order) q) (hf : Scene.Finalizes orig q)
    (inv : Inv S { ({ g with order := g.order ++ new }.write q 4 (g.record 15)) with
      record := fun i => if i = 15 then a else g.record i } t)
    (home : S.Home (g.order ++ new) q a) (hnew : ∀ d ∈ new, d = q)
    (still : S.Still (g.record 15)) :
    Deciding S orig table start taken (decided ++ [q]) kept (finalized ++ [q]) lists heads
      { ({ g with order := g.order ++ new }.write q 4 (g.record 15)) with
        record := fun i => if i = 15 then a else g.record i } t := by
  have same : ∀ c x, ¬ (c = q ∧ x = 4) →
      ({ g with order := g.order ++ new }.write q 4 (g.record 15)).orig c x = g.orig c x :=
    fun c x hn => write_ne hn
  have next : ({ g with order := g.order ++ new }.write q 4 (g.record 15)).orig q 4 =
      g.record 15 := write_self
  refine D.extend ha.ne_table inv (rfl : _ = g.order ++ new) rfl rfl (fun j hj => if_neg hj) same
    ?_ ?_ D.size ?_ D.sub ?_ ?_ ?_
  · rw [next]
    exact still
  · refine cast (congrArg _ (funext fun d => propext ?_)) (D.settled.finalize hs hf)
    rw [write_order]
    rw [← copied_iff ok inv.fresh ha home (P := fun _ => False) (by simp) (by simpa using hnew)]
    simp only [or_false]
  · exact fun i hi => built_keep hq rfl same D.lists_decided (D.built i hi)
  · intro p hp
    obtain ⟨key, hi, hm⟩ := D.listed p hp
    exact ⟨key, hi.append new, hm⟩
  · intro i p hi hp
    obtain ⟨key, hi, hm⟩ := D.keyed i p hi hp
    exact ⟨key, hi.append new, hm⟩
  · rw [reverse_append]
    refine .cons ?_ ?_
    · exact home
    · rw [next]
      exact built_keep hq rfl same D.final_decided D.final

omit D in
lemma queueOf_lt (v : UInt32) : (queueOf v).toNat < 16 := by
  have h16 : queueCount.toNat = 16 := rfl
  rw [queueOf, UInt32.toNat_mod, h16]
  exact Nat.mod_lt _ (by omega)

lemma keep (ok : S.Ok) (ha : S.IsAssociation orig table q) (hq : q ∉ decided)
    (hs : S.Stays orig table (· ∈ g.order) q) {key : UInt32}
    (inv : Inv S ({ g with order := g.order ++ new }.write q 4
      (heads.getD (queueOf key).toNat 0)) t)
    (home : S.Home (g.order ++ new) q a)
    (hnew : ∀ d ∈ new, d = q ∨ d.oop = orig q 0)
    (hkey : S.Image (g.order ++ new) (orig q 0) key)
    (still : S.Still (heads.getD (queueOf key).toNat 0)) :
    Deciding S orig table start taken (decided ++ [q]) (kept ++ [q]) finalized
      (fun i => if i = (queueOf key).toNat then q :: lists i else lists i)
      (heads.setIfInBounds (queueOf key).toNat a)
      ({ g with order := g.order ++ new }.write q 4 (heads.getD (queueOf key).toNat 0)) t := by
  have := queueOf_lt key
  have hsize := D.size
  have hself : (heads.setIfInBounds (queueOf key).toNat a).getD (queueOf key).toNat 0 = a := by
    simp [Array.getElem?_setIfInBounds_self_of_lt (by omega :
      (queueOf key).toNat < heads.size)]
  have hother : ∀ i, i ≠ (queueOf key).toNat →
      (heads.setIfInBounds (queueOf key).toNat a).getD i 0 = heads.getD i 0 := by
    intro i hi
    simp only [Array.getD_eq_getD_getElem?, Array.getElem?_setIfInBounds_ne (Ne.symm hi)]
  have same : ∀ c x, ¬ (c = q ∧ x = 4) → ({ g with order := g.order ++ new }.write q 4
      (heads.getD (queueOf key).toNat 0)).orig c x = g.orig c x :=
    fun c x hn => write_ne hn
  have next : ({ g with order := g.order ++ new }.write q 4
      (heads.getD (queueOf key).toNat 0)).orig q 4 = heads.getD (queueOf key).toNat 0 :=
    write_self
  refine D.extend ha.ne_table inv (rfl : _ = g.order ++ new) rfl rfl (fun _ _ => rfl) same
    ?_ ?_ ?_ ?_ ?_ ?_ ?_ ?_
  · rw [next]
    exact still
  · refine cast (congrArg _ (funext fun d => propext ?_)) (D.settled.keep hs)
    exact copied_iff ok inv.fresh ha home
      (fun d hf he => (Scene.Image.placed ok hf (he ▸ hkey)).mem)
      hnew
  · rw [Array.size_setIfInBounds, hsize]
  · intro i hi
    have old := built_keep hq rfl same D.lists_decided (D.built i hi)
    by_cases he : i = (queueOf key).toNat
    · subst he
      rw [if_pos rfl, hself]
      refine .cons home ?_
      rw [next]
      exact old
    · rw [if_neg he, hother i he]
      exact old
  · intro i
    rw [reverse_append, reverse_singleton, singleton_append]
    split
    · exact (D.sub i).cons_cons q
    · exact (D.sub i).cons q
  · intro p hp
    rcases mem_append.1 hp with hp | hp
    · obtain ⟨key', hi, hm⟩ := D.listed p hp
      refine ⟨key', hi.append new, ?_⟩
      split
      · exact mem_cons_of_mem q hm
      · exact hm
    · obtain rfl := mem_singleton.1 hp
      exact ⟨key, hkey, by simp⟩
  · intro i p hi hp
    by_cases he : i = (queueOf key).toNat
    · rw [if_pos he] at hp
      rcases mem_cons.1 hp with rfl | hp
      · exact ⟨key, hkey, he.symm⟩
      · obtain ⟨key', hi', hm⟩ := D.keyed i p hi hp
        exact ⟨key', hi'.append new, hm⟩
    · rw [if_neg he] at hp
      obtain ⟨key', hi', hm⟩ := D.keyed i p hi hp
      exact ⟨key', hi'.append new, hm⟩
  · exact built_keep hq rfl same D.final_decided D.final

lemma chunk_word (hall : ∀ p ∈ decided, S.IsAssociation orig table p) (ht : ¬ table.isChunk)
    {c : Cell} (hc : c.isChunk) : g.orig c x = orig c x :=
  D.same c x (fun hh => (hall c hh.1).plain hc) fun hh => ht (hh.1 ▸ hc)

end

lemma enqueue_ends (ok : S.Ok) (h : Inv S g s)
    (ha : S.IsAssociation orig table q) (home : S.Home g.order q a) {key : UInt32}
    (still : S.Still (tally.heads.getD (queueOf key).toNat 0)) :
    Ends (enqueue tally key a) s fun r t =>
      r.heads = tally.heads.setIfInBounds (queueOf key).toNat a ∧
      Inv S (g.write q 4 (tally.heads.getD (queueOf key).toNat 0)) t := by
  have hb := ha.room
  refine .edit_bind (h.setNext_eq ok home.at hb _) (.pure ⟨rfl, ?_⟩)
  exact h.write ok home.at ha.plain ha.loose rfl (by omega) still

lemma settle_ends
    (D : Deciding S orig table start taken decided kept finalized lists tally.heads g s)
    (ok : S.Ok) (hh : S.Halves start.record) (ht : ¬ table.isChunk)
    (hall : ∀ p ∈ decided, S.IsAssociation orig table p) (hstop : S.Still (start.record 15))
    (ha : S.IsAssociation orig table q) (hq : q ∉ decided) (hn : S.Names g.order a q) :
    Ends (Liveness.settle (liveness S.space) tally a) s fun r t =>
      ∃ kept finalized lists g', Deciding S orig table start taken (decided ++ [q]) kept finalized
        lists r.2.heads g' t ∧ (∃ more, g'.order = g.order ++ more) ∧
        (r.1 = orig q 4 ∨ S.Image g.order (orig q 4) r.1) := by
  have hsame : ∀ x, g.orig q x = orig q x := fun x =>
    D.same q x (fun hh => hq hh.1) fun hh => ha.ne_table hh.1
  have hmon : ∀ c, c ≠ table → g.orig c 16 = orig c 16 := fun c hc =>
    D.same c 16 (fun hh => absurd hh.2 (by omega)) fun hh => hc hh.1
  obtain ⟨cur, e, f, reads⟩ := D.inv.found ok ha hn hsame hmon
  have hb := ha.room
  have h0 := ok.zero_still
  have cutInv : Inv S (g.write q 4 0) (s.setMem (s.mem.pokeWord (cur.toNat + 4) 0)) :=
    D.inv.write ok f.at' ha.plain ha.loose rfl (by omega) h0
  have hhalves : S.Halves (g.write q 4 0).record := by
    refine ⟨?_, ?_⟩
    · rw [← hh.start]
      exact congrArg _ (D.record 2 (by omega))
    · rw [← hh.stop]
      exact congrArg _ (D.record 4 (by omega))
  have alive : e.inUse = false → Ends ((liveness S.space).alive e.object)
      (s.setMem (s.mem.pokeWord (cur.toNat + 4) 0)) fun b t =>
        b = S.clear e.object ∧ t = s.setMem (s.mem.pokeWord (cur.toNat + 4) 0) :=
    fun _ => alive_ends ok cutInv hhalves e.object
  refine Liveness.settle_ends reads alive ?_ ?_ ?_
  · intro hs
    refine .bind (keep_names_ends ok cutInv hn ha.plain (by omega)) fun a₁ t₁ ht₁ => ?_
    obtain ⟨new₁, inv₁, home, hnew₁⟩ := ht₁
    rw [write_order] at inv₁ home
    have finish : ∀ key t new₂, Inv S { g.write q 4 0 with order := g.order ++ (new₁ ++ new₂) } t →
        S.Image (g.order ++ (new₁ ++ new₂)) (orig q 0) key → (∀ c ∈ new₂, c.oop = orig q 0) →
        Ends (do return (e.following, ← Liveness.store (enqueue tally key a₁))) t fun r t =>
          ∃ kept finalized lists g', Deciding S orig table start taken (decided ++ [q]) kept
            finalized lists r.2.heads g' t ∧ (∃ more, g'.order = g.order ++ more) ∧
            (r.1 = orig q 4 ∨ S.Image g.order (orig q 4) r.1) := by
      intro key t new₂ inv₂ hkey hnew₂
      have home₂ : S.Home (g.order ++ (new₁ ++ new₂)) q a₁ := by
        rw [← append_assoc]
        exact home.append new₂
      have still : S.Still (tally.heads.getD (queueOf key).toNat 0) :=
        (D.built _ (queueOf_lt key)).still ok D.inv (fun p hp => by
          have := (hall p (D.lists_decided p hp)).room
          omega) h0
      refine .bind (enqueue_ends ok inv₂ ha home₂ still) fun r u hu => .pure ?_
      rw [write_write] at hu
      refine ⟨_, _, _, _, hu.1 ▸ D.keep ok ha hq ((f.stays_iff ok).1 hs) hu.2 home₂ ?_ hkey still,
        ⟨_, rfl⟩, f.following⟩
      intro d hd
      rcases mem_append.1 hd with hd | hd
      · exact .inl (hnew₁ d hd)
      · exact .inr (hnew₂ d hd)
    by_cases hz : e.object = 0
    · rw [if_pos (by simpa using hz)]
      refine .value_bind (.pure ⟨rfl, rfl⟩) (finish 0 t₁ [] ?_ ?_ (by simp))
      · rw [append_nil]
        exact inv₁
      · rw [append_nil]
        cases f.object with
        | image hi _ => exact hz ▸ hi.append new₁
        | dead hf _ he hw => exact absurd (he.trans (hw.symm.trans hz)) (ok.oop_ne_zero hf.mem)
    rw [if_neg (by simpa using hz)]
    refine .bind (keep_object_ends ok inv₁ (v := orig q 0) ?_) fun key t ht => ?_
    · cases f.object with
      | image hi _ => exact .inl (hi.append new₁)
      | @dead c _ hf _ he hw =>
        refine .inr ⟨hw, c, hf, he, fun hc => ?_⟩
        have framed := ha.object.framed ok hf he hc
        refine ⟨framed.room, ?_⟩
        rw [write_ne (fun hh => absurd hh.2 (by omega)), D.chunk_word hall ht hc]
        exact framed.used
    · obtain ⟨new₂, inv₂, hi, hnew₂⟩ := ht
      rw [append_assoc] at inv₂ hi
      exact finish key t new₂ inv₂ hi hnew₂
  · intro hs hf
    refine .bind (keep_names_ends ok cutInv hn ha.plain (by omega)) fun a₁ t₁ ht₁ => ?_
    obtain ⟨new₁, inv₁, home, hnew₁⟩ := ht₁
    have h15 : finalizationQueue t₁ = .ok (g.record 15) := by
      rw [finalizationQueue, (inv₁.recorded ok).root_eq (j := 7) rfl (by omega),
        inv₁.recorded_eq (by omega)]
      rfl
    have still : S.Still (g.record 15) := D.final.still ok D.inv (fun p hp => by
      have := (hall p (D.final_decided p hp)).room
      omega) hstop
    have inv₂ := inv₁.write ok home.at ha.plain ha.loose (x := 4) rfl (by omega) still
    rw [write_write] at inv₂
    have inv₃ := inv₂.setRecorded ok (j := 15) (by omega) a₁
    refine .next (.query_bind h15 (.edit_bind (inv₁.setNext_eq ok home.at hb _) ?_))
    refine (inv₂.recorded ok).setRamRoot_ends (j := 7) rfl (by omega) (.pure ?_)
    refine ⟨_, _, _, _, D.finalize ok ha hq ?_ ((f.finalizes_iff).1 hf) inv₃ home hnew₁ still,
      ⟨_, rfl⟩, f.following⟩
    rw [← f.stays_iff ok, hs]
    exact Bool.false_ne_true
  · intro hs hf log
    refine ⟨_, _, _, _, D.drop ha hq ?_ ?_ (cutInv.setLog log) h0,
      ⟨[], (append_nil _).symm⟩, f.following⟩
    · rw [← f.stays_iff ok, hs]
      exact Bool.false_ne_true
    · rw [← f.finalizes_iff, hf]
      exact Bool.false_ne_true

end Deciding

end DeviceVm.Copying
