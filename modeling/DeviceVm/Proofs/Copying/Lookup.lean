import DeviceVm.Proofs.Copying.Preservation

/-!
The associations after a collection with the copying collector. The fate of an association is
decided once, by what was found when its turn came; the queues are rebuilt by the new addresses of
the objects, so that an object is looked up where its association is.
-/

namespace DeviceVm.Copying

open List Memory UInt32 Header Query Store Word Association Liveness Sample

variable {S : Scene} {table p q c d : Cell} {queues : Nat → List Cell} {s t : Store}
  {order decided kept finalized l : List Cell} {lists : Nat → List Cell} {v w key : UInt32}
  {orig : Cell → Nat → UInt32} {first found : Cell → Prop}

lemma Scene.Monitor.ne_zero (h : S.Monitor orig table v true) (ok : S.Ok) : v ≠ 0 := by
  have inRam : ∀ {c : Cell}, S.ram.Has c.oop → c.oop ≠ 0 := by
    intro c hc h0
    have := ok.ram_pos
    have := hc.1
    rw [h0, UInt32.toNat_zero] at this
    omega
  generalize hb : true = b at h
  cases h with
  | none => cases hb
  | outside _ h0 _ => exact h0
  | gone _ hr _ _ _ => exact inRam hr
  | fresh hf _ _ _ => exact inRam hf.inRam

namespace Scene.Settled

section

variable (h : S.Settled orig table first decided kept finalized found)
include h

lemma of_first (hd : first d) : found d := by
  induction h with
  | start => exact hd
  | keep _ _ ih | finalize _ _ _ ih => exact .inl ih
  | drop _ _ _ ih => exact ih

lemma found_cases (hd : found d) : first d ∨ ∃ q ∈ decided, d = q ∨ d.oop = orig q 0 := by
  induction h with
  | start => exact .inl hd
  | @keep decided _ _ _ q _ _ ih =>
    rcases hd with hd | ⟨-, hd⟩
    · exact (ih hd).imp_right fun ⟨p, hp, h⟩ => ⟨p, mem_append_left _ hp, h⟩
    · exact .inr ⟨q, by simp, hd⟩
  | @finalize decided _ _ _ q _ _ _ ih =>
    rcases hd with hd | ⟨-, hd⟩
    · exact (ih hd).imp_right fun ⟨p, hp, h⟩ => ⟨p, mem_append_left _ hp, h⟩
    · exact .inr ⟨q, by simp, .inl hd⟩
  | drop _ _ _ ih => exact (ih hd).imp_right fun ⟨p, hp, h⟩ => ⟨p, mem_append_left _ hp, h⟩

lemma finalized_sublist : finalized.Sublist decided := by
  induction h with
  | start => exact .slnil
  | finalize _ _ _ ih => exact ih.append (List.Sublist.refl _)
  | keep _ _ ih | drop _ _ _ ih => exact ih.trans (sublist_append_left _ _)

lemma finds (hq : q ∈ kept ∨ q ∈ finalized) (hf : S.Fresh q) : found q := by
  induction h with
  | start => simp at hq
  | keep _ _ ih | finalize _ _ _ ih | drop _ _ _ ih => grind

lemma fate (nodup : decided.Nodup) (hq : q ∈ decided) : ∃ before behind ks fs then_found,
      decided = before ++ q :: behind ∧ S.Settled orig table first before ks fs then_found ∧
      (q ∈ kept ↔ S.Stays orig table then_found q) ∧
      (q ∈ finalized ↔ ¬ S.Stays orig table then_found q ∧ Finalizes orig q) := by
  induction h with
  | start => cases hq
  | @keep decided kept finalized found r h hs ih
  | @finalize decided kept finalized found r h hs hr ih
  | @drop decided kept finalized found r h hs hr ih =>
    have hn : decided.Nodup ∧ r ∉ decided := by
      have := nodup_append.1 nodup
      exact ⟨this.1, fun hr => this.2.2 r hr r (by simp) rfl⟩
    have := h.kept_mem
    by_cases he : q = r
    · subst he
      refine ⟨decided, [], kept, finalized, found, rfl, h, ?_, ?_⟩ <;> grind
    · have hq' : q ∈ decided := by simpa [he] using hq
      obtain ⟨before, behind, ks, fs, g, split, hg, hk, hf⟩ := ih hn.1 hq'
      refine ⟨before, behind ++ [r], ks, fs, g, by simp [split], hg, ?_, ?_⟩
      all_goals simp only [mem_append, mem_singleton, he, or_false, hk, hf]

end

end Scene.Settled

namespace Scene

/-- No two associations are of the same object. -/
def Single (S : Scene) (queues : Nat → List Cell) (s : Store) : Prop :=
  ∀ p ∈ (range 16).flatMap queues, ∀ q ∈ (range 16).flatMap queues,
    resolve (S.words p 0) s.mem = resolve (S.words q 0) s.mem → p = q

/-- The associations whose objects wait for their finalizers. -/
inductive Waiting (S : Scene) (table : Cell) (queues : Nat → List Cell) : UInt32 → List Cell → Prop
  | nil : Waiting S table queues 0 []
  | cons {q : Cell} {rest : List Cell} (hf : S.Fresh q) (hb : 8 ≤ q.body)
      (role : q.role 4 = .pointer) (hq : q ∉ (range 16).flatMap queues) (hne : q ≠ table)
      (links : Waiting S table queues (S.words q 4) rest) : Waiting S table queues q.oop (q :: rest)

end Scene

lemma Scene.Outside.not_placed (ho : S.Outside v) (ok : S.Ok) (h4 : v.toNat % 4 = 0)
    (room : Cell.total order ≤ S.half) : ¬ Placed S.target order d v.toNat := by
  intro hp
  have hlow := hp.low
  have := hp.high
  have := d.head_cases
  have := ok.bounds
  -- A header that leads elsewhere could stand in front of the copy.
  have hagrees : Memory.Agrees S.fixed S.mem (S.mem.pokeWord (v.toNat - 4) 2) :=
    .poked fun b hb => by
      have := ok.fixed_target b hb
      omega
  have hholds : Header.Holds (S.mem.pokeWord (v.toNat - 4) 2) v 2 0 := by
    refine ⟨h4, ?_, by rw [size_pokeWord]; omega, by decide, by decide, ?_, fun h => ?_⟩
    · show 4 ≤ v.toNat
      omega
    · rw [peekWord_pokeWord_self _ (by omega)]
      rfl
    · exact absurd h (by decide)
  have hres := hholds.resolve_forwarded rfl
  rw [ho.resolve _ hagrees] at hres
  rw [Except.ok.inj hres] at hlow
  have : ((2 : UInt32) - 2).toNat = 0 := rfl
  omega

namespace Collected

lemma held (h : Heap S table queues s)
    (C : Collected S table queues s order kept finalized lists t) (hc : c ∈ order) :
    S.Reached S.words (S.Held s.recorded table queues) c := by
  have ok := h.ok
  obtain ⟨found, settled, live⟩ := C.live
  have hreach := (live c).1 hc
  rcases h.register with ⟨-, ht, hq⟩ | reg
  · have hnone : (range 16).flatMap queues = [] := by simp [hq]
    rw [hnone] at settled
    have hfound : found = S.Reached S.words (S.Rooted s.recorded) := by
      generalize hd : ([] : List Cell) = decided at settled
      cases settled with
      | start => rfl
      | keep | finalize | drop => simp at hd
    have hrooted : ∀ d, found d → S.Fresh d := fun d hd => (h.sound d (hfound ▸ hd).held).1
    refine Scene.Reached.mono ((show S.Rewritten S.words (S.unlinked table queues) from
      fun d x hd => .inl ?_).reached ok ?_ hreach) ?_
    · rw [Scene.unlinked, hnone, if_neg]
      rintro (⟨hd, -⟩ | ⟨rfl, -⟩)
      · exact absurd hd not_mem_nil
      · exact ht hd
    · rintro d (hd | ⟨hd, -⟩)
      · exact (hrooted d hd).mem
      · exact hd.mem
    · rintro d (hd | ⟨hd, rfl⟩)
      · exact (hfound ▸ hd).held
      · exact absurd hd.mem ht
  have hne : s.recorded 14 ≠ 0 := reg.names.ne_zero ok (h.begin rfl)
  have hheld : ∀ d, found d → S.Reached S.words (S.Held s.recorded table queues) d := fun d =>
    settled.held hne (fun _ hp => hp) fun p hp => reg.association hp
  refine Scene.Reached.mono ((show S.Rewritten S.words (S.unlinked table queues) from
    fun d x hd => ?_).reached ok ?_ hreach) ?_
  · rw [Scene.unlinked]
    split
    case isTrue hl =>
      refine .inr ?_
      rcases hl with ⟨hq, -⟩ | ⟨rfl, -⟩
      · have ha := reg.association hq
        exact ⟨ha.plain, ha.stateless, ok.zero_still⟩
      · exact ⟨reg.plain, reg.stateless, ok.zero_still⟩
    case isFalse => exact .inl rfl
  · rintro d (hd | ⟨hd, -⟩)
    · exact (h.sound d (hheld d hd)).1.mem
    · exact hd.mem
  · rintro d (hd | ⟨hd, rfl⟩)
    · exact hheld d hd
    · exact .first ⟨hd, .inr ⟨hne, .inl rfl⟩⟩

section

variable (h : Heap S table queues s) (C : Collected S table queues s order kept finalized lists t)
  (leaves : S.Leaves s t)

include h C leaves

lemma bounds (home : S.Home order c v) :
    v.toNat % 4 = 0 ∧ 0 < v.toNat ∧ v.toNat + c.body ≤ t.mem.size := by
  have ok := h.ok
  have : t.mem.size = S.mem.size := leaves.agrees.size.trans (congrArg _ h.mem)
  cases home with
  | copy hp =>
    have := (C.header c v hp).aligned
    have := hp.low
    have := hp.high
    have := C.room
    have := ok.bounds
    omega
  | pin hc =>
    have := ok.pins c hc
    omega

lemma field (home : S.Home order q v) (hb : 20 ≤ q.body) {index : Int32} {j : Nat}
    (hi : index.toInt = j) (hj : j < 5) :
    Memory.word v index t.mem = .ok (t.mem.peekWord (v.toNat + 4 * j)) := by
  have := C.bounds h leaves home
  have := leaves.agrees.size
  have := h.recorded_ok.small
  exact Memory.word_eq (.lit j hi) (by omega)

omit leaves

lemma object_word (ha : S.IsAssociation S.words table q) (home : S.Home order q v) :
    S.Image order (S.words q 0) (t.mem.peekWord (v.toNat + 0)) := by
  have := ha.room
  have hne := ha.ne_table
  cases home with
  | copy hp =>
    have hf : S.Fresh q := (h.sound q (C.held h hp.mem)).1
    have hu := C.word q v 0 hp rfl (by omega) (by simp) fun hh => hne hh.1
    rwa [Scene.Updated, ha.object_role hf] at hu
  | pin hc =>
    rw [C.pinned q 0 hc rfl (by omega) (by simp) fun hh => hne hh.1]
    exact .still (.inl (ha.object_pinned hc).outside)

omit h

lemma data_word (ha : S.IsAssociation S.words table q) (home : S.Home order q v) {x : Nat}
    (hx : x % 4 = 0) (hb : x + 4 ≤ 20) (h4 : x ≠ 4) (role : q.role x = .data) :
    t.mem.peekWord (v.toNat + x) = S.words q x := by
  have := ha.room
  have hne := ha.ne_table
  cases home with
  | copy hp =>
    have hu := C.word q v x hp hx (by omega) (fun hh => h4 hh.2) fun hh => hne hh.1
    rwa [Scene.Updated, role] at hu
  | pin hc => exact C.pinned q x hc hx (by omega) (fun hh => h4 hh.2) fun hh => hne hh.1

include h

lemma object_cases (hp : S.Proper S.words v) (hi : S.Image order v key) :
    (∃ d, S.Fresh d ∧ d.oop = v ∧ Placed S.target order d key.toNat) ∨
      (S.Outside key ∧ resolve v s.mem = .ok key) := by
  have ok := h.ok
  cases hp with
  | outside ho =>
    rw [hi.unique ok C.nodup (.still (.inl ho.outside)), h.mem]
    exact .inr ⟨ho, ho.resolve _ (.refl _)⟩
  | gone hm hr he ho =>
    rw [hi.unique ok C.nodup (.gone hm hr he)]
    exact .inr ⟨ho, (h.begin rfl).resolve_gone ok hm he⟩
  | fresh hf _ => exact .inl ⟨_, hf, rfl, hi.placed ok hf⟩

lemma same_object (hp : S.Proper S.words v) (hq : S.Proper S.words w)
    (hv : S.Image order v key) (hw : S.Image order w key) :
    resolve v s.mem = resolve w s.mem := by
  have apart : ∀ {d}, Placed S.target order d key.toNat → ¬ S.Outside key := fun {d} hd ho =>
    ho.not_placed h.ok (C.header d key hd).aligned C.room hd
  rcases C.object_cases h hp hv with ⟨d, -, rfl, hd⟩ | ⟨ho, hr⟩ <;>
    rcases C.object_cases h hq hw with ⟨e, -, rfl, he⟩ | ⟨ho', hr'⟩
  · have := d.head_cases
    have := e.head_cases
    rcases hd.apart he with ⟨rfl, -⟩ | hlt | hlt
    · rfl
    · omega
    · omega
  · exact absurd ho' (apart hd)
  · exact absurd ho (apart he)
  · rw [hr, hr']

include leaves

lemma search (key : UInt32) (chain : Chain S order t.mem 0 v l)
    (hl : ∀ p ∈ l, S.IsAssociation S.words table p) {fuel : Nat} (enough : l.length < fuel) :
    ∃ a, associationFrom key fuel v t.mem = .ok a ∧
      ((a = 0 ∧ ∀ p ∈ l, ¬ S.Image order (S.words p 0) key) ∨
        ∃ q ∈ l, S.Home order q a ∧ S.Image order (S.words q 0) key) := by
  induction chain generalizing fuel with
  | nil =>
    rcases fuel with _ | fuel
    · omega
    exact ⟨0, rfl, .inl ⟨rfl, fun p hp => absurd hp not_mem_nil⟩⟩
  | @cons v q rest home _ ih =>
    rcases fuel with _ | fuel
    · omega
    have ha := hl q List.mem_cons_self
    have hv : v ≠ 0 := fun h0 => by
      have := C.bounds h leaves home
      rw [h0, UInt32.toNat_zero] at this
      omega
    have hobject : Association.object v t.mem = .ok (t.mem.peekWord (v.toNat + 0)) :=
      C.field h leaves home ha.room (j := 0) rfl (by omega)
    have hnext : Association.next v t.mem = .ok (t.mem.peekWord (v.toNat + 4)) :=
      C.field h leaves home ha.room (j := 1) rfl (by omega)
    have himage := C.object_word h ha home
    rw [associationFrom, if_neg (by simpa using hv), Read.bind_ok hobject]
    by_cases he : t.mem.peekWord (v.toNat + 0) = key
    · rw [if_pos (by simpa using he)]
      exact ⟨v, rfl, .inr ⟨q, mem_cons_self, home, he ▸ himage⟩⟩
    rw [if_neg (by simpa using he), Read.bind_ok hnext]
    rw [length_cons] at enough
    obtain ⟨a, hr, hcases⟩ := ih (fun p hp => hl p (mem_cons_of_mem _ hp))
      (show rest.length < fuel by omega)
    refine ⟨a, hr, hcases.imp (fun hn => ⟨hn.1, ?_⟩) fun hsome =>
      hsome.imp fun p hp => ⟨mem_cons_of_mem _ hp.1, hp.2⟩⟩
    rintro p (_ | ⟨_, hp⟩)
    · exact fun hi => he (himage.unique h.ok C.nodup hi)
    · exact hn.2 p hp

section

variable (reg : S.Register S.words (s.recorded 14) table queues)
include reg

omit h leaves in
lemma lists_nodup (i : Nat) : (lists i).Nodup := by
  obtain ⟨_, settled, -⟩ := C.live
  exact (C.sub i).nodup ((reverse_perm kept).nodup_iff.mpr
    (settled.kept_sublist.nodup reg.nodup))

lemma lookup (key : UInt32) : ∃ a, associationOf key t = .ok a ∧
      ((a = 0 ∧ ∀ p ∈ kept, ¬ S.Image order (S.words p 0) key) ∨
        ∃ q ∈ kept, S.Home order q a ∧ S.Image order (S.words q 0) key) := by
  obtain ⟨found, settled, -⟩ := C.live
  have hkept : ∀ i p, p ∈ lists i → p ∈ kept := fun i p hp =>
    mem_reverse.1 ((C.sub i).subset hp)
  have hassociation : ∀ p ∈ kept, S.IsAssociation S.words table p := fun p hp =>
    reg.association (settled.kept_mem.1 p hp)
  have hsize := leaves.agrees.size
  have hrecorded : t.Recorded := by
    have r := h.recorded_ok
    exact ⟨leaves.ram ▸ r.aligned, by rw [leaves.ram, hsize]; exact r.inside, hsize ▸ r.small⟩
  have htable : associationTable t = .ok (t.recorded 14) :=
    hrecorded.root_eq rfl (by omega)
  obtain ⟨home, chains⟩ := C.entries.resolve_left fun h0 =>
    reg.names.ne_zero h.ok (h.begin rfl) h0.1
  have hbounds := C.bounds h leaves home
  have := reg.room
  have := hrecorded.small
  have hi : (queueOf key).toNat < 16 := by
    exact Nat.mod_lt _ (by decide)
  have hqueue : associationQueue key t =
      .ok (t.mem.peekWord ((t.recorded 14).toNat + 4 * (queueOf key).toNat)) := by
    rw [associationQueue, bind_ok htable, if_neg]
    · exact word_eq (.nat (by omega) (by omega) (by omega)) (by omega)
    · intro h0
      rw [beq_iff_eq.1 h0, UInt32.toNat_zero] at hbounds
      omega
  have hlength : (lists (queueOf key).toNat).length < t.mem.size + 1 := by
    have := Scene.IsAssociation.length_le h.ok (C.lists_nodup reg (queueOf key).toNat) fun p hp =>
      hassociation p (hkept _ p hp)
    rw [hsize, h.mem]
    omega
  obtain ⟨a, hr, hcases⟩ := C.search h leaves key (chains _ hi)
    (fun p hp => hassociation p (hkept _ p hp)) hlength
  refine ⟨a, ?_, hcases.imp (fun hn => ⟨hn.1, fun p hp hp' => ?_⟩) fun hsome =>
    hsome.imp fun q hq => ⟨hkept _ q hq.1, hq.2⟩⟩
  · rw [associationOf, bind_ok (a := t.mem.size + 1) rfl, bind_ok hqueue]
    exact hr
  · exact hn.2 p ((C.listed _ p hi).2 ⟨hp, key, hp', rfl⟩) hp'

lemma finds (single : S.Single queues s) (hq : q ∈ kept)
    (hkey : S.Image order (S.words q 0) key) : ∃ a, S.Home order q a ∧ associationOf key t = .ok a ∧
      hashCode a t.mem = .ok (S.words q 12) ∧ flags a t.mem = .ok (S.words q 16) := by
  obtain ⟨found, settled, -⟩ := C.live
  obtain ⟨a, hr, ⟨-, hn⟩ | ⟨p, hp, home, hi⟩⟩ := C.lookup h leaves reg key
  · exact absurd hkey (hn q hq)
  have hp' := settled.kept_mem.1 p hp
  have hq' := settled.kept_mem.1 q hq
  have ha := reg.association hq'
  obtain rfl := single p hp' q hq' (C.same_object h (reg.association hp').object ha.object hi hkey)
  have hhash := C.data_word ha home rfl (by omega) (by omega) ha.hash_role
  have hflags := C.data_word ha home rfl (by omega) (by omega) ha.flags_role
  refine ⟨a, home, hr, ?_, ?_⟩
  · rw [← hhash]
    exact C.field h leaves home ha.room (j := 3) rfl (by omega)
  · rw [← hflags]
    exact C.field h leaves home ha.room (j := 4) rfl (by omega)

end

omit h leaves

lemma waiting (h : Heap S table queues s) (hl : S.Waiting table queues (s.recorded 15) l) :
    Chain S order t.mem 0 (t.recorded 15) (finalized.reverse ++ l) := by
  have ok := h.ok
  obtain ⟨v, hv, hchain⟩ := C.final
  have old : ∀ {u v l}, S.Waiting table queues u l → S.Image order u v →
      Chain S order t.mem 0 v l := by
    intro u v l hl hv
    induction hl generalizing v with
    | nil =>
      rw [hv.unique ok C.nodup (.still ok.zero_still)]
      exact .nil
    | @cons q rest hf hb role hq hne _ ih =>
      have hp := hv.placed ok hf
      have hu := C.word q v 4 hp rfl hb (fun hh => hq hh.1) fun hh => hne hh.1
      rw [Scene.Updated, role] at hu
      exact .cons (.copy hp) (ih hu)
  generalize t.recorded 15 = u, finalized.reverse = new at hchain ⊢
  induction hchain with
  | nil => exact old hl hv
  | cons home _ ih => exact .cons home ih

lemma retains (reg : S.Register S.words (s.recorded 14) table queues)
    (hq : q ∈ kept ∨ q ∈ finalized) (hd : S.Fresh d) (he : d.oop = S.words q 0) : d ∈ order := by
  obtain ⟨found, settled, live⟩ := C.live
  have ha := reg.association (hq.elim (settled.kept_mem.1 q) (settled.kept_mem.2 q))
  rcases ha.known with hf | hpin
  · have := ha.room
    refine (live d).2 (.step (.first (.inl (settled.finds hq hf)))
      (.pointer rfl (by omega) (ha.object_role hf) hd ?_))
    rw [Scene.unlinked, if_neg, he]
    rintro (⟨-, hx⟩ | ⟨hx, -⟩)
    · cases hx
    · exact ha.ne_table hx
  · exact absurd (he ▸ hd.inRam) (ha.object_pinned hpin).outside

lemma exists_image (h : Heap S table queues s)
    (reg : S.Register S.words (s.recorded 14) table queues) (hq : q ∈ kept) :
    ∃ key, S.Image order (S.words q 0) key := by
  have ok := h.ok
  obtain ⟨found, settled, -⟩ := C.live
  have object := (reg.association (settled.kept_mem.1 q hq)).object
  generalize hv : S.words q 0 = v at object
  cases object with
  | outside ho => exact ⟨_, .still (.inl ho.outside)⟩
  | gone hm hr he _ => exact ⟨_, .gone hm hr he⟩
  | @fresh d hf _ =>
    obtain ⟨a, ha⟩ := Placed.of_mem (t := S.target) (C.retains reg (.inl hq) hf hv.symm)
    have := ha.high
    have := C.room
    have := ok.bounds
    have hn : (ofNat a).toNat = a :=
      toNat_nat (by omega)
    exact ⟨_, .copied hf (hn.symm ▸ ha)⟩

end

end Collected

namespace Heap

/-- Each queued association has one fate. One whose monitor is in use, or that carries something and
whose object is reached without the table, stays: it is in one queue, once, and is what is found for
the new address of its object. Of the others those with a finalizer stay or are added in front of
the finalization queue, and their objects are copied. -/
theorem collection_settles_associations (h : Heap S table queues s)
    (reg : S.Register S.words (s.recorded 14) table queues) (single : S.Single queues s)
    (waiting : S.Waiting table queues (s.recorded 15) l) :
    Ends collect s fun _ t => ∃ order kept finalized lists,
      Collected S table queues s order kept finalized lists t ∧
      (finalized.Nodup ∧ (∀ q, q ∈ finalized → q ∉ kept) ∧ ∀ i, (lists i).Nodup) ∧
      (∀ q, q ∈ (List.range 16).flatMap queues →
        (S.Monitor S.words table (S.words q 8) true ∨
          (S.Alive S.words (S.Reached S.words (S.Rooted s.recorded)) q ∧
            Scene.Informative S.words q) → q ∈ kept) ∧
        (Scene.Finalizes S.words q → q ∈ kept ∨ q ∈ finalized)) ∧
      (∀ q, q ∈ kept → ∃ key a, S.Image order (S.words q 0) key ∧ S.Home order q a ∧
        associationOf key t = .ok a ∧ hashCode a t.mem = .ok (S.words q 12) ∧
        flags a t.mem = .ok (S.words q 16) ∧
        ∀ i, i < 16 → (q ∈ lists i ↔ i = (queueOf key).toNat)) ∧
      (∀ q, q ∈ finalized → ∀ d, S.Fresh d → d.oop = S.words q 0 → d ∈ order) ∧
      Chain S order t.mem 0 (t.recorded 15) (finalized.reverse ++ l) := by
  refine h.collect_leaves.mono fun _ t ht => ?_
  obtain ⟨order, kept, finalized, lists, C, -, leaves⟩ := ht
  obtain ⟨found, settled, -⟩ := C.live
  refine ⟨order, kept, finalized, lists, C, ⟨settled.finalized_sublist.nodup reg.nodup, ?_,
    C.lists_nodup reg⟩, ?_, ?_, fun q hq d => C.retains reg (.inr hq), C.waiting h waiting⟩
  · intro q hq hq'
    obtain ⟨_, _, _, _, _, -, -, hk, hf⟩ := settled.fate reg.nodup (settled.kept_mem.2 q hq)
    exact (hf.mp hq).1 (hk.mp hq')
  · intro q hq
    obtain ⟨_, _, _, _, found, -, before, hk, hf⟩ := settled.fate reg.nodup hq
    refine ⟨fun hs => hk.mpr (hs.imp_right fun ha => ⟨fun d hd he => ?_, ha.2⟩), fun hfin => ?_⟩
    · exact before.of_first (ha.1 d hd he)
    · by_cases hs : S.Stays S.words table found q
      · exact .inl (hk.mpr hs)
      · exact .inr (hf.mpr ⟨hs, hfin⟩)
  · intro q hq
    obtain ⟨key, hkey⟩ := C.exists_image h reg hq
    obtain ⟨a, home, hr, hhash, hflags⟩ := C.finds h leaves reg single hq hkey
    refine ⟨key, a, hkey, home, hr, hhash, hflags, fun i hi => (C.listed i q hi).trans ?_⟩
    constructor
    · rintro ⟨-, key', hkey', rfl⟩
      rw [hkey.unique h.ok C.nodup hkey']
    · rintro rfl
      exact ⟨hq, key, hkey, rfl⟩

end Heap

lemma sample_resolve (hc : c ∈ sampleCells) : resolve c.oop sampleStore.mem = .ok c.oop := by
  have h : ∀ c ∈ sampleCells, c.kind.toNat % 4 ≠ 2 := by decide
  exact (sample_laid hc).holds.resolve_self (h c hc)

lemma sample_same (hp : p ∈ sampleQueued) (hq : q ∈ sampleQueued)
    (he : sampleScene.words p 0 = sampleScene.words q 0) : p = q := by
  have h : ∀ p ∈ sampleQueued, ∀ q ∈ sampleQueued,
      sampleRam.getD ((p.oop.toNat - 464 + 0) / 4) 0 =
        sampleRam.getD ((q.oop.toNat - 464 + 0) / 4) 0 → p.oop = q.oop := by decide
  have hpm := sample_queued_mem hp
  have hqm := sample_queued_mem hq
  rw [sample_words hpm rfl, sample_words hqm rfl] at he
  exact sample_ok.cell_eq hpm hqm (h p hp q hq he)

lemma sample_single : sampleScene.Single sampleQueues sampleStore := by
  intro p hp q hq he
  rw [sample_queued] at hp hq
  obtain ⟨d, -, hd, hdm⟩ := sample_object hp
  obtain ⟨e, -, he', hem⟩ := sample_object hq
  rw [← hd, ← he', sample_resolve hdm, sample_resolve hem] at he
  exact sample_same hp hq (hd.symm.trans ((Except.ok.inj he).trans he'))

/-! Two arrays, the one that waits for its finalizer and the stack chunk are reached. -/

lemma sample_reached (h : sampleScene.Reached sampleScene.words
    (sampleScene.Rooted sampleStore.recorded) c) :
    c.oop ∈ ([532, 544, 764, 772, 796] : List UInt32) := by
  have outside : ∀ c ∈ sampleCells, c.oop ∉ ([0, 192, 456] : List UInt32) := by decide
  induction h with
  | first h =>
    obtain ⟨hf, j, hj, he⟩ := h
    have roots : ∀ j < 16, 8 ≤ j → j ≠ 14 →
        sampleRam.getD j 0 ∈ ([0, 192, 456] ++ [532, 544, 764, 772, 796] : List UInt32) := by
      decide
    have := roots j hj.2.1 hj.1 hj.2.2
    rw [← sample_recorded, ← he] at this
    exact (mem_append.1 this).resolve_left (outside _ hf.mem)
  | @step c d h hr ih =>
    have hc : c ∈ sampleCells := h.mem fun d hd => hd.1.mem
    cases hr with
    | @pointer x hx hb hr hd he =>
      have refs : ∀ c ∈ sampleCells, c.oop ∈ ([532, 544, 764, 772, 796] : List UInt32) →
          ∀ k < c.body / 4, c.role (4 * k) = .pointer →
          sampleRam.getD ((c.oop.toNat - 464 + 4 * k) / 4) 0 ∈
            ([0, 192, 456] ++ [532, 544, 764, 772, 796] : List UInt32) := by decide
      have hx' : x = 4 * (x / 4) := by omega
      rw [hx'] at hr
      have := refs c hc ih _ (by omega) hr
      rw [← hx', ← sample_words hc hx, ← he] at this
      exact (mem_append.1 this).resolve_left (outside d hd.mem)
    | next _ _ hd hd' =>
      rw [sample_chunk hd.mem hd']
      decide

lemma reached_sample : sampleScene.Reached sampleScene.words
    (sampleScene.Rooted sampleStore.recorded) (integerArray 544 1) := by
  have hmem : array 532 2 ∈ sampleCells ∧ integerArray 544 1 ∈ sampleCells := by simp [sampleCells]
  have hroot : sampleScene.Rooted sampleStore.recorded (array 532 2) :=
    ⟨sample_fresh hmem.1, 12, ⟨by omega, by omega, by omega⟩,
      (sample_recorded.trans (by decide)).symm⟩
  refine .step (.first hroot) (.pointer (x := 0) rfl (by decide) (by decide)
    (sample_fresh hmem.2) ?_)
  exact ((sample_words hmem.1 rfl).trans (by decide)).symm

/-- An object that roots do not lead to is not found before the turn of its association. -/
lemma sample_late {before behind ks fs : List Cell} (hq : q ∈ sampleQueued)
    (split : sampleQueued = before ++ q :: behind)
    (settled : sampleScene.Settled sampleScene.words sampleTable (sampleScene.Reached
      sampleScene.words (sampleScene.Rooted sampleStore.recorded)) before ks fs found)
    (object : d.oop = sampleScene.words q 0)
    (unreached : d.oop ∉ ([532, 544, 764, 772, 796] : List UInt32)) : ¬ found d := by
  intro hd
  have nodup : sampleQueued.Nodup := sample_register.nodup
  have hbefore : ∀ p ∈ before, p ∈ sampleQueued := fun p hp => split ▸ mem_append_left _ hp
  rcases settled.found_cases hd with hr | ⟨p, hp, rfl | ho⟩
  · exact unreached (sample_reached hr)
  · obtain ⟨e, he, ho, -⟩ := sample_object hq
    have apart : ∀ e ∈ [integerArray 708 1, integerArray 544 1, array 700 1],
        ∀ p ∈ sampleQueued, p.oop ≠ e.oop := by decide
    exact apart e he d (hbefore d hp) (object.trans ho.symm)
  · obtain rfl := sample_same (hbefore p hp) hq (ho.symm.trans object)
    rw [split] at nodup
    exact (nodup_append.1 nodup).2.2 p hp p mem_cons_self rfl

lemma sample_unlocked (hq : q ∈ sampleQueued) :
    ¬ sampleScene.Monitor sampleScene.words sampleTable (sampleScene.words q 8) true := by
  have h : ∀ q ∈ sampleQueued, sampleRam.getD ((q.oop.toNat - 464 + 8) / 4) 0 = 0 := by
    decide
  rw [sample_words (sample_queued_mem hq) rfl, h q hq]
  exact fun hm => hm.ne_zero sample_ok rfl

section

variable (C : Collected sampleScene sampleTable sampleQueues sampleStore order kept finalized lists
  t)
include C

lemma sample_finalized : finalized = [association 740] := by
  have hq : association 740 ∈ sampleQueued := by simp [sampleQueued]
  have nodup : sampleQueued.Nodup := sample_register.nodup
  have flags : ∀ q ∈ sampleQueued, sampleRam.getD ((q.oop.toNat - 464 + 16) / 4) 0 &&&
      finalizerFlag ≠ 0 ↔ q.oop = 740 := by decide
  have finalizes : ∀ q ∈ sampleQueued, Scene.Finalizes sampleScene.words q ↔ q.oop = 740 := by
    intro q hq
    rw [Scene.Finalizes, sample_words (sample_queued_mem hq) rfl]
    exact flags q hq
  obtain ⟨_, settled, -⟩ := C.live
  have only : ∀ q ∈ finalized, q = association 740 := by
    intro q hf
    have hq' := settled.kept_mem.2 q hf
    obtain ⟨_, _, _, _, _, -, -, -, fate⟩ := settled.fate nodup hq'
    exact sample_ok.cell_eq (sample_queued_mem hq') (sample_queued_mem hq)
      ((finalizes q hq').1 (fate.1 hf).2)
  have member : association 740 ∈ finalized := by
    obtain ⟨_, _, _, _, found, split, before, -, fate⟩ := settled.fate nodup hq
    refine fate.2 ⟨?_, (finalizes _ hq).2 rfl⟩
    have object : (array 700 1).oop = sampleScene.words (association 740) 0 :=
      ((sample_words (sample_queued_mem hq) rfl).trans (by decide)).symm
    rintro (locked | ⟨alive, -⟩)
    · exact sample_unlocked hq locked
    · exact sample_late hq split before object (by decide)
        (alive _ (sample_fresh (by simp [sampleCells])) object)
  have distinct := settled.finalized_sublist.nodup nodup
  cases finalized with
  | nil => cases member
  | cons p rest =>
    obtain rfl := only p mem_cons_self
    cases rest with
    | nil => rfl
    | cons q rest =>
      obtain rfl := only q (mem_cons_of_mem _ mem_cons_self)
      exact absurd mem_cons_self (nodup_cons.1 distinct).1

/-- The array with the finalizer is copied, and with it what it refers to. -/
lemma sample_copied : array 700 1 ∈ order ∧ integerArray 708 1 ∈ order := by
  have hq : association 740 ∈ sampleQueued := by simp [sampleQueued]
  have hmem : array 700 1 ∈ sampleCells ∧ integerArray 708 1 ∈ sampleCells := by simp [sampleCells]
  have object : (array 700 1).oop = sampleScene.words (association 740) 0 :=
    ((sample_words (sample_queued_mem hq) rfl).trans (by decide)).symm
  have copied : array 700 1 ∈ order := C.retains sample_register
    (.inr (sample_finalized C ▸ mem_singleton_self _)) (sample_fresh hmem.1) object
  obtain ⟨_, _, live⟩ := C.live
  refine ⟨copied, (live _).2 (.step ((live _).1 copied) (.pointer (x := 0) rfl (by decide)
    (by decide) (sample_fresh hmem.2) ?_))⟩
  rw [Scene.unlinked, if_neg]
  · exact ((sample_words hmem.1 rfl).trans (by decide)).symm
  · rintro (⟨-, hx⟩ | ⟨hx, -⟩)
    · cases hx
    · exact absurd (congrArg Cell.oop hx) (by decide)

end

/-- The hash code of the reached array is found, and the array with a finalizer is put in front of
the one that waited. -/
theorem collection_settles_associations_sample : Ends collect sampleStore fun _ t => ∃ order,
    (∃ key a, sampleScene.Image order 544 key ∧ associationOf key t = .ok a ∧
      hashCode a t.mem = .ok 3) ∧
    array 700 1 ∈ order ∧
    Chain sampleScene order t.mem 0 (t.recorded 15) [association 740, association 772] := by
  have hq : association 676 ∈ sampleQueued := by simp [sampleQueued]
  have hm : association 772 ∈ sampleCells := by simp [sampleCells]
  have h0 : sampleScene.words (association 676) 0 = 544 :=
    (sample_words (sample_queued_mem hq) rfl).trans (by decide)
  have h12 : sampleScene.words (association 676) 12 = 3 :=
    (sample_words (sample_queued_mem hq) rfl).trans (by decide)
  have waiting : sampleScene.Waiting sampleTable sampleQueues (sampleStore.recorded 15)
      [association 772] := by
    have h4 : sampleScene.words (association 772) 4 = 0 :=
      (sample_words hm rfl).trans (by decide)
    have apart : ∀ q ∈ sampleQueued, q.oop ≠ 772 := by decide
    rw [sample_recorded]
    refine .cons (q := association 772) (sample_fresh hm) (by decide) (by decide) (fun hq => ?_)
      (fun he => absurd (congrArg Cell.oop he) (by decide)) (h4 ▸ .nil)
    exact apart _ hq rfl
  refine (sample_heap.collection_settles_associations sample_register sample_single waiting).mono
    fun _ t ht => ?_
  obtain ⟨order, kept, finalized, lists, C, -, fates, finds, -, chain⟩ := ht
  have stays := (fates _ hq).1 (.inr ⟨fun d hd he => ?_, .inl (h12 ▸ by decide)⟩)
  · obtain ⟨key, a, image, -, hr, hhash, -⟩ := finds _ stays
    rw [sample_finalized C] at chain
    exact ⟨order, ⟨key, a, h0 ▸ image, hr, h12 ▸ hhash⟩, (sample_copied C).1, chain⟩
  · rw [sample_ok.cell_eq (d := integerArray 544 1) hd.mem (by simp [sampleScene, sampleCells])
      (he.trans h0)]
    exact reached_sample

namespace Heap

/-- A hash code is kept for an object that is found before the turn of its association comes, in
whatever way, and for one whose monitor is in use. An object that is found only later is copied, but
it has no association and no hash code any more. -/
theorem hash_kept_iff_found_in_time (h : Heap S table queues s)
    (reg : S.Register S.words (s.recorded 14) table queues) (single : S.Single queues s)
    (hq : q ∈ (List.range 16).flatMap queues) (hash : S.words q 12 ≠ 0) (hd : S.Fresh d)
    (object : d.oop = S.words q 0) :
    Ends collect s fun _ t => ∃ order kept finalized lists,
      Collected S table queues s order kept finalized lists t ∧
      ∃ before behind ks fs found, (List.range 16).flatMap queues = before ++ q :: behind ∧
        S.Settled S.words table (S.Reached S.words (S.Rooted s.recorded)) before ks fs found ∧
        ∀ v : UInt32, Placed S.target order d v.toNat →
          (S.Monitor S.words table (S.words q 8) true ∨ found d → ∃ a, S.Home order q a ∧
            associationOf v t = .ok a ∧ hashCode a t.mem = .ok (S.words q 12)) ∧
          (¬ (S.Monitor S.words table (S.words q 8) true ∨ found d) →
            associationOf v t = .ok 0) := by
  refine h.collect_leaves.mono fun _ t ht => ?_
  obtain ⟨order, kept, finalized, lists, C, -, leaves⟩ := ht
  obtain ⟨_, settled, -⟩ := C.live
  obtain ⟨before, behind, ks, fs, found, split, decided, hk, -⟩ := settled.fate reg.nodup hq
  refine ⟨order, kept, finalized, lists, C, before, behind, ks, fs, found, split, decided, ?_⟩
  intro v hp
  have hi : S.Image order (S.words q 0) v := object ▸ .copied hd hp
  refine ⟨fun hs => ?_, fun hs => ?_⟩
  · have stays : q ∈ kept := hk.mpr (hs.imp_right fun hf => ⟨fun e he heq => by
      rwa [h.ok.cell_eq he.mem hd.mem (heq.trans object.symm)], .inl hash⟩)
    obtain ⟨a, home, hr, hhash, -⟩ := C.finds h leaves reg single stays hi
    exact ⟨a, home, hr, hhash⟩
  · obtain ⟨a, hr, ⟨rfl, -⟩ | ⟨p, hp, -, hi'⟩⟩ := C.lookup h leaves reg v
    · exact hr
    have hp' := settled.kept_mem.1 p hp
    obtain rfl := single p hp' q hq (C.same_object h (reg.association hp').object
      (reg.association hq).object hi' hi)
    exact absurd ((hk.mp hp).imp_right fun ha => ha.1 d hd object) hs

end Heap

/-- The hash code of the reached array is kept. The array that only one with a finalizer leads to is
found too late: it is copied and has no association any more. -/
theorem hash_kept_sample :
    (Ends collect sampleStore fun _ t => ∃ order, integerArray 544 1 ∈ order ∧
      ∀ v : UInt32, Placed 868 order (integerArray 544 1) v.toNat →
        ∃ a, associationOf v t = .ok a ∧ hashCode a t.mem = .ok 3) ∧
    Ends collect sampleStore fun _ t => ∃ order, integerArray 708 1 ∈ order ∧
      ∀ v : UInt32, Placed 868 order (integerArray 708 1) v.toNat → associationOf v t = .ok 0 := by
  have word : ∀ q ∈ sampleQueued, ∀ {x : Nat}, x % 4 = 0 → sampleScene.words q x =
      sampleRam.getD ((q.oop.toNat - 464 + x) / 4) 0 := fun q hq _ hx =>
    sample_words (sample_queued_mem hq) hx
  constructor
  · have hq : association 676 ∈ sampleQueued := by simp [sampleQueued]
    have object : (integerArray 544 1).oop = sampleScene.words (association 676) 0 :=
      ((word _ hq rfl).trans (by decide)).symm
    have h12 : sampleScene.words (association 676) 12 = 3 :=
      (word _ hq rfl).trans (by decide)
    refine (sample_heap.hash_kept_iff_found_in_time sample_register sample_single hq
      (h12 ▸ by decide) (sample_fresh (by simp [sampleCells])) object).mono fun _ t ht => ?_
    obtain ⟨order, kept, finalized, lists, C, _, _, _, _, found, -, settled, fates⟩ := ht
    refine ⟨order, ?_, fun v hv => ?_⟩
    · obtain ⟨_, all, live⟩ := C.live
      exact (live _).mpr (.first (.inl (all.of_first reached_sample)))
    · obtain ⟨a, -, hr, hhash⟩ := (fates v hv).1 (.inr (settled.of_first reached_sample))
      exact ⟨a, hr, h12 ▸ hhash⟩
  · have hq : association 716 ∈ sampleQueued := by simp [sampleQueued]
    have object : (integerArray 708 1).oop = sampleScene.words (association 716) 0 :=
      ((word _ hq rfl).trans (by decide)).symm
    have hash : sampleScene.words (association 716) 12 ≠ 0 := by
      rw [word _ hq rfl]
      decide
    refine (sample_heap.hash_kept_iff_found_in_time sample_register sample_single hq hash
      (sample_fresh (by simp [sampleCells])) object).mono fun _ t ht => ?_
    obtain ⟨order, kept, finalized, lists, C, _, _, _, _, found, split, settled, fates⟩ := ht
    refine ⟨order, (sample_copied C).2, fun v hv => (fates v hv).2 ?_⟩
    rintro (locked | hd)
    · exact sample_unlocked hq locked
    · exact sample_late hq split settled object (by decide) hd

end DeviceVm.Copying
