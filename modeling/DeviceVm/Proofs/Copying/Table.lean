import DeviceVm.Proofs.Copying.Settling
import Mathlib.Data.List.Perm.Subperm

/-!
The table of associations. Its queues are decided one after the other, and new queues are built
from the associations that stay.
-/

namespace DeviceVm.Copying

open List Memory UInt32 Store Word Traversal Association Liveness

/-- The table of associations with its sixteen queues. The table and the associations may be out of
RAM, and no association is in two queues or twice in one. -/
structure Scene.Register (S : Scene) (orig : Cell → Nat → UInt32) (at' : UInt32) (table : Cell)
    (queues : Nat → List Cell) : Prop where
  names : S.Names [] at' table
  room : 64 ≤ table.body
  plain : ¬ table.isChunk
  stateless : ∀ k, table.shape ≠ .classState k
  loose : ∀ b, S.fixed b → b < table.oop.toNat ∨ table.oop.toNat + table.body ≤ b
  linked : ∀ i < 16, S.Linked [] orig (orig table (4 * i)) (queues i)
  associations : ∀ i q, q ∈ queues i → S.IsAssociation orig table q
  nodup : ((range 16).flatMap queues).Nodup

variable {S : Scene} {orig : Cell → Nat → UInt32} {table q : Cell} {queues : Nat → List Cell}
  {g start : Progress} {s : Store} {a now v : UInt32} {taken : Nat}
  {decided kept finalized : List Cell} {lists : Nat → List Cell} {heads : Array UInt32}

lemma Scene.Register.association {n : Nat} (reg : S.Register orig v table queues)
    (hq : q ∈ (range n).flatMap queues) : S.IsAssociation orig table q := by
  obtain ⟨i, -, hi⟩ := mem_flatMap.1 hq
  exact reg.associations i q hi

lemma Scene.Settled.first_table {first copied : Cell → Prop}
    (h : S.Settled orig table first decided kept finalized copied)
    (hall : ∀ p ∈ decided, S.IsAssociation orig table p) : copied table → first table := by
  induction h with
  | start => exact id
  | @keep decided _ _ _ q _ _ ih =>
    rintro (hc | ⟨_, hc⟩)
    · exact ih (fun p hp => hall p (by simp [hp])) hc
    · have hq := hall q (by simp)
      rcases hc with hc | hc
      · exact absurd hc.symm hq.ne_table
      · exact absurd hc hq.object_table
  | @finalize decided _ _ _ q _ _ _ ih =>
    rintro (hc | ⟨_, hc⟩)
    · exact ih (fun p hp => hall p (by simp [hp])) hc
    · exact absurd hc.symm (hall q (by simp)).ne_table
  | drop _ _ _ ih => exact ih fun p hp => hall p (by simp [hp])

namespace Scene.IsAssociation

variable {p : Cell}

lemma oop_lt (h : S.IsAssociation orig table q) (ok : S.Ok) : q.oop.toNat < S.mem.size := by
  have := h.room
  have := ok.ram_stop
  rcases h.known with hf | hp
  · have := ok.cell_high hf.mem
    have := ok.source_high
    omega
  · have := ok.pins q hp
    omega

lemma eq_of_oop (hp : S.IsAssociation orig table p) (hq : S.IsAssociation orig table q)
    (ok : S.Ok) (he : p.oop = q.oop) : p = q := by
  have hb := hp.room
  have hb' := hq.room
  have apart : ∀ {c d : Cell}, S.Fresh c → d ∈ S.pins → 20 ≤ c.body → 20 ≤ d.body →
      c.oop ≠ d.oop := by
    intro c d hc hd hcb hdb he
    have := ok.pins d hd
    have := ok.cell_low hc.mem
    have := ok.cell_high hc.mem
    have := ok.bounds
    rw [he] at *
    omega
  rcases hp.known with hf | hf <;> rcases hq.known with hf' | hf'
  · exact ok.cell_eq hf.mem hf'.mem he
  · exact absurd he (apart hf hf' hb hb')
  · exact absurd he.symm (apart hf' hf hb' hb)
  rcases Classical.em (p = q) with hpq | hpq
  · exact hpq
  · have := ok.pins_apart p q hf hf' hpq
    rw [he] at this
    omega

lemma length_le (ok : S.Ok) {l : List Cell} (hn : l.Nodup)
    (hl : ∀ p ∈ l, S.IsAssociation orig table p) : l.length ≤ S.mem.size := by
  have hmap : (l.map fun p => p.oop.toNat).Nodup := by
    rw [List.Nodup, pairwise_map]
    refine hn.imp_of_mem fun {p q} hp hq hne he => hne ?_
    exact (hl p hp).eq_of_oop (hl q hq) ok (UInt32.toNat_inj.1 he)
  have hsub : (l.map fun p => p.oop.toNat) ⊆ range S.mem.size := by
    intro n hm
    obtain ⟨p, hp, rfl⟩ := mem_map.1 hm
    exact mem_range.2 ((hl p hp).oop_lt ok)
  simpa using (subperm_of_subset hmap hsub).length_le

end Scene.IsAssociation

namespace Deciding

lemma at_table (D : Deciding S orig table start taken decided kept finalized lists heads g s)
    (hall : ∀ p ∈ decided, S.IsAssociation orig table p) (h : S.At start.order table now) :
    S.At g.order table now := by
  obtain ⟨more, hm⟩ := D.order
  cases h with
  | here hf hn => exact .here hf fun hc => hn (D.settled.first_table hall hc)
  | copy hp =>
    rw [hm]
    exact .copy (hp.append more)
  | pin hc => exact .pin hc

lemma take (D : Deciding S orig table start taken decided kept finalized lists heads g s)
    (ok : S.Ok) (reg : S.Register orig v table queues)
    (hall : ∀ p ∈ decided, S.IsAssociation orig table p) (h0 : S.Still 0)
    (hat : S.At g.order table now) (hk : taken < 16) :
    Deciding S orig table start (taken + 1) decided kept finalized lists heads
      (g.write table (4 * taken) 0) (s.setMem (s.mem.pokeWord (now.toNat + 4 * taken) 0)) := by
  have := reg.room
  have inv := D.inv.write ok hat reg.plain reg.loose (x := 4 * taken) (by omega) (by omega) h0
  have link : ∀ p ∈ decided, (g.write table (4 * taken) 0).orig p 4 = g.orig p 4 := fun p hp =>
    Progress.write_ne fun hh => (hall p hp).ne_table hh.1
  exact {
    inv
    order := D.order
    done := D.done
    scan := D.scan
    record := D.record
    same := by
      intro c x hn ht
      rw [Progress.write_ne fun hh => ht ⟨hh.1, by omega, by omega⟩]
      exact D.same c x hn fun hh => ht ⟨hh.1, by omega, hh.2.2⟩
    cut := by
      intro p hp
      rw [link p hp]
      exact D.cut p hp
    emptied := by
      intro i hi
      by_cases he : i = taken
      · rw [he, Progress.write_self]
      · rw [Progress.write_ne fun hh => he (by omega)]
        exact D.emptied i (by omega)
    settled := D.settled
    size := D.size
    built := fun i hi => (D.built i hi).congr fun p hp => link p (D.lists_decided p hp)
    sub := D.sub
    listed := D.listed
    keyed := D.keyed
    final := D.final.congr fun p hp => link p (D.final_decided p hp) }

lemma settleQueue_ends {tally : QueueTally}
    (D : Deciding S orig table start (taken + 1) decided kept finalized lists tally.heads g s)
    (ok : S.Ok) (reg : S.Register orig v table queues) (hh : S.Halves start.record)
    (hstop : S.Still (start.record 15)) {queue : List Cell}
    (hall : ∀ p ∈ decided ++ queue, S.IsAssociation orig table p)
    (hnodup : (decided ++ queue).Nodup) (hl : S.Linked g.order orig a queue)
    {fuel : Nat} (hfuel : S.mem.size < fuel) :
    Ends (settleQueue (liveness S.space) fuel tally a) s fun tally t =>
      ∃ kept finalized lists g, Deciding S orig table start (taken + 1) (decided ++ queue) kept
        finalized lists tally.heads g t := by
  refine (Liveness.settleQueue_ends (fun l tally a s => ∃ front, queue = front ++ l ∧
    ∃ kept finalized lists g, Deciding S orig table start (taken + 1) (decided ++ front) kept
      finalized lists tally.heads g s ∧ S.Linked g.order orig a l) ?_ ?_ ?_
    ⟨[], rfl, kept, finalized, lists, g, by rwa [append_nil], hl⟩).mono ?_
  · rintro tally a s ⟨_, _, _, _, _, _, _, hl⟩
    cases hl
    rfl
  · rintro q rest tally a s ⟨front, hq, kept, finalized, lists, g, D, hrest⟩
    subst hq
    cases hrest with
    | cons names links =>
      refine ⟨names.ne_zero ok D.inv, ?_⟩
      have hq : q ∉ decided ++ front := by
        rw [← append_assoc, nodup_append] at hnodup
        exact fun hm => hnodup.2.2 q hm q mem_cons_self rfl
      refine (D.settle_ends ok hh reg.plain (fun p hp => hall p ?_) hstop (hall q (by simp)) hq
        names).mono fun r t ht => ?_
      · simp only [mem_append] at hp ⊢
        grind
      obtain ⟨kept, finalized, lists, g', D', ⟨more, hm⟩, hfollow⟩ := ht
      refine ⟨front ++ [q], by simp, kept, finalized, lists, g', ?_, ?_⟩
      · rw [← append_assoc]
        exact D'
      rw [hm]
      refine Scene.Linked.append ?_ more
      rcases hfollow with he | hi
      · rw [he]
        exact links
      · exact links.image D.inv ok (fun p hp => by
          have := (hall p (by simp [hp])).room
          omega) hi
  · have := Scene.IsAssociation.length_le ok (nodup_append.1 hnodup).2.1
      fun p hp => hall p (by simp [hp])
    omega
  · rintro tally t ⟨front, hq, kept, finalized, lists, g, D, _⟩
    rw [append_nil] at hq
    exact ⟨kept, finalized, lists, g, hq ▸ D⟩

lemma settleQueues_ends
    (D : Deciding S orig table start 0 [] kept finalized lists ({} : QueueTally).heads start s)
    (ok : S.Ok) (reg : S.Register orig v table queues) (hh : S.Halves start.record)
    (hstop : S.Still (start.record 15)) (hat : S.At start.order table now) :
    Ends (settleQueues (liveness S.space) now queueCount.toNat 0 {}) s fun tally t =>
      ∃ kept finalized lists g, Deciding S orig table start 16 ((range 16).flatMap queues)
        kept finalized lists tally.heads g t := by
  refine Liveness.settleQueues_ends (fun k tally t => ∃ kept finalized lists g,
    Deciding S orig table start k ((range k).flatMap queues) kept finalized lists
      tally.heads g t) ?_ rfl ⟨kept, finalized, lists, start, D⟩
  rintro k tally t hk ⟨kept, finalized, lists, g, D⟩
  have hall : ∀ p ∈ (range (k + 1)).flatMap queues, S.IsAssociation orig table p :=
    fun p hp => reg.association hp
  rw [range_succ, flatMap_append, flatMap_singleton] at hall
  have hall' : ∀ p ∈ (range k).flatMap queues, S.IsAssociation orig table p :=
    fun p hp => hall p (mem_append_left _ hp)
  have hnow := D.at_table hall' hat
  have := D.inv.at_bounds ok hnow
  have := reg.room
  have : (ofNat k).toNat = k := by
    rw [toNat_ofNat']
    omega
  have hp : Points now (ofNat k).toInt32 (now.toNat + 4 * k) :=
    .nat (by omega) (by omega) (by omega)
  refine ⟨_, _, word_eq hp (by omega), setWord_eq hp (by omega),
    ?_⟩
  have D' := D.take ok reg hall' ok.zero_still hnow hk
  refine (D'.settleQueue_ends ok reg hh hstop hall ?_ ?_ ?_).mono fun tally u hu => ?_
  · have hnodup := reg.nodup
    rw [← take_append_drop (k + 1) (range 16), take_range,
      Nat.min_eq_left (by omega), flatMap_append, range_succ, flatMap_append,
      flatMap_singleton] at hnodup
    exact (nodup_append.1 hnodup).1
  · have hlinked := (reg.linked k hk).append g.order
    have hsame : g.orig table (4 * k) = orig table (4 * k) := by
      refine D.same table _ (fun hh => (hall' table hh.1).ne_table rfl) fun hh => ?_
      omega
    rcases D.inv.word_at hnow reg.plain (x := 4 * k) (by omega) (by omega) with he | ⟨_, hi⟩
    · rw [he, hsame]
      exact hlinked
    · rw [hsame] at hi
      exact Scene.Linked.image (g := g) D.inv ok hlinked (fun p hp => by
        have := (reg.associations k p hp).room
        omega) hi
  · rw [size_pokeWord, D.inv.mem_size]
    omega
  · rw [range_succ, flatMap_append, flatMap_singleton]
    exact hu

end Deciding

/-! ### The new queues -/

/-- The heads of the first `n` queues were written to the table. -/
structure Heading (S : Scene) (table : Cell) (heads : List UInt32) (g : Progress) (n : Nat)
    (g' : Progress) (s : Store) : Prop where
  inv : Inv S g' s
  order : g'.order = g.order
  done : g'.done = g.done
  scan : g'.scan = g.scan
  record : g'.record = g.record
  same : ∀ c x, ¬ (c = table ∧ x < 64 ∧ x % 4 = 0) → g'.orig c x = g.orig c x
  head : ∀ i < n, g'.orig table (4 * i) = heads.getD i 0

lemma writeHeads_ends (ok : S.Ok) (reg : S.Register orig v table queues) (h : Inv S g s)
    (hat : S.At g.order table a) {heads : List UInt32} (hlen : heads.length = 16)
    (hs : ∀ v ∈ heads, S.Still v) :
    ∃ n, writeHeads a heads 0 s.mem = .ok () n ∧
      ∃ g', Heading S table heads g 16 g' (s.setMem n) := by
  rw [← hlen]
  refine Liveness.writeHeads_ends (fun k t => ∃ g', Heading S table heads g k g' t) ?_
    ⟨g, h, rfl, rfl, rfl, rfl, fun _ _ _ => rfl, fun i hi => absurd hi (Nat.not_lt_zero i)⟩
  rintro k v t hv ⟨g', H⟩
  have : k < 16 := by
    have := (List.getElem?_eq_some_iff.1 hv).1
    omega
  have hat' : S.At g'.order table a := H.order ▸ hat
  have := H.inv.at_bounds ok hat'
  have := reg.room
  have : (ofNat k).toNat = k := by
    rw [toNat_ofNat']
    omega
  refine ⟨_, setWord_eq (a := a.toNat + 4 * k) (.nat (by omega) (by omega) (by omega)) (by omega),
    g'.write table (4 * k) v, ?_⟩
  exact { H with
    inv := H.inv.write ok hat' reg.plain reg.loose (by omega) (by omega)
      (hs v (mem_of_getElem? hv))
    same := by
      intro c x hn
      rw [Progress.write_ne fun hh => hn ⟨hh.1, by omega, by omega⟩]
      exact H.same c x hn
    head := by
      intro i hi
      by_cases he : i = k
      · rw [he, Progress.write_self, getD_eq_getElem?_getD, hv]
        rfl
      · rw [Progress.write_ne fun hh => he (by omega)]
        exact H.head i (by omega) }

/-- What holds when every association was decided and the queues were built again. -/
structure Rebuilt (S : Scene) (orig : Cell → Nat → UInt32) (table : Cell)
    (queues : Nat → List Cell) (start : Progress) (kept finalized : List Cell)
    (lists : Nat → List Cell) (g : Progress) (s : Store) : Prop where
  inv : Inv S g s
  order : ∃ more, g.order = start.order ++ more
  done : g.done = start.done
  scan : g.scan = start.scan
  record : ∀ j, j ≠ 14 → j ≠ 15 → g.record j = start.record j
  home : S.Home g.order table (g.record 14)
  same : ∀ c x, ¬ (c ∈ (range 16).flatMap queues ∧ x = 4) →
    ¬ (c = table ∧ x < 64 ∧ x % 4 = 0) → g.orig c x = orig c x
  cut : ∀ q ∈ (range 16).flatMap queues, S.Still (g.orig q 4)
  entries : ∀ i < 16, S.Still (g.orig table (4 * i))
  settled : ∃ copied, S.Settled orig table (· ∈ start.order) ((range 16).flatMap queues) kept
    finalized copied ∧ ∀ d, d ∈ g.order ↔ copied d ∨ (S.Fresh d ∧ d = table)
  built : ∀ i < 16, S.Built g.order g.orig 0 (g.orig table (4 * i)) (lists i)
  sub : ∀ i, (lists i).Sublist kept.reverse
  listed : ∀ q ∈ kept, ∃ key, S.Image g.order (orig q 0) key ∧ q ∈ lists (queueOf key).toNat
  keyed : ∀ i q, i < 16 → q ∈ lists i → ∃ key, S.Image g.order (orig q 0) key ∧
    (queueOf key).toNat = i
  final : S.Built g.order g.orig (start.record 15) (g.record 15) finalized.reverse

lemma Deciding.rebuilt {g₁ g₂ : Progress} {new : List Cell} {t : Store}
    (D : Deciding S orig table start 16 ((range 16).flatMap queues) kept finalized lists heads
      g s) (ok : S.Ok) (reg : S.Register orig v table queues)
    (hg : g₁ = { g with
      order := g.order ++ new, record := fun i => if i = 14 then a else g.record i })
    (home : S.Home (g.order ++ new) table a) (hnew : ∀ d ∈ new, d = table)
    (H : Heading S table heads.toList g₁ 16 g₂ t) :
    Rebuilt S orig table queues start kept finalized lists g₂ t := by
  subst hg
  have hall : ∀ p ∈ (range 16).flatMap queues, S.IsAssociation orig table p :=
    fun p hp => reg.association hp
  have link : ∀ p ∈ (range 16).flatMap queues, g₂.orig p 4 = g.orig p 4 := fun p hp =>
    H.same p 4 fun hh => (hall p hp).ne_table hh.1
  have hhead : ∀ i < 16, g₂.orig table (4 * i) = heads.getD i 0 := by
    intro i hi
    rw [H.head i hi, getD_eq_getElem?_getD, Array.getElem?_toList,
      Array.getD_eq_getD_getElem?]
  have built : ∀ i < 16, S.Built g₂.order g₂.orig 0 (heads.getD i 0) (lists i) := by
    intro i hi
    rw [H.order]
    exact ((D.built i hi).append new).congr fun p hp => link p (D.lists_decided p hp)
  exact {
    inv := H.inv
    order := by
      obtain ⟨more, hm⟩ := D.order
      refine ⟨more ++ new, ?_⟩
      rw [H.order]
      rw [hm, append_assoc]
    done := H.done.trans D.done
    scan := H.scan.trans D.scan
    record := by
      intro j h14 h15
      rw [H.record]
      dsimp only
      rw [if_neg h14]
      exact D.record j h15
    home := by
      rw [H.record, H.order]
      exact home
    same := by
      intro c x hn ht
      rw [H.same c x ht]
      exact D.same c x hn fun hh => ht ⟨hh.1, by omega, hh.2.2⟩
    cut := by
      intro p hp
      rw [link p hp]
      exact D.cut p hp
    entries := by
      intro i hi
      rw [hhead i hi]
      exact (built i hi).still ok H.inv (fun p hp => by
        have := (hall p (D.lists_decided p hp)).room
        omega) ok.zero_still
    settled := by
      refine ⟨_, D.settled, fun d => ?_⟩
      rw [H.order]
      rw [mem_append]
      have hfresh := H.inv.fresh
      rw [H.order] at hfresh
      have := reg.room
      constructor
      · rintro (hd | hd)
        · exact .inl hd
        · exact .inr ⟨hfresh d (mem_append_right _ hd), hnew d hd⟩
      rintro (hd | ⟨hf, rfl⟩)
      · exact .inl hd
      · cases home with
        | copy hp => exact mem_append.1 hp.mem
        | pin hc => exact absurd rfl (ok.cell_ne_pin hf.mem hc (by omega))
    built := by
      intro i hi
      rw [hhead i hi]
      exact built i hi
    sub := D.sub
    listed := by
      intro p hp
      obtain ⟨key, hi, hm⟩ := D.listed p hp
      exact ⟨key, H.order ▸ hi.append new, hm⟩
    keyed := by
      intro i p hi hp
      obtain ⟨key, hi, hm⟩ := D.keyed i p hi hp
      exact ⟨key, H.order ▸ hi.append new, hm⟩
    final := by
      rw [H.order, H.record]
      exact (D.final.append new).congr fun p hp => link p (D.final_decided p hp) }

lemma Deciding.begin (h : Inv S start s) :
    Deciding S start.orig table start 0 [] [] [] (fun _ => []) ({} : QueueTally).heads start s where
  inv := h
  order := ⟨[], (append_nil _).symm⟩
  done := rfl
  scan := rfl
  record _ _ := rfl
  same _ _ _ _ := rfl
  cut p hp := absurd hp not_mem_nil
  emptied i hi := absurd hi (Nat.not_lt_zero i)
  settled := .start
  size := rfl
  built i hi := by
    have h0 : ({} : QueueTally).heads.getD i 0 = 0 := by
      simp [hi]
    rw [h0]
    exact .nil
  sub _ := .slnil
  listed p hp := absurd hp not_mem_nil
  keyed i p _ hp := absurd hp not_mem_nil
  final := .nil

lemma processQueues_ends (ok : S.Ok)
    (reg : S.Register start.orig (start.record 14) table queues) (hh : S.Halves start.record)
    (hstop : S.Still (start.record 15)) (h : Inv S start s) :
    Ends (liveness S.space).processQueues s fun _ t => ∃ kept finalized lists g,
      Rebuilt S start.orig table queues start kept finalized lists g t := by
  have hnames := reg.names.append start.order
  have h14 : associationTable s = .ok (start.record 14) := by
    rw [associationTable, (h.recorded ok).root_eq (j := 6) rfl (by omega), h.recorded_eq (by omega)]
  have := reg.room
  obtain ⟨now, hnow, hat⟩ := h.resolve_names ok hnames
  refine .query_bind h14 ?_
  rw [if_pos (by simpa using hnames.ne_zero ok h)]
  refine .read_bind hnow ?_
  refine .bind ((Deciding.begin h).settleQueues_ends ok reg hh hstop hat)
    fun tally t₁ ht₁ => ?_
  obtain ⟨kept, finalized, lists, g, D⟩ := ht₁
  have hnames' : S.Names g.order (start.record 14) table := by
    obtain ⟨more, hm⟩ := D.order
    rw [hm]
    exact hnames.append more
  refine .bind (keep_names_ends ok D.inv hnames' reg.plain (by omega)) fun a t₂ ht₂ => ?_
  obtain ⟨new, inv₂, home, hnew⟩ := ht₂
  have inv₃ := inv₂.setRecorded ok (j := 14) (by omega) a
  have hstill : ∀ v ∈ tally.heads.toList, S.Still v := by
    intro v hv
    obtain ⟨i, hi, he⟩ := mem_iff_getElem.1 hv
    have hlt : i < 16 := by simpa [D.size] using hi
    have hb := (D.built i hlt).still ok D.inv (fun p hp => by
      obtain ⟨j, _, hj⟩ := mem_flatMap.1 (D.lists_decided p hp)
      have := (reg.associations j p hj).room
      omega) ok.zero_still
    rw [Array.getElem_toList] at he
    rwa [Array.getD_eq_getD_getElem?, Array.getElem?_eq_getElem (by simpa using hi), he] at hb
  obtain ⟨n, hwrite, g₂, H⟩ := writeHeads_ends ok reg inv₃ home.at (by simp [D.size]) hstill
  refine .next (.next ((inv₂.recorded ok).setRamRoot_ends (j := 6) rfl (by omega) ?_))
  refine .edit hwrite (.say fun log => ⟨kept, finalized, lists, g₂, ?_⟩)
  exact D.rebuilt ok reg rfl home hnew { H with inv := H.inv.setLog log }

end DeviceVm.Copying
