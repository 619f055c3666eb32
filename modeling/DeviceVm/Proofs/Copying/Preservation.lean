import DeviceVm.Proofs.Copying.Collection
import DeviceVm.Proofs.Sample

/-!
A collection with the copying collector keeps the graph of the live objects.
-/

namespace DeviceVm.Copying

open List Memory UInt32 Cell Query Store Word Traversal Association Liveness

variable {S : Scene} {table q c d : Cell} {queues : Nat → List Cell} {g : Progress} {s t : Store}
  {kept finalized : List Cell} {lists : Nat → List Cell}

lemma recorded_collecting (r : s.Recorded) : Recorded { s with collecting := true } :=
  ⟨r.aligned, r.inside, r.small⟩

namespace Heap

section

variable (h : Heap S table queues s)
include h

lemma recorded_ok : s.Recorded where
  aligned := by rw [h.ram, h.ok.record_aligned]
  inside := by
    have := h.ok.bounds
    rw [h.ram, h.mem]
    omega
  small := by
    have := h.ok.mem_size
    rw [h.mem]
    omega

lemma targetHalf_eq (r : t.Recorded) (ht : t.recorded = s.recorded) :
    targetHalf t = .ok S.space := by
  have := h.ok.bounds
  have hhalf := h.half
  have := h.start
  generalize hm : s.recorded 0 = start
  generalize hz : s.recorded 1 / 2 &&& 0xfffffffc = size at hhalf
  have hsides := h.sides
  rw [hm] at hsides
  have hstart : memoryStart t = .ok start := by
    rw [memoryStart, r.record_eq (j := 0) rfl (by omega), ht, hm]
  have hsize : Copying.half t = .ok size := by
    rw [Copying.half, memorySize, bind_ok (r.record_eq (j := 1) rfl (by omega)), ht, hz]
    rfl
  have hpart : partitionStart t = .ok (s.recorded 2) := by
    rw [partitionStart, r.record_eq (j := 2) rfl (by omega), ht]
  have htarget : ∀ u : UInt32, u.toNat = S.target → u = S.space.start := fun u hu =>
    UInt32.toNat_inj.1 (hu.trans h.space_start.symm)
  have hstop : ∀ u : UInt32, u.toNat = S.target + S.half → u = S.space.stop := fun u hu => by
    refine UInt32.toNat_inj.1 (hu.trans ?_)
    simp only [Scene.space, Nat.toUInt32, UInt32.toNat_ofNat']
    omega
  have h2n : (2 : UInt32).toNat = 2 := rfl
  have hlt : (2 : UInt32).toNat * size.toNat < 4294967296 := by
    rw [h2n]
    omega
  have : (2 * size).toNat = 2 * size.toNat := by rw [toNat_times hlt, h2n]
  rw [targetHalf, bind_ok hstart, bind_ok hsize, bind_ok hpart]
  by_cases he : s.recorded 2 = start
  · have := congrArg toNat he
    rw [if_pos (by simpa using he), lift_ok (plus_eq (by omega)),
      lift_ok (times_eq hlt), lift_ok (plus_eq (by omega)),
      htarget (start + size) (by rw [toNat_plus (by omega)]; omega),
      hstop (start + 2 * size) (by rw [toNat_plus (by omega)]; omega)]
    rfl
  have : (s.recorded 2).toNat ≠ start.toNat := fun hh => he (UInt32.toNat_inj.1 hh)
  rw [if_neg (by simpa using he), lift_ok (plus_eq (by omega)),
    htarget start (by omega), hstop (S.space.start + size) (by
      rw [toNat_plus (by rw [h.space_start]; omega), h.space_start]
      omega)]
  rfl

lemma begin_record (hi : Inv S (S.begin s.recorded) t) {j : Nat} (hj : j < 16) {index : Int32}
    (hx : index.toInt = j) : record .ram index t = .ok (s.recorded j) := by
  rw [(hi.recorded h.ok).record_eq hx hj, hi.recorded_eq hj]
  rfl

lemma decide_ends (T : Traced S s.recorded g t) {rest : Run Unit} {post : Unit → Store → Prop}
    (hrest : ∀ kept finalized lists g u,
      Evacuated S s.recorded table queues kept finalized lists g u → Ends rest u post) :
    Ends (do
      (liveness S.space).processQueues
      scan S.space
      (liveness S.space).checkQueues
      rest) t post := by
  have ok := h.ok
  have h14 : g.record 14 = s.recorded 14 := T.record 14 fun hh => hh.2.2 rfl
  have hh : S.Halves g.record := by
    refine ⟨?_, ?_⟩
    · rw [T.record 2 fun hh => absurd hh.1 (by omega), h.start]
    · rw [T.record 4 fun hh => absurd hh.1 (by omega), h.stop]
  have htable : associationTable t = .ok (s.recorded 14) := by
    rw [associationTable, (T.inv.recorded ok).root_eq (j := 6) rfl (by omega),
      T.inv.recorded_eq (by omega), h14]
  rcases h.register with ⟨h0, ht, hq⟩ | reg
  · rw [processQueues]
    refine .next (.query_bind htable ?_)
    dsimp only
    rw [if_neg (by simp [h0])]
    refine .say fun log => ?_
    have E := h.no_table h0 ht hq { T with inv := T.inv.setLog log }
    have hidle : (t.setLog log).copying.scan = (t.setLog log).copying.free := by
      apply UInt32.toNat_inj.mp
      rw [E.inv.scan, E.inv.free, T.scan]
    refine .bind (scan_idle hidle) fun _ u hu => ?_
    rw [hu]
    rw [checkQueues]
    refine .next (.query_bind (q := associationTable) htable ?_)
    rw [if_neg (by simp [h0])]
    exact .pure (hrest _ _ _ _ _ E)
  have hne : s.recorded 14 ≠ 0 := (reg.names.append g.order).ne_zero ok T.inv
  have hstop : S.Still (g.record 15) :=
    T.inv.image_still ok (T.root 15 ⟨by omega, by omega, by omega⟩)
  rw [← h14] at reg
  refine .bind (processQueues_ends ok (T.orig ▸ reg) hh hstop T.inv) fun _ u hu => ?_
  obtain ⟨kept, finalized, lists, g', B⟩ := hu
  rw [T.orig] at B
  refine .bind (h.rescan_ends (h14 ▸ reg) T hne B) fun _ v hv => ?_
  obtain ⟨g'', E⟩ := hv
  have hh' : S.Halves g''.record := by
    refine ⟨?_, ?_⟩
    · rw [E.other 2 (fun hh => absurd hh.1 (by omega)) (by omega), h.start]
    · rw [E.other 4 (fun hh => absurd hh.1 (by omega)) (by omega), h.stop]
  rcases E.queued with ⟨h0, _⟩ | Q
  · exact absurd h0 hne
  · refine .bind (checkQueues_ends Q ok E.inv E.done hh') fun _ w hw => ?_
    rw [hw]
    exact hrest _ _ _ _ _ E

lemma evacuate_ends :
    Ends evacuate { s with collecting := true } fun _ t => ∃ kept finalized lists g u free,
      Evacuated S s.recorded table queues kept finalized lists g u ∧
      free.toNat = S.target + total g.order ∧ Inv S { g with
        record := fun i => if i = 4 then S.space.stop else if i = 3 then free
          else if i = 2 then S.space.start else g.record i } t := by
  rw [evacuate]
  refine .query_bind (h.targetHalf_eq (recorded_collecting h.recorded_ok) rfl) ?_
  refine .modify_bind ?_
  have inv := h.begin rfl
  refine .next (.sayOf ?_ fun log => ?_)
  · exact ⟨_, (bind_ok (h.begin_record inv (j := 2) (by omega) rfl)).trans
      ((bind_ok (h.begin_record inv (j := 3) (by omega) rfl)).trans rfl)⟩
  refine .bind (copyRoots_ends h.ok h.closed (fun j hj => h.follows hj) (inv.setLog log))
    fun _ t ht => ?_
  obtain ⟨more, record, R⟩ := ht
  refine .bind (h.scan_ends R) fun _ t ht => ?_
  obtain ⟨start, T⟩ := ht
  refine h.decide_ends T fun kept finalized lists g u E => ?_
  refine .modify_bind (.get_bind ?_)
  have inv' : Inv S { g with scan := g.scan } { u with
      copying := { u.copying with collections := u.copying.collections + 1 } } := by
    apply E.inv.of_eq <;> first | rfl | exact E.inv.scan
  have hfree := E.inv.free
  have := E.inv.total_le h.ok
  have := h.space_start
  have : S.space.stop.toNat = S.target + S.half := by
    have := h.ok.bounds
    simp only [Scene.space, Nat.toUInt32, toNat_ofNat']
    omega
  have hlow : S.space.start ≤ u.copying.free := le_iff_toNat_le.2 (by omega)
  have hhigh : u.copying.free ≤ S.space.stop := le_iff_toNat_le.2 (by omega)
  refine (inv'.recorded h.ok).setPartition_ends hlow hhigh ?_
  refine ⟨kept, finalized, lists, g, u, u.copying.free, E, hfree, ?_⟩
  exact ((inv'.setRecorded h.ok (j := 2) (by omega) _).setRecorded h.ok (j := 3) (by omega)
    _).setRecorded h.ok (j := 4) (by omega) _

end

end Heap

/-- A chain of associations as it is in memory. Behind it follows `stop`. -/
inductive Chain (S : Scene) (order : List Cell) (m : Memory) (stop : UInt32) :
    UInt32 → List Cell → Prop
  | nil : Chain S order m stop stop []
  | cons {v : UInt32} {q : Cell} {rest : List Cell} (home : S.Home order q v)
      (links : Chain S order m stop (m.peekWord (v.toNat + 4)) rest) :
      Chain S order m stop v (q :: rest)

/-- The store `t` holds a copy of each live object of the store `s`, in the given order, and
nothing else in the half that is now in use. -/
structure Collected (S : Scene) (table : Cell) (queues : Nat → List Cell) (s : Store)
    (order kept finalized : List Cell) (lists : Nat → List Cell) (t : Store) : Prop where
  nodup : order.Nodup
  /-- What is live: what the roots lead to, what is found while the associations are decided, and
  what these lead to. The links of the queues keep nothing alive. -/
  live : ∃ found, S.Settled S.words table (S.Reached S.words (S.Rooted s.recorded))
    ((range 16).flatMap queues) kept finalized found ∧
    ∀ c, c ∈ order ↔ S.Reached (S.unlinked table queues)
      (fun d => found d ∨ (S.Fresh d ∧ d = table)) c
  room : total order ≤ S.half
  start : (t.recorded 2).toNat = S.target
  free : (t.recorded 3).toNat = S.target + total order
  stop : (t.recorded 4).toNat = S.target + S.half
  other : ∀ j, j < 2 ∨ (4 < j ∧ j < 8) → t.recorded j = s.recorded j
  header : ∀ c (a : UInt32), Placed S.target order c a.toNat →
    Header.Holds t.mem a c.kind c.count
  word : ∀ c (a : UInt32) x, Placed S.target order c a.toNat → x % 4 = 0 → x + 4 ≤ c.body →
    ¬ (c ∈ (range 16).flatMap queues ∧ x = 4) → ¬ (c = table ∧ x < 64) →
    S.Updated { S.begin s.recorded with order } c a x (t.mem.peekWord (a.toNat + x))
  root : ∀ j, IsRoot j → j ≠ 15 → S.Image order (s.recorded j) (t.recorded j)
  final : ∃ v, S.Image order (s.recorded 15) v ∧
    Chain S order t.mem v (t.recorded 15) finalized.reverse
  entries : (s.recorded 14 = 0 ∧ t.recorded 14 = 0) ∨
    (S.Home order table (t.recorded 14) ∧ ∀ i < 16,
      Chain S order t.mem 0 (t.mem.peekWord ((t.recorded 14).toNat + 4 * i)) (lists i))
  listed : ∀ i q, i < 16 → (q ∈ lists i ↔ q ∈ kept ∧
    ∃ key, S.Image order (S.words q 0) key ∧ (queueOf key).toNat = i)
  sub : ∀ i, (lists i).Sublist kept.reverse
  evacuated : ∀ a, a % 4 = 0 → S.source ≤ a → a + 4 ≤ S.source + S.half →
    t.mem.peekWord a = evacuatedWord
  fixed : ∀ b, S.fixed b → b < S.source ∨ S.source + S.half ≤ b → t.mem.peek b = s.mem.peek b
  pinned : ∀ c x, c ∈ S.pins → x % 4 = 0 → x + 4 ≤ c.body →
    ¬ (c ∈ (range 16).flatMap queues ∧ x = 4) → ¬ (c = table ∧ x < 64) →
    t.mem.peekWord (c.oop.toNat + x) = S.words c x
  idle : t.collecting = false

lemma Collected.setLog {order : List Cell}
    (h : Collected S table queues s order kept finalized lists t) (log : Log) :
    Collected S table queues s order kept finalized lists (t.setLog log) := { h with }

/-- What a collection leaves: the regions, and what is fixed outside the half that was in use. -/
structure Scene.Leaves (S : Scene) (s t : Store) : Prop where
  rom : t.rom = s.rom
  eeprom : t.eeprom = s.eeprom
  ram : t.ram = s.ram
  agrees : Agrees (fun b => S.fixed b ∧ (b < S.source ∨ S.source + S.half ≤ b)) s.mem t.mem

lemma Scene.Leaves.setLog (h : S.Leaves s t) (log : Log) : S.Leaves s (t.setLog log) := { h with }

/-! ### After the collector was left -/

/-- The half that was in use is overwritten. -/
def Scene.sweep (S : Scene) (m : Memory) : Memory :=
  m.pokeWords S.source evacuatedWord (S.half / 4)

namespace Scene

variable {m : Memory} {a b : Nat}

lemma size_sweep : (S.sweep m).size = m.size := size_pokeWords _ _

lemma order_sweep : (S.sweep m).order = m.order := order_pokeWords _ _

lemma peek_sweep (h : b < S.source ∨ S.source + S.half ≤ b) : (S.sweep m).peek b = m.peek b :=
  peek_pokeWords_ne _ _ (by omega)

lemma peekWord_sweep (h : a + 4 ≤ S.source ∨ S.source + S.half ≤ a) :
    (S.sweep m).peekWord a = m.peekWord a :=
  peekWord_pokeWords_apart _ _ (by omega)

lemma peekWord_sweep_in (ok : S.Ok) (hm : m.size = S.mem.size) (h4 : a % 4 = S.source % 4)
    (hl : S.source ≤ a) (hh : a + 4 ≤ S.source + S.half) :
    (S.sweep m).peekWord a = evacuatedWord := by
  have := ok.bounds
  have ha : a = S.source + 4 * ((a - S.source) / 4) := by omega
  rw [ha]
  exact peekWord_pokeWords_in _ (by omega) (by omega)

end Scene

namespace Inv

section

variable (h : Inv S g s) (ok : S.Ok) {v : UInt32}
include h ok

lemma home_apart (home : S.Home g.order c v) :
    v.toNat + c.body ≤ S.source ∨ S.source + S.half ≤ v.toNat := by
  have := ok.bounds
  cases home with
  | copy hp =>
    have := h.placed_bounds ok hp
    have := ok.halves
    omega
  | pin hc =>
    have := ok.pins c hc
    omega

lemma sweep_word {x : Nat} (home : S.Home g.order c v) (hb : x + 4 ≤ c.body) :
    (S.sweep s.mem).peekWord (v.toNat + x) = s.mem.peekWord (v.toNat + x) := by
  have := h.home_apart ok home
  exact Scene.peekWord_sweep (by omega)

lemma sweep_header {a : UInt32} (hp : Placed S.target g.order c a.toNat) :
    Header.Holds (S.sweep s.mem) a c.kind c.count := by
  have hh := h.copies c a hp
  have := h.placed_bounds ok hp
  have := ok.halves
  have hhead := hh.room
  rw [← show c.head = Header.bytes c.count from rfl] at hhead
  have := c.head_cases
  refine hh.congr Scene.size_sweep (Scene.peekWord_sweep (by omega)) fun hc => ?_
  have : c.head = 8 := by
    rw [Cell.head, Header.bytes, if_neg (by omega)]
  exact Scene.peekWord_sweep (by omega)

lemma sweep_recorded (hram : t.ram = S.ram) (hm : t.mem = S.sweep s.mem) {j : Nat} (hj : j < 16) :
    t.recorded j = g.record j := by
  have := ok.source_low
  rw [Store.recorded, hram, hm, Scene.peekWord_sweep (by omega), h.record j hj]

lemma chain {stop : UInt32} {l : List Cell} (hb : S.Built g.order g.orig stop v l)
    (hl : ∀ q ∈ l, S.IsAssociation S.words table q ∧ S.Still (g.orig q 4)) :
    Chain S g.order (S.sweep s.mem) stop v l := by
  induction hb with
  | nil => exact .nil
  | @cons v q rest home _ ih =>
    obtain ⟨ha, hs⟩ := hl q mem_cons_self
    have := ha.room
    refine .cons home ?_
    rw [h.sweep_word ok home (by omega), h.still_word ok home ha.plain rfl (by omega) hs]
    exact ih fun p hp => hl p (mem_cons_of_mem _ hp)

end

end Inv

namespace Heap

lemma source_aligned (h : Heap S table queues s) : S.source % 4 = 0 := by
  have := h.sides
  have := h.ok.target_aligned
  have := h.ok.half_aligned
  omega

lemma space_stop (h : Heap S table queues s) : S.space.stop.toNat = S.target + S.half := by
  have := h.ok.bounds
  simp only [Scene.space, Nat.toUInt32, toNat_ofNat']
  omega

lemma collected (h : Heap S table queues s) {u v : Store} {free : UInt32}
    (E : Evacuated S s.recorded table queues kept finalized lists g u)
    (hfree : free.toNat = S.target + total g.order)
    (inv : Inv S { g with
        record := fun i => if i = 4 then S.space.stop else if i = 3 then free
          else if i = 2 then S.space.start else g.record i } t)
    (hram : v.ram = S.ram) (hm : v.mem = S.sweep t.mem) (hidle : v.collecting = false) :
    Collected S table queues s g.order kept finalized lists v := by
  have ok := h.ok
  have record := fun {j : Nat} (hj : j < 16) => inv.sweep_recorded ok hram hm hj
  have hkept : ∀ q ∈ kept, q ∈ (range 16).flatMap queues := by
    obtain ⟨_, hs, _⟩ := E.settled
    exact hs.kept_mem.1
  have hfinal : ∀ q ∈ finalized, q ∈ (range 16).flatMap queues := by
    obtain ⟨_, hs, _⟩ := E.settled
    exact hs.kept_mem.2
  have hlists : ∀ i q, q ∈ lists i → q ∈ kept := fun i q hq =>
    mem_reverse.1 ((E.sub i).subset hq)
  exact {
    nodup := inv.nodup
    live := E.settled
    room := inv.total_le ok
    start := (congrArg toNat (record (j := 2) (by omega))).trans h.space_start
    free := (congrArg toNat (record (j := 3) (by omega))).trans hfree
    stop := (congrArg toNat (record (j := 4) (by omega))).trans h.space_stop
    other := by
      intro j hj
      rw [record (by omega)]
      dsimp only
      rw [if_neg (by omega), if_neg (by omega), if_neg (by omega)]
      exact E.other j (fun hh => by have := hh.1; omega) (by omega)
    header := fun c a hp => hm ▸ inv.sweep_header ok hp
    word := by
      intro c a x hp h4 hb hl he
      have hf := inv.fresh c hp.mem
      have hbounds := inv.placed_bounds ok hp
      have hd : g.done (a.toNat + x) := by
        rw [E.done]
        dsimp only at hbounds
        omega
      rw [hm, inv.sweep_word ok (.copy hp) hb]
      refine (inv.updated c a x hp h4 hb hd).congr hf rfl ?_ fun d y hd hc => ?_
      · exact (E.same c x hl fun hh => he ⟨hh.1, hh.2.1⟩).symm
      · exact congrFun (E.rewritten.chunk hd.mem hc).symm y
    root := by
      intro j hj h15
      have := hj.1
      rw [record hj.2.1]
      dsimp only
      rw [if_neg (by omega), if_neg (by omega), if_neg (by omega)]
      exact E.root j hj h15
    final := by
      obtain ⟨w, hi, hb⟩ := E.final
      refine ⟨w, hi, ?_⟩
      rw [record (j := 15) (by omega), hm]
      exact inv.chain ok hb fun q hq => E.cut q (hfinal q (mem_reverse.1 hq))
    entries := by
      have h14 : v.recorded 14 = g.record 14 := record (by omega)
      rw [h14, hm]
      rcases E.queued with ⟨h0, h0', _⟩ | Q
      · exact .inl ⟨h0, h0'⟩
      refine .inr ⟨Q.home, fun i hi => ?_⟩
      have := Q.room
      have hentry := inv.still_word ok Q.home Q.plain (x := 4 * i) (by omega) (by omega)
        (Q.entries i hi)
      rw [inv.sweep_word ok Q.home (x := 4 * i) (by omega), hentry]
      exact inv.chain ok (Q.built i hi) fun q hq => E.cut q (hkept q (hlists i q hq))
    listed := by
      intro i q hi
      constructor
      · intro hq
        refine ⟨hlists i q hq, ?_⟩
        rcases E.queued with ⟨_, _, rfl⟩ | Q
        · exact absurd (hlists i q hq) not_mem_nil
        · exact Q.keyed i q hi hq
      · rintro ⟨hq, key, hk, rfl⟩
        obtain ⟨key', hk', hq'⟩ := E.listed q hq
        rwa [hk.unique ok inv.nodup hk']
    sub := E.sub
    evacuated := by
      intro a h4 hl hh
      rw [hm]
      exact Scene.peekWord_sweep_in ok inv.mem_size (by rw [h.source_aligned, h4]) hl hh
    fixed := by
      intro b hb ha
      rw [hm, Scene.peek_sweep ha, inv.agrees.peek b hb, h.mem]
    pinned := by
      intro c x hc h4 hb hl he
      rw [hm, inv.sweep_word ok (.pin hc) hb, inv.pinned c x hc h4 hb]
      exact E.same c x hl fun hh => he ⟨hh.1, hh.2.1⟩
    idle := hidle }

lemma collect_leaves (h : Heap S table queues s) :
    Ends collect s fun fits t => ∃ order kept finalized lists,
      Collected S table queues s order kept finalized lists t ∧
      fits = decide ((s.recorded 5).toNat ≤ S.half - total order) ∧ S.Leaves s t := by
  have ok := h.ok
  rw [collect]
  refine .bind (Q := fun p t => p = (s.recorded 2, s.recorded 4) ∧
    ∃ kept finalized lists g u free w,
    Evacuated S s.recorded table queues kept finalized lists g u ∧
    free.toNat = S.target + total g.order ∧ Inv S { g with
        record := fun i => if i = 4 then S.space.stop else if i = 3 then free
          else if i = 2 then S.space.start else g.record i } w ∧
    t = { w with collecting := false, justCollected := true }) ?_ ?_
  · refine .insideCollector h.idle ?_
    have r := recorded_collecting h.recorded_ok
    refine .query_bind (r.record_eq (j := 2) rfl (by omega)) ?_
    refine .query_bind (r.record_eq (j := 4) rfl (by omega)) ?_
    refine .bind h.evacuate_ends fun _ t ht => .pure ?_
    obtain ⟨kept, finalized, lists, g, u, free, E, hfree, inv⟩ := ht
    exact ⟨inv.collecting, rfl, kept, finalized, lists, g, u, free, t, E, hfree, inv, rfl⟩
  rintro _ _ ⟨rfl, kept, finalized, lists, g, u, free, w, E, hfree, inv, rfl⟩
  have hlen : (s.recorded 4 - s.recorded 2).toNat = S.half := by
    rw [toNat_minus (by rw [h.start, h.stop]; omega), h.start, h.stop]
    omega
  refine .except_bind (minus_eq (by rw [h.start, h.stop]; omega)) ?_
  have := inv.mem_size
  have := ok.bounds
  refine .edit_bind (fillWords_eq (by decide) (by
    rw [hlen, h.start]
    dsimp only
    omega)) ?_
  rw [hlen, h.start]
  have C : Collected S table queues s g.order kept finalized lists
      (({ w with collecting := false, justCollected := true } : Store).setMem (S.sweep w.mem)) :=
    h.collected E hfree inv inv.ram rfl rfl
  have r : Recorded
      (({ w with collecting := false, justCollected := true } : Store).setMem (S.sweep w.mem)) := by
    refine ⟨(inv.recorded ok).aligned, ?_, ?_⟩
    · exact Nat.le_trans (inv.recorded ok).inside (Nat.le_of_eq Scene.size_sweep.symm)
    · exact Nat.le_trans (Nat.le_of_eq Scene.size_sweep) (inv.recorded ok).small
  have leaves : S.Leaves s
      (({ w with collecting := false, justCollected := true } : Store).setMem (S.sweep w.mem)) := by
    refine ⟨inv.rom.trans h.rom.symm, inv.eeprom.trans h.eeprom.symm, inv.ram.trans h.ram.symm, ?_⟩
    rw [h.mem]
    exact ⟨Scene.size_sweep.trans inv.agrees.size, Scene.order_sweep.trans inv.agrees.order,
      fun b hb => (Scene.peek_sweep hb.2).trans (inv.agrees.peek b hb.1)⟩
  change Ends _ (({ w with collecting := false, justCollected := true } : Store).setMem
    (S.sweep w.mem)) _
  generalize (({ w with collecting := false, justCollected := true } : Store).setMem
    (S.sweep w.mem)) = v at C r leaves
  have := C.room
  have := C.stop
  have hfree := C.free
  have hle : (v.recorded 3).toNat ≤ (v.recorded 4).toNat := by omega
  have hleft : (v.recorded 4 - v.recorded 3).toNat = S.half - total g.order := by
    rw [toNat_minus hle]
    omega
  have hpartition : freeMemory v = .ok (v.recorded 4 - v.recorded 3) := by
    rw [freeMemory, partitionEnd, bind_ok (r.record_eq (j := 4) rfl (by omega)),
      partitionFree, bind_ok (r.record_eq (j := 3) rfl (by omega))]
    exact minus_eq hle
  refine .query_bind hpartition ?_
  refine .query_bind (r.record_eq (j := 5) rfl (by omega)) ?_
  have hfits : decide (v.recorded 4 - v.recorded 3 ≥ v.recorded 5) =
      decide ((s.recorded 5).toNat ≤ S.half - total g.order) :=
    decide_eq_decide.2 (by rw [ge_iff_le, le_iff_toNat_le, hleft, C.other 5 (by omega)])
  refine .get_bind ?_
  dsimp only
  rw [hfits]
  by_cases htrace : v.trace.contains TraceFlags.collection = true
  · rw [if_pos htrace]
    refine .next (.sayOf ?_ fun log => .pure ⟨_, _, _, _, C.setLog log, rfl, leaves.setLog log⟩)
    have hhalf : Copying.half v = .ok (s.recorded 1 / 2 &&& 0xfffffffc) := by
      rw [Copying.half, memorySize, bind_ok (r.record_eq (j := 1) rfl (by omega)),
        C.other 1 (by omega)]
      rfl
    have hused : usedMemory v =
        .ok ((s.recorded 1 / 2 &&& 0xfffffffc) - (v.recorded 4 - v.recorded 3)) := by
      rw [usedMemory, totalMemory, bind_ok hhalf, bind_ok hpartition]
      exact minus_eq (by rw [hleft, h.half]; omega)
    exact ⟨_, (bind_ok (a := v) rfl).trans (bind_ok hused)⟩
  · rw [if_neg htrace]
    exact .pure ⟨_, _, _, _, C, rfl, leaves⟩

/-- A collection ends, with what is live copied in one piece and all references to it moved. It
tells whether what was asked for fits into what is free then. -/
theorem collect_ends (h : Heap S table queues s) :
    Ends collect s fun fits t => ∃ order kept finalized lists,
      Collected S table queues s order kept finalized lists t ∧
      fits = decide ((s.recorded 5).toNat ≤ S.half - Cell.total order) := by
  refine h.collect_leaves.mono fun fits t ht => ?_
  obtain ⟨order, kept, finalized, lists, collected, hfits, -⟩ := ht
  exact ⟨order, kept, finalized, lists, collected, hfits⟩

end Heap

/-! ### A small heap -/

open Sample

/-- Two arrays, one of integers, that are reached; an array that is not; the table of associations,
and an association of the reached array of integers with a hash code. Behind it an array that is not
reached, with a finalizer in its association. It refers to an array of integers whose association,
with a hash code, is decided first. Then an array of integers that waits for its finalizer, and a
stack chunk with a saved context. -/
def sampleRam : List UInt32 := Sample.table [
  (0, [528, 680, 528, 868, 868]), (9, [796]), (12, [532]), (14, [608, 772]),
  (16, [0x020000c0, 544, 532]), (19, [0x01000100, 7]), (21, [0x0d000100, 9]),
  (35, [0x100000c0]), (36 + 1, [716]), (36 + 8, [676]), (36 + 15, [740]),
  (52, [0x00000180, 544, 0, 0, 3, 0]), (58, [0x010000c0, 708]), (60, [0x01000100, 11]),
  (62, [0x00000180, 708, 0, 0, 42, 0]), (68, [0x00000180, 700, 0, 0, 0, 1]),
  (74, [0x01000100, 13]), (76, [0x00000180, 764, 0, 0, 0, 1]),
  (82, [0x12000140, 796, 0, 0, 18, 836, 456, 463, 0, 192, 28, 544, 0, 0, 0, 0, 0, 5, 7])] 0 186

def sampleStore : Store := store .copying sampleRam

def sampleTable : Cell := array 608 16

def sampleChunk : Cell := chunk 796 18 [frame]

def sampleCells : List Cell :=
  [array 532 2, integerArray 544 1, integerArray 552 13, sampleTable, association 676, array 700 1,
    integerArray 708 1, association 716, association 740, integerArray 764 1, association 772,
    sampleChunk]

def sampleQueues (i : Nat) : List Cell :=
  if i = 1 then [association 716] else if i = 8 then [association 676]
  else if i = 15 then [association 740] else []

def sampleQueued : List Cell := [association 716, association 676, association 740]

lemma sample_queued : (range 16).flatMap sampleQueues = sampleQueued := rfl

lemma sample_queued_mem (hc : c ∈ sampleQueued) : c ∈ sampleCells := by
  simp only [sampleQueued, mem_cons, not_mem_nil, or_false] at hc
  rcases hc with rfl | rfl | rfl <;> simp [sampleCells]

def sampleScene : Scene where
  rom := sampleStore.rom
  eeprom := sampleStore.eeprom
  ram := sampleStore.ram
  mem := sampleStore.mem
  cells := sampleCells
  gone _ := none
  pins := []
  source := 528
  target := 868
  half := 340
  fixed := fixed
  chunkClass := chunks

lemma sample_words (hc : c ∈ sampleCells) {x : Nat} (hx : x % 4 = 0) :
    sampleScene.words c x = sampleRam.getD ((c.oop.toNat - 464 + x) / 4) 0 := by
  have h : ∀ c ∈ sampleCells, 464 ≤ c.oop.toNat ∧ c.oop.toNat % 4 = 0 := by decide
  exact words_ram (h c hc).1 (h c hc).2 hx

lemma sample_recorded {j : Nat} : sampleStore.recorded j = sampleRam.getD j 0 := peekWord_ram j

lemma sample_length : sampleRam.length = 186 := by decide +kernel

lemma sample_ram : sampleScene.ram = { start := 464, size := 744 } := by
  show Region.mk 464 (UInt32.ofNat (4 * sampleRam.length)) = _
  rw [sample_length]
  rfl

lemma sample_size : sampleScene.mem.size = 1208 := by
  show (Memory.ofWords _).size = _
  rw [size_words, sample_length]

lemma sample_laid (hc : c ∈ sampleCells) : Laid sampleRam c := by
  revert c
  simp only [Sample.Laid, sample_length]
  decide

lemma sample_fresh (hc : c ∈ sampleCells) : sampleScene.Fresh c := by
  refine ⟨hc, rfl, ?_⟩
  rw [sample_ram]
  revert c
  decide

lemma sample_typed (hc : c ∈ sampleCells) :
    c.Typed Sample.fixed (.ofWords (Sample.rom ++ sampleRam)) := by
  revert c
  simp [sampleCells, sampleTable, sampleChunk]

lemma sample_stateless (hc : c ∈ sampleCells) (k : UInt32) : c.shape ≠ .classState k := by
  have h : ∀ c ∈ sampleCells,
      (match c.shape with | .classState _ => false | _ => true) = true := by decide
  intro hk
  have := h c hc
  rw [hk] at this
  cases this

lemma sample_ok : sampleScene.Ok := by
  have tiles : Tiles sampleScene.source sampleScene.cells 868 := by decide
  constructor
  case tiles => exact ⟨868, tiles, by decide⟩
  case gone_aligned => exact fun c e h => nomatch h
  case gone_outside => exact fun c e h => nomatch h
  case pins => exact fun c h => nomatch h
  case pins_resolve => exact fun c n h => nomatch h
  case pins_apart => exact fun c d h => nomatch h
  case fixed_target =>
    intro b hb
    exact .inl (Nat.lt_of_lt_of_le hb (by decide))
  case fixed_record => exact fun b hb => .inl hb
  case fixed_cells =>
    intro b c hb hc
    have h : ∀ c ∈ sampleCells, 464 ≤ c.oop.toNat - 4 := by decide
    exact .inl (Nat.lt_of_lt_of_le hb (h c hc))
  case typed => exact fun c hc => sample_typed hc.mem
  case kind_outside =>
    intro c hc
    have h : ∀ c ∈ sampleCells, ¬ sampleScene.ram.Has c.kind := by decide
    exact h c hc.mem
  case chunk_of_kind =>
    intro c hc
    have h : ∀ c ∈ sampleCells, c.kind = chunks → c.isChunk := by decide
    exact h c hc.mem
  case chunkClass =>
    intro t _ he _ h
    exact classNumbered_chunks (by rw [he]; rfl) h
  case aligned => decide
  case kind => decide
  case count => decide
  case ram_stop =>
    rw [sample_size, sample_ram]
    decide
  case target_high =>
    rw [sample_ram]
    decide
  case source_high =>
    rw [sample_ram]
    decide
  case mem_size =>
    rw [sample_size]
    decide
  all_goals decide

lemma sample_framed : sampleScene.Framed sampleChunk (sampleScene.words sampleChunk) := by
  have hw : ∀ {x : Nat}, x % 4 = 0 → sampleScene.words sampleChunk x =
      sampleRam.getD ((332 + x) / 4) 0 := fun hx =>
    sample_words (by simp [sampleCells]) hx
  have h16 : sampleScene.words sampleChunk 16 = 836 := hw rfl
  constructor
  case room => decide
  case self => exact hw rfl
  case used =>
    rw [h16]
    decide
  case last =>
    rw [h16]
    decide
  case frames =>
    rw [h16]
    exact frames_of_words (by decide) (hw rfl) (hw rfl) (hw rfl)
  case reads =>
    intro f hf n h
    obtain rfl := mem_singleton.1 hf
    exact reads_frame h

lemma sample_chunk (hc : c ∈ sampleCells) (h : c.isChunk) : c = sampleChunk := by
  have only : ∀ c ∈ sampleCells, c.isChunk → c.oop = 796 := by decide
  exact sample_ok.cell_eq hc (by simp [sampleScene, sampleCells]) (only c hc h)

/-- What the words of the heap refer to: nothing, the class and the method of the frame, and the
objects. -/
def sampleRefs : List UInt32 := [0, 192, 456] ++ sampleCells.map oop

lemma sample_legal {v : UInt32} (hv : v ∈ sampleRefs) : sampleScene.Legal sampleScene.words v := by
  rcases mem_append.1 hv with hv | hv
  · simp only [mem_cons, not_mem_nil, or_false] at hv
    rcases hv with rfl | rfl | rfl <;> exact .still (.inl (by decide))
  obtain ⟨c, hc, rfl⟩ := mem_map.1 hv
  exact .fresh (sample_fresh hc) fun h => sample_chunk hc h ▸ sample_framed

lemma sample_sound (hc : c ∈ sampleCells) : sampleScene.Sound sampleScene.words c where
  framed h := sample_chunk hc h ▸ sample_framed
  pointer x hx hb hr := by
    have h : ∀ c ∈ sampleCells, ∀ k < c.body / 4, c.role (4 * k) = .pointer →
        sampleRam.getD ((c.oop.toNat - 464 + 4 * k) / 4) 0 ∈ sampleRefs := by decide
    have he : x = 4 * (x / 4) := by omega
    rw [sample_words hc hx]
    rw [he] at hr ⊢
    exact sample_legal (h c hc _ (by omega) hr)
  next h := by
    obtain rfl := sample_chunk hc h
    exact .inl ((sample_words hc rfl).trans (by decide))
  owner k h := absurd h (sample_stateless hc k)

lemma sample_object (hc : c ∈ sampleQueued) :
    ∃ d ∈ [integerArray 708 1, integerArray 544 1, array 700 1],
      d.oop = sampleScene.words c 0 ∧ d ∈ sampleCells := by
  have h : ∀ c ∈ sampleQueued, ∃ d ∈ [integerArray 708 1, integerArray 544 1, array 700 1],
      d.oop = sampleRam.getD ((c.oop.toNat - 464 + 0) / 4) 0 := by decide
  obtain ⟨d, hd, he⟩ := h c hc
  refine ⟨d, hd, he.trans (sample_words (sample_queued_mem hc) rfl).symm, ?_⟩
  simp only [mem_cons, not_mem_nil, or_false] at hd
  rcases hd with rfl | rfl | rfl <;> simp [sampleCells]

lemma sample_association (hc : c ∈ sampleQueued) :
    sampleScene.IsAssociation sampleScene.words sampleTable c := by
  have hm := sample_queued_mem hc
  have plain : ∀ c ∈ sampleQueued, 20 ≤ c.body ∧ ¬ c.isChunk ∧ 464 ≤ c.oop.toNat ∧
      c.oop ≠ sampleTable.oop ∧ c.role 0 = .pointer ∧ c.role 12 = .data ∧ c.role 16 = .data := by
    decide
  have unlocked : ∀ c ∈ sampleQueued,
      sampleRam.getD ((c.oop.toNat - 464 + 8) / 4) 0 = 0 := by decide
  have objects : ∀ d ∈ [integerArray 708 1, integerArray 544 1, array 700 1],
      ¬ d.isChunk ∧ sampleTable.oop ≠ d.oop := by decide
  obtain ⟨room, nochunk, low, ne, role, hash, flags⟩ := plain c hc
  obtain ⟨d, hd, he, hdm⟩ := sample_object hc
  have h8 : sampleScene.words c 8 = 0 := (sample_words hm rfl).trans (unlocked c hc)
  constructor
  case known => exact .inl (sample_fresh hm)
  case room => exact room
  case plain => exact nochunk
  case stateless => exact sample_stateless hm
  case loose => exact fun b hb => .inl (Nat.lt_of_lt_of_le hb low)
  case ne_table => exact fun h => ne (congrArg oop h)
  case object =>
    rw [← he]
    exact .fresh (sample_fresh hdm) fun h => absurd h (objects d hd).1
  case object_role => exact fun _ => role
  case object_pinned => exact fun h => nomatch h
  case object_table =>
    rw [← he]
    exact (objects d hd).2
  case monitor => exact ⟨false, h8 ▸ .none⟩
  case hash_role => exact hash
  case flags_role => exact flags

lemma sample_linked (hc : c ∈ sampleQueued) {v : UInt32} (hv : v = c.oop) :
    sampleScene.Linked [] sampleScene.words v [c] := by
  have last : ∀ c ∈ sampleQueued, sampleRam.getD ((c.oop.toNat - 464 + 4) / 4) 0 = 0 := by decide
  have hm := sample_queued_mem hc
  have h4 : sampleScene.words c 4 = 0 := (sample_words hm rfl).trans (last c hc)
  exact hv ▸ .cons (.fresh (sample_fresh hm)) (h4 ▸ .nil)

lemma sample_register :
    sampleScene.Register sampleScene.words (sampleStore.recorded 14) sampleTable sampleQueues := by
  have hm : sampleTable ∈ sampleCells := by simp [sampleCells]
  have h14 : sampleStore.recorded 14 = sampleTable.oop := sample_recorded
  constructor
  case names =>
    rw [h14]
    exact .fresh (sample_fresh hm)
  case loose => exact fun b hb => .inl (Nat.lt_of_lt_of_le hb (by decide))
  case stateless => exact sample_stateless hm
  case linked =>
    intro i hi
    rw [sample_words hm (by omega), sampleQueues]
    by_cases h1 : i = 1
    · subst h1
      exact sample_linked (c := association 716) (by simp [sampleQueued]) (by decide)
    by_cases h8 : i = 8
    · subst h8
      exact sample_linked (c := association 676) (by simp [sampleQueued]) (by decide)
    by_cases h15 : i = 15
    · subst h15
      exact sample_linked (c := association 740) (by simp [sampleQueued]) (by decide)
    rw [if_neg h1, if_neg h8, if_neg h15]
    have empty : ∀ i < 16, i ≠ 1 → i ≠ 8 → i ≠ 15 →
        sampleRam.getD ((sampleTable.oop.toNat - 464 + 4 * i) / 4) 0 = 0 := by decide
    rw [empty i hi h1 h8 h15]
    exact .nil
  case associations =>
    intro i q hi
    refine sample_association ?_
    rw [sampleQueues] at hi
    split_ifs at hi <;> simp_all [sampleQueued]
  case nodup =>
    have distinct : (sampleQueued.map oop).Nodup := by decide
    exact Pairwise.of_map oop (fun _ _ h e => h (congrArg oop e)) distinct
  all_goals decide

lemma sample_heap : Heap sampleScene sampleTable sampleQueues sampleStore := by
  constructor
  case ok => exact sample_ok
  case tiles =>
    rw [show sampleStore.recorded 3 = 868 from sample_recorded]
    decide
  case headers =>
    exact fun c hc => (sample_laid hc).holds
  case roots =>
    intro j hj
    have h : ∀ j < 16, sampleRam.getD j 0 ∈ sampleRefs ∨ ¬ (8 ≤ j ∧ j < 16 ∧ j ≠ 14) := by decide
    rw [sample_recorded]
    exact sample_legal ((h j hj.2.1).resolve_right fun hn => hn hj)
  case register => exact .inr sample_register
  case sound =>
    intro c hc
    have hm := hc.mem fun d hd => hd.1.mem
    exact ⟨sample_fresh hm, sample_sound hm⟩
  case half =>
    rw [show sampleStore.recorded 1 = 680 from sample_recorded]
    decide
  case sides =>
    rw [show sampleStore.recorded 0 = 528 from sample_recorded]
    decide
  case start =>
    rw [show sampleStore.recorded 2 = 528 from sample_recorded]
    decide
  case stop =>
    rw [show sampleStore.recorded 4 = 868 from sample_recorded]
    decide
  all_goals rfl

theorem collect_sample : Heap sampleScene sampleTable sampleQueues sampleStore ∧
    Ends collect sampleStore fun fits t => ∃ order kept finalized lists,
      Collected sampleScene sampleTable sampleQueues sampleStore order kept finalized lists t ∧
      fits = decide ((sampleStore.recorded 5).toNat ≤ 340 - Cell.total order) :=
  ⟨sample_heap, sample_heap.collect_ends⟩

end DeviceVm.Copying
