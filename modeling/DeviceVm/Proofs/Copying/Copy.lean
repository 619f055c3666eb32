import DeviceVm.Proofs.Copying.Invariant

/-!
One object is copied: the invariant holds again, with the object last in the order.
-/

namespace DeviceVm.Copying

open List Memory UInt32 Header Cell Word Store

namespace Scene

variable {S : Scene} {c d : Cell} {v v' : UInt32} {order : List Cell}
  {g : Progress} {a : UInt32} {x : Nat}

section

variable (h : S.Ok) (hc : c ∈ S.cells)
include h hc

lemma Ok.cell_low : S.source + c.head ≤ c.oop.toNat := by
  obtain ⟨free, ht, _⟩ := h.tiles
  exact ht.low hc

lemma Ok.oop_ne_zero : c.oop ≠ 0 := by
  have hlow := h.cell_low hc
  have := c.head_cases
  intro h0
  rw [h0] at hlow
  have := UInt32.toNat_zero
  omega

lemma Ok.cell_high : c.oop.toNat + c.body ≤ S.source + S.half := by
  obtain ⟨free, ht, hf⟩ := h.tiles
  have := ht.high hc
  omega

lemma Ok.cell_apart (hd : d ∈ S.cells) (hne : c ≠ d) :
    c.oop.toNat + c.body + d.head ≤ d.oop.toNat ∨ d.oop.toNat + d.body + c.head ≤ c.oop.toNat := by
  obtain ⟨free, ht, _⟩ := h.tiles
  rcases ht.spread.apart hc hd with he | he
  · exact absurd he hne
  · exact he

lemma Ok.cell_eq (hd : d ∈ S.cells) (he : c.oop = d.oop) : c = d := by
  obtain ⟨free, ht, _⟩ := h.tiles
  exact ht.spread.eq_of_oop hc hd he

end

lemma Ok.total_le (h : S.Ok) (hn : order.Nodup) (hs : ∀ c ∈ order, c ∈ S.cells) :
    total order ≤ S.half := by
  obtain ⟨free, ht, hf⟩ := h.tiles
  have := total_le_of_subset hn hs
  have := ht.total_eq
  omega

lemma Ok.not_still (h : S.Ok) (hc : c ∈ S.cells) (hr : S.ram.Has c.oop) : ¬ S.Still c.oop := by
  have := h.cell_low hc
  have := h.cell_high hc
  have := c.head_cases
  have := h.halves
  rintro (hs | hs)
  · exact hs hr
  · omega

lemma Image.append (h : S.Image order v v') (more : List Cell) :
    S.Image (order ++ more) v v' := by
  cases h with
  | still h => exact .still h
  | gone hm hr he => exact .gone hm hr he
  | copied hf hp => exact .copied hf (hp.append more)

lemma Image.unique (ok : S.Ok) (hn : order.Nodup) {v₁ v₂ : UInt32} (h₁ : S.Image order v v₁)
    (h₂ : S.Image order v v₂) : v₁ = v₂ := by
  cases h₁ with
  | still h =>
    cases h₂ with
    | still _ => rfl
    | gone hm hr _ => exact absurd h (ok.not_still hm hr)
    | copied hf _ => exact absurd h (ok.not_still hf.mem hf.inRam)
  | @gone c e hm hr he =>
    generalize hv : c.oop = v at h₂
    cases h₂ with
    | still h => exact absurd (hv ▸ h) (ok.not_still hm hr)
    | gone hm' _ he' =>
      have := ok.cell_eq hm hm' hv
      subst this
      rw [he] at he'
      exact Option.some.inj he'
    | copied hf _ =>
      have := ok.cell_eq hm hf.mem hv
      subst this
      rw [hf.stays] at he
      exact absurd he (by simp)
  | @copied c a hf hp =>
    generalize hv : c.oop = v at h₂
    cases h₂ with
    | still h => exact absurd (hv ▸ h) (ok.not_still hf.mem hf.inRam)
    | gone hm' _ he' =>
      have := ok.cell_eq hf.mem hm' hv
      subst this
      rw [hf.stays] at he'
      exact absurd he' (by simp)
    | copied hf' hp' =>
      have := ok.cell_eq hf.mem hf'.mem hv
      subst this
      exact UInt32.toNat_inj.1 (hp.unique hn hp')

lemma Updated.append (h : S.Updated g c a x v)
    (more : List Cell) : S.Updated { g with order := g.order ++ more } c a x v := by
  unfold Updated at h ⊢
  cases hr : c.role x with
  | data | link | listed => simpa only [hr] using h
  | pointer =>
    simp only [hr] at h ⊢
    exact h.append more
  | code =>
    simp only [hr] at h ⊢
    obtain ⟨mp, hm, he⟩ := h
    exact ⟨mp, hm.append more, he⟩
  | next =>
    simp only [hr] at h ⊢
    rcases h with h | ⟨d, hd, hc, ho, hu, hi⟩
    · exact .inl h
    · exact .inr ⟨d, hd, hc, ho, hu, hi.append more⟩

lemma Updated.congr {g' : Progress} (h : S.Updated g c a x v)
    (hc : S.Fresh c) (order : g'.order = g.order) (word : g'.orig c x = g.orig c x)
    (chunks : ∀ d y, S.Fresh d → d.isChunk → g'.orig d y = g.orig d y) :
    S.Updated g' c a x v := by
  by_cases hch : c.isChunk
  · unfold Updated at h ⊢
    cases hr : c.role x with
    | data | pointer | code | link | listed =>
      simpa only [hr, chunks c _ hc hch, order] using h
    | next =>
      simp only [hr, word, order] at h ⊢
      rcases h with ⟨hw, h0 | ⟨e, hf, he, ho, hz⟩⟩ | ⟨e, hf, he, ho, hz, hi⟩
      · exact .inl ⟨hw, .inl h0⟩
      · exact .inl ⟨hw, .inr ⟨e, hf, he, ho, (chunks e 16 hf he).trans hz⟩⟩
      · exact .inr ⟨e, hf, he, ho, fun hh => hz ((chunks e 16 hf he).symm.trans hh), hi⟩
  · unfold Updated at h ⊢
    rw [role_plain hch] at h ⊢
    by_cases hr : x / 4 < c.slots ∧ c.refs (x / 4)
    · simpa only [if_pos hr, word, order] using h
    · simpa only [if_neg hr, word] using h

end Scene

variable {S : Scene}

lemma total_aligned {cs : List Cell} (h : ∀ c ∈ cs, c.body % 4 = 0) :
    total cs % 4 = 0 := by
  induction cs with
  | nil => rfl
  | cons c cs ih =>
    have := h c mem_cons_self
    have := ih fun d hd => h d (mem_cons_of_mem c hd)
    have := c.head_cases
    simp only [Cell.total_cons, Cell.size]
    omega

/-- What a copy does to memory: `len` bytes from `start` on are also at `free`, and the word in
front of `o` has changed. -/
structure Duplicates (m n : Memory) (start free len o : Nat) : Prop where
  size : n.size = m.size
  order : n.order = m.order
  byte : ∀ b, (b < free ∨ free + len ≤ b) → (b < o - 4 ∨ o ≤ b) → n.peek b = m.peek b
  inside : ∀ x, x + 4 ≤ len → n.peekWord (free + x) = m.peekWord (start + x)

namespace Duplicates

variable {m n : Memory} {start free len o : Nat}

lemma of_move {w : UInt32} (hs : start + len ≤ m.size) (hf : free + len ≤ m.size)
    (ho : 4 ≤ o) (ha : o ≤ free ∨ free + len + 4 ≤ o) :
    Duplicates m ((m.move start free len).pokeWord (o - 4) w) start free len o where
  size := by rw [size_pokeWord, size_move hs hf]
  order := by rw [order_pokeWord, order_move]
  byte b hb hb' := by
    rw [peek_pokeWord_ne _ (by omega), peek_move hs hf, if_neg (by omega)]
  inside x hx := by
    rw [peekWord_pokeWord_apart _ (by omega), peekWord_move_in hs hf x hx]

lemma outside (h : Duplicates m n start free len o) {b : Nat}
    (hb : b + 4 ≤ free ∨ free + len ≤ b) (ho : b + 4 ≤ o - 4 ∨ o ≤ b) :
    n.peekWord b = m.peekWord b :=
  peekWord_congr h.order fun i hi => h.byte _ (by omega) (by omega)

lemma header (h : Duplicates m n start free len o) {oop low count : UInt32}
    (hh : Holds m oop low count)
    (hb : oop.toNat ≤ free ∨ free + len + bytes count ≤ oop.toNat)
    (ho : oop.toNat + 4 ≤ o ∨ o + bytes count ≤ oop.toNat) :
    Holds n oop low count := by
  have := hh.four_le
  have := bytes_cases count
  refine hh.congr h.size (h.outside (by omega) (by omega)) fun hl => ?_
  have : Header.bytes count = 8 := by rw [Header.bytes, if_neg (by omega)]
  exact h.outside (by omega) (by omega)

end Duplicates

namespace Inv

variable {S : Scene} {g : Progress} {s : Store} {c d : Cell}

section

variable (h : Inv S g s) {a : Nat}
include h

lemma total_le (ok : S.Ok) : total g.order ≤ S.half :=
  ok.total_le h.nodup fun c hc => (h.fresh c hc).mem

lemma room (ok : S.Ok) (hf : S.Fresh c) (hn : c ∉ g.order) :
    total g.order + c.size ≤ S.half := by
  have nodup : (g.order ++ [c]).Nodup := by
    rw [nodup_append]
    refine ⟨h.nodup, by simp, ?_⟩
    intro d hd e he hde
    rw [mem_singleton] at he
    exact hn (he ▸ hde ▸ hd)
  have := ok.total_le nodup (by
    intro d hd
    rw [mem_append, mem_singleton] at hd
    rcases hd with hd | hd
    · exact (h.fresh d hd).mem
    · exact hd ▸ hf.mem)
  simpa using this

lemma order_aligned (ok : S.Ok) : total g.order % 4 = 0 :=
  total_aligned fun c hc => (ok.aligned c (h.fresh c hc).mem).2

lemma placed_aligned (ok : S.Ok) (hp : Placed S.target g.order c a) : a % 4 = 0 := by
  obtain ⟨l, r, he, rfl⟩ := hp
  have : total l % 4 = 0 := total_aligned fun d hd =>
    (ok.aligned d (h.fresh d (by rw [he]; simp [hd])).mem).2
  have := ok.target_aligned
  have := c.head_cases
  omega

lemma placed_bounds (ok : S.Ok) (hp : Placed S.target g.order c a) :
    S.target + c.head ≤ a ∧ a + c.body ≤ S.target + total g.order ∧
      S.target + total g.order ≤ S.target + S.half :=
  ⟨hp.low, hp.high, by have := h.total_le ok; omega⟩

lemma address (ok : S.Ok) {n : Nat} (hp : Placed S.target g.order c n) :
    ∃ a : UInt32, a.toNat = n ∧ a.toNat % 4 = 0 ∧ a.toNat + 2 < 16777216 := by
  have := h.placed_bounds ok hp
  have := h.placed_aligned ok hp
  have := ok.bounds
  have : (ofNat n).toNat = n := by
    rw [toNat_ofNat']
    omega
  exact ⟨ofNat n, by omega⟩

lemma place (ok : S.Ok) (hc : c ∈ g.order) :
    ∃ a : UInt32, (a.toNat % 4 = 0 ∧ a.toNat + 2 < 16777216) ∧
      Placed S.target g.order c a.toNat := by
  obtain ⟨n, hp⟩ := Placed.of_mem hc
  obtain ⟨a, rfl, ha⟩ := h.address ok hp
  exact ⟨a, ha, hp⟩

lemma mem_size : s.mem.size = S.mem.size := h.agrees.size

lemma of_eq {t : Store} (mem : t.mem = s.mem) (rom : t.rom = s.rom)
    (eeprom : t.eeprom = s.eeprom) (ram : t.ram = s.ram)
    (collecting : t.collecting = s.collecting) (free : t.copying.free = s.copying.free)
    {scan : UInt32} (hscan : t.copying.scan = scan) : Inv S { g with scan } t where
  __ := h
  rom := rom.trans h.rom
  eeprom := eeprom.trans h.eeprom
  ram := ram.trans h.ram
  collecting := collecting.trans h.collecting
  agrees := mem ▸ h.agrees
  free := free ▸ h.free
  scan := hscan
  record := mem ▸ h.record
  gone := mem ▸ h.gone
  unmoved := mem ▸ h.unmoved
  words := mem ▸ h.words
  moved := mem ▸ h.moved
  copies := mem ▸ h.copies
  waiting := mem ▸ h.waiting
  updated := mem ▸ h.updated
  pinned := mem ▸ h.pinned

lemma setLog (l : Log) : Inv S g (s.setLog l) :=
  h.of_eq (t := s.setLog l) rfl rfl rfl rfl rfl rfl h.scan

lemma inRam (ok : S.Ok) (v : UInt32) : inRam v s = .ok (decide (S.ram.Has v)) := by
  have := ok.bounds
  rw [inRam_eq (by rw [h.ram]; omega), h.ram]

lemma cell_clear (ok : S.Ok) (hf : S.Fresh c) (hn : c ∉ g.order) (hd : d ∈ S.cells)
    (hne : d ≠ c) : (d.oop.toNat + d.body ≤ S.target + total g.order ∨
      S.target + total g.order + c.size + d.head ≤ d.oop.toNat) ∧
    (d.oop.toNat + d.body + 4 ≤ c.oop.toNat ∨ c.oop.toNat + d.head ≤ d.oop.toNat) := by
  have := h.room ok hf hn
  have := ok.cell_apart hf.mem hd (Ne.symm hne)
  have := ok.cell_low hd
  have := ok.cell_high hd
  have := ok.halves
  have := c.head_cases
  omega

lemma copy_clear (ok : S.Ok) (hc : c ∈ S.cells) {b : Nat} (hp : Placed S.target g.order d b) :
    b + d.body ≤ S.target + total g.order ∧
      (b + d.body + 4 ≤ c.oop.toNat ∨ c.oop.toNat + d.head ≤ b) := by
  have := h.placed_bounds ok hp
  have := ok.cell_low hc
  have := ok.cell_high hc
  have := ok.halves
  have := c.head_cases
  omega

section

variable (ok : S.Ok) (hf : S.Fresh c) (hn : c ∉ g.order) {n : Memory} {a : UInt32}
include ok hf hn

lemma duplicates (w : UInt32) :
    Duplicates s.mem ((s.mem.move c.start (S.target + total g.order) c.size).pokeWord
      (c.oop.toNat - 4) w) c.start (S.target + total g.order) c.size c.oop.toNat := by
  have := h.room ok hf hn
  have := ok.cell_low hf.mem
  have := ok.cell_high hf.mem
  have := ok.halves
  have := ok.bounds
  have := h.mem_size
  have := c.head_cases
  have := c.start_eq
  have := c.size_eq
  exact .of_move (by omega) (by omega) (by omega) (by omega)

lemma copy_header
    (hd : Duplicates s.mem n c.start (S.target + total g.order) c.size c.oop.toNat)
    (ha : a.toNat = S.target + total g.order + c.head) :
    Holds n a c.kind c.count := by
  have := h.room ok hf hn
  have := ok.cell_low hf.mem
  have := c.head_cases
  have hu := h.unmoved c hf.mem hf.stays hn
  have hdh : c.head = bytes c.count := rfl
  have := c.start_eq
  have := c.size_eq
  have hin4 := hd.inside (c.head - 4) (by omega)
  rw [show S.target + total g.order + (c.head - 4) = a.toNat - 4 by omega,
    show c.start + (c.head - 4) = c.oop.toNat - 4 by omega] at hin4
  have := ok.target_aligned
  have := h.order_aligned ok
  exact {
    aligned := by omega
    room := by omega
    inside := by
      have := ok.bounds
      have := h.mem_size
      rw [hd.size]
      omega
    low_lt := (ok.kind c hf.mem).2.2
    count_lt := hu.count_lt
    word := by rw [hin4]; exact hu.word
    long := by
      intro hc
      have : c.head = 8 := by rw [hdh, Header.bytes, if_neg (by omega)]
      have hin8 := hd.inside (c.head - 8) (by omega)
      rw [show S.target + total g.order + (c.head - 8) = a.toNat - 8 by omega,
        show c.start + (c.head - 8) = c.oop.toNat - 8 by omega] at hin8
      rw [hin8]
      exact hu.long hc }

lemma copy_words
    (hd : Duplicates s.mem n c.start (S.target + total g.order) c.size c.oop.toNat)
    {a x : Nat} (ha : a = S.target + total g.order + c.head) (hx : x % 4 = 0)
    (hb : x + 4 ≤ c.body) : n.peekWord (a + x) = g.orig c x := by
  have := ok.cell_low hf.mem
  have := c.start_eq
  have := c.size_eq
  have hin := hd.inside (c.head + x) (by omega)
  rw [show S.target + total g.order + (c.head + x) = a + x by omega,
    show c.start + (c.head + x) = c.oop.toNat + x by omega] at hin
  rw [hin]
  exact h.words c x hf.mem hf.stays hn hx hb

lemma copied (ha : a.toNat = S.target + total g.order + c.head)
    (hd : Duplicates s.mem n c.start (S.target + total g.order) c.size c.oop.toNat)
    (head : Holds n c.oop (a + 2) c.count) {f : UInt32}
    (free : f.toNat = S.target + total g.order + c.size) {t : Store} (mem : t.mem = n)
    (rom : t.rom = s.rom) (eeprom : t.eeprom = s.eeprom) (ram : t.ram = s.ram)
    (collecting : t.collecting = s.collecting) (hfree : t.copying.free = f)
    (scan : t.copying.scan = s.copying.scan) : Inv S { g with order := g.order ++ [c] } t := by
  subst mem
  have placedCase : ∀ d (b : UInt32), Placed S.target (g.order ++ [c]) d b.toNat →
      (Placed S.target g.order d b.toNat ∧ d ≠ c) ∨ (d = c ∧ b = a) := by
    intro d b hp
    rcases hp.append_cases with hp | ⟨hd, hb⟩
    · exact .inl ⟨hp, fun he => hn (he ▸ hp.mem)⟩
    · subst hd
      exact .inr ⟨rfl, UInt32.toNat_inj.1 (hb.trans ha.symm)⟩
  have cellHeader : ∀ d low, d ∈ S.cells → d ≠ c → Holds s.mem d.oop low d.count →
      Holds t.mem d.oop low d.count := by
    intro d low hm hne hh
    have := h.cell_clear ok hf hn hm hne
    have : d.head = bytes d.count := rfl
    exact hd.header hh (by omega) (by omega)
  exact {
    rom := rom.trans h.rom
    eeprom := eeprom.trans h.eeprom
    ram := ram.trans h.ram
    collecting := collecting.trans h.collecting
    agrees := ⟨hd.size.trans h.agrees.size, hd.order.trans h.agrees.order, fun b hb => by
      have := ok.fixed_target b hb
      have h2 := ok.fixed_cells b c hb hf.mem
      have := h.room ok hf hn
      rw [hd.byte b (by omega) h2, h.agrees.peek b hb]⟩
    free := by
      rw [hfree]
      simpa [Nat.add_assoc] using free
    scan := scan.trans h.scan
    nodup := by
      rw [nodup_append]
      refine ⟨h.nodup, by simp, ?_⟩
      intro d hd e he hde
      rw [mem_singleton] at he
      exact hn (he ▸ hde ▸ hd)
    fresh := by
      intro d hd
      rw [mem_append, mem_singleton] at hd
      rcases hd with hd | hd
      · exact h.fresh d hd
      · exact hd ▸ hf
    done_lt := by
      intro y hy
      have := h.done_lt y hy
      simp only [total_append]
      omega
    record := by
      intro j hj
      have := ok.target_low
      have := ok.source_low
      have := ok.cell_low hf.mem
      have := c.head_cases
      rw [hd.outside (by omega) (by omega), h.record j hj]
    gone := by
      intro d e hm he
      have hne : d ≠ c := by
        rintro rfl
        rw [hf.stays] at he
        exact absurd he (by simp)
      exact cellHeader d _ hm hne (h.gone d e hm he)
    unmoved := by
      intro d hm hs hno
      simp only [mem_append, mem_singleton, not_or] at hno
      exact cellHeader d _ hm hno.2 (h.unmoved d hm hs hno.1)
    words := by
      intro d x hm hs hno hx hxb
      simp only [mem_append, mem_singleton, not_or] at hno
      have := h.cell_clear ok hf hn hm hno.2
      rw [hd.outside (by omega) (by omega), h.words d x hm hs hno.1 hx hxb]
    moved := by
      intro d b hp
      rcases placedCase d b hp with ⟨hp, hne⟩ | ⟨rfl, rfl⟩
      · exact cellHeader d _ (h.fresh d hp.mem).mem hne (h.moved d b hp)
      · exact head
    copies := by
      intro d b hp
      rcases placedCase d b hp with ⟨hp, hne⟩ | ⟨rfl, rfl⟩
      · have := h.copy_clear ok hf.mem hp
        have : d.head = bytes d.count := rfl
        exact hd.header (h.copies d b hp) (by omega) (by omega)
      · exact h.copy_header ok hf hn hd ha
    waiting := by
      intro d b x hp hx hxb hnd
      rcases placedCase d b hp with ⟨hp, hne⟩ | ⟨rfl, rfl⟩
      · have := h.copy_clear ok hf.mem hp
        rw [hd.outside (by omega) (by omega)]
        exact h.waiting d b x hp hx hxb hnd
      · exact h.copy_words ok hf hn hd ha hx hxb
    updated := by
      intro d b x hp hx hxb hdone
      rcases placedCase d b hp with ⟨hp, hne⟩ | ⟨rfl, rfl⟩
      · have := h.copy_clear ok hf.mem hp
        rw [hd.outside (by omega) (by omega)]
        exact (h.updated d b x hp hx hxb hdone).append [c]
      · have := h.done_lt _ hdone
        omega
    pinned := by
      intro d x hm hx hxb
      have := ok.pins d hm
      have := ok.cell_low hf.mem
      have := ok.cell_high hf.mem
      have := ok.bounds
      have := h.room ok hf hn
      rw [hd.outside (by omega) (by omega)]
      exact h.pinned d x hm hx hxb }

end

end

end Inv

/-- A reference that can be copied: into the target half, or to an object, which if it is a chunk
has an innermost frame. -/
inductive Scene.Leads (S : Scene) (g : Progress) : UInt32 → Prop
  | target {v : UInt32} (low : S.target < v.toNat) (high : v.toNat ≤ S.target + S.half) :
      Leads S g v
  | gone {c : Cell} {e : UInt32} (hm : c ∈ S.cells) (hr : S.ram.Has c.oop)
      (he : S.gone c = some e) : Leads S g c.oop
  | fresh {c : Cell} (hf : S.Fresh c)
      (used : c.isChunk → 20 ≤ c.body ∧ g.orig c 16 ≠ 0) : Leads S g c.oop

lemma Scene.has_eq (ok : S.Ok) (v : UInt32) :
    S.space.has v = decide (S.target < v.toNat ∧ v.toNat ≤ S.target + S.half) := by
  have := ok.bounds
  have hs : S.space.start.toNat = S.target := by
    simp only [Scene.space, toNat_ofNat']
    omega
  have ht : S.space.stop.toNat = S.target + S.half := by
    simp only [Scene.space, toNat_ofNat']
    omega
  rw [Space.has, Bool.decide_and]
  congr 1
  · exact decide_eq_decide.2 (by rw [lt_iff_toNat_lt, hs])
  · exact decide_eq_decide.2 (by rw [le_iff_toNat_le, ht])

section

variable {S : Scene} {g : Progress} {s : Store} {v : UInt32} {c : Cell} {e : UInt32}

lemma Scene.Ok.not_has (ok : S.Ok) (hc : c ∈ S.cells) :
    (c.oop == 0 || S.space.has c.oop) = false := by
  have := ok.cell_low hc
  have := ok.cell_high hc
  have := ok.halves
  have := c.head_cases
  rw [Scene.has_eq ok, decide_eq_false (by omega)]
  simpa using ok.oop_ne_zero hc

lemma toNat_add_two (h : e.toNat + 2 < 4294967296) : (e + 2).toNat = e.toNat + 2 :=
  toNat_plus h

lemma add_two_sub (e : UInt32) : e + 2 - 2 = e := by
  rw [UInt32.add_sub_cancel]

lemma copyObject_forwarded (ok : S.Ok) (hc : c ∈ S.cells)
    (he : e.toNat % 4 = 0 ∧ e.toNat + 2 < 16777216)
    (hh : Holds s.mem c.oop (e + 2) c.count) {post : UInt32 → Store → Prop}
    (hp : post e s) : Ends (copyObject S.space c.oop) s post := by
  have h2 : (e + 2).toNat % 4 = 2 := by
    rw [toNat_add_two (by omega)]
    omega
  have hb : ((e + 2).toNat % 4 == 2) = true := by simpa using h2
  have hfor := hh.isForwarded
  rw [hb] at hfor
  have htar := hh.forwardTarget h2
  rw [add_two_sub] at htar
  rw [copyObject, if_neg (by simp [ok.not_has hc])]
  refine .read_bind hfor ?_
  exact .read htar hp

section

variable (h : Inv S g s) (ok : S.Ok) (hf : S.Fresh c) (hn : c ∉ g.order)
include h ok hf hn

lemma Inv.last_word (hb : 20 ≤ c.body) : Chunk.lastFrame c.oop s.mem = .ok (g.orig c 16) := by
  have := ok.cell_high hf.mem
  have := ok.bounds
  have := h.mem_size
  have := ok.aligned c hf.mem
  rw [← h.words c 16 hf.mem hf.stays hn rfl hb]
  exact word_eq (.lit 4 rfl) (by omega)

lemma Inv.header_moved :
    Holds (s.mem.move c.start (S.target + total g.order) c.size) c.oop c.kind
      c.count := by
  have hh := h.unmoved c hf.mem hf.stays hn
  have := h.room ok hf hn
  have := ok.cell_low hf.mem
  have := ok.cell_high hf.mem
  have := ok.bounds
  have := h.mem_size
  have := ok.halves
  have := c.head_cases
  have := c.size_eq
  have := c.start_eq
  have hdh : c.head = bytes c.count := rfl
  have hs : c.start + c.size ≤ s.mem.size := by omega
  have ht : S.target + total g.order + c.size ≤ s.mem.size := by omega
  refine hh.congr (size_move hs ht) (peekWord_move_out hs ht (by omega)) fun hc => ?_
  have : c.head = 8 := by rw [hdh, Header.bytes, if_neg (by omega)]
  exact peekWord_move_out hs ht (by omega)

lemma Inv.checked (used : c.isChunk → 20 ≤ c.body ∧ g.orig c 16 ≠ 0) {x : Run UInt32}
    {post : UInt32 → Store → Prop} (hx : Ends x s post) :
    Ends (if (c.kind == S.chunkClass) = true then do
      require ((← Chunk.lastFrame c.oop) != 0)
      x
    else x) s post := by
  by_cases hk : c.kind = S.chunkClass
  · obtain ⟨hroom, hlast⟩ := used (ok.chunk_of_kind c hf hk)
    rw [if_pos (by simpa using hk)]
    refine .read_bind (h.last_word ok hf hn hroom) ?_
    exact .except_bind (a := ()) (by simp [require, hlast]) hx
  · rw [if_neg (by simpa using hk)]
    exact hx

lemma Inv.copy_numbers {block head len : UInt32} (e : c.Extent s.mem c.oop block head len) :
    (head + len).toNat = c.size ∧
      (s.copying.free + (head + len)).toNat = S.target + total g.order + c.size ∧
      (s.copying.free + head).toNat = S.target + total g.order + c.head ∧
      S.target + total g.order + c.size ≤ S.space.stop.toNat ∧
      c.start + c.size ≤ s.mem.size ∧
      S.target + total g.order + c.size ≤ s.mem.size ∧ s.mem.size < 16777216 := by
  have := h.room ok hf hn
  have := ok.cell_high hf.mem
  have := ok.bounds
  have := h.mem_size
  have := c.size_eq
  have := c.start_eq
  have := h.free
  have := e.head_eq
  have := e.len_eq
  have hln : (head + len).toNat = c.size := by
    rw [toNat_plus] <;> omega
  have : S.space.stop.toNat = S.target + S.half := by
    simp only [Scene.space, toNat_ofNat']
    omega
  refine ⟨hln, ?_, ?_, by omega, by omega, by omega, by omega⟩
  · rw [toNat_plus] <;> omega
  · rw [toNat_plus] <;> omega

end

lemma copyObject_fresh (ok : S.Ok) (h : Inv S g s) (hf : S.Fresh c) (hn : c ∉ g.order)
    (used : c.isChunk → 20 ≤ c.body ∧ g.orig c 16 ≠ 0) :
    Ends (copyObject S.space c.oop) s fun v t =>
      Inv S { g with order := g.order ++ [c] } t ∧ S.Image (g.order ++ [c]) c.oop v := by
  have hh := h.unmoved c hf.mem hf.stays hn
  have hkind := ok.kind c hf.mem
  have hb : (c.kind.toNat % 4 == 2) = false := by simp [hkind.1]
  have hfor := hh.isForwarded
  rw [hb] at hfor
  obtain ⟨block, head, len, e⟩ := (ok.typed c hf).extent h.agrees hh
  obtain ⟨hlen, hbehind, hcopy, hstop, hsource, htarget, hmem⟩ := h.copy_numbers ok hf hn e
  have hblock : block.toNat = c.start := e.block_eq
  have := c.head_cases
  have := c.size_eq
  have hfree := h.free
  have := e.head_eq
  have := e.len_eq
  rw [copyObject, if_neg (by simp [ok.not_has hf.mem])]
  refine .read_bind hfor ?_
  rw [if_neg Bool.false_ne_true]
  refine .read_bind (hh.classOf hkind.1 hkind.2.1) ?_
  refine .query_bind (ok.chunkClass s h.rom h.eeprom h.ram h.agrees) ?_
  refine h.checked ok hf hn used ?_
  refine .read_bind e.ofObject ?_
  refine .except_bind e.minus ?_
  refine .read_bind e.bodySize ?_
  refine .except_bind (plus_eq (by omega)) ?_
  refine .get_bind ?_
  refine .except_bind (plus_eq (by omega)) ?_
  have hle : s.copying.free + (head + len) ≤ S.space.stop :=
    le_iff_toNat_le.2 (by omega)
  refine .except_bind (a := ()) (by simp [require, hle]) ?_
  refine .except_bind (plus_eq (by omega)) ?_
  have hne : head + len ≠ 0 := by
    intro h0
    rw [h0] at hlen
    simp at hlen
    omega
  have hap : block ≠ s.copying.free := by
    intro he
    have := ok.halves
    have := ok.cell_low hf.mem
    have := ok.cell_high hf.mem
    have := h.room ok hf hn
    have := c.start_eq
    rw [he] at hblock
    omega
  refine .edit_bind (copyBytes_eq hne hap (by omega) (by omega)) ?_
  refine .modify_bind ?_
  rw [hblock, hfree, hlen]
  have := ok.target_aligned
  have := h.order_aligned ok
  obtain ⟨w, hw, hheld⟩ := (h.header_moved ok hf hn).forwardTo (e := s.copying.free + head)
    (by omega) (by omega)
  refine .edit_bind hw ?_
  refine .say_bind fun log => .pure ⟨?_, ?_⟩
  · apply h.copied ok hf hn hcopy (h.duplicates ok hf hn w) hheld hbehind
    all_goals dsimp only [setLog, setMem]
  · have hp := Placed.last S.target g.order c
    rw [← hcopy] at hp
    exact .copied hf hp

end

lemma copyObject_ends {g : Progress} {s : Store} {v : UInt32} (ok : S.Ok)
    (h : Inv S g s) (hv : S.Leads g v) :
    Ends (copyObject S.space v) s fun v' t => ∃ more,
      Inv S { g with order := g.order ++ more } t ∧ S.Image (g.order ++ more) v v' ∧
        ∀ c ∈ more, c.oop = v := by
  have hnil : Inv S { g with order := g.order ++ [] } s := by
    rw [append_nil]
    exact h
  cases hv with
  | target low high =>
    rw [copyObject, if_pos (by simp [Scene.has_eq ok, low, high])]
    exact .pure ⟨[], hnil, .still (.inr ⟨low, high⟩), by simp⟩
  | @gone c e hm hr he =>
    exact copyObject_forwarded ok hm (ok.gone_aligned c e he) (h.gone c e hm he)
      ⟨[], hnil, .gone hm hr he, by simp⟩
  | @fresh c hf used =>
    by_cases hn : c ∈ g.order
    · obtain ⟨a, ha, hp⟩ := h.place ok hn
      exact copyObject_forwarded ok hf.mem ha (h.moved c a hp)
        ⟨[], hnil, .copied hf (hp.append []), by simp⟩
    · refine (copyObject_fresh ok h hf hn used).mono fun v t ht => ?_
      exact ⟨[c], ht.1, ht.2, by simp⟩

end DeviceVm.Copying
