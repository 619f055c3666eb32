import DeviceVm.Proofs.Copying.Copy

/-!
Words that are written during a collection: words of copies that are updated, words of the record
of RAM, and links of associations, which may be anywhere.
-/

namespace DeviceVm.Copying

open Progress Memory Header Cell Store Word Traversal

variable {S : Scene} {g g' : Progress} {s : Store} {c d : Cell} {a b v : UInt32} {x y z : Nat}

namespace Inv

lemma header_poke {m : Memory} {o low count : UInt32}
    (hh : Header.Holds m o low count) (hz : z + 4 + bytes count ≤ o.toNat ∨ o.toNat ≤ z) :
    Header.Holds (m.pokeWord z v) o low count := by
  have := hh.four_le
  have := bytes_cases count
  refine hh.congr (by simp) (peekWord_pokeWord_apart v (by omega)) fun hc => ?_
  have : Header.bytes count = 8 := by rw [Header.bytes, if_neg (by omega)]
  exact peekWord_pokeWord_apart v (by omega)

lemma poke (h : Inv S g s) (order : g'.order = g.order) (hscan : g'.scan = g.scan)
    (fixed : ∀ b, S.fixed b → b < z ∨ z + 4 ≤ b)
    (cells : ∀ d ∈ S.cells, z + 4 + d.head ≤ d.oop.toNat ∨ d.oop.toNat ≤ z)
    (places : ∀ d e, Placed S.target g.order d e → z + 4 + d.head ≤ e ∨ e ≤ z)
    (done_lt : ∀ y, g'.done y → y < S.target + total g.order)
    (record : ∀ j < 16,
      (s.mem.pokeWord z v).peekWord (S.ram.start.toNat + 4 * j) = g'.record j)
    (words : ∀ c x, c ∈ S.cells → S.gone c = none → c ∉ g.order → x % 4 = 0 → x + 4 ≤ c.body →
      (s.mem.pokeWord z v).peekWord (c.oop.toNat + x) = g'.orig c x)
    (waiting : ∀ c (a : UInt32) x, Placed S.target g.order c a.toNat → x % 4 = 0 →
      x + 4 ≤ c.body → ¬ g'.done (a.toNat + x) →
      (s.mem.pokeWord z v).peekWord (a.toNat + x) = g'.orig c x)
    (updated : ∀ c (a : UInt32) x, Placed S.target g.order c a.toNat → x % 4 = 0 →
      x + 4 ≤ c.body → g'.done (a.toNat + x) →
      S.Updated g' c a x ((s.mem.pokeWord z v).peekWord (a.toNat + x)))
    (pinned : ∀ c x, c ∈ S.pins → x % 4 = 0 → x + 4 ≤ c.body →
      (s.mem.pokeWord z v).peekWord (c.oop.toNat + x) = g'.orig c x) :
    Inv S g' (s.setMem (s.mem.pokeWord z v)) := by
  have header : ∀ d low, d ∈ S.cells → Header.Holds s.mem d.oop low d.count →
      Header.Holds (s.mem.pokeWord z v) d.oop low d.count :=
    fun d low hd hh => header_poke hh (cells d hd)
  constructor
  case rom => exact h.rom
  case eeprom => exact h.eeprom
  case ram => exact h.ram
  case collecting => exact h.collecting
  case scan => exact h.scan.trans hscan.symm
  case agrees =>
    refine ⟨by simpa using h.agrees.size, by simpa using h.agrees.order, fun y hy => ?_⟩
    have := fixed y hy
    rw [setMem_mem, peek_pokeWord_ne v (by omega), h.agrees.peek y hy]
  case record => exact record
  case pinned => exact pinned
  case gone => exact fun d e hd he => header d _ hd (h.gone d e hd he)
  all_goals rw [order]
  case free => exact h.free
  case nodup => exact h.nodup
  case fresh => exact h.fresh
  case done_lt => exact done_lt
  case unmoved => exact fun d hd hs hn => header d _ hd (h.unmoved d hd hs hn)
  case moved => exact fun d e hq => header d _ (h.fresh d hq.mem).mem (h.moved d e hq)
  case copies => exact fun d e hq => header_poke (h.copies d e hq) (places d _ hq)
  case words => exact words
  case waiting => exact waiting
  case updated => exact updated

lemma recorded (h : Inv S g s) (ok : S.Ok) : s.Recorded where
  aligned := by rw [h.ram, ok.record_aligned]
  inside := by
    have := ok.bounds
    rw [h.ram, h.mem_size]
    omega
  small := by
    have := ok.mem_size
    rw [h.mem_size]
    omega

lemma recorded_eq (h : Inv S g s) {j : Nat} (hj : j < 16) : s.recorded j = g.record j := by
  rw [Store.recorded, h.ram]
  exact h.record j hj

lemma setRecorded (h : Inv S g s) (ok : S.Ok) {j : Nat} (hj : j < 16) (v : UInt32) :
    Inv S { g with record := fun i => if i = j then v else g.record i } (s.setRecorded j v) := by
  have := ok.bounds
  have := h.mem_size
  rw [Store.setRecorded, h.ram]
  refine h.poke rfl rfl ?fixed ?cells ?places h.done_lt ?record ?words ?waiting ?updated ?pinned
  case fixed =>
    intro b hb
    have := ok.fixed_record b hb
    omega
  case cells =>
    intro d hd
    have := ok.cell_low hd
    omega
  case places =>
    intro d e hq
    have := (h.placed_bounds ok hq).1
    omega
  case record =>
    intro i hi
    dsimp only
    by_cases he : i = j
    · rw [if_pos he, he, peekWord_pokeWord_self v (by omega)]
    · rw [if_neg he, peekWord_pokeWord_apart v (by omega), h.record i hi]
  case words =>
    intro d y hd hs hn hy hyb
    have := ok.cell_low hd
    rw [peekWord_pokeWord_apart v (by omega), h.words d y hd hs hn hy hyb]
  case waiting =>
    intro d e y hq hy hyb hn
    have := (h.placed_bounds ok hq).1
    rw [peekWord_pokeWord_apart v (by omega), h.waiting d e y hq hy hyb hn]
  case updated =>
    intro d e y hq hy hyb hd
    have := (h.placed_bounds ok hq).1
    rw [peekWord_pokeWord_apart v (by omega)]
    exact h.updated d e y hq hy hyb hd
  case pinned =>
    intro d y hd hy hyb
    have := ok.pins d hd
    rw [peekWord_pokeWord_apart v (by omega), h.pinned d y hd hy hyb]

end Inv

/-! ### Words of objects -/

/-- Where an object is that is not forwarded: in its place, copied, or outside of the heap. -/
inductive Scene.Spot (S : Scene) (order : List Cell) : Cell → Nat → Prop
  | here {c : Cell} (hm : c ∈ S.cells) (hn : c ∉ order) : Spot S order c c.oop.toNat
  | copy {c : Cell} {a : Nat} (hp : Placed S.target order c a) : Spot S order c a
  | pin {c : Cell} (hc : c ∈ S.pins) : Spot S order c c.oop.toNat

lemma Scene.Ok.cell_ne_pin (ok : S.Ok) (hc : c ∈ S.cells) (hd : d ∈ S.pins)
    (hb : x + 4 ≤ c.body) : c ≠ d := by
  rintro rfl
  have := ok.pins c hd
  have := ok.cell_low hc
  have := ok.cell_high hc
  have := ok.bounds
  omega

namespace Inv

section

variable (h : Inv S g s) (ok : S.Ok)
include h ok

lemma spot_aligned {a : Nat} (hp : S.Spot g.order c a) : a % 4 = 0 := by
  cases hp with
  | here hm hn => exact (ok.aligned c hm).1
  | copy hp => exact h.placed_aligned ok hp
  | pin hp => exact (ok.pins c hp).1

lemma spot_eq {a b : Nat} (hp : S.Spot g.order c a) (hq : S.Spot g.order d b)
    (hx : x + 4 ≤ c.body) (hy : y + 4 ≤ d.body) (he : b + y = a + x ∨ d = c ∧ y = x) :
    b + y = a + x ∧ d = c ∧ y = x := by
  have := ok.bounds
  have := ok.halves
  have off (hd : d ≠ c) (ha : b + y ≠ a + x) : b + y = a + x ∧ d = c ∧ y = x :=
    he.elim (absurd · ha) (absurd ·.1 hd)
  cases hp with
  | here hm hn =>
    have := ok.cell_low hm
    have := ok.cell_high hm
    cases hq with
    | here hm' hn' =>
      by_cases hcd : c = d
      · subst hcd
        simpa using he
      · have := ok.cell_apart hm hm' hcd
        exact off (Ne.symm hcd) (by omega)
    | copy hq =>
      have := h.placed_bounds ok hq
      exact off (fun he => hn (he ▸ hq.mem)) (by omega)
    | pin hq =>
      have := ok.pins d hq
      exact off (ok.cell_ne_pin hm hq hx).symm (by omega)
  | copy hp =>
    have := h.placed_bounds ok hp
    cases hq with
    | here hm hn =>
      have := ok.cell_low hm
      have := ok.cell_high hm
      exact off (fun he => hn (he ▸ hp.mem)) (by omega)
    | copy hq =>
      rcases he with he | ⟨rfl, rfl⟩
      · rcases hp.apart hq with hab | hab | hab
        · exact ⟨he, hab.1.symm, by omega⟩
        · omega
        · omega
      · exact ⟨by rw [hp.unique h.nodup hq], rfl, rfl⟩
    | pin hq =>
      have := ok.pins d hq
      exact off (ok.cell_ne_pin (h.fresh c hp.mem).mem hq hx).symm (by omega)
  | pin hp =>
    have := ok.pins c hp
    cases hq with
    | here hm hn =>
      have := ok.cell_low hm
      have := ok.cell_high hm
      exact off (ok.cell_ne_pin hm hp hy) (by omega)
    | copy hq =>
      have := h.placed_bounds ok hq
      exact off (ok.cell_ne_pin (h.fresh d hq.mem).mem hp hy) (by omega)
    | pin hq =>
      by_cases hcd : c = d
      · subst hcd
        simpa using he
      · have := ok.pins_apart c d hp hq hcd
        exact off (Ne.symm hcd) (by omega)

lemma spot_clear {a : Nat} (hp : S.Spot g.order c a) (hb : x + 4 ≤ c.body) :
    (∀ d ∈ S.cells, a + x + 4 + d.head ≤ d.oop.toNat ∨ d.oop.toNat ≤ a + x) ∧
    (∀ d e, Placed S.target g.order d e → a + x + 4 + d.head ≤ e ∨ e ≤ a + x) ∧
    (a + x + 4 ≤ S.ram.start.toNat ∨ S.ram.start.toNat + 64 ≤ a + x) ∧ a + x + 4 ≤ s.mem.size := by
  have := ok.bounds
  have := ok.halves
  have := h.mem_size
  cases hp with
  | here hm hn =>
    have := ok.cell_low hm
    have := ok.cell_high hm
    refine ⟨fun d hd => ?_, fun d e hq => ?_, by omega, by omega⟩
    · by_cases he : c = d
      · subst he
        omega
      · have := ok.cell_apart hm hd he
        omega
    · have := h.placed_bounds ok hq
      omega
  | copy hp =>
    have := h.placed_bounds ok hp
    refine ⟨fun d hd => ?_, fun d e hq => ?_, by omega, by omega⟩
    · have := ok.cell_low hd
      have := ok.cell_high hd
      omega
    · have := hp.apart hq
      omega
  | pin hp =>
    have := ok.pins c hp
    refine ⟨fun d hd => ?_, fun d e hq => ?_, by omega, by omega⟩
    · have := ok.cell_low hd
      have := ok.cell_high hd
      omega
    · have := h.placed_bounds ok hq
      omega

lemma pokeSpot {a : Nat} (hp : S.Spot g.order c a) (hx : x % 4 = 0) (hb : x + 4 ≤ c.body)
    (fixed : ∀ b, S.fixed b → b < a + x ∨ a + x + 4 ≤ b) (order : g'.order = g.order)
    (hscan : g'.scan = g.scan) (record : g'.record = g.record)
    (other : ∀ d y, ¬ (d = c ∧ y = x) → g'.orig d y = g.orig d y)
    (done : ∀ y, g.done y → g'.done y)
    (done' : ∀ y, g'.done y → g.done y ∨ y = a + x ∧ Placed S.target g.order c a)
    (self : g'.orig c x = v ∨ Placed S.target g.order c a ∧ g'.done (a + x))
    (updated : ∀ e : UInt32, Placed S.target g.order c e.toNat → S.Updated g' c e x v)
    (keeps : ∀ d e y w, S.Fresh d → ¬ (d = c ∧ y = x) → S.Updated g d e y w →
      S.Updated g' d e y w) :
    Inv S g' (s.setMem (s.mem.pokeWord (a + x) v)) := by
  obtain ⟨cells, places, clear, hs⟩ := h.spot_clear ok hp hb
  have := h.spot_aligned ok hp
  -- Another word is as it was, and is that of another object or another one of it.
  have apart : ∀ {d b y}, S.Spot g.order d b → y % 4 = 0 → y + 4 ≤ d.body → b + y ≠ a + x →
      ¬ (d = c ∧ y = x) ∧ (s.mem.pokeWord (a + x) v).peekWord (b + y) = s.mem.peekWord (b + y) := by
    intro d b y hq hy hyb hne
    have := h.spot_aligned ok hq
    exact ⟨fun he => hne (h.spot_eq ok hp hq hb hyb (.inr he)).1,
      peekWord_pokeWord_ne v (by omega) (by omega) hne⟩
  refine h.poke order hscan fixed cells places ?done_lt ?record ?words ?waiting ?updated ?pinned
  case done_lt =>
    intro y hy
    rcases done' y hy with hy | ⟨rfl, hp⟩
    · exact h.done_lt y hy
    · have := h.placed_bounds ok hp
      omega
  case record =>
    intro j hj
    rw [peekWord_pokeWord_apart v (by omega), h.record j hj, record]
  case words =>
    intro d y hd hs' hn hy hyb
    by_cases he : d.oop.toNat + y = a + x
    · obtain ⟨-, rfl, rfl⟩ := h.spot_eq ok hp (.here hd hn) hb hyb (.inl he)
      rw [he, peekWord_pokeWord_self v hs]
      exact (self.resolve_right fun hh => hn hh.1.mem).symm
    · obtain ⟨hne, hw⟩ := apart (.here hd hn) hy hyb he
      rw [hw, h.words d y hd hs' hn hy hyb, other d y hne]
  case waiting =>
    intro d e y hq hy hyb hn
    by_cases he : e.toNat + y = a + x
    · obtain ⟨-, rfl, rfl⟩ := h.spot_eq ok hp (.copy hq) hb hyb (.inl he)
      rw [he, peekWord_pokeWord_self v hs]
      exact (self.resolve_right fun hh => hn (he ▸ hh.2)).symm
    · obtain ⟨hne, hw⟩ := apart (.copy hq) hy hyb he
      rw [hw, h.waiting d e y hq hy hyb fun hd => hn (done _ hd), other d y hne]
  case updated =>
    intro d e y hq hy hyb hd
    by_cases he : e.toNat + y = a + x
    · obtain ⟨-, rfl, rfl⟩ := h.spot_eq ok hp (.copy hq) hb hyb (.inl he)
      rw [he, peekWord_pokeWord_self v hs]
      exact updated e hq
    · obtain ⟨hne, hw⟩ := apart (.copy hq) hy hyb he
      rw [hw]
      exact keeps d e y _ (h.fresh d hq.mem) hne
        (h.updated d e y hq hy hyb ((done' _ hd).resolve_right fun hh => he hh.1))
  case pinned =>
    intro d y hd hy hyb
    by_cases he : d.oop.toNat + y = a + x
    · obtain ⟨-, rfl, rfl⟩ := h.spot_eq ok hp (.pin hd) hb hyb (.inl he)
      rw [he, peekWord_pokeWord_self v hs]
      exact (self.resolve_right fun hh =>
        ok.cell_ne_pin (h.fresh d hh.1.mem).mem hd hb rfl).symm
    · obtain ⟨hne, hw⟩ := apart (.pin hd) hy hyb he
      rw [hw, h.pinned d y hd hy hyb, other d y hne]

lemma update (hp : Placed S.target g.order c a.toNat) (hx : x % 4 = 0) (hb : x + 4 ≤ c.body)
    (hv : S.Updated g c a x v) : Inv S { g with done := also g.done (a.toNat + x) }
      (s.setMem (s.mem.pokeWord (a.toNat + x) v)) := by
  have := h.placed_bounds ok hp
  refine h.pokeSpot ok (.copy hp) hx hb (fun b hb => ?_) rfl rfl rfl (fun _ _ _ => rfl)
    (fun _ => .inl) (fun _ => .imp_right (⟨·, hp⟩)) (.inr ⟨hp, .inr rfl⟩) (fun e he => ?_)
      fun _ _ _ _ _ _ => id
  · have := ok.fixed_target b hb
    omega
  · rwa [UInt32.toNat_inj.1 (he.unique h.nodup hp)]

lemma update_same (hp : Placed S.target g.order c a.toNat) (hx : x % 4 = 0) (hb : x + 4 ≤ c.body)
    (hv : S.Updated g c a x (s.mem.peekWord (a.toNat + x))) :
    Inv S { g with done := also g.done (a.toNat + x) } s := by
  have := h.update ok hp hx hb hv
  rwa [pokeWord_peekWord (h.spot_clear ok (.copy hp) hb).2.2.2] at this

end

end Inv

/-! ### Links of associations -/

/-- Where an object is during the collection. -/
inductive Scene.At (S : Scene) (order : List Cell) : Cell → UInt32 → Prop
  | here {c : Cell} (hf : S.Fresh c) (hn : c ∉ order) : At S order c c.oop
  | copy {c : Cell} {a : UInt32} (hp : Placed S.target order c a.toNat) : At S order c a
  | pin {c : Cell} (hc : c ∈ S.pins) : At S order c c.oop

lemma Scene.At.spot {order : List Cell} (h : S.At order c a) : S.Spot order c a.toNat := by
  cases h with
  | here hf hn => exact .here hf.mem hn
  | copy hp => exact .copy hp
  | pin hc => exact .pin hc

open Classical in

/-- A word that copies are made from was changed. -/
noncomputable def Progress.write (g : Progress) (c : Cell) (x : Nat) (v : UInt32) : Progress :=
  { g with orig := fun d y => if d = c ∧ y = x then v else g.orig d y }

lemma Progress.write_order : (g.write c x v).order = g.order := rfl

lemma Progress.write_self : (g.write c x v).orig c x = v := by
  exact if_pos ⟨rfl, rfl⟩

lemma Progress.write_write (order : List Cell) (w : UInt32) :
    { g.write c x v with order }.write c x w = { g with order }.write c x w := by
  simp only [write, mk.injEq, true_and, and_true]
  funext d y
  split <;> rfl

lemma Progress.write_ne (h : ¬ (d = c ∧ y = x)) : (g.write c x v).orig d y = g.orig d y := by
  exact if_neg h

lemma Scene.Updated.write (hc : ¬ c.isChunk) (hd : S.Fresh d) (hne : ¬ (d = c ∧ y = x))
    {w : UInt32} (h : S.Updated g d b y w) : S.Updated (g.write c x v) d b y w :=
  h.congr hd rfl (write_ne hne) fun _ _ _ he =>
    write_ne fun hh => hc (hh.1 ▸ he)

lemma Scene.Updated.still (hc : ¬ c.isChunk) (hv : S.Still v) :
    S.Updated (g.write c x v) c b x v := by
  unfold Scene.Updated
  rw [role_plain hc, write_self]
  by_cases hr : x / 4 < c.slots ∧ c.refs (x / 4)
  · simpa only [if_pos hr] using .still hv
  · simp only [if_neg hr]

namespace Inv

lemma write (h : Inv S g s) (ok : S.Ok) (hat : S.At g.order c a) (hc : ¬ c.isChunk)
    (hfix : ∀ b, S.fixed b → b < c.oop.toNat ∨ c.oop.toNat + c.body ≤ b)
    (hx : x % 4 = 0) (hb : x + 4 ≤ c.body) (hv : S.Still v) :
    Inv S (g.write c x v) (s.setMem (s.mem.pokeWord (a.toNat + x) v)) := by
  have fixed : ∀ b, S.fixed b → b < a.toNat + x ∨ a.toNat + x + 4 ≤ b := by
    intro b hb
    have := hfix b hb
    cases hat with
    | copy hp =>
      have := h.placed_bounds ok hp
      have := ok.fixed_target b hb
      omega
    | _ => omega
  refine h.pokeSpot ok hat.spot hx hb fixed rfl rfl rfl (fun _ _ => write_ne) (fun _ => id)
    (fun _ => .inl) (.inl write_self) (fun _ _ => .still hc hv) fun _ _ _ _ hd hne hu =>
    hu.write hc hd hne

end Inv

end DeviceVm.Copying
