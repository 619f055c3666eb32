import DeviceVm.Proofs.Bits
import DeviceVm.Proofs.Tiling

/-!
Loops over the marked objects of a space. The bits lead to the objects in the order in which they
lie, so that an invariant can speak of the objects that the loop has come to.
-/

namespace DeviceVm

/-- The stores differ at most in their memory and in the scan of the bits. -/
def Store.Scans (s t : Store) : Prop :=
  t = (s.setMem t.mem).setBits { s.bits with scan := t.bits.scan }

namespace Store.Scans

variable {s t u : Store}

lemma refl (s : Store) : s.Scans s := rfl

section

variable (h : s.Scans t)
include h

lemma setMem (m : Memory) : s.Scans (t.setMem m) :=
  (congrArg (fun r : Store => r.setMem m) h :)

lemma setScan (scan : BitScan) : s.Scans (t.setBits { t.bits with scan }) := by
  rw [h]
  rfl

lemma range : t.bits.range = s.bits.range := (congrArg (·.bits.range) h :)
lemma ram : t.ram = s.ram := (congrArg Store.ram h :)
lemma rom : t.rom = s.rom := (congrArg Store.rom h :)
lemma eeprom : t.eeprom = s.eeprom := (congrArg Store.eeprom h :)
lemma marks : t.marks = s.marks := (congrArg Store.marks h :)
lemma trans (h' : t.Scans u) : s.Scans u := by
  rw [h', h]
  rfl

end

end Store.Scans

/-- Exactly the objects have a bit. -/
def BitRange.Marks (r : BitRange) (m : Memory) (start stop : Nat) (L : List Cell) : Prop :=
  ∀ a, a % 4 = 0 → start < a → a ≤ stop → (r.holds m a = true ↔ ∃ c ∈ L, c.oop.toNat = a)

/-- What a loop over the objects keeps. The invariant `K pre` holds when the objects `pre` have
been visited. -/
structure ObjectLoop {σ : Type} (r : BitRange) (start stop : Nat) (L : List Cell)
    (visit : σ → UInt32 → Run σ) (K : List Cell → σ → Store → Prop) : Prop where
  spread : Spread start L stop
  stop_aligned : stop % 4 = 0
  aligned : ∀ c ∈ L, c.oop.toNat % 4 = 0
  mapped : ∀ {pre acc t}, K pre acc t → t.bits.range = r ∧ r.Mapped t.mem.size
  marks : ∀ {pre acc t}, K pre acc t → r.Marks t.mem start stop L
  blind : ∀ {pre acc t} (scan : BitScan), K pre acc t →
    K pre acc (t.setBits { t.bits with scan })
  step : ∀ {pre c post acc t}, L = pre ++ c :: post → K pre acc t →
    Ends (visit acc c.oop) t fun acc' u => u.bits.scan = t.bits.scan ∧ K (pre ++ [c]) acc' u

namespace ObjectLoop

variable {σ : Type} {r : BitRange} {start stop : Nat} {L : List Cell}
  {visit : σ → UInt32 → Run σ} {K : List Cell → σ → Store → Prop} {s : Store} {acc : σ}

/-- The objects below `a` were handled. -/
def Reaches (L : List Cell) (K : List Cell → σ → Store → Prop) (a : Nat) (acc : σ) (t : Store) :
    Prop :=
  ∃ pre post, L = pre ++ post ∧ (∀ c ∈ pre, c.oop.toNat < a) ∧
    (∀ c ∈ post, a ≤ c.oop.toNat) ∧ K pre acc t

lemma bitLoop (h : ObjectLoop r start stop L visit K) :
    Store.BitLoop r visit (Reaches L K) (start + 4) (stop + 4) where
  mapped := by
    rintro a acc t ⟨pre, post, _, _, _, hk⟩
    exact h.mapped hk
  blind := by
    rintro a acc t scan ⟨pre, post, he, hpre, hpost, hk⟩
    exact ⟨pre, post, he, hpre, hpost, h.blind scan hk⟩
  step := by
    rintro addr acc t hlo hhi h4 hset ⟨pre, post, he, hpre, hpost, hk⟩
    have hs := h.spread
    have := h.stop_aligned
    obtain ⟨c, hc, hca⟩ := (h.marks hk addr.toNat h4 (by omega) (by omega)).1 hset
    -- The object at the address is the first that has not been visited.
    have hcp : c ∈ post := by
      rw [he] at hc
      rcases List.mem_append.1 hc with hc | hc
      · have := hpre c hc
        omega
      · exact hc
    cases post with
    | nil => cases hcp
    | cons d rest =>
      have := hpost d List.mem_cons_self
      have hrest : Spread (d.oop.toNat + d.body) rest stop := by
        rw [he] at hs
        exact hs.behind
      have hcd : c = d := by
        rcases List.mem_cons.1 hcp with hcd | hc
        · exact hcd
        · have := hrest.low hc
          have := c.head_cases
          omega
      subst hcd
      have ha := UInt32.toNat_inj.1 hca
      rw [← ha]
      refine (h.step he hk).mono ?_
      rintro acc' u ⟨hscan, hk'⟩
      refine ⟨hscan, pre ++ [c], rest, by rw [he, List.append_assoc]; rfl, ?_, ?_, hk'⟩
      · intro e hm
        rcases List.mem_append.1 hm with hm | hm
        · have := hpre e hm
          omega
        · rw [List.mem_singleton.1 hm]
          omega
      · intro e hm
        have := hrest.low hm
        have := e.head_cases
        omega
  skip := by
    rintro a acc t hlo hhi h4 hclear ⟨pre, post, he, hpre, hpost, hk⟩
    have := h.stop_aligned
    refine ⟨pre, post, he, fun c hc => ?_, fun c hc => ?_, hk⟩
    · have := hpre c hc
      omega
    have : c.oop.toNat ≠ a := by
      intro hca
      have hset := (h.marks hk a h4 (by omega) (by omega)).mpr
        ⟨c, he ▸ List.mem_append_right pre hc, hca⟩
      rw [hclear] at hset
      cases hset
    have := hpost c hc
    have := h.aligned c (he ▸ List.mem_append_right pre hc)
    omega

lemma foldBits_ends {before last : UInt32}
    (h : ObjectLoop r before.toNat last.toNat L visit K) (hb : before.toNat % 4 = 0)
    (hf : r.first.toNat ≤ before.toNat + 4)
    (hl : last.toNat ≤ r.last.toNat) (hidle : s.bits.scan.active = false) (hk : K [] acc s) :
    Ends (Store.foldBits before last acc visit) s fun acc' t =>
      t.bits.scan.active = false ∧ K L acc' t := by
  have hle : before.toNat ≤ last.toNat := by
    have := h.spread.total_le
    omega
  refine (h.bitLoop.foldBits_ends hb h.stop_aligned hle hf hl hidle ?_).mono ?_
  · refine ⟨[], L, rfl, fun c hc => absurd hc List.not_mem_nil, fun c hc => ?_, hk⟩
    have := h.spread.low hc
    have := c.head_cases
    omega
  rintro acc' t ⟨hidle', pre, post, he, _, hpost, hk'⟩
  have hnil : post = [] := by
    cases post with
    | nil => rfl
    | cons c rest =>
      have := hpost c List.mem_cons_self
      have := h.spread.high (he ▸ List.mem_append_right pre List.mem_cons_self)
      omega
  rw [hnil, List.append_nil] at he
  exact ⟨hidle', he ▸ hk'⟩

end ObjectLoop

lemma Store.foldObjects_ends {σ : Type} {t : Store} {before last : UInt32} {L : List Cell}
    {visit : σ → UInt32 → Run σ} {J : List Cell → σ → Memory → Prop} {acc : σ}
    (hspread : Spread before.toNat L last.toNat) (hb : before.toNat % 4 = 0)
    (hl : last.toNat % 4 = 0) (h4 : ∀ c ∈ L, c.oop.toNat % 4 = 0)
    (hmap : t.bits.range.Mapped t.mem.size) (hfirst : t.bits.range.first.toNat ≤ before.toNat + 4)
    (hlast : last.toNat ≤ t.bits.range.last.toNat)
    (hmarks : t.bits.range.Marks t.mem before.toNat last.toNat L)
    (hidle : t.bits.scan.active = false)
    (bits : ∀ {pre post acc m}, L = pre ++ post → J pre acc m →
      Memory.Agrees t.bits.range.covers t.mem m)
    (step : ∀ {pre c post acc u}, L = pre ++ c :: post → t.Scans u → J pre acc u.mem →
      Ends (visit acc c.oop) u fun acc' u' => ∃ m, u' = u.setMem m ∧ J (pre ++ [c]) acc' m)
    (hj : J [] acc t.mem) :
    Ends (foldBits before last acc visit) t fun acc' u =>
      t.Scans u ∧ u.bits.scan.active = false ∧ J L acc' u.mem := by
  have loop : ObjectLoop t.bits.range before.toNat last.toNat L visit
      fun pre acc u => t.Scans u ∧ (∃ post, L = pre ++ post) ∧ J pre acc u.mem := by
    constructor
    case spread => exact hspread
    case stop_aligned => exact hl
    case aligned => exact h4
    case mapped =>
      rintro pre acc u ⟨hu, ⟨post, he⟩, hj⟩
      rw [(bits he hj).size]
      exact ⟨hu.range, hmap⟩
    case marks =>
      rintro pre acc u ⟨_, ⟨post, he⟩, hj⟩ a ha hlo hhi
      have hn := bits he hj
      have hspan : t.bits.range.Spans a := ⟨ha, by omega, by omega⟩
      rw [BitRange.holds_congr hn.order fun i hi =>
        hn.peek _ (BitRange.Mapped.covers_word hspan hi)]
      exact hmarks a ha hlo hhi
    case blind => exact fun scan hu => ⟨hu.1.setScan scan, hu.2⟩
    case step =>
      rintro pre c post acc u he ⟨hu, _, hj⟩
      refine (step he hu hj).mono ?_
      rintro acc' _ ⟨m, rfl, hm⟩
      exact ⟨rfl, hu.setMem m, ⟨post, by rw [he, List.append_assoc]; rfl⟩, hm⟩
  refine (loop.foldBits_ends hb hfirst hlast hidle ⟨.refl t, ⟨L, rfl⟩, hj⟩).mono ?_
  rintro acc' u ⟨hi, hu, _, hj'⟩
  exact ⟨hu, hi, hj'⟩

end DeviceVm
