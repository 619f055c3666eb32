import DeviceVm.Proofs.Sliding.Compaction

/-!
Forwarding words lose nothing. The class of an object and the distance it moves share the low bits
of its class word; both are read back from there, and the element count beside them stays.
-/

namespace DeviceVm

open Memory Word UInt32 Sliding

namespace Classes

variable {C : Classes} {s : Store}

lemma total_le_of_length (h : C.Reads s) (hlen : C.suites.length ≤ 256) :
    total C.suites ≤ 65536 := by
  have main : ∀ l : List (Option Suite), (∀ S ∈ l, size S ≤ 256) → total l ≤ 256 * l.length := by
    intro l
    induction l with
    | nil => exact fun _ => Nat.le_refl 0
    | cons S l ih =>
      intro hl
      have := hl S List.mem_cons_self
      have := ih fun T hT => hl T (List.mem_cons_of_mem S hT)
      rw [total_cons, List.length_cons]
      omega
  have := main C.suites fun S hS => h.size_lt hS
  omega

lemma one_le_of_classOfDense {dense k : UInt32} (h : Store.classOfDense dense s = .ok k) :
    1 ≤ dense := by
  by_contra h1
  obtain rfl : dense = 0 := UInt32.toNat_inj.1 (by
    have := mt le_iff_toNat_le.2 h1
    have := toNat_one
    show dense.toNat = 0
    omega)
  cases h

end Classes

/-- The word in front of `oop` is apart from the suites and classes of the store. -/
def Classes.ReadsBeside (C : Classes) (s : Store) (oop : UInt32) : Prop :=
  ∀ t : Store, t.rom = s.rom → t.eeprom = s.eeprom →
    Agrees (fun b => b < oop.toNat - 4 ∨ oop.toNat ≤ b) s.mem t.mem → C.Reads t

/-- What is read of an object that was forwarded over `delta` bytes. -/
structure Forwarding.Reads (f : Forwarding) (dense oop k delta count : UInt32) (u : Store) :
    Prop where
  low : ∃ low, Header.lowBits oop u.mem = .ok low ∧ low.toNat < 16777216 ∧
    low.toNat = delta.toNat / 4 * 2 ^ f.classBits.toNat + dense.toNat
  classOf : f.classOf oop u = .ok k
  target : ∀ space : Space, space.has oop = true → targetOf f space oop u.mem = .ok (oop - delta)
  elements : Header.elementCount oop u.mem = .ok count
  size : Header.size oop u.mem = .ok (Header.sizeForCount count)

lemma Forwarding.Fits.forward_reads {C : Classes} {s : Store} {f : Forwarding}
    {i j : Nat} {oop k low delta count : UInt32} (hf : f.Fits (Classes.total C.suites))
    (ht : Classes.total C.suites ≤ 4194304) (hk : C.At i j k) (hC : C.ReadsBeside s oop)
    (hh : Header.Holds s.mem oop low count) (h4 : delta.toNat % 4 = 0)
    (hd : delta.toNat ≤ f.maxDelta.toNat) (hle : delta.toNat ≤ oop.toNat) :
    Ends (f.forward oop k delta) s fun _ u => f.Reads (C.denseOf i j) oop k delta count u := by
  have hreads := hC s rfl rfl (.refl _)
  obtain ⟨hdense, -, hn⟩ := hreads.dense ht hk
  obtain ⟨hlow, hlt⟩ := toNat_encode hf hd hn
  refine forward_ends hf hd hn hdense hh fun w hw => ?_
  have hafter : C.Reads (s.setMem (s.mem.pokeWord (oop.toNat - 4) w)) :=
    hC _ rfl rfl (.poked fun b hb => by have := hh.four_le; omega)
  exact {
    low := ⟨_, hw.lowBits, hlt, hlow⟩
    classOf := classOf_eq hf hd hn hw (hafter.dense ht hk).2.1
    target := fun space hs => by
      rw [targetOf, if_pos hs]
      exact target_eq hf hd hn h4 hle hw
    elements := hw.elementCount
    size := hw.size }

/-- Dense numbers count the classes from one on and lead back to them, and a forwarding word holds
the class of its object and the distance it moves. -/
theorem Forwarding.words_lossless {C : Classes} {s : Store} (h : C.Reads s)
    (suites : C.suites.length ≤ 256) (limit : Accepted s.sliding.deltaLimit) :
    (∃ count, Store.classCount s = .ok count ∧ ∀ i j k, C.At i j k →
      ∃ dense, Store.denseNumber k s = .ok dense ∧ 1 ≤ dense ∧ dense ≤ count ∧
        Store.classOfDense dense s = .ok k ∧
        ∀ i' j' k', C.At i' j' k' → Store.denseNumber k' s = .ok dense → k' = k) ∧
    Ends ofClasses s fun f t => 4 ≤ f.maxDelta ∧ ∀ i j k oop low delta count, C.At i j k →
      C.ReadsBeside s oop → Header.Holds s.mem oop low count → delta.toNat % 4 = 0 →
      delta ≤ f.maxDelta → delta ≤ oop →
      ∃ dense, Store.denseNumber k s = .ok dense ∧
        Ends (f.forward oop k delta) t fun _ u => f.Reads dense oop k delta count u := by
  have := Classes.total_le_of_length h suites
  have ht : Classes.total C.suites ≤ 4194304 := by omega
  constructor
  · obtain ⟨count, hcount, hn⟩ := h.classCount_eq ht
    refine ⟨count, hcount, fun i j k hk => ?_⟩
    obtain ⟨hdense, hback, hle⟩ := h.dense ht hk
    refine ⟨_, hdense, Classes.one_le_of_classOfDense hback, le_iff_toNat_le.mpr (by omega), hback,
      fun i' j' k' hk' he => ?_⟩
    have hback' := (h.dense ht hk').2.1
    rw [(h.dense ht hk').1] at he
    rw [Except.ok.inj he, hback] at hback'
    exact (Except.ok.inj hback').symm
  · refine (ofClasses_ends h ht limit).mono ?_
    rintro f _ ⟨hf, log, rfl⟩
    refine ⟨le_iff_toNat_le.mpr hf.positive, ?_⟩
    intro i j k oop low delta count hk hC hh h4 hd hle
    refine ⟨C.denseOf i j, (h.dense ht hk).1, ?_⟩
    exact hf.forward_reads ht hk hC hh h4 (le_iff_toNat_le.mp hd)
      (le_iff_toNat_le.mp hle)

/-- An array of the sample is forwarded by a word. -/
theorem Forwarding.words_lossless_sample :
    (∃ dense, Store.denseNumber 192 sampleStore = .ok dense ∧
      Store.classOfDense dense sampleStore = .ok 192) ∧
    Ends ofClasses sampleStore fun f t => ∃ dense,
      Ends (f.forward 532 192 4) t fun _ u => f.Reads dense 532 192 4 1 u := by
  have hat : sampleClasses.At 0 21 192 := ⟨⟨_, rfl, rfl⟩, by decide⟩
  have hbeside : sampleClasses.ReadsBeside sampleStore 532 := fun t _ he hm =>
    sampleClasses_reads (by rw [he]; rfl) (hm.mono fun b hb =>
      .inl (Nat.lt_of_lt_of_le hb (by decide)))
  have hh : Header.Holds sampleStore.mem 532 192 1 :=
    (by decide : Sample.Laid sampleRam (Sample.array 532 1)).holds
  obtain ⟨⟨count, -, hdense⟩, hends⟩ := words_lossless (hbeside _ rfl rfl (.refl _)) (by decide)
    (by intro l hl; cases hl)
  obtain ⟨dense, hd, -, -, hback, -⟩ := hdense _ _ _ hat
  refine ⟨⟨dense, hd, hback⟩, hends.mono ?_⟩
  rintro f t ⟨h4, hf⟩
  obtain ⟨dense, -, hf⟩ := hf _ _ _ _ _ 4 _ hat hbeside hh (by decide) h4 (by decide)
  exact ⟨dense, hf⟩

end DeviceVm
