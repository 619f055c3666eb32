import DeviceVm.Store.ClassTable
import DeviceVm.Proofs.Record

/-!
The classes of a store as suites of classes. The dense number of a class counts the classes of all
suites in front of its own, and it leads back to the class.
-/

namespace DeviceVm

open List Memory UInt32 Header Store Word Read

/-- A suite with the table of its classes. -/
structure Suite where
  oop : UInt32
  classes : UInt32
  members : List UInt32

/-- The table of suites. A suite that was not loaded leaves its entry empty. -/
structure Classes where
  table : UInt32
  suites : List (Option Suite)

namespace Classes

def size : Option Suite → Nat
  | none => 0
  | some S => S.members.length

def address : Option Suite → UInt32
  | none => 0
  | some S => S.oop

def total (suites : List (Option Suite)) : Nat := (suites.map size).sum

/-- A class with the number of its suite and its position in it. -/
structure At (C : Classes) (i j : Nat) (k : UInt32) : Prop where
  suite : ∃ S, C.suites[i]? = some (some S) ∧ S.members[j]? = some k
  ne_zero : k ≠ 0

/-- Classes are counted without gaps through all suites, from 1 on. -/
def denseOf (C : Classes) (i j : Nat) : UInt32 := ofNat (1 + total (C.suites.take i) + j)

/-- The store holds the table: each number of a class leads to it and back. -/
structure Reads (C : Classes) (s : Store) : Prop where
  table : suiteTable s = .ok C.table
  length : elementCount C.table s.mem = .ok (ofNat C.suites.length)
  length_lt : C.suites.length < 16777216
  suite : ∀ i : UInt32, ∀ S, C.suites[i.toNat]? = some S →
    word C.table i.toInt32 s.mem = .ok (address S)
  suite_ne : ∀ S, some S ∈ C.suites → S.oop ≠ 0
  classes : ∀ S, some S ∈ C.suites → suiteClasses S.oop s.mem = .ok S.classes ∧
    elementCount S.classes s.mem = .ok (ofNat (size (some S)))
  short : ∀ S, some S ∈ C.suites → S.members.length ≤ 256
  member : ∀ S, some S ∈ C.suites → ∀ j : UInt32, ∀ k, S.members[j.toNat]? = some k →
    word S.classes j.toInt32 s.mem = .ok k
  number : ∀ i j k, C.At i j k →
    Class.number k s.mem = .ok (ofNat (256 * i + j)) ∧ 0 < 256 * i + j
  /-- Each class has a word of its own. -/
  few : 4 * total C.suites ≤ s.mem.size

lemma total_cons (S : Option Suite) (l : List (Option Suite)) :
    total (S :: l) = size S + total l := by
  rw [total, map_cons, sum_cons, total]

lemma total_append (l l' : List (Option Suite)) : total (l ++ l') = total l + total l' := by
  rw [total, map_append, sum_append, total, total]

lemma drop_eq_cons {l : List (Option Suite)} {i : Nat} {S : Option Suite} (h : l[i]? = some S) :
    l.drop i = S :: l.drop (i + 1) := by
  obtain ⟨hlt, hx⟩ := List.getElem?_eq_some_iff.1 h
  rw [List.drop_eq_getElem_cons hlt, hx]

namespace Reads

variable {C : Classes} {s : Store} {i index sum : UInt32} {n j : Nat} {k : UInt32}

section

variable (h : C.Reads s) {S : Option Suite}
include h

lemma suiteSize_eq (hi : C.suites[i.toNat]? = some S) :
    suiteSize C.table i s.mem = .ok (ofNat (size S)) := by
  rw [suiteSize, bind_ok (h.suite i S hi)]
  cases S with
  | none => rfl
  | some S =>
    have hS := mem_of_getElem? hi
    have hne : ¬ (S.oop == 0) = true := by simpa using h.suite_ne S hS
    rw [address, if_neg hne, bind_ok (h.classes S hS).1]
    exact (h.classes S hS).2

lemma size_lt (hS : S ∈ C.suites) : size S ≤ 256 := by
  cases S with
  | none => exact Nat.zero_le _
  | some S => exact h.short S hS

lemma toNat_size (hS : S ∈ C.suites) :
    (ofNat (size S)).toNat = size S := by
  have := h.size_lt hS
  exact toNat_nat (by omega)

lemma succ_eq (hi : i.toNat < C.suites.length) : (i + 1).toNat = i.toNat + 1 := by
  have := h.length_lt
  exact toNat_plus (by show i.toNat + 1 < 4294967296; omega)

lemma sumSizes_eq (hn : i.toNat + n ≤ C.suites.length)
    (hs : sum.toNat + total ((C.suites.drop i.toNat).take n) < 4294967296) :
    ∃ r, sumSizes C.table n i sum s.mem = .ok r ∧
      r.toNat = sum.toNat + total ((C.suites.drop i.toNat).take n) := by
  induction n generalizing i sum with
  | zero => exact ⟨sum, rfl, rfl⟩
  | succ n ih =>
    have hlt : i.toNat < C.suites.length := by omega
    obtain ⟨S, hS⟩ : ∃ S, C.suites[i.toNat]? = some S := ⟨_, getElem?_eq_getElem hlt⟩
    have hmem := mem_of_getElem? hS
    have hdrop := drop_eq_cons hS
    have hsucc := h.succ_eq hlt
    have hsize := h.toNat_size hmem
    rw [hdrop, take_succ_cons, total_cons] at hs ⊢
    have hplus : (sum + ofNat (size S)).toNat = sum.toNat + size S := by
      rw [toNat_plus (by omega), hsize]
    obtain ⟨r, hr, hv⟩ := @ih (i + 1) (sum + ofNat (size S)) (by omega)
      (by rw [hplus, hsucc]; omega)
    refine ⟨r, ?_, ?_⟩
    · rw [sumSizes, bind_ok (h.suiteSize_eq hS), lift_ok (plus_eq (by omega))]
      exact hr
    · rw [hv, hplus, hsucc]
      omega

lemma count_eq : (liftM (elementCount C.table) : Query UInt32) s =
      .ok (ofNat C.suites.length) :=
  h.length

lemma toNat_length : (ofNat C.suites.length).toNat = C.suites.length := by
  have := h.length_lt
  exact toNat_nat (by omega)

lemma total_le (hs : s.mem.size ≤ 16777216) : total C.suites ≤ 4194304 := by
  have := h.few
  omega

lemma classCount_eq (hs : total C.suites ≤ 4194304) :
    ∃ r, classCount s = .ok r ∧ r.toNat = total C.suites := by
  have hall : (C.suites.drop (0 : UInt32).toNat).take C.suites.length = C.suites := by
    rw [UInt32.toNat_zero, List.drop_zero, List.take_length]
  have h0 := UInt32.toNat_zero
  obtain ⟨r, hr, hv⟩ := @sumSizes_eq C s 0 0 C.suites.length h (by omega) (by rw [hall]; omega)
  refine ⟨r, ?_, by rw [hv, hall, h0]; omega⟩
  rw [classCount, Query.bind_ok h.table, Query.bind_ok h.count_eq, h.toNat_length]
  exact hr

lemma classFrom_eq {d : Nat} {S : Suite} (hS : C.suites[i.toNat + d]? = some (some S))
    (hk : S.members[j]? = some k)
    (hindex : index.toNat = total ((C.suites.drop i.toNat).take d) + j) (hn : d < n) :
    classFrom C.table n i index s.mem = .ok k := by
  induction n generalizing i index d with
  | zero => omega
  | succ n ih =>
    have hlt : i.toNat < C.suites.length := by
      have := (List.getElem?_eq_some_iff.1 hS).1
      omega
    obtain ⟨T, hT⟩ : ∃ T, C.suites[i.toNat]? = some T := ⟨_, getElem?_eq_getElem hlt⟩
    have hmem := mem_of_getElem? hT
    have hjlt : j < S.members.length := (List.getElem?_eq_some_iff.1 hk).1
    rw [classFrom, bind_ok (h.suite i T hT)]
    cases d with
    | zero =>
      -- The suite of the class.
      obtain rfl : T = some S := by
        rw [Nat.add_zero, hT] at hS
        exact Option.some.inj hS
      have hj : index.toNat = j := by simpa [total] using hindex
      have hlen := h.toNat_size hmem
      have hless : index < ofNat (size (some S)) := by
        rw [lt_iff_toNat_lt, hlen, hj]
        exact hjlt
      have hne : ¬ (S.oop == 0) = true := by simpa using h.suite_ne S hmem
      rw [address, if_neg hne, bind_ok (h.classes S hmem).1,
        bind_ok (h.classes S hmem).2, if_pos hless]
      exact h.member S hmem index k (hj ▸ hk)
    | succ d =>
      have hsucc := h.succ_eq hlt
      rw [drop_eq_cons hT, take_succ_cons, total_cons] at hindex
      have hS' : C.suites[(i + 1).toNat + d]? = some (some S) := by
        rw [hsucc, ← hS]
        congr 1
        omega
      cases T with
      | none =>
        refine ih hS' ?_ (by omega)
        rw [hsucc, hindex, size]
        omega
      | some T =>
        have hlen := h.toNat_size hmem
        have hless : ¬ index < ofNat (size (some T)) := by
          rw [lt_iff_toNat_lt, hlen]
          omega
        have hne : ¬ (T.oop == 0) = true := by simpa using h.suite_ne T hmem
        rw [address, if_neg hne, bind_ok (h.classes T hmem).1,
          bind_ok (h.classes T hmem).2, if_neg hless]
        refine ih hS' ?_ (by omega)
        rw [hsucc]
        have := toNat_minus (a := index) (b := ofNat (size (some T))) (by omega)
        omega

lemma dense (hs : total C.suites ≤ 4194304) {i : Nat} (hk : C.At i j k) :
    Store.denseNumber k s = .ok (C.denseOf i j) ∧ Store.classOfDense (C.denseOf i j) s = .ok k ∧
      (C.denseOf i j).toNat ≤ total C.suites := by
  obtain ⟨hnumber, hpos⟩ := h.number i j k hk
  obtain ⟨⟨S, hS, hj⟩, _⟩ := hk
  have hmem := mem_of_getElem? hS
  have := h.short S hmem
  have hilt := (List.getElem?_eq_some_iff.1 hS).1
  have := (List.getElem?_eq_some_iff.1 hj).1
  have := h.length_lt
  have hnum : (ofNat (256 * i + j)).toNat = 256 * i + j :=
    toNat_nat (by omega)
  generalize ofNat (256 * i + j) = number at hnumber hnum
  have hsuite : (number >>> 8).toNat = i := by
    rw [UInt32.toNat_shiftRight, hnum]
    show (256 * i + j) >>> 8 = i
    omega
  have hindex : (number &&& 0xff).toNat = j := by
    rw [UInt32.toNat_and, hnum, show (0xff : UInt32).toNat = 2 ^ 8 - 1 from rfl,
      Nat.and_two_pow_sub_one_eq_mod]
    omega
  have : total (C.suites.take i) + j < total C.suites := by
    have h1 := total_append (C.suites.take i) (C.suites.drop i)
    rw [take_append_drop, drop_eq_cons hS, total_cons] at h1
    have : size (some S) = S.members.length := rfl
    omega
  have h0 := UInt32.toNat_zero
  have h1 := toNat_one
  have : (1 + (number &&& 0xff)).toNat = 1 + j := by
    rw [toNat_plus (by omega), hindex, h1]
  obtain ⟨r, hr, hv⟩ := @sumSizes_eq C s 0 (1 + (number &&& 0xff)) i h (by omega) (by
    rw [h0, drop_zero]
    omega)
  rw [h0, drop_zero] at hv
  have hnumber' := hnumber
  have hne : number ≠ 0 := fun he => by
    rw [he, h0] at hnum
    omega
  have hre : r = C.denseOf i j := UInt32.toNat_inj.1 (by
    rw [denseOf, toNat_nat (by omega)]
    omega)
  rw [← hre]
  refine ⟨?_, ?_, by omega⟩
  · rw [denseNumber, Query.bind_ok hnumber',
      Query.lift_ok (a := ()) (by simp [require, hne]), Query.bind_ok h.table, hsuite]
    exact hr
  have hrne : r ≠ 0 := fun he => by
    rw [he, h0] at hv
    omega
  rw [classOfDense, Query.lift_ok (a := ()) (by simp [require, hrne]),
    Query.bind_ok h.table, Query.bind_ok h.count_eq, h.toNat_length]
  refine @classFrom_eq C s 0 (r - 1) C.suites.length j k h i S ?_ hj ?_ hilt
  · rw [h0, Nat.zero_add]
    exact hS
  · rw [toNat_minus (by omega), h0, drop_zero]
    omega

end

end Reads

end Classes

end DeviceVm
