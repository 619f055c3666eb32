import DeviceVm.Interpreter.Exceptions
import DeviceVm.Proofs.Access
import DeviceVm.Proofs.Word
import Mathlib.Data.Finset.Card
import Mathlib.Order.Interval.Finset.Nat

/-!
Exception tables. `Class.Ascends` lists the numbers of a class and of its superclasses; a class
inherits from those and from no others. The handler that is found for an exception is the first row
of the table that covers the offset and names one of these classes.
-/

namespace DeviceVm

open List Memory UInt32 Read DeviceVm.Class

lemma Read.of_bind {α β : Type} {m : Memory} {r : Read α} {f : α → Read β} {b : β}
    (h : (r >>= f) m = .ok b) : ∃ a, r m = .ok a ∧ f a m = .ok b := by
  have h : (r m >>= fun a => f a m) = .ok b := h
  cases hr : r m with
  | ok a =>
    rw [hr] at h
    exact ⟨a, rfl, h⟩
  | error e =>
    rw [hr] at h
    cases h

/-! ### Superclasses -/

/-- The class `k` and its superclasses, upwards, have these numbers. -/
inductive Class.Ascends (fixed : Nat → Prop) (m : Memory) : UInt32 → List UInt32 → Prop
  | root : Ascends fixed m 0 []
  | above {k up number : UInt32} {numbers : List UInt32} (some_class : k ≠ 0)
      (number_eq : Settled fixed m (Class.number k) number)
      (up_eq : Settled fixed m (superClass k) up) (rest : Ascends fixed m up numbers) :
      Ascends fixed m k (number :: numbers)

namespace Class.Ascends

variable {fixed : Nat → Prop} {m n : Memory} {k target : UInt32} {numbers others : List UInt32}

lemma unique (h : Ascends fixed m k numbers) (h' : Ascends fixed m k others) :
    numbers = others := by
  induction h generalizing others with
  | root =>
    cases h' with
    | root => rfl
    | above some_class _ _ _ => exact absurd rfl some_class
  | above some_class number_eq up_eq _ ih =>
    cases h' with
    | root => exact absurd rfl some_class
    | above _ number_eq' up_eq' rest' =>
      obtain rfl := number_eq.unique number_eq'
      obtain rfl := up_eq.unique up_eq'
      rw [ih rest']

lemma lt_size_of_number (h : Settled fixed m (number k) target) : k.toNat < m.size := by
  have hr := h.here
  by_contra hlt
  have hnr : ¬ (k % 4 == 0 && readable k 4 m) = true := by
    rw [Bool.and_eq_true, readable, decide_eq_true_eq]
    omega
  have hword : number k m = wordAt (k + 0) m := rfl
  rw [hword, UInt32.add_zero, Memory.wordAt, if_neg hnr] at hr
  cases hr

lemma classes (h : Ascends fixed m k numbers) : ∃ ks : List UInt32, ks.length = numbers.length ∧
    ks.Nodup ∧ ∀ x ∈ ks, x.toNat < m.size ∧
      ∃ ns, Ascends fixed m x ns ∧ ns.length ≤ numbers.length := by
  induction h with
  | root => exact ⟨[], rfl, .nil, fun x hx => by cases hx⟩
  | @above k up number numbers some_class number_eq up_eq rest ih =>
    obtain ⟨ks, hlen, hnodup, hks⟩ := ih
    have hk := above some_class number_eq up_eq rest
    refine ⟨k :: ks, by rw [length_cons, length_cons, hlen], ?_, ?_⟩
    · refine nodup_cons.2 ⟨fun hmem => ?_, hnodup⟩
      obtain ⟨-, ns, hns, hle⟩ := hks k hmem
      rw [← hk.unique hns, length_cons] at hle
      omega
    · intro x hx
      rcases mem_cons.1 hx with rfl | hx
      · exact ⟨lt_size_of_number number_eq, _, hk, Nat.le_refl _⟩
      · obtain ⟨hlt, ns, hns, hle⟩ := hks x hx
        exact ⟨hlt, ns, hns, Nat.le_succ_of_le hle⟩

lemma length_le (h : Ascends fixed m k numbers) : numbers.length ≤ m.size := by
  obtain ⟨ks, hlen, hnodup, hks⟩ := h.classes
  have hinj : (ks.map toNat).Nodup :=
    (List.nodup_map_iff fun _ _ h => UInt32.toNat_inj.1 h).2 hnodup
  have hsub : (ks.map toNat).toFinset ⊆ Finset.range m.size := by
    intro b hb
    obtain ⟨x, hx, rfl⟩ := mem_map.1 (mem_toFinset.1 hb)
    exact Finset.mem_range.2 (hks x hx).1
  have hcard := Finset.card_le_card hsub
  rwa [toFinset_card_of_nodup hinj, length_map, Finset.card_range, hlen] at hcard

lemma inheritsWithin (h : Ascends fixed m k numbers) (hn : Agrees fixed m n) {fuel : Nat}
    (enough : numbers.length < fuel) :
    inheritsWithin target fuel k n = .ok (decide (target ∈ numbers)) := by
  induction h generalizing fuel with
  | root =>
    rcases fuel with _ | fuel
    · omega
    rfl
  | @above k up number numbers some_class number_eq up_eq rest ih =>
    rw [length_cons] at enough
    rcases fuel with _ | fuel
    · omega
    rw [Class.inheritsWithin, if_neg (by simpa using some_class), Read.bind_ok (number_eq n hn)]
    by_cases heq : number = target
    · rw [if_pos (by simpa using heq), decide_eq_true (mem_cons.2 (.inl heq.symm))]
      rfl
    · rw [if_neg (by simpa using heq), bind_ok (up_eq n hn), ih (by omega)]
      exact congrArg Except.ok (decide_eq_decide.mpr
        ⟨fun h => mem_cons_of_mem _ h, fun h => (mem_cons.1 h).resolve_left (Ne.symm heq)⟩)

lemma inherits (h : Ascends fixed m k numbers) :
    Settled fixed m (inherits k target) (decide (target ∈ numbers)) := by
  intro n hn
  refine h.inheritsWithin hn ?_
  have := h.length_le
  have := hn.size
  omega

end Class.Ascends

/-! ### Tables -/

/-- The row covers the offset and catches one of the classes. -/
def Handler.catches (h : Handler) (offset : UInt32) (numbers : List UInt32) : Bool :=
  h.covers offset && decide (h.classNumber ∈ numbers)

namespace Exec

variable {mem : Memory} {mp first k offset i : UInt32} {rows : Nat} {numbers : List UInt32}
  {table : List Handler}

lemma handlerFrom_eq
    (inherits : ∀ target, inherits k target mem = .ok (decide (target ∈ numbers)))
    (read : Method.handlersFrom mp first rows i mem = .ok table) :
    handlerFrom mp first k offset rows i mem = .ok (table.find? (·.catches offset numbers)) := by
  induction rows generalizing i table with
  | zero =>
    cases read
    rfl
  | succ rows ih =>
    obtain ⟨row, hrow, read⟩ := of_bind read
    obtain ⟨rest, hrest, read⟩ := of_bind read
    cases read
    rw [handlerFrom, bind_ok hrow, find?_cons]
    cases hc : row.covers offset with
    | false =>
      rw [Handler.catches, hc, if_neg Bool.false_ne_true]
      exact ih hrest
    | true =>
      rw [Handler.catches, hc, if_pos rfl, bind_ok (inherits _)]
      cases hm : decide (row.classNumber ∈ numbers) with
      | true => rfl
      | false => exact ih hrest

lemma findHandler_eq {fixed : Nat → Prop} {m : Memory}
    (classes : Ascends fixed m k numbers) (read : Settled fixed m (Method.handlers mp) table) :
    Settled fixed m (findHandler mp k offset) (table.find? (·.catches offset numbers)) := by
  intro n hn
  have hread := read n hn
  obtain ⟨rows, hrows, hread⟩ := of_bind hread
  rw [findHandler, bind_ok hrows]
  exact handlerFrom_eq (fun target => classes.inherits n hn) hread

end Exec

namespace Method

variable {mem : Memory} {mp first i : UInt32} {rows : Nat} {table : List Handler} {h : Handler}

lemma target_lt_of_readAt {addr : UInt32} (read : Handler.readAt addr mem = .ok h) :
    h.target.toNat < 65536 := by
  obtain ⟨start, -, read⟩ := of_bind read
  obtain ⟨_, -, read⟩ := of_bind read
  obtain ⟨stop, -, read⟩ := of_bind read
  obtain ⟨_, -, read⟩ := of_bind read
  obtain ⟨target, -, read⟩ := of_bind read
  obtain ⟨_, -, read⟩ := of_bind read
  obtain ⟨number, -, read⟩ := of_bind read
  cases read
  exact target.toNat_lt

lemma target_lt (read : handlersFrom mp first rows i mem = .ok table) (mem_table : h ∈ table) :
    h.target.toNat < 65536 := by
  induction rows generalizing i table with
  | zero =>
    cases read
    cases mem_table
  | succ rows ih =>
    obtain ⟨row, hrow, read⟩ := of_bind read
    obtain ⟨rest, hrest, read⟩ := of_bind read
    cases read
    rcases mem_cons.1 mem_table with rfl | hmem
    · obtain ⟨_, -, hrow⟩ := of_bind hrow
      obtain ⟨_, -, hrow⟩ := of_bind hrow
      obtain ⟨_, -, hrow⟩ := of_bind hrow
      exact target_lt_of_readAt hrow
    · exact ih hrest hmem

lemma target_lt_of_handlers (read : handlers mp mem = .ok table) (mem_table : h ∈ table) :
    h.target.toNat < 65536 := by
  obtain ⟨_, -, read⟩ := of_bind read
  exact target_lt read mem_table

lemma lt_size_of_headerSize {size : UInt32} (read : headerSize mp mem = .ok size) :
    mp.toNat < mem.size := by
  obtain ⟨b, hb, -⟩ := of_bind read
  by_contra hlt
  have hnr : ¬ readable mp 1 mem = true := by
    rw [readable, decide_eq_true_eq]
    omega
  have hbyte : byte mp 0 mem = readAt (mp + 0) 1 peek mem := rfl
  rw [hbyte, UInt32.add_zero, Memory.readAt, if_neg hnr] at hb
  cases hb

end Method

end DeviceVm
