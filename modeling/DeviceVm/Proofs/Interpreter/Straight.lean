import DeviceVm.Proofs.Interpreter.Fetching

/-!
Work that leaves the instruction pointer alone. Apart from the reading of code, only the transfer of
control sets it: an instruction that is performed and does not transfer control goes on behind its
operand.
-/

namespace DeviceVm

namespace Exec

/-- Whatever the work comes to, the next instruction stays the next. -/
class KeepsIp {α : Type} (x : Exec α) : Prop where
  ip_eq : ∀ {m a n}, x m = .ok a n → n.ip = m.ip

/-- Work of the kind does not know of the instruction pointer. -/
class Apart (work : Type → Type) [MonadLiftT work Exec] : Prop where
  ip_eq : ∀ {α : Type} {x : work α} {m a n}, (liftM x : Exec α) m = .ok a n → n.ip = m.ip

instance : Apart (EStateM Fault Store) where
  ip_eq h := by
    simp only [liftM, monadLift, MonadLift.monadLift] at h
    split at h <;> cases h
    rfl

instance : Apart (EStateM Fault Memory) where
  ip_eq h := by
    simp only [liftM, monadLift, MonadLift.monadLift] at h
    split at h <;> cases h
    rfl

instance : Apart (ReaderT Store (Except Fault)) where
  ip_eq h := by
    simp only [liftM, monadLift, MonadLift.monadLift] at h
    split at h <;> cases h
    rfl

instance : Apart (ReaderT Memory (Except Fault)) where
  ip_eq h := by rw [(read_eq_ok.1 h).2]

instance : Apart (Except Fault) where
  ip_eq h := by rw [(except_eq_ok.1 h).2]

namespace KeepsIp

-- The longest instructions are a search through more instances than are allowed otherwise.
set_option synthInstance.maxSize 500

variable {α β : Type}

instance pure {a : α} : KeepsIp (Pure.pure a) where
  ip_eq h := by
    cases h
    rfl

instance throw {e : Fault} : KeepsIp (MonadExcept.throw e : Exec α) where
  ip_eq h := by cases h

instance lift {work : Type → Type} [MonadLiftT work Exec] [Apart work] {x : work α} :
    KeepsIp (liftM x : Exec α) where
  ip_eq := Apart.ip_eq

instance bind {x : Exec α} {f : α → Exec β} [hx : KeepsIp x] [hf : ∀ a, KeepsIp (f a)] :
    KeepsIp (x >>= f) where
  ip_eq h := by
    obtain ⟨a, n, hx, hf⟩ := bind_eq_ok.1 h
    exact (ip_eq hf).trans (ip_eq hx)

instance ite {p : Prop} [Decidable p] {x y : Exec α} [hx : KeepsIp x] [hy : KeepsIp y] :
    KeepsIp (if p then x else y) := by
  split <;> infer_instance

lemma bind_of {x : Exec α} {f : α → Exec β} (hx : KeepsIp x) (hf : ∀ a, KeepsIp (f a)) :
    KeepsIp (x >>= f) :=
  bind

lemma ite_of {p : Prop} [Decidable p] {x y : Exec α} (hx : KeepsIp x) (hy : KeepsIp y) :
    KeepsIp (if p then x else y) :=
  ite

instance get : KeepsIp (MonadState.get : Exec Machine) where
  ip_eq h := by
    cases h
    rfl

/-- Any registers but the one may be set. -/
instance set {store : Machine → Store} {sp lp cp sl : Machine → UInt32} {branches : Machine → Nat}
    {worked : Machine → Bool} {output : Machine → Array (OutputStream × String)} :
    KeepsIp (modify fun s => { s with
      store := store s, sp := sp s, lp := lp s, cp := cp s, sl := sl s, branchesLeft := branches s,
      collectionWorked := worked s, output := output s }) where
  ip_eq h := by
    cases h
    rfl

/-! ### Operands, frames and contexts -/

instance {flag} : KeepsIp (traces flag) := by
  unfold traces
  infer_instance

instance {stream text} : KeepsIp (print stream text) := by
  unfold print
  infer_instance

instance {v} : KeepsIp (push v) := by
  unfold push
  infer_instance

instance : KeepsIp pop := by
  unfold pop
  infer_instance

instance : KeepsIp popInt := by
  unfold popInt
  infer_instance

instance {v} : KeepsIp (pushInt v) := by
  unfold pushInt
  infer_instance

instance {b} : KeepsIp (pushBool b) := by
  unfold pushBool
  infer_instance

instance {v} : KeepsIp (pushLong v) := by
  unfold pushLong
  infer_instance

instance : KeepsIp popLong := by
  unfold popLong
  infer_instance

instance : KeepsIp clearOperands := by
  unfold clearOperands
  infer_instance

instance {call} : KeepsIp (raise call) := by
  unfold raise
  infer_instance

instance {ip} : KeepsIp (saveContext ip) := by
  unfold saveContext
  infer_instance

instance {start} : KeepsIp (collectAndRetry start) := by
  unfold collectAndRetry
  infer_instance

instance {current chunk mp} : KeepsIp (moveFrame current chunk mp) := by
  unfold moveFrame
  dsimp only
  repeat' first
    | with_reducible refine bind_of ?_ fun _ => ?_
    | with_reducible refine ite_of ?_ ?_
    | infer_instance

instance {top fuel} : KeepsIp (clearLocals top fuel) := by
  induction fuel with
  | zero =>
    unfold clearLocals
    infer_instance
  | succ fuel ih =>
    unfold clearLocals
    infer_instance

instance {start operands} : KeepsIp (extendFrame start operands) := by
  unfold extendFrame
  dsimp only
  repeat' first
    | with_reducible refine bind_of ?_ fun _ => ?_
    | with_reducible refine ite_of ?_ ?_
    | infer_instance

instance {call} : KeepsIp (supportMethod call) := by
  unfold supportMethod
  infer_instance

instance {call argument} : KeepsIp (newContext call argument) := by
  unfold newContext
  refine bind_of inferInstance fun (k, mp) => ?_
  dsimp only
  repeat' first
    | with_reducible refine bind_of ?_ fun _ => ?_
    | with_reducible refine ite_of ?_ ?_
    | infer_instance

/-! ### Access -/

instance {subject} : KeepsIp (fieldOwner subject) := by
  cases subject <;> unfold fieldOwner <;> infer_instance

instance {subject} : KeepsIp (staticOwner subject) := by
  cases subject <;> unfold staticOwner <;> infer_instance

instance {index subject width} : KeepsIp (performGetField index subject width) := by
  cases width <;> unfold performGetField <;> infer_instance

instance {index subject write} : KeepsIp (performPutFieldBy index subject write) := by
  unfold performPutFieldBy
  infer_instance

instance {index subject width} : KeepsIp (performPutField index subject width) := by
  cases width <;> unfold performPutField <;> infer_instance

instance {index subject width} : KeepsIp (performGetStatic index subject width) := by
  cases width <;> unfold performGetStatic <;> infer_instance

instance {index subject width} : KeepsIp (performPutStatic index subject width) := by
  cases width <;> unfold performPutStatic <;> infer_instance

instance {width} : KeepsIp (loadElement width) := by
  unfold loadElement
  refine bind_of inferInstance fun _ => bind_of inferInstance fun _ =>
    bind_of inferInstance fun fault => ?_
  cases fault <;> cases width <;> infer_instance

instance : KeepsIp storeReference := by
  unfold storeReference
  refine bind_of inferInstance fun _ => bind_of inferInstance fun _ =>
    bind_of inferInstance fun _ => bind_of inferInstance fun fault => ?_
  cases fault <;> infer_instance

instance {write} : KeepsIp (storeElementBy write) := by
  unfold storeElementBy
  refine bind_of inferInstance fun _ => bind_of inferInstance fun _ =>
    bind_of inferInstance fun fault => ?_
  cases fault <;> infer_instance

instance {width} : KeepsIp (storeElement width) := by
  cases width <;> unfold storeElement <;> infer_instance

/-! ### Arithmetic -/

instance {result} : KeepsIp (pushResult result) := by
  cases result <;> unfold pushResult <;> infer_instance

instance {result} : KeepsIp (pushLongResult result) := by
  cases result <;> unfold pushLongResult <;> infer_instance

instance : KeepsIp popInt64 := by
  unfold popInt64
  infer_instance

instance {op} : KeepsIp (longOperation op) := by
  cases op <;> unfold longOperation <;> infer_instance

instance {op} : KeepsIp (floatOperation op) := by
  cases op
  all_goals simp only [floatOperation, popSingle, popDouble, pushSingle, pushDouble]
  all_goals infer_instance

instance {byte} : KeepsIp (performLong byte) := by
  unfold performLong
  split <;> infer_instance

instance {byte} : KeepsIp (performFloat byte) := by
  unfold performFloat
  split <;> infer_instance

/-! ### Objects -/

instance {start} : KeepsIp (newObject start) := by
  unfold newObject
  infer_instance

/-! ### Natives -/

instance : KeepsIp applyMath := by
  unfold applyMath
  refine bind_of inferInstance fun _ => bind_of inferInstance fun _ =>
    bind_of inferInstance fun _ => ?_
  split <;> infer_instance

instance : KeepsIp collectPersistent := by
  unfold collectPersistent
  infer_instance

instance : KeepsIp popStretches := by
  unfold popStretches
  infer_instance

instance : KeepsIp copyArray := by
  unfold copyArray
  infer_instance

instance : KeepsIp copyString := by
  unfold copyString
  infer_instance

instance : KeepsIp storeUnchecked := by
  unfold storeUnchecked
  refine bind_of inferInstance fun _ => bind_of inferInstance fun _ =>
    bind_of inferInstance fun _ => bind_of inferInstance fun fault => ?_
  cases fault <;> infer_instance

instance {width} : KeepsIp (getStatic width) := by
  cases width <;> unfold getStatic <;> infer_instance

instance {width} : KeepsIp (putStatic width) := by
  cases width <;> unfold putStatic <;> infer_instance

lemma native (native : Native) (thread : native ≠ .setExecutionContext)
    (constructor : native ≠ .primNewObject) : KeepsIp native.perform := by
  cases native
  case setExecutionContext => exact absurd rfl thread
  case primNewObject => exact absurd rfl constructor
  all_goals unfold Native.perform
  all_goals try simp only [Exec.exit, pushMemory, pushTime, pushInstructions, pushDepth,
    setMinimumHeap, pushHighWater, printChar, printString, Exec.printInt, pushClassOf, pushLength,
    pushInRam, retype, newArray, pushClassState, Exec.createClassState, addClassState,
    pushNewContext, setRoot, pushAssociationQueue, Exec.setAssociationQueue, pushAssociation,
    pushFinalizer, pushPersistentTable, setPersistentTable, migrate, copyToPersistent,
    pushInterrupted, pushPersistentSize, newPersistentArray, collectHere]
  all_goals infer_instance

end KeepsIp

end Exec

/-! ### Transfer of control -/

/-- The branch is taken. -/
def Machine.Passes (m : Machine) : BranchTest → Prop
  | .always => True
  | .zero r => ∃ v, Memory.wordAt m.sp m.store.mem = .ok v ∧ r.holds v.toInt32 0 = true
  | .pair r => ∃ right left, Memory.wordAt m.sp m.store.mem = .ok right ∧
      Memory.wordAt (m.sp - 4) m.store.mem = .ok left ∧
      r.holds left.toInt32 right.toInt32 = true

/-- The instruction does not transfer control: it is no return, throw, switch or call, no branch
that is taken, and no native that starts or resumes other code. -/
def Machine.Stays (m : Machine) (op : Opcode) (operand : Operand) : Prop :=
  match op with
  | .ret _ | .throwTop | .tableswitch | .stableswitch | .stableswitchPad => False
  | .branch test => ¬ m.Passes test
  | .invoke .native _ =>
    Native.ofNumber? operand.number.toNat ≠ some .setExecutionContext ∧
      Native.ofNumber? operand.number.toNat ≠ some .primNewObject
  | .invoke _ _ => False
  | _ => True

namespace Exec

variable {m n : Machine} {r : Step} {offset : Int32}

lemma ip_of_branchIf
    (h : branchIf false offset m = .ok r n) : n.ip = m.ip := by
  cases h
  rfl

lemma popInt_eq_ok {v : Int32} (h : popInt m = .ok v n) :
    ∃ w, Memory.wordAt m.sp m.store.mem = .ok w ∧ v = w.toInt32 ∧
      n = { m with sp := m.sp - 4 } := by
  obtain ⟨w, _, hw, hp⟩ := bind_eq_ok.1 h
  cases hp
  obtain ⟨hw, hn⟩ := pop_eq_ok.1 hw
  exact ⟨w, hw, rfl, hn⟩

lemma ip_of_branchOn {test : BranchTest}
    (stays : ¬ m.Passes test) (h : branchOn test (some offset) m = .ok r n) : n.ip = m.ip := by
  cases test with
  | always => exact absurd trivial stays
  | zero rel =>
    obtain ⟨v, _, hv, h⟩ := bind_eq_ok.mp
      (show (popInt >>= fun v => branchIf (rel.holds v 0) offset) m = .ok r n from h)
    obtain ⟨w, hw, rfl, rfl⟩ := popInt_eq_ok hv
    cases ht : rel.holds w.toInt32 0 with
    | true => exact absurd ⟨w, hw, ht⟩ stays
    | false =>
      rw [ht] at h
      have hip := ip_of_branchIf h
      exact hip
  | pair rel =>
    obtain ⟨right, _, hright, h⟩ := bind_eq_ok.mp
      (show (popInt >>= fun right => popInt >>= fun left =>
        branchIf (rel.holds left right) offset) m = .ok r n from h)
    obtain ⟨left, _, hleft, h⟩ := bind_eq_ok.1 h
    obtain ⟨w, hw, rfl, rfl⟩ := popInt_eq_ok hright
    obtain ⟨v, hv, rfl, rfl⟩ := popInt_eq_ok hleft
    cases ht : rel.holds v.toInt32 w.toInt32 with
    | true => exact absurd ⟨w, v, hw, hv, ht⟩ stays
    | false =>
      rw [ht] at h
      have hip := ip_of_branchIf h
      exact hip

lemma keepsIp_invokeNative {number : UInt8}
    (thread : Native.ofNumber? number.toNat ≠ some .setExecutionContext)
    (constructor : Native.ofNumber? number.toNat ≠ some .primNewObject) :
    KeepsIp (invokeNative number) := by
  unfold invokeNative
  split
  · infer_instance
  · rename_i native hn
    have := KeepsIp.native native (fun h => thread (h ▸ hn))
      (fun h => constructor (h ▸ hn))
    infer_instance

lemma ip_of_perform {start : UInt32} {op : Opcode} {operand : Operand}
    (stays : m.Stays op operand) (h : perform start op operand m = .ok r n) : n.ip = m.ip := by
  cases op
  case branch test => exact ip_of_branchOn stays h
  case invoke kind size =>
    cases kind
    case native =>
      have := keepsIp_invokeNative stays.1 stays.2
      exact KeepsIp.ip_eq (x := pop >>= fun _ => invokeNative operand.number) h
    all_goals cases stays
  case ret => cases stays
  case throwTop => cases stays
  case tableswitch => cases stays
  case stableswitch => cases stays
  case stableswitchPad => cases stays
  all_goals refine @KeepsIp.ip_eq _ _ ?_ _ _ _ h
  all_goals simp only [perform, execute, initialiseClass, monitorOperation, testInstance,
    castObject,
    arrayLength, search, loadLocal, storeLocal, performAdd, intArithmetic, compareInts,
    pushObject, pushClass, askSupport]
  all_goals infer_instance

end Exec

end DeviceVm
