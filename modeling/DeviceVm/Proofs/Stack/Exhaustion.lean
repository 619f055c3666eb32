import DeviceVm.Proofs.Stack.Chunks
import DeviceVm.Proofs.Stack.Dispatch
import DeviceVm.Proofs.Stack.Instructions

/-!
Objects that cannot be had. An instruction that makes an object and finds no room saves its context,
to be executed again after a collection. A collection that made no room either has the context go on
with the out-of-memory error. Where the frame goes on is then the address of the instruction, not
the one behind it, and the rows that take the error are those that cover the byte in front of the
instruction.
-/

namespace DeviceVm.Stack

open List Memory UInt32 Header Exec Store Word

variable {S : Scene} {m n : Machine} {w v : Placement} {σ : Calls} {c d : Call} {cs ds : List Call}
  {k exception number words : UInt32} {numbers : List UInt32} {table : UInt32 → List Handler}

namespace Scene

/-! ### The instruction -/

variable (S) in
/-- The call is to make the receiver of a constructor, an instance of some words. -/
structure Makes (c : Call) (words : UInt32) : Prop where
  code : Instructs S.fixed S.mem c.ip .newobject
  behind : c.ip ≠ S.entry c.method
  absent : c.locals[0]? = some 0
  plain : Settled S.fixed S.mem (Class.isArray c.owner) false
  size : Settled S.fixed S.mem (Class.instanceWords c.owner) words
  range : 4 * words.toNat + 8 < 4294967296

lemma Makes.newObject (makes : S.Makes c words) (ok : S.Ok) (h : S.Standing m ⟨c, true, cs⟩ w)
    (short : m.store.Short (4 * words.toNat + 4)) {P : Step → Machine → Prop}
    (hp : ∀ o, S.Saved o.store ⟨c, true, cs⟩ w → P (.suspend (.collect w.room.chunk)) o) :
    Gives (newObject c.ip) m P := by
  have hwk := h.works rfl
  have hready := h.rests.ready
  have hlt : 0 < c.locals.length := (List.getElem?_eq_some_iff.1 makes.absent).1
  obtain ⟨hpoints, hal, hin⟩ := hwk.points (n := 0) h.toAt ok hlt
  have hgiven : word m.lp 0 m.store.mem = .ok 0 :=
    (word_eq hpoints ⟨hal, hin⟩).trans (congrArg _ (hwk.locals.get makes.absent))
  apply Gives.get_bind
  apply Gives.read_bind hgiven
  apply Gives.get_bind
  refine .neg (by decide) ?_
  rw [h.cp]
  have short' : m.store.Short (bytes 0 + 4 * words.toNat) := Nat.add_comm .. ▸ short
  refine .run_bind ((hready.partition ok).newInstance_ends (makes.plain _ hready.agrees)
    (makes.size _ hready.agrees) makes.range fun roomy => absurd short' roomy) ?_
  rintro _ t (⟨rfl, ht⟩ | ht)
  swap
  · exact absurd short' ht.took.roomy
  refine .pos rfl ?_
  exact (h.later ok (hready.refused ht)).collectAndRetry ok (by simp [makes.behind])
    fun o ho _ => hp o ho

lemma Makes.turn (makes : S.Makes c words) (ok : S.Ok) (h : S.Standing m ⟨c, true, cs⟩ w)
    (hip : m.ip = c.ip) (short : m.store.Short (4 * words.toNat + 4)) :
    Gives turn m fun r o => r = some (.collect w.room.chunk) ∧
      S.Saved o.store ⟨c, true, cs⟩ w := by
  obtain ⟨byte, hb, hop⟩ := makes.code.code
  refine .turn (hip ▸ hb _ h.rests.ready.agrees) hop rfl (hip ▸ makes.code.range) (h.size ok)
    fun log => ?_
  have h1 : S.Standing { m with ip := m.ip + 1, instructions := m.instructions + 1 }
      ⟨c, true, cs⟩ w := h.congr rfl rfl rfl rfl rfl rfl
  refine .next (hip.symm ▸ makes.newObject ok (h1.setLog log) short fun o ho => ?_)
  exact .pure ⟨rfl, ho⟩

/-! ### Going on -/

lemma throwAddress_eq {s : Store} (range : s.ram.start.toNat + 24 < 4294967296)
    (code : code8 (s.ram.start + 24) s.mem = .ok Opcode.throwTop.toByte) :
    throwAddress s = .ok (s.ram.start + 24) s := by
  have hends : Ends throwAddress s fun addr t => addr = s.ram.start + 24 ∧ t = s := by
    apply Ends.get_bind
    apply Ends.except_bind (plus_eq range)
    apply Ends.read_bind code
    rw [bne_self_eq_false, if_neg Bool.false_ne_true]
    exact .pure ⟨rfl, rfl⟩
  obtain ⟨_, _, hr, rfl, rfl⟩ := hends
  exact hr

variable (S) in
/-- The store has the out-of-memory error, of class `k`, and the instruction that throws it. -/
structure Errs (s : Store) (exception k : UInt32) : Prop where
  code : code8 (S.ram.start + 24) s.mem = .ok Opcode.throwTop.toByte
  root : root .ram Root.outOfMemory s = .ok exception
  some_exception : exception ≠ 0
  kind : Settled S.fixed S.mem (classOf exception) k

lemma Saved.resume_failed (ok : S.Ok) (h : S.Saved m.store σ w)
    (errs : S.Errs m.store exception k) :
    ∃ n, S.Standing n σ w ∧ n.ip = σ.top.ip ∧ ∀ budget,
      resume (budget + 1) w.room.chunk false m =
        (throwObject exception >>= settle >>= runOn budget) n := by
  have := ok.record_inside
  have := ok.mem_size
  obtain ⟨_, o, hload, hst, -, hword, hrec⟩ := h.loadContext (P := fun _ o =>
    S.Standing { o with collectionWorked := true } σ w ∧ o.ip = σ.top.ip ∧
    o.store.mem.peekWord (w.lp - 16) = σ.top.ip ∧
    Agrees (fun b => b < S.ram.start.toNat + 64) m.store.mem o.store.mem) ok
    fun o h1 h2 _ h3 _ h5 => ⟨h1, h2, h3, h5⟩
  have hready := hst.rests.ready
  have : (S.ram.start + 24).toNat = S.ram.start.toNat + 24 := toNat_plus (by
    show _ + 24 < 4294967296
    omega)
  -- The record is as it was.
  have hcode : code8 (S.ram.start + 24) o.store.mem = .ok Opcode.throwTop.toByte := by
    rw [← errs.code, Memory.code8, Memory.readAt, Memory.readAt, Memory.readable, Memory.readable,
      hrec.size, hrec.peek _ (by omega)]
  have hroot : root .ram Root.outOfMemory o.store = .ok exception := by
    have hold : root .ram Root.outOfMemory m.store = .ok (m.store.recorded 12) :=
      (h.rests.ready.recorded ok).root_eq rfl (by omega)
    have hnew : root .ram Root.outOfMemory o.store = .ok (o.store.recorded 12) :=
      (hready.recorded ok).root_eq rfl (by omega)
    rw [hnew, ← errs.root, hold, recorded, recorded, hready.ram, h.rests.ready.ram,
      hrec.peekWord _ fun i hi => by omega]
  have hthrow : throwAddress o.store = .ok (S.ram.start + 24) o.store := by
    rw [← hready.ram] at hcode ⊢
    exact throwAddress_eq (by rw [hready.ram]; omega) hcode
  have hop : Opcode.ofByte? Opcode.throwTop.toByte = some .throwTop := by decide +kernel
  obtain ⟨log, hturn⟩ := turn_eq (m := { o with collectionWorked := false, ip := S.ram.start + 24 })
    hcode hop rfl (by show (S.ram.start + 24).toNat + 1 < _; omega) (hst.size ok)
  have hst' : S.Standing { Machine.setLog { o with
      collectionWorked := false, ip := S.ram.start + 24 + 1, instructions := o.instructions + 1 }
        log
      with collectionWorked := true } σ w := by
    have h1 : S.Standing { o with
        collectionWorked := true, ip := S.ram.start + 24 + 1, instructions := o.instructions + 1 } σ
          w :=
      hst.congr rfl rfl rfl rfl rfl rfl
    exact h1.setLog log
  obtain ⟨n, h1, h2, -, -, heq⟩ := hst'.throwOperand_failed ok rfl hword hroot errs.some_exception
  refine ⟨n, h1, h2, fun budget => ?_⟩
  have hrun : runFor (budget + 1) { o with collectionWorked := false, ip := S.ram.start + 24 } =
      (throwObject exception >>= settle >>= runOn budget) n := by
    rw [runFor_succ]
    exact bind_congr_eq (hturn.trans (bind_congr_eq heq))
  rw [resume, bind_eq hload, modify_bind_eq, if_pos (by decide),
    run_bind_eq (m := { o with collectionWorked := false }) hthrow, modify_bind_eq]
  exact hrun

/-! ### Rows that take the error -/

lemma covers_before_start {row : Handler} {p : UInt32} (h : row.start = p) :
    row.covers (p - 1) = false := by
  have h1 := UInt32.toNat_one
  have := row.stop.toNat_lt
  rw [Handler.covers, h, Bool.and_eq_false_iff, decide_eq_false_iff_not, decide_eq_false_iff_not,
    UInt32.le_iff_toNat_le, UInt32.lt_iff_toNat_lt, UInt32.toNat_sub, h1]
  omega

lemma covers_before_stop {row : Handler} {p : UInt32} (h : row.stop = p)
    (some_byte : row.start < row.stop) : row.covers (p - 1) = true := by
  have h1 := UInt32.toNat_one
  have := p.toNat_lt
  rw [h, lt_iff_toNat_lt] at some_byte
  rw [Handler.covers, h, Bool.and_eq_true, decide_eq_true_eq, decide_eq_true_eq,
    UInt32.le_iff_toNat_le, UInt32.lt_iff_toNat_lt, UInt32.toNat_sub, h1]
  omega

/-- The error that an instruction ends in for want of room is offered to the rows that cover the
byte in front of the instruction: a range that begins with the instruction does not take it, and one
that ends there does. The collection may have moved the context and its methods. -/
theorem outOfMemory_offered_before_instruction (ok : S.Ok) (h : S.Standing m ⟨c, true, cs⟩ w)
    (hip : m.ip = c.ip) (makes : S.Makes c words) (short : m.store.Short (4 * words.toNat + 4))
    {S' : Scene} (ok' : S'.Ok) (saved : S'.Saved n.store ⟨d, true, ds⟩ v)
    (offset : d.ip - d.method = c.ip - c.method) (errs : S'.Errs n.store exception k)
    (dispatches : S'.Dispatches ⟨d, true, ds⟩ table k (number :: numbers)) :
    (Gives Exec.turn m fun r o => r = some (.collect w.room.chunk) ∧
      S.Saved o.store ⟨c, true, cs⟩ w) ∧
    d.handler table (number :: numbers) = (table d.method).find? (fun row =>
      row.covers (c.ip - c.method - 1) && decide (row.classNumber ∈ number :: numbers)) ∧
    (∀ row : Handler, row.start = c.ip - c.method → row.covers (c.ip - c.method - 1) = false) ∧
    (∀ row : Handler, row.stop = c.ip - c.method → row.start < row.stop →
      row.covers (c.ip - c.method - 1) = true) ∧
    (∀ inner e outer row, d :: ds = inner ++ e :: outer →
      (∀ e' ∈ inner, e'.handler table (number :: numbers) = none) →
      e.handler table (number :: numbers) = some row →
      ∃ o, S'.Caught v (Placement.back^[inner.length] v) e outer row exception o ∧
        ∀ budget, Exec.resume (budget + 1) v.room.chunk false n = Exec.runFor budget o) ∧
    ((∀ e ∈ d :: ds, e.handler table (number :: numbers) = none) →
      ∃ o, ∀ budget, Exec.resume (budget + 1) v.room.chunk false n =
        .error (.fatal (.uncaught number)) o) := by
  obtain ⟨n', hst, hip', hresume⟩ := saved.resume_failed ok' errs
  have hkind := errs.kind _ hst.rests.ready.agrees
  refine ⟨makes.turn ok h hip short, ?_, fun row => covers_before_start,
    fun row => covers_before_stop, ?_, ?_⟩
  · rw [Call.handler, offset]
    rfl
  · intro inner e outer row split passed caught
    obtain ⟨_, o, hr, rfl, ho⟩ := hst.throw_caught ok' hip' hkind dispatches split passed caught
    refine ⟨o, ho, fun budget => ?_⟩
    rw [hresume, bind_assoc, bind_eq hr]
    rfl
  · intro passed
    obtain ⟨o, hr⟩ := hst.throw_uncaught ok' hip' hkind dispatches passed
    exact ⟨o, fun budget => (hresume budget).trans (bind_error_eq (bind_error_eq hr))⟩

end Scene

/-! ### A range on either side

A constructor cannot make its receiver. One row of its table covers the instruction only and one the
byte in front of it; the second one takes the error. -/

/-- The record, with the instruction that throws and the error, a chunk with the frame of a
constructor, of which `last` tells whether it is saved, and the class, its superclass, the error and
the constructor. Nothing is free. -/
def fullRam (last : UInt32) : List UInt32 := Sample.table [
  (3, [600, 600]), (6, [130]), (12, [780]),
  (16, [0x11000140, 532, 0, 0, 17, last, 784, 807, 0, 744, 20]),
  (70, [37, 0, 764, 0, 0, 30, 0, 0, 744]),
  (80, [0x00010016, 0x17000101, 0x18001800, 0x16001e00, 0x18001700, 0xd8611e00])] 0 86

def fullScene (last : UInt32) : Scene :=
  .ofWords (fullRam last) 740 (· = 784) (fun _ => ⟨22, 0, 1, 1⟩) (· = 744)

def fullMachine (last : UInt32) : Machine where
  store := Sample.store .copying (fullRam last)
  ip := 807
  sp := 592
  lp := 572
  cp := 744
  sl := 600

def making : Call := ⟨784, 807, 744, [0], []⟩

def fullPlacement : Placement := ⟨⟨532, 17⟩, [], [], []⟩

def fullTable (_ : UInt32) : List Handler := [⟨23, 24, 24, 30⟩, ⟨22, 23, 24, 30⟩]

section

variable {last : UInt32} (known : last = 0 ∨ last = 572)

lemma full_word (k : Nat) :
    (fullMachine last).store.mem.peekWord (464 + 4 * k) = (fullRam last).getD k 0 :=
  Sample.peekWord_ram k

include known

lemma full_ok : (fullScene last).Ok := by
  rcases known with rfl | rfl
  all_goals
    refine Scene.ok_of_words (fullRam _) 740 (by decide) (by decide) (by decide) ?_ ?_
    · rintro mp rfl
      exact Sample.reads_of_words (j := 1) (by decide) (by decide) rfl (by decide)
        (by decide +kernel)
    · rintro k rfl
      exact ⟨37, fun n h => Sample.word_of_agrees h (k := 70) (by decide)⟩

lemma full_rests : (fullScene last).Rests (fullMachine last).store fullPlacement := by
  rcases known with rfl | rfl
  all_goals
    refine ⟨Scene.ready_of_words (fullRam _) 740 (by decide) (by decide) (by decide) (by decide)
      (by decide), ?_, pairwise_singleton _ _, trivial, full_word 19, full_word 18⟩
    intro r hr
    obtain rfl := mem_singleton.1 hr
    refine ⟨by decide, by decide, ?_, by decide, fun b hb => ?_, congrArg toNat (full_word 20)⟩
    · exact Nat.le_of_eq (congrArg toNat (full_word 3)).symm
    · have : b < 464 ∨ 740 ≤ b := hb
      show b < 532 ∨ 600 ≤ b
      omega

lemma full_shaped :
    (fullScene last).Shaped (fullMachine last).store.mem ⟨532, 17⟩ 572 0 making := by
  rcases known with rfl | rfl
  all_goals
    exact ⟨⟨full_word 22, congrArg toNat (full_word 24), full_word 25, full_word 27, trivial⟩,
      rfl, rfl, by decide⟩

end

lemma full_standing :
    (fullScene 0).Standing (fullMachine 0) ⟨making, true, []⟩ fullPlacement := by
  have works : (fullScene 0).Works (fullMachine 0) fullPlacement making :=
    ⟨⟨full_shaped (.inl rfl), congrArg toNat (full_word 26)⟩, trivial, by decide, rfl⟩
  exact ⟨⟨full_rests (.inl rfl), full_word 21, rfl, rfl, rfl⟩, rfl, rfl, works⟩

lemma full_saved :
    (fullScene 572).Saved (fullMachine 572).store ⟨making, true, []⟩ fullPlacement := by
  have paused : (fullScene 572).Paused (fullMachine 572).store.mem fullPlacement making :=
    ⟨full_shaped (.inr rfl), trivial, by decide, congrArg toNat (full_word 26), by decide⟩
  exact ⟨full_rests (.inr rfl), congrArg toNat (full_word 21), rfl, full_word 23, paused⟩

lemma full_makes : (fullScene 0).Makes making 0 := by
  constructor
  case code => exact Sample.instructs_of_words (by decide) (by decide +kernel)
  case behind => decide
  case absent => rfl
  case plain =>
    intro n hn
    have helement : Class.elementNumber 744 n = .ok 0 :=
      Sample.word_of_agrees hn (k := 73) (by decide)
    exact Read.bind_ok helement
  case size =>
    intro n hn
    exact Sample.word_of_agrees hn (k := 74) (by decide)
  case range => decide

lemma full_short : (fullMachine 0).store.Short 4 := by
  have h3 : (fullMachine 0).store.recorded 3 = 600 := full_word 3
  have h4 : (fullMachine 0).store.recorded 4 = 600 := full_word 4
  left
  rw [h3, h4]
  decide

lemma full_errs : (fullScene 572).Errs (fullMachine 572).store 780 744 := by
  have hrecord : (fullMachine 572).store.Recorded :=
    (full_rests (.inr rfl)).ready.recorded (full_ok (.inr rfl))
  constructor
  case code =>
    have hcode : code8 488 (fullMachine 572).store.mem =
        .ok (Sample.byteOf (fullRam 572) 488) :=
      Sample.code8_of_agrees (.refl _ : Agrees (Sample.reserved 464) _ _) (by decide)
    exact hcode.trans (congrArg Except.ok (by decide +kernel))
  case root =>
    rw [hrecord.root_eq (j := 4) rfl (by omega)]
    exact congrArg Except.ok (full_word 12)
  case some_exception => decide
  case kind =>
    intro n hn
    exact Sample.classOf_of_agrees (k := 78) hn rfl (by decide) rfl (by decide) (by decide)
      (by decide)

lemma full_dispatches :
    (fullScene 572).Dispatches ⟨making, true, []⟩ fullTable 744 [37, 30] := by
  constructor
  case classes =>
    have up : Class.Ascends (fullScene 572).fixed (fullScene 572).mem 764 [30] := by
      refine .above (by decide) (fun n h => ?_) (fun n h => ?_) .root
      · exact Sample.word_of_agrees h (k := 75) (by decide)
      · exact Sample.word_of_agrees h (k := 77) (by decide)
    refine .above (by decide) (fun n h => ?_) (fun n h => ?_) up
    · exact Sample.word_of_agrees h (k := 70) (by decide)
    · exact Sample.word_of_agrees h (k := 72) (by decide)
  case tables =>
    intro c hc
    obtain rfl := mem_singleton.1 hc
    exact Sample.handlers_of_words 6 2 (by decide) (by decide) (by decide) (by decide)
  case room =>
    intro c hc
    obtain rfl := mem_singleton.1 hc
    decide
  case entered => nofun

theorem outOfMemory_taken_in_front :
    (∃ o, Exec.turn (fullMachine 0) = .ok (some (.collect 532)) o ∧
      (fullScene 0).Saved o.store ⟨making, true, []⟩ fullPlacement) ∧
    ∃ o, (fullScene 572).Caught fullPlacement fullPlacement making [] ⟨22, 23, 24, 30⟩ 780 o ∧
      ∀ budget, Exec.resume (budget + 1) 532 false (fullMachine 572) = Exec.runFor budget o := by
  obtain ⟨⟨_, o, hr, rfl, ho⟩, -, -, -, caught, -⟩ :=
    Scene.outOfMemory_offered_before_instruction (full_ok (.inl rfl)) full_standing rfl full_makes
      full_short (full_ok (.inr rfl)) full_saved rfl full_errs full_dispatches
  exact ⟨⟨o, hr, ho⟩, caught [] making [] ⟨22, 23, 24, 30⟩ rfl nofun (by decide)⟩

end DeviceVm.Stack
