import DeviceVm.Proofs.Interpreter.Loop
import DeviceVm.Proofs.Stack.Saving

/-!
Instructions that work on the innermost call alone: constants, locals, arithmetic and branches.
-/

namespace DeviceVm

/-- The word that an instruction pushes whatever the call is. -/
def Opcode.constant? : Opcode → Option UInt32
  | .const n => some (UInt32.ofNat n)
  | .constM1 => some 0xffffffff
  | .constNull => some 0
  | _ => none

/-- A branch looks at some operands, takes them away and is taken or not. -/
inductive BranchTest.Decides : BranchTest → List UInt32 → List UInt32 → Bool → Prop
  | always {vs : List UInt32} : Decides .always vs vs true
  | zero {r : Relation} {rest : List UInt32} {v : UInt32} :
      Decides (.zero r) (rest ++ [v]) rest (r.holds v.toInt32 0)
  | pair {r : Relation} {rest : List UInt32} {u v : UInt32} :
      Decides (.pair r) (rest ++ [u, v]) rest (r.holds u.toInt32 v.toInt32)

namespace Memory

variable {m : Memory} {a i : Nat} {v : UInt32} {vs : List UInt32}

lemma Lists.set (h : m.Lists a vs) (hi : i < vs.length) (hs : a + 4 * vs.length ≤ m.size) :
    (m.pokeWord (a + 4 * i) v).Lists a (vs.set i v) := by
  induction vs generalizing a i with
  | nil => exact absurd hi (Nat.not_lt_zero i)
  | cons u vs ih =>
    rw [List.length_cons] at hi hs
    cases i with
    | zero =>
      refine ⟨peekWord_pokeWord_self v (by omega), ?_⟩
      have ha : Agrees (fun b => a + 4 ≤ b) m (m.pokeWord a v) :=
        (Agrees.refl m).pokeWord fun b hb => by omega
      exact h.2.agrees ha fun b hb _ => hb
    | succ i =>
      refine ⟨?_, ?_⟩
      · rw [peekWord_pokeWord_apart v (by omega)]
        exact h.1
      · rw [show a + 4 * (i + 1) = a + 4 + 4 * i by omega]
        exact ih h.2 (by omega) (by omega)

end Memory

end DeviceVm

namespace DeviceVm.Stack

open UInt32 Exec Gives Memory Word

variable {S : Scene} {m : Machine} {w : Placement} {c d : Call} {cs : List Call} {v : UInt32}
  {op : Opcode}

namespace Scene

variable (S)

/-- What an instruction makes of a call, which has read the opcode already. -/
inductive Acts : Opcode → Call → Call → Prop
  | push {op : Opcode} {c : Call} {v : UInt32} (value : op.constant? = some v)
      (room : c.operands.length < (S.form c.method).operands) :
      Acts op c { c with operands := c.operands ++ [v] }
  | load {n : Fin 16} {c : Call} {v : UInt32} (value : c.locals[n.val]? = some v)
      (room : c.operands.length < (S.form c.method).operands) :
      Acts (.load n) c { c with operands := c.operands ++ [v] }
  | store {n : Fin 16} {c : Call} {rest : List UInt32} {v : UInt32}
      (operands : c.operands = rest ++ [v]) (known : n.val < c.locals.length) :
      Acts (.store n) c { c with locals := c.locals.set n v, operands := rest }
  | pop {c : Call} {rest : List UInt32} {v : UInt32} (operands : c.operands = rest ++ [v]) :
      Acts .pop c { c with operands := rest }
  | nop {c : Call} : Acts .nop c c
  | int {f : IntOp} {c : Call} {rest : List UInt32} {u v : UInt32} {r : Int32}
      (operands : c.operands = rest ++ [u, v]) (result : f.result? u.toInt32 v.toInt32 = some r) :
      Acts (.int f) c { c with operands := rest ++ [r.toUInt32] }
  /-- Classes of the first suite do not give way to others at the end of a time slice. -/
  | branch {test : BranchTest} {c : Call} {rest : List UInt32} {taken : Bool} {offset : UInt8}
      {number : UInt32} (decides : test.Decides c.operands rest taken)
      (code : Settled S.fixed S.mem (code8 c.ip) offset) (range : c.ip.toNat + 1 < 4294967296)
      (number_eq : Settled S.fixed S.mem (Class.number c.owner) number)
      (first : number &&& 0xff00 = 0) :
      Acts (.branch test) c
        { c with
          ip := c.ip + 1 + if taken then offset.toInt8.toInt32.toUInt32 else 0
          operands := rest }

variable {S} {P : Option Suspension → Machine → Prop}
  {rest : List UInt32} {taken : Bool} {offset : Int32} {start : UInt32}

lemma Acts.isPlain (h : S.Acts op c d) : op.isPlain = true := by
  cases h with
  | push value =>
    cases op <;> first | rfl | cases value
  | _ => rfl

lemma Acts.method_eq (h : S.Acts op c d) : d.method = c.method := by
  cases h <;> rfl

lemma toInt_ofNat_fin : ∀ n : Fin 16, (Int32.ofNat n).toInt = (n.val : Int) := by decide

lemma Works.points (h : S.Works m w c) (hat : S.At m w) (ok : S.Ok) {n : Fin 16}
    (known : n.val < c.locals.length) :
    Points m.lp (Int32.ofNat n) (w.lp + 4 * n) ∧ (w.lp + 4 * n.val) % 4 = 0 ∧
      w.lp + 4 * n.val + 4 ≤ m.store.mem.size := by
  have := h.fits
  have := hat.bounds
  have := hat.lp
  have := hat.size ok
  exact ⟨.lit n (toInt_ofNat_fin n), by omega, by omega⟩

lemma Standing.loadLocal (ok : S.Ok) (h : S.Standing m ⟨c, true, cs⟩ w) {n : Fin 16}
    (value : c.locals[n.val]? = some v) (room : c.operands.length < (S.form c.method).operands)
    {P : Step → Machine → Prop}
    (hp : ∀ o, S.Standing o ⟨{ c with operands := c.operands ++ [v] }, true, cs⟩ w → o.ip = m.ip →
      m.store.Onward o.store → P .proceed o) : Gives (loadLocal (Int32.ofNat n)) m P := by
  have hwk := h.works rfl
  have hlt : n.val < c.locals.length := (List.getElem?_eq_some_iff.1 value).1
  obtain ⟨hpoints, hal, hin⟩ := hwk.points h.toAt ok hlt
  have hword : word m.lp (Int32.ofNat n) m.store.mem = .ok v :=
    (word_eq hpoints ⟨hal, hin⟩).trans (congrArg _ (hwk.locals.get value))
  apply get_bind
  apply read_bind hword
  exact .next (h.push ok rfl room fun o h1 h2 hon => pure (hp o h1 h2 hon))

lemma Standing.storeLocal (ok : S.Ok) (h : S.Standing m ⟨c, true, cs⟩ w) {n : Fin 16}
    (operands : c.operands = rest ++ [v]) (known : n.val < c.locals.length)
    {P : Step → Machine → Prop}
    (hp : ∀ o, S.Standing o ⟨{ c with locals := c.locals.set n v, operands := rest }, true, cs⟩ w →
      o.ip = m.ip → m.store.Onward o.store → P .proceed o) : Gives (storeLocal (Int32.ofNat n)) m
        P := by
  refine .next (h.pop rfl operands fun o h1 h2 hon => ?_)
  have := h1.low
  have hwk := h1.works rfl
  have hfits : w.lp + 4 * (c.locals.length + 4 + (S.form c.method).operands) < w.room.stop :=
    hwk.fits
  have := h1.stop_le
  obtain ⟨hpoints, hal, hin⟩ := hwk.points h1.toAt ok known
  apply get_bind
  refine .edit_bind (setWord_eq hpoints ⟨hal, hin⟩)
    (.pure (hp _ ?_ h2 (hon.trans (.poke (by omega)))))
  have hagr : Memory.Agrees (fun b => b < w.lp ∨ w.lp + 4 * c.locals.length ≤ b) o.store.mem
      (o.store.mem.pokeWord (w.lp + 4 * n) v) :=
    .poked fun b hb => by omega
  have hlen : (c.locals.set n v).length = c.locals.length := List.length_set
  refine (h1.toAt.poke (by omega) (by omega)).working h1.callers h1.cp rfl ?_
  refine ⟨⟨⟨⟨?_, ?_, ?_, ?_⟩, hwk.known, hlen.trans hwk.count, ?_⟩, ?_⟩, ?_, hwk.within, ?_⟩
  · exact (hagr.peekWord _ fun i hi => by omega).trans hwk.method
  · exact (congrArg toNat (hagr.peekWord _ fun i hi => by omega)).trans hwk.previous
  · exact (hagr.peekWord _ fun i hi => by omega).trans hwk.owner
  · exact hwk.locals.set known (by show w.lp + 4 * c.locals.length ≤ _; omega)
  · rw [hlen]
    exact hfits
  · rw [hlen]
    exact (congrArg toNat (hagr.peekWord _ fun i hi => by omega)).trans hwk.offset
  · rw [hlen]
    exact hwk.operands.agrees hagr fun b (hb : w.lp + 4 * (c.locals.length + 5) ≤ b) _ => by omega
  · rw [hlen]
    exact hwk.sp

lemma Standing.popTwo (h : S.Standing m ⟨c, true, cs⟩ w)
    {x y : UInt32} (operands : c.operands = rest ++ [x, y]) {β : Type}
    {f : Int32 → Int32 → Exec β} {P : β → Machine → Prop}
    (hf : ∀ o, S.Standing o ⟨{ c with operands := rest }, true, cs⟩ w → o.ip = m.ip →
      m.store.Onward o.store → Gives (f y.toInt32 x.toInt32) o P) :
    Gives (do
      let r ← popInt
      let l ← popInt
      f r l) m P := by
  have hops : c.operands = (rest ++ [x]) ++ [y] := by rw [operands]; simp
  unfold Exec.popInt
  simp only [bind_assoc]
  refine .next (h.pop rfl hops fun o h1 h2 hon => ?_)
  apply Gives.pure_bind
  refine .next (h1.pop rfl rfl fun o' h3 h4 hon' => ?_)
  exact hf o' h3 (h4.trans h2) (hon.trans hon')

lemma Standing.branches (h : S.Standing m ⟨c, true, cs⟩ w)
    (go : ∀ o, S.Standing o ⟨c, true, cs⟩ w → o.ip = (m.ip + if taken then offset.toUInt32 else 0) →
      m.store = o.store → P none o ∧ Gives (callSupport .yield) o fun _ n => P none n) :
    Gives (branchIf taken offset >>= settle) m P := by
  -- The end of the time slice is dealt with in the loop.
  have finish : ∀ n : Machine, S.Standing n ⟨c, true, cs⟩ w →
      n.ip = (m.ip + if taken then offset.toUInt32 else 0) → m.store = n.store →
      Gives (do
        let left := (← get).branchesLeft - 1
        modify fun s => { s with branchesLeft := left }
        settle (if left > 0 then .proceed else .call .yield)) n P := by
    intro n hn hip hstore
    apply get_bind
    apply modify_bind
    generalize hn' : ({ n with branchesLeft := n.branchesLeft - 1 } : Machine) = n'
    have hst : S.Standing n' ⟨c, true, cs⟩ w := by
      subst hn'
      exact hn.congr rfl rfl rfl rfl rfl rfl
    have hip' : n'.ip = n.ip := by rw [← hn']
    have hstore' : m.store = n'.store := by rw [hstore, ← hn']
    obtain ⟨goes, yields⟩ := go n' hst (hip'.trans hip) hstore'
    split
    · exact .pure goes
    · exact .bind yields fun _ o ho => pure ho
  have hunfold : (branchIf taken offset >>= settle) = (do
      if taken then modify fun s => { s with ip := s.ip + offset.toUInt32 }
      let left := (← get).branchesLeft - 1
      modify fun s => { s with branchesLeft := left }
      settle (if left > 0 then .proceed else .call .yield)) := by
    unfold Exec.branchIf
    cases taken <;> simp
  rw [hunfold]
  cases taken with
  | true =>
    refine .pos rfl ?_
    apply modify_bind
    exact finish _ (h.congr rfl rfl rfl rfl rfl rfl) rfl rfl
  | false =>
    refine .neg (by simp) ?_
    exact finish m h (UInt32.add_zero _).symm rfl

lemma Standing.branchIf (h : S.Standing m ⟨c, true, cs⟩ w) {number : UInt32}
    (number_eq : Settled S.fixed S.mem (Class.number c.owner) number)
    (first : number &&& 0xff00 = 0)
    (hp : ∀ o, S.Standing o ⟨c, true, cs⟩ w → o.ip = (m.ip + if taken then offset.toUInt32 else 0) →
      m.store = o.store → P none o) :
    Gives (branchIf taken offset >>= settle) m P := by
  refine h.branches fun o ho hip hstore => ⟨hp o ho hip hstore, ?_⟩
  unfold Exec.callSupport
  refine .pos (by decide) ?_
  apply get_bind
  refine .read_bind (a := number) ?_ ?_
  · rw [ho.cp]
    exact number_eq _ ho.rests.ready.agrees
  apply get_bind
  refine .pos (by simp [first]) ?_
  exact .modify (hp _ (ho.congr rfl rfl rfl rfl rfl rfl) hip hstore)

lemma Standing.branchOn (h : S.Standing m ⟨c, true, cs⟩ w) (hip : m.ip = c.ip)
    {test : BranchTest} {offset : UInt8}
    (decides : test.Decides c.operands rest taken)
    (code : Settled S.fixed S.mem (code8 c.ip) offset)
    (range : c.ip.toNat + 1 < 4294967296)
    (finish : ∀ o, S.Standing o ⟨{ c with operands := rest }, true, cs⟩ w → o.ip = m.ip + 1 →
      m.store.Onward o.store → Gives (Exec.branchIf taken offset.toInt8.toInt32 >>= settle) o P) :
    Gives (execute start none (.branch test) >>= settle) m P := by
  have hcode : code8 m.ip m.store.mem = .ok offset := by
    rw [hip]
    exact code _ h.rests.ready.agrees
  have hstand : S.Standing { m with ip := m.ip + 1 } ⟨c, true, cs⟩ w :=
    h.congr rfl rfl rfl rfl rfl rfl
  unfold Exec.execute Exec.branchOn Exec.branchOffset
  simp only [bind_assoc]
  refine .code8_bind hcode (hip ▸ range) ?_
  apply Gives.pure_bind
  generalize hops : c.operands = operands at decides
  cases decides with
  | always =>
    have hrest :
        S.Standing { m with ip := m.ip + 1 } ⟨{ c with operands := rest }, true, cs⟩ w := by
      rw [← hops]
      exact hstand
    exact finish _ hrest rfl (.refl _)
  | @zero r _ v =>
    unfold Exec.popInt
    simp only [bind_assoc]
    exact .next (hstand.pop rfl hops fun o h1 h2 h3 => finish o h1 h2 h3)
  | @pair r _ u v =>
    simp only [bind_assoc]
    exact hstand.popTwo hops fun o h1 h2 h3 => finish o h1 h2 h3

lemma Standing.acts (ok : S.Ok) (h : S.Standing m ⟨c, true, cs⟩ w) (hip : m.ip = c.ip)
    (acts : S.Acts op c d)
    (hp : ∀ o, S.Standing o ⟨d, true, cs⟩ w → o.ip = d.ip → m.store.Onward o.store → P none o) :
    Gives (execute start none op >>= settle) m P := by
  cases acts with
  | @push _ _ v value room =>
    have hop : Exec.execute start none op = (do Exec.push v; Pure.pure Step.proceed) := by
      cases op <;> cases value <;> rfl
    rw [hop, bind_assoc]
    refine .next (h.push ok rfl room fun o h1 h2 h3 => Gives.pure_bind ?_)
    exact .pure (hp o h1 (h2.trans hip) h3)
  | @load n _ v value room =>
    refine .next (h.loadLocal ok value room fun o h1 h2 h3 => ?_)
    exact .pure (hp o h1 (h2.trans hip) h3)
  | @store n _ rest v operands known =>
    refine .next (h.storeLocal ok operands known fun o h1 h2 h3 => ?_)
    exact .pure (hp o h1 (h2.trans hip) h3)
  | @pop _ rest v operands =>
    unfold Exec.execute
    simp only [bind_assoc]
    refine .next (h.pop rfl operands fun o h1 h2 h3 => ?_)
    exact .pure (hp o h1 (h2.trans hip) h3)
  | nop => exact .pure (hp m h hip (.refl _))
  | @int f _ rest u v r operands result =>
    have hroom : rest.length < (S.form c.method).operands := by
      have := (h.works rfl).within
      rw [operands, List.length_append] at this
      exact Nat.lt_of_succ_le (Nat.le_of_succ_le this)
    unfold Exec.execute intArithmetic
    simp only [bind_assoc]
    refine h.popTwo operands fun o h1 h2 hon => ?_
    unfold Exec.pushResult pushInt
    rw [result]
    simp only [bind_assoc]
    refine .next (h1.push ok rfl hroom fun o' h3 h4 hon' => ?_)
    exact .pure (hp o' h3 (h4.trans (h2.trans hip)) (hon.trans hon'))
  | @branch test _ rest taken offset number decides code range number_eq first =>
    refine h.branchOn hip decides code range fun o h1 h2 hon => ?_
    refine h1.branchIf number_eq first fun o' h3 h4 hstore => hp o' (h3.goOn _) ?_ (hstore ▸ hon)
    rw [h4, h2, hip]

end Scene

end DeviceVm.Stack
