import DeviceVm.Proofs.Stack.Moving

/-!
Growing of frames. A call that was started gets its locals and room for its operands, in its
chunk, in a spare chunk or in a new one; the frame is the same in all three. Where no chunk can be
had the context is saved as it was, so that the instruction can be executed again.
-/

namespace DeviceVm.Stack

open List Memory UInt32 Header Exec Chunk DeviceVm.Frame Word

variable {S : Scene} {s t : Store} {m : Machine} {mem : Memory} {w : Placement} {r : Room}
  {rs : List Room} {σ : Calls} {c : Call} {v : UInt32} {vs args : List UInt32}

/-! ### Clearing of locals -/

/-- The call with `k` more locals, which are zero. -/
def Call.grown (c : Call) (k : Nat) : Call := { c with locals := c.locals ++ replicate k 0 }

lemma Call.grown_grown (c : Call) (j k : Nat) : (c.grown j).grown k = c.grown (j + k) := by
  simp [Call.grown]

namespace Scene

lemma At.clear (ok : S.Ok) (h : S.At m w) {previous : Nat}
    (lies : c.Lies m.store.mem w.lp previous)
    (sp : m.sp.toNat + 4 = w.lp + 4 * c.locals.length)
    (inside : w.lp + 4 * c.locals.length < w.room.stop) {P : Unit → Machine → Prop}
    (hp : ∀ n, S.At n w → (c.grown 1).Lies n.store.mem w.lp previous →
      n.sp.toNat + 4 = w.lp + 4 * (c.grown 1).locals.length → n.cp = m.cp → n.ip = m.ip →
      m.store.Onward n.store → P () n) : Gives (push 0) m P := by
  have := h.bounds
  have := h.size ok
  have := toNat_four
  have ha : (m.sp + 4).toNat = w.lp + 4 * c.locals.length := by
    rw [toNat_plus] <;> omega
  have : (c.grown 1).locals.length = c.locals.length + 1 := by simp [Call.grown]
  apply Gives.get_bind
  apply Gives.modify_bind
  apply Gives.get_bind
  refine .except_bind (a := ()) ?_ ?_
  · have : m.sp + 4 < m.sl := lt_iff_toNat_lt.2 (by
      rw [ha, h.sl]
      exact inside)
    simp [require, this]
  refine .edit (setWordAt_eq (by omega) (by
    show _ ≤ m.store.mem.size
    omega)) ?_
  have hat : S.At { m with sp := m.sp + 4 } w := ⟨h.rests, h.last, h.worked, h.lp, h.sl⟩
  have hagr : Agrees (fun b => b < (m.sp + 4).toNat) m.store.mem
      (m.store.mem.pokeWord (m.sp + 4).toNat 0) := .poked fun b hb => .inl hb
  have hself : (m.store.mem.pokeWord (m.sp + 4).toNat 0).peekWord (m.sp + 4).toNat = 0 :=
    peekWord_pokeWord_self 0 (by omega)
  have hlies := lies.agrees hagr (by omega) fun b hb => by omega
  have := h.low
  refine hp _ (hat.poke (by omega) (by omega)) ?_ ?_ rfl rfl (.poke (by omega))
  · refine ⟨hlies.method, hlies.previous, hlies.owner, lists_append.2 ⟨hlies.locals, ?_⟩⟩
    refine ⟨?_, trivial⟩
    rw [← ha]
    exact hself
  · show (m.sp + 4).toNat + 4 = _
    omega

lemma At.clearLocals (ok : S.Ok) (h : S.At m w) {previous fuel : Nat} {top : UInt32} (k : Nat)
    (lies : c.Lies m.store.mem w.lp previous) (sp : m.sp.toNat + 4 = w.lp + 4 * c.locals.length)
    (count : top.toNat + 4 = w.lp + 4 * (c.locals.length + k)) (inside : top.toNat < w.room.stop)
    (enough : k < fuel) {P : Unit → Machine → Prop}
    (hp : ∀ n, S.At n w → (c.grown k).Lies n.store.mem w.lp previous → n.sp = top → n.cp = m.cp →
      n.ip = m.ip → m.store.Onward n.store → P () n) : Gives (clearLocals top fuel) m P := by
  induction k generalizing m c fuel with
  | zero =>
    rcases fuel with _ | fuel
    · omega
    apply Gives.get_bind
    have heq : m.sp = top := UInt32.toNat_inj.1 (by omega)
    refine .neg ?_ (.pure (hp m h ?_ heq rfl rfl (.refl _)))
    · rw [heq]
      exact UInt32.lt_irrefl top
    · rw [Call.grown, replicate_zero, append_nil]
      exact lies
  | succ k ih =>
    rcases fuel with _ | fuel
    · omega
    have : (c.grown 1).locals.length = c.locals.length + 1 := by simp [Call.grown]
    apply Gives.get_bind
    refine .pos (lt_iff_toNat_lt.2 (by omega)) ?_
    refine .next (h.clear ok lies sp (by omega) fun n hn hlies hsp hcp hip hon => ?_)
    refine ih hn hlies hsp (by omega) (by omega) fun n' h1 h2 h3 h4 h5 h6 => ?_
    rw [Call.grown_grown, Nat.add_comm] at h2
    exact hp n' h1 h2 h3 (h4.trans hcp) (h5.trans hip) (hon.trans h6)

variable {P : Step → Machine → Prop}

lemma At.fillLocals (ok : S.Ok) (h : S.At m w) (top : S.Called m w c) (cp : m.cp = c.owner)
    {size : UInt32} (hsize : size.toNat = 4 * ((S.form c.method).locals + 4))
    (fits : w.lp + 4 * ((S.form c.method).locals + 4 + (S.form c.method).operands) < w.room.stop)
    (hp : ∀ n, S.Standing n ⟨c.grown ((S.form c.method).locals - c.locals.length), true, w.callers⟩
      w → n.ip = m.ip → m.store.Onward n.store → P .proceed n) :
    Gives (do
      let lp := (← get).lp
      Exec.clearLocals (← plus lp size) (← Memory.walkBound)
      setStackOffset lp (← minus (← get).sp lp)
      return .proceed) m P := by
  have hlp := h.lp
  have := h.bounds
  have hms := h.size ok
  have hreads := ok.method _ top.known
  have hparams := hreads.parameters_le
  have hcount := top.count
  have htop : (m.lp + size).toNat = w.lp + 4 * ((S.form c.method).locals + 4) := by
    rw [toNat_plus] <;> omega
  generalize hL : (S.form c.method).locals = L at *
  generalize hP : c.locals.length = p at *
  apply Gives.get_bind
  apply Gives.except_bind (plus_eq (by omega))
  apply Gives.read_bind (Memory.walkBound_eq _)
  refine .next (h.clearLocals ok (L + 5 - p) top.toLies
    (by exact top.sp.trans (by rw [hP])) (by omega) (by omega) (by omega)
    fun n hn hlies hsp hcp hip hon => ?_)
  have hnlp : n.lp = m.lp := UInt32.toNat_inj.1 (hn.lp.trans hlp.symm)
  have hframe := hn.frame ok (by omega)
  rw [hnlp] at hframe
  have hoff : (n.sp - m.lp).toNat = 4 * (L + 4) := by
    rw [hsp, toNat_minus] <;> omega
  apply Gives.get_bind
  apply Gives.except_bind (minus_eq (by rw [hsp]; omega))
  have hlow := hn.low
  refine .edit_bind hframe.setStackOffset_eq
    (.pure (hp _ ?_ hip (hon.trans (.poke (by omega)))))
  generalize hmem : n.store.mem.pokeWord (w.lp - 4) (n.sp - m.lp) = mem
  have hat : S.At (n.setMem mem) w := by
    rw [← hmem]
    exact hn.poke (by omega) (by omega)
  have := hn.stop_le
  have hagr : Agrees (fun b => b + 4 < w.lp ∨ w.lp ≤ b) n.store.mem mem := by
    rw [← hmem]
    exact .poked fun b hb => by omega
  have hlies' := hlies.agrees hagr (by omega) fun b hb => by omega
  have hlen : (c.grown (L - p)).locals.length = L := by
    simp only [Call.grown, length_append, length_replicate]
    omega
  have hsplit : (c.grown (L + 5 - p)).locals = (c.grown (L - p)).locals ++ replicate 5 0 := by
    simp only [Call.grown, append_assoc, replicate_append_replicate]
    rw [show L + 5 - p = L - p + 5 by omega]
  refine hat.working rfl (hcp.trans cp) rfl ⟨⟨⟨⟨hlies'.method, hlies'.previous, hlies'.owner, ?_⟩,
    top.known, hlen.trans hL.symm, ?_⟩, ?_⟩, ?_, ?_, ?_⟩
  · have := hlies'.locals
    rw [hsplit, lists_append] at this
    exact this.1
  · rw [hlen]
    exact fits
  · show (mem.peekWord (w.lp - 4)).toNat = 4 * ((c.grown (L - p)).locals.length + 4)
    rw [hlen, ← hmem, peekWord_pokeWord_self _ (by omega), hoff]
  · show mem.Lists _ c.operands
    rw [top.operands]
    trivial
  · show c.operands.length ≤ _
    rw [top.operands]
    exact Nat.zero_le _
  · show n.sp.toNat = w.lp + 4 * ((c.grown (L - p)).locals.length + 4) + 4 * c.operands.length
    rw [hlen, top.operands, hsp, htop]
    rfl

/-! ### Extending -/

/-- The words that a chunk needs for one frame of the method. -/
def frameWords (S : Scene) (mp : UInt32) : Nat := 15 + (S.form mp).locals + (S.form mp).operands

/-- The frame of a call has to move, and there is no chunk for it. -/
structure Stuck (S : Scene) (m : Machine) (w : Placement) (c : Call) : Prop where
  crowded : m.store.exactChunks = true ∨
    w.room.stop ≤ w.lp + 4 * ((S.form c.method).locals + 4 + (S.form c.method).operands)
  spare : ∀ r rs, w.spares = r :: rs →
    m.store.exactChunks = true ∨ r.words < S.frameWords c.method
  short : ∃ size : UInt32, S.frameWords c.method ≤ size.toNat ∧
    size.toNat ≤ max (S.frameWords c.method) 32 ∧
    m.store.Short (bytes size + 4 * size.toNat)

lemma wordsFor_eq (locals operands : UInt32) (hl : locals.toNat < 256)
    (ho : operands.toNat < 256) : ∃ v, wordsFor locals operands = .ok v ∧
      v.toNat = 15 + locals.toNat + operands.toNat := by
  have : (headerWords + 2 * frameHeaderWords).toNat = 15 := rfl
  have h1 : (headerWords + 2 * frameHeaderWords + locals).toNat =
      15 + locals.toNat := by
    rw [toNat_plus] <;> omega
  refine ⟨_, ?_, (toNat_plus (by omega)).trans (congrArg (· + operands.toNat) h1)⟩
  rw [wordsFor, plus_eq (by omega)]
  exact plus_eq (by omega)

lemma Standing.retry (ok : S.Ok) (h : S.Standing m σ w) (he : σ.entered = false)
    {start : UInt32} (hstart : start = S.entry σ.top.method) {lp : UInt32} (hlp : m.lp = lp)
    (hp : ∀ n, S.Saved n.store (σ.goOn start) w → m.store.Onward n.store →
      P (.suspend (.collect w.room.chunk)) n) :
    Gives (do
      setStackOffset lp ((← get).sp - lp)
      Exec.collectAndRetry start) m P := by
  subst hlp
  have hin := h.inside
  have := h.lp_ge
  have htop := h.called he
  have hframe := h.frame ok hin
  generalize hmem : m.store.mem.pokeWord (w.lp - 4) (m.sp - m.lp) = mem
  have hagr : Agrees (fun b => b + 4 < w.lp ∨ w.lp ≤ b) m.store.mem mem := by
    rw [← hmem]
    exact .poked fun b hb => by omega
  have hat : S.At (m.setMem mem) w := by
    rw [← hmem]
    exact h.toAt.poke (by omega) (by omega)
  have hstand : S.Standing (m.setMem mem) σ w :=
    hat.called h.callers h.cp he ⟨htop.toLies.agrees hagr (by omega) fun b hb => by omega,
      htop.known, htop.count, htop.operands, htop.sp, htop.inside, htop.first⟩
  apply Gives.get_bind
  refine .edit_bind (hmem ▸ hframe.setStackOffset_eq) ?_
  have honward : m.store.Onward (m.store.setMem mem) := by
    have := h.low
    exact .write (hagr.mono fun b hb => by omega)
  exact hstand.collectAndRetry ok (by simp [he, hstart]) fun n hn hon => hp n hn (honward.trans hon)

section Move

variable {rest : Exec Step} {P : Step → Machine → Prop}

lemma Standing.moveToNew (ok : S.Ok) (h : S.Standing m σ w) (he : σ.entered = false)
    {start words : UInt32} (hstart : start = S.entry σ.top.method) {lp : UInt32} (hlp : m.lp = lp)
    (hwords : words.toNat = S.frameWords σ.top.method) (alone : w.spares = [])
    (some_call : w.inner ≠ [])
    (hrest : ∀ n w', S.Moved m w σ.top n w' → Gives rest n P)
    (waits : ∀ n (size : UInt32), S.frameWords σ.top.method ≤ size.toNat →
      size.toNat ≤ max (S.frameWords σ.top.method) 32 →
      m.store.Short (bytes size + 4 * size.toNat) → S.Saved n.store (σ.goOn start) w →
      m.store.Onward n.store → P (.suspend (.collect w.room.chunk)) n) :
    Gives (do
      let chunk ← Store.newChunk words
      if chunk == 0 then
        setStackOffset lp ((← get).sp - lp)
        Exec.collectAndRetry start
      else
        moveFrame w.room.chunk chunk σ.top.method
        rest) m P := by
  have htop := h.called he
  have hready := h.rests.ready
  have : S.frameWords σ.top.method =
    15 + (S.form σ.top.method).locals + (S.form σ.top.method).operands := rfl
  refine .run_bind (hready.newChunk ok (by omega)) ?_
  rintro chunk t (⟨rfl, ht, size, h1, h2, hshort⟩ | ⟨hne, size, ht, hsize⟩)
  · refine .pos rfl ?_
    exact (h.later ok ht).retry ok he hstart hlp fun n hn hon =>
      waits n size (by omega) (by omega) hshort hn (ht.onward.trans hon)
  refine .neg (by simpa using hne) ?_
  have hlater := hready.made ht
  refine .bind ((htop.later h.toAt hlater).moveFrame (r := ⟨chunk, size.toNat⟩) ok
    (h.toAt.later ok hlater) (h.rests.offers_new ht (by omega))
    (by show _ ≤ size.toNat; omega) alone some_call) fun _ n hn => ?_
  exact hrest n _ { hn with onward := hlater.onward.trans hn.onward }

/-- The spare chunks are given up when the frame has to move. -/
lemma Standing.unlink (h : S.Standing m σ w) (he : σ.entered = false)
    (hmem : m.store.mem.pokeWord (w.room.chunk.toNat + 4) 0 = mem) :
    S.Standing (m.setMem mem) σ { w with spares := [] } ∧ m.store.Onward (m.store.setMem mem) := by
  have htop := h.called he
  have hagr : Agrees (fun b => b < w.room.chunk.toNat + 4 ∨ w.room.chunk.toNat + 8 ≤ b)
      m.store.mem mem := by
    rw [← hmem]
    exact .poked fun b hb => by omega
  have := h.lp_ge
  have hat : S.At (m.setMem mem) { w with spares := [] } :=
    ⟨h.rests.dropSpares hmem,
      (hagr.peekWord (w.room.chunk.toNat + 16) fun i hi => by omega).trans h.last,
      h.worked, h.lp, h.sl⟩
  have hlow := h.rests.holds.low
  rw [← h.rests.ready.ram] at hlow
  refine ⟨hat.called h.callers h.cp he ?_, .write (hagr.mono fun b hb => by omega)⟩
  exact ⟨htop.toLies.agrees hagr (by omega) fun b hb => by omega, htop.known, htop.count,
    htop.operands, htop.sp, htop.inside, htop.first⟩

/-- A frame that has to move takes the first spare chunk if that is large enough, or a new one. -/
lemma Standing.moveElsewhere (ok : S.Ok) (h : S.Standing m σ w) (he : σ.entered = false)
    {start locals operands : UInt32} (hstart : start = S.entry σ.top.method)
    (hlocals : locals.toNat = (S.form σ.top.method).locals)
    (hops : operands.toNat = (S.form σ.top.method).operands) (some_call : w.inner ≠ [])
    (crowded : m.store.exactChunks = true ∨ w.room.stop ≤
      w.lp + 4 * ((S.form σ.top.method).locals + 4 + (S.form σ.top.method).operands))
    (hrest : ∀ n w', S.Moved m w σ.top n w' → Gives rest n P)
    (waits : ∀ n w', S.Stuck m w σ.top → S.Saved n.store (σ.goOn start) w' →
      m.store.Onward n.store → P (.suspend (.collect w'.room.chunk)) n) :
    Gives (do
      let words ← wordsFor locals operands
      let current ← Chunk.ofFrame m.lp
      let spare ← Chunk.next current
      Chunk.setNext current 0
      let usable ← if m.store.exactChunks || spare == 0 then pure false else do
        let size ← Chunk.size spare
        pure (decide (size ≥ words))
      let chunk ← if usable then pure spare else (Store.newChunk words : Exec UInt32)
      if chunk == 0 then
        setStackOffset m.lp ((← get).sp - m.lp)
        Exec.collectAndRetry start
      else
        moveFrame current chunk σ.top.method
        rest) m P := by
  have htop := h.called he
  have hready := h.rests.ready
  have hreads := ok.method _ htop.known
  have := hreads.locals_lt
  have := hreads.operands_lt
  have hcur := h.rests.holds.within ok hready
  obtain ⟨words, hwords, hwn⟩ := wordsFor_eq locals operands (by omega) (by omega)
  have hfw : words.toNat = S.frameWords σ.top.method := by
    rw [hwn, hlocals, hops]
    rfl
  generalize hmem : m.store.mem.pokeWord (w.room.chunk.toNat + 4) 0 = mem
  obtain ⟨hstand, honward⟩ := h.unlink he hmem
  have finish : ∀ n w', S.Moved (m.setMem mem) { w with spares := [] } σ.top n w' →
      Gives rest n P := fun n w' hn => hrest n w' { hn with onward := honward.trans hn.onward }
  have hshort : ∀ k, (m.store.setMem mem).Short k → m.store.Short k := by
    intro k hk
    rwa [Store.Short, h.rests.holds.recorded_link hready hmem (by omega),
      h.rests.holds.recorded_link hready hmem (by omega)] at hk
  have fresh : (∀ r rs, w.spares = r :: rs →
      m.store.exactChunks = true ∨ r.words < S.frameWords σ.top.method) → _ := fun hspare =>
    hstand.moveToNew (P := P) ok he hstart (show (m.setMem mem).lp = m.lp from rfl)
      hfw rfl some_call finish fun n size h1 h2 h3 h4 h5 =>
        waits n _ ⟨crowded, hspare, size, h1, h2, hshort _ h3⟩ h4 (honward.trans h5)
  apply Gives.except_bind hwords
  apply Gives.read_bind (h.ofFrame ok h.inside htop.previous)
  apply Gives.read_bind hcur.next_eq
  refine .edit_bind (o := mem) (hmem ▸ hcur.setNext_eq) ?_
  have hspares := h.rests.spares
  cases hsp : w.spares with
  | nil =>
    rw [hsp] at hspares
    rw [show m.store.mem.peekWord _ = 0 from hspares]
    refine .pos (by simp) ?_
    exact fresh (by simp [hsp])
  | cons r rs =>
    rw [hsp] at hspares
    have hoffers := h.rests.offers_spare hsp hmem
    have hr := hoffers.holds r mem_cons_self
    have hrne : ¬ (r.chunk == 0) = true := by
      rw [beq_iff_eq]
      intro h0
      have := hr.low
      rw [h0] at this
      exact absurd this (by show ¬ _ ≤ 0; omega)
    rw [hspares.1]
    by_cases hexact : m.store.exactChunks = true
    · refine .pos (by simp [hexact]) ?_
      exact fresh fun _ _ _ => .inl hexact
    refine .neg (by simpa [hexact] using hrne) ?_
    refine .read_bind (hr.within ok hstand.rests.ready).size_eq ?_
    have hsize := hr.size
    by_cases hlarge : mem.peekWord (r.chunk.toNat + 12) ≥ words
    · have hle := le_iff_toNat_le.1 hlarge
      refine .pos (by simpa using hlarge) ?_
      refine .neg hrne ?_
      refine .bind (Called.moveFrame (w := { w with spares := [] }) ok hstand.toAt
        (hstand.called he) hoffers ?_ rfl some_call) fun _ n hn => finish n _ hn
      rw [← hsize]
      exact Nat.le_trans (Nat.le_of_eq hfw.symm) hle
    · refine .neg (by simpa using hlarge) ?_
      refine fresh fun r' rs' heq => .inr ?_
      obtain ⟨rfl, rfl⟩ := List.cons.inj (hsp.symm.trans heq)
      have hlt := mt UInt32.le_iff_toNat_le.2 hlarge
      rw [← hfw, ← hsize]
      exact Nat.lt_of_not_le hlt

end Move

lemma Standing.isFirst (h : S.Standing m σ w) (he : σ.entered = false) :
    (m.store.mem.peekWord (w.lp - 12) == 0) = w.inner.isEmpty := by
  have hp := (h.called he).previous
  rw [Placement.previous] at hp
  cases hw : w.inner with
  | nil =>
    rw [hw] at hp
    rw [UInt32.toNat_inj.1 (show _ = (0 : UInt32).toNat from hp)]
    rfl
  | cons c cs =>
    rw [hw] at hp
    have hge : w.room.chunk.toNat + 40 ≤ w.room.frame (c :: cs) := Room.above_ge
    refine beq_false_of_ne fun h0 => ?_
    rw [h0, UInt32.toNat_zero] at hp
    omega

lemma Standing.extendFrame (ok : S.Ok) (h : S.Standing m σ w) (he : σ.entered = false)
    {start operands : UInt32} (hstart : start = S.entry σ.top.method)
    (hops : operands.toNat = (S.form σ.top.method).operands)
    (grows : ∀ n w', S.Standing n ⟨σ.top.grown ((S.form σ.top.method).locals - σ.top.locals.length),
      true, σ.callers⟩ w' → n.ip = m.ip → m.store.Onward n.store → P .proceed n)
    (waits : ∀ n w', S.Stuck m w σ.top → S.Saved n.store (σ.goOn start) w' →
      m.store.Onward n.store → P (.suspend (.collect w'.room.chunk)) n) :
    Gives (extendFrame start operands) m P := by
  have htop := h.called he
  have hready := h.rests.ready
  have hframe := h.frame ok h.inside
  have hreads := ok.method _ htop.known
  have hL := hreads.locals_lt
  have := hreads.operands_lt
  have := h.lp
  have hsl := h.sl
  have := h.size ok
  have := h.stop_le
  have := h.inside
  have h4 := toNat_four
  obtain ⟨size, hsize, hsizen⟩ := enteredOffset_eq hL
  have hmul : operands.toNat * (4 : UInt32).toNat = 4 * (S.form σ.top.method).operands := by
    rw [hops, h4, Nat.mul_comm]
  have : (operands * 4).toNat = 4 * (S.form σ.top.method).operands := by
    rw [toNat_times (by omega), hmul]
  have : (m.lp + size).toNat = w.lp + 4 * ((S.form σ.top.method).locals + 4) := by
    rw [toNat_plus] <;> omega
  have hstop : (m.lp + size + operands * 4).toNat =
      w.lp + 4 * ((S.form σ.top.method).locals + 4 + (S.form σ.top.method).operands) := by
    rw [toNat_plus] <;> omega
  have hover : m.lp + size + operands * 4 ≥ m.sl ↔ w.room.stop ≤
      w.lp + 4 * ((S.form σ.top.method).locals + 4 + (S.form σ.top.method).operands) := by
    rw [ge_iff_le, le_iff_toNat_le, hsl, hstop]
  -- The last part, wherever the frame is.
  have finish : ∀ n w', S.Moved m w σ.top n w' → Gives (do
        let lp := (← get).lp
        clearLocals (← plus lp size) (← walkBound)
        setStackOffset lp (← minus (← get).sp lp)
        return .proceed) n P := by
    intro n w' hn
    refine hn.stands.fillLocals ok hn.called (hn.cp.trans h.cp) hsizen hn.fits fun n' h1 h2 h3 => ?_
    refine grows n' w' ?_ (h2.trans hn.ip) (hn.onward.trans h3)
    rw [h.callers, ← hn.callers]
    exact h1
  unfold Exec.extendFrame
  apply Gives.get_bind
  refine .read_bind (a := σ.top.method) (hframe.method_eq.trans (congrArg _ htop.method)) ?_
  apply Gives.read_bind (hreads.locals _ hready.agrees)
  apply Gives.except_bind hsize
  apply Gives.except_bind (plus_eq (by omega))
  apply Gives.except_bind (times_eq (by omega))
  apply Gives.except_bind (plus_eq (by omega))
  apply Gives.read_bind hframe.previous_eq
  apply Gives.get_bind
  apply Gives.get_bind
  rw [h.isFirst he]
  cases hw : w.inner with
  | nil =>
    -- A chunk has room for its first frame.
    have hfirst := htop.first hw
    refine .neg ?_ (finish m w ⟨h.toAt, htop, rfl, rfl, rfl, hfirst, .refl _⟩)
    have : ¬ m.lp + size + operands * 4 ≥ m.sl := mt hover.1 (Nat.not_le.2 hfirst)
    simpa using this
  | cons c cs =>
    have some_call : w.inner ≠ [] := by simp [hw]
    simp only [List.isEmpty_cons, Bool.not_false, Bool.and_true]
    by_cases hcond : (decide (m.lp + size + operands * 4 ≥ m.sl) || m.store.exactChunks) = true
    · refine .pos hcond ?_
      refine .neg (by simp) ?_
      have crowded := (Bool.or_eq_true_iff.1 hcond).symm.imp_right fun hge =>
        hover.1 (of_decide_eq_true hge)
      exact h.moveElsewhere ok he hstart (toNat_nat (by omega)) hops some_call crowded finish waits
    · refine .neg hcond (finish m w ⟨h.toAt, htop, rfl, rfl, rfl, ?_, .refl _⟩)
      exact Nat.not_le.1 fun hle => hcond (by simp [hover.2 hle])

end Scene

end DeviceVm.Stack
