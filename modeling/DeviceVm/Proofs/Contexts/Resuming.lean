import DeviceVm.Proofs.Contexts.Compaction
import DeviceVm.Proofs.Contexts.Evacuation

/-!
Registers of a context that is saved and loaded again. They are what they were, where the chunk of
the innermost frame is then: in its place, or where a collector has put it.
-/

namespace DeviceVm

lemma Frames.below_last {w : Nat → UInt32} {body last pos : Nat} {fs : List Activation}
    {f g : Activation} (h : Frames w body last pos fs) (hg : g ∈ fs) (top : g.pos = last)
    (hf : f ∈ fs) : f = g ∨ f.pos + 4 * f.count.toNat + 20 ≤ last := by
  induction h with
  | nil => exact absurd hf List.not_mem_nil
  | fresh => exact .inl ((List.mem_singleton.1 hf).trans (List.mem_singleton.1 hg).symm)
  | @entered e rest above stands _ low eq apart _ frames ih =>
    rcases List.mem_cons.1 hf with rfl | inside
    · rcases List.mem_cons.1 hg with rfl | hg
      · exact .inl rfl
      · have := (frames.pos_le hg).2
        exact .inr (by omega)
    rcases List.mem_cons.1 hg with rfl | hg
    · have := (frames.pos_le inside).2
      omega
    · exact ih hg inside

lemma Cell.role_operand {c : Cell} {w : Nat → UInt32} {last x : Nat} {g : Activation}
    (hc : c.isChunk) (h : Frames w c.body last 40 c.frames) (hg : g ∈ c.frames)
    (top : g.pos = last) (hx : g.pos + 4 * g.count.toNat ≤ x) : c.role x = .data := by
  have := (h.stands hg).low
  have hnone : c.frames.find? (·.spans x) = none := by
    refine List.find?_eq_none.2 fun f hf => ?_
    have : ¬ f.spans x := by
      rintro ⟨-, hlt⟩
      rcases h.below_last hg top hf with rfl | hle
      · omega
      · omega
    simpa using this
  rw [role, if_pos hc, if_neg (by omega), if_neg (by omega), if_neg (by omega), if_neg (by omega),
    hnone]

lemma Memory.Lists.carried {m n : Memory} {a b : Nat} {vs : List UInt32} (h : m.Lists a vs)
    (hn : ∀ k < vs.length, n.peekWord (b + 4 * k) = m.peekWord (a + 4 * k)) : n.Lists b vs := by
  induction vs generalizing a b with
  | nil => trivial
  | cons v vs ih =>
    refine ⟨(hn 0 (Nat.zero_lt_succ _)).trans h.1, ih h.2 fun k hk => ?_⟩
    have := hn (k + 1) (Nat.succ_lt_succ hk)
    rwa [show b + 4 * (k + 1) = b + 4 + 4 * k by omega,
      show a + 4 * (k + 1) = a + 4 + 4 * k by omega] at this

namespace Stack

open Exec Word

variable {S S' : Scene} {s t : Store} {m p : Machine} {move : UInt32 → UInt32 → Prop}
  {w w' : Placement} {σ τ ρ : Calls} {ip a : UInt32} {rs : List Room} {c : Cell}

/-- The machine `p` goes on with the calls `σ` at `ip` as `m` would have done. Its innermost chunk
has gone from `chunk` to `a`, and `move` tells what became of references. -/
structure Restores (move : UInt32 → UInt32 → Prop) (σ : Calls) (m : Machine) (ip chunk a : UInt32)
    (p : Machine) : Prop where
  lp : p.lp = m.lp + (a - chunk)
  sl : p.sl = m.sl + (a - chunk)
  sp : p.sp - p.lp = m.sp - m.lp
  cp : move m.cp p.cp
  ip : ∃ mp, move σ.top.method mp ∧ p.ip = mp + (ip - σ.top.method)
  /-- Where the operands start, for the frames of callees and for cleared stacks. -/
  base : σ.entered = true →
    p.store.mem.peekWord (p.lp.toNat - 4) = m.store.mem.peekWord (m.lp.toNat - 4)
  operands : ∀ k < σ.top.operands.length,
    p.store.mem.peekWord (p.sp.toNat - 4 * k) = m.store.mem.peekWord (m.sp.toNat - 4 * k)
  running : p.store.mem.peekWord (a.toNat + 16) = 0
  rest : m.Resumed p

/-- Loading the context whose chunk is at `a` restores the registers. -/
def Reloads (move : UInt32 → UInt32 → Prop) (σ : Calls) (m : Machine) (ip chunk : UInt32)
    (t : Store) (a : UInt32) : Prop :=
  Gives (Exec.loadContext a) (m.setStore t) fun _ p => Restores move σ m ip chunk a p

namespace Scene

lemma Standing.restores (h : S.Standing m σ w)
    (hp : S'.Standing { p with collectionWorked := true } τ w') (hw : w.room.Carried move w'.room)
    (inner : reach w'.inner = reach w.inner) (top : (σ.goOn ip).top.Carried move τ.top)
    (hip : p.ip = τ.top.ip) (entered : τ.entered = σ.entered)
    (owner : move σ.top.owner τ.top.owner) (operands : τ.top.operands = σ.top.operands)
    (rest : (m.setStore t).Resumed p) : Restores move σ m ip w.room.chunk w'.room.chunk p := by
  have : m.lp.toNat = w.room.chunk.toNat + 40 + reach w.inner := h.lp
  have : p.lp.toNat = w'.room.chunk.toNat + 40 + reach w'.inner := hp.lp
  have : m.sl.toNat = w.room.chunk.toNat + 4 * w.room.words := h.sl
  have : p.sl.toNat = w'.room.chunk.toNat + 4 * w'.room.words := hp.sl
  have := hw.words
  have := p.lp.toNat_lt
  have := p.sl.toNat_lt
  have locals : τ.top.locals.length = σ.top.locals.length := top.locals
  have base : σ.entered = true →
      p.store.mem.peekWord (p.lp.toNat - 4) = m.store.mem.peekWord (m.lp.toNat - 4) := by
    intro he
    have h1 := (h.works he).offset
    have h2 := (hp.works (entered.trans he)).offset
    rw [← h.lp] at h1
    rw [← hp.lp, locals, ← h1] at h2
    exact UInt32.toNat_inj.1 h2
  have : p.sp.toNat + m.lp.toNat = m.sp.toNat + p.lp.toNat := by
    rw [h.lp, show p.lp.toNat = w'.lp from hp.lp]
    cases he : σ.entered with
    | true =>
      have h1 := (h.works he).sp
      have h2 : p.sp.toNat = _ := (hp.works (entered.trans he)).sp
      rw [locals, operands] at h2
      omega
    | false =>
      have := (h.called he).sp
      have : p.sp.toNat + 4 = _ := (hp.called (entered.trans he)).sp
      omega
  have hcp : p.cp = τ.top.owner := hp.cp
  refine ⟨?_, ?_, ?_, h.cp ▸ hcp ▸ owner, ⟨_, top.method, ?_⟩, base, fun k hk => ?_, hp.last,
    rest.slice, rest.worked, rest.noYield, rest.instructions, rest.startTime, rest.output⟩
  · refine UInt32.toNat_inj.mp ?_
    rw [toNat_moved (by omega) (by omega)]
    omega
  · refine UInt32.toNat_inj.mp ?_
    rw [toNat_moved (by omega) (by omega)]
    omega
  · refine UInt32.toNat_inj.mp ?_
    rw [UInt32.toNat_sub, UInt32.toNat_sub]
    have := m.lp.toNat_lt
    omega
  · exact hip.trans top.ip
  cases he : σ.entered with
  | false =>
    rw [(h.called he).operands] at hk
    exact absurd hk (Nat.not_lt_zero _)
  | true =>
    have h1 := h.works he
    have h2 := hp.works (entered.trans he)
    have := h1.sp
    have hsp' : p.sp.toNat = _ := h2.sp
    have hlists : p.store.mem.Lists _ τ.top.operands := h2.operands
    rw [locals, operands] at hlists hsp'
    have hlt : σ.top.operands.length - 1 - k < σ.top.operands.length := by omega
    have hget := List.getElem?_eq_getElem hlt
    rw [show p.sp.toNat - 4 * k = w'.lp + 4 * (σ.top.locals.length + 5) +
        4 * (σ.top.operands.length - 1 - k) by omega, hlists.get hget,
      show m.sp.toNat - 4 * k = w.lp + 4 * (σ.top.locals.length + 5) +
        4 * (σ.top.operands.length - 1 - k) by omega, h1.operands.get hget]

lemma Saved.reloads (ok : S.Ok) (h : S.Standing m σ w) (saved : S.Saved t (σ.goOn ip) w) :
    Reloads Eq σ m ip w.room.chunk t w.room.chunk := by
  refine Saved.loadContext ok saved fun p hp hip rest _ _ _ => ?_
  refine h.restores hp ⟨rfl, rfl⟩ rfl ⟨rfl, ?_, rfl, rfl⟩ hip rfl rfl rfl rest
  rw [UInt32.add_comm]
  exact (UInt32.sub_add_cancel _ _).symm

end Scene

namespace Relocation

variable (R : Relocation S S' s t move rs) (ok : S.Ok) (saved : S.Saved s σ w)
  (hsub : ∀ r ∈ w.rooms, r ∈ rs) (hm : move w.room.chunk a) (hc : c.oop = w.room.chunk)
  (hbody : c.body = 4 * w.room.words) (carried : c.Carried move s.mem t.mem a)
include ok saved hc carried

lemma innermost : ∃ f ∈ c.frames, f.pos = 40 + reach w.inner ∧
    f.pos = (c.words s.mem 16).toNat - c.oop.toNat := by
  have hl := Nat.le_of_eq saved.last.symm
  obtain ⟨f, hf, hpos⟩ :=
    saved.rests.inner.frame ok saved.rests.ready.agrees hc carried.framed carried.reads hl
  refine ⟨f, hf, hpos, ?_⟩
  have := saved.last
  have : w.lp = w.room.chunk.toNat + 40 + reach w.inner := rfl
  rw [Cell.words, hc]
  omega

include hbody

lemma operands_kept (entered : σ.entered = true) {k : Nat} (hk : k < σ.top.operands.length) :
    t.mem.peekWord (a.toNat + (40 + reach w.inner) + 4 * (σ.top.locals.length + 5) + 4 * k) =
      s.mem.peekWord (w.lp + 4 * (σ.top.locals.length + 5) + 4 * k) := by
  obtain ⟨f, hf, hpos, hlast⟩ := innermost ok saved hc carried
  have htop := saved.top
  rw [if_pos entered] at htop
  have hframes := carried.framed.frames
  have stands := hframes.stands hf
  have := stands.aligned
  have hlp : w.lp = c.oop.toNat + f.pos := by
    rw [hc, hpos, ← Nat.add_assoc]
    rfl
  have word : ∀ j ≤ 40, c.words s.mem (f.pos - j) = s.mem.peekWord (w.lp - j) := fun j hj => by
    exact congrArg s.mem.peekWord (by omega)
  have hmethod : f.method = σ.top.method := by
    rw [← stands.method, word 20 (by omega)]
    exact htop.method
  have known : S.isMethod f.method := hmethod ▸ htop.known
  have hentered : f.entered = true := by
    refine Scene.entered_of_behind ok saved.rests.ready.agrees stands (carried.reads f hf) known ?_
    rw [word 16 (by omega), saved.ip, hmethod]
    exact htop.behind
  have : f.count.toNat = σ.top.locals.length := by
    have hreads := (carried.reads f hf).count
    rw [if_pos hentered] at hreads
    have hform := (ok.method _ known).locals _ saved.rests.ready.agrees
    have := (ok.method _ known).locals_lt
    rw [Except.ok.inj (hreads.symm.trans hform), htop.count, ← hmethod]
    exact toNat_nat (by omega)
  have hfits := htop.fits
  have := htop.within
  rw [Room.stop, ← hc, ← hbody, hlp] at hfits
  have hword := carried.data (f.pos + 4 * (σ.top.locals.length + 5) + 4 * k) (by omega) (by omega)
    (Cell.role_operand carried.framed.isChunk hframes hf hlast (by omega))
  rw [Cell.words] at hword
  rw [← hpos, hlp]
  simpa only [Nat.add_assoc] using hword

include R hsub hm

lemma reloads (ok' : S'.Ok) (h : S.Standing m ρ w) (hσ : σ = ρ.goOn ip) :
    Reloads move ρ m ip w.room.chunk t a := by
  obtain ⟨τ, w', saved', hw, rfl, top, entered⟩ := R.saved ok saved hsub hm
  have : w.lp = w.room.chunk.toNat + (40 + reach w.inner) := Nat.add_assoc _ _ _
  have hlp' : w'.lp = w'.room.chunk.toNat + (40 + reach w.inner) := Room.above_carried hw.inner
  have owner : move ρ.top.owner τ.top.owner := by
    obtain ⟨f, hf, hpos, -⟩ := innermost ok saved hc carried
    have stands := carried.framed.frames.stands hf
    have := stands.high
    have := stands.aligned
    have hrole : c.role (f.pos - 8) = .pointer := by
      rw [Cell.role_frame carried.framed.isChunk carried.framed.frames hf ⟨by omega, by omega⟩]
      exact Activation.role_pointer (.inr (.inl (by omega))) (by omega)
    have := carried.pointer (f.pos - 8) (by omega) (by omega) hrole
    rw [Cell.words, hc, show w.room.chunk.toNat + (f.pos - 8) = w.lp - 8 by omega,
      show w'.room.chunk.toNat + (f.pos - 8) = w'.lp - 8 by omega, saved.lies.owner,
      saved'.lies.owner, hσ] at this
    exact this
  have operands : τ.top.operands = σ.top.operands := by
    have htop := saved.top
    have htop' := saved'.top
    cases he : σ.entered with
    | false =>
      rw [if_neg (by simp [he])] at htop
      rw [if_neg (by simp [entered, he])] at htop'
      rw [htop.operands, htop'.operands]
    | true =>
      rw [if_pos he] at htop
      rw [if_pos (entered.trans he)] at htop'
      refine htop'.operands.unique (htop.operands.carried fun k hk => ?_) top.operands
      rw [top.locals, hlp']
      exact operands_kept ok saved hc hbody carried he hk
  subst hσ
  refine Scene.Saved.loadContext ok' saved' fun p hp hip rest _ _ _ => ?_
  exact h.restores hp hw.room (reach_carried hw.inner) top hip entered owner operands rest

end Relocation

namespace Scene

/-- What is known of a saved context when the copying collector has run. Its chunks are objects of
the heap, and the classes and methods of `S'` are in the store that is left. -/
def Copied (S : Scene) (s : Store) (w : Placement)
    (known : (UInt32 → UInt32 → Prop) → Store → UInt32 → Prop) : Prop :=
  ∀ X table queues, Copying.Heap X table queues s →
    (∀ r ∈ w.rooms, ∃ c, r.Copyable X c) →
    Ends Copying.collect s fun _ t => ∃ order kept finalized lists,
      Copying.Collected X table queues s order kept finalized lists t ∧
      ∀ S' a, S.Renews S' t (X.Image order) w.rooms → X.Image order w.room.chunk a →
        known (X.Image order) t a

/-- What is known of a saved context when the sliding collector has run. Its chunks are in the list
of chunks; the heap has no table of associations and no minimum size. -/
def Slid (S : Scene) (s : Store) (w : Placement)
    (known : (UInt32 → UInt32 → Prop) → Store → UInt32 → Prop) : Prop :=
  ∀ X C f, X.Heap (atWork s) C → f.Fits (Classes.total C.suites) →
    (∀ r ∈ w.rooms, ∃ c, r.Listed X c) →
    Ends (Store.insideCollector (Sliding.compact f X.space)) s fun _ t => ∃ tgt free u,
      X.Packed (atWork s) (X.survivors (atWork s)) tgt free u ∧ t = finished u ∧
      ∀ S', S.Renews S' t (fun v v' => tgt v = v') w.rooms →
        known (fun v v' => tgt v = v') t (tgt w.room.chunk)

/-- Saving a context and loading it restores the registers, whether its chunk is in its place or a
collector has moved it. -/
theorem resume_restores_registers (ok : S.Ok) (h : S.Standing m σ w)
    (hip : σ.entered = true ↔ ip ≠ S.entry σ.top.method) :
    Gives (Exec.saveContext ip) m fun chunk n => chunk = w.room.chunk ∧
      Reloads Eq σ m ip chunk n.store chunk ∧
      S.Copied n.store w (fun move t a => Reloads move σ m ip chunk t a) ∧
      S.Slid n.store w (fun move t a => Reloads move σ m ip chunk t a) := by
  refine h.saveContext ip ok hip fun n saved _ _ => ⟨rfl, Saved.reloads ok h saved, ?_, ?_⟩
  · intro X table queues heap cells
    refine heap.collect_leaves.mono ?_
    rintro - t ⟨order, kept, finalized, lists, collected, -, leaves⟩
    refine ⟨order, kept, finalized, lists, collected, fun S' a renews image => ?_⟩
    obtain ⟨c, hc⟩ := cells w.room List.mem_cons_self
    exact (renews.evacuation heap collected leaves saved.rests.rooms cells).reloads ok saved
      (fun _ hr => hr) image hc.oop hc.body
      (collected.carried heap hc.isChunk (hc.placed heap.ok image)) renews.ok h rfl
  · intro X C f heap fits cells
    refine (compaction_packs heap fits saved.rests.ready.collecting).mono ?_
    rintro - _ ⟨tgt, free, u, packed, rfl⟩
    refine ⟨tgt, free, u, packed, rfl, fun S' renews => ?_⟩
    obtain ⟨c, hc⟩ := cells w.room List.mem_cons_self
    have used : c.words n.store.mem 16 ≠ 0 := by
      rw [Cell.words, hc.oop]
      exact Relocation.used (show w.room.above w.inner ≤ _ from Nat.le_of_eq saved.last.symm)
    have carried := packed.carried heap hc.mem used
    rw [hc.oop] at carried
    exact (renews.compaction heap packed saved.rests.rooms cells).reloads ok saved
      (fun _ hr => hr) rfl hc.oop hc.body carried renews.ok h rfl

end Scene

/-! ### A context that either collector moves

The contexts that the sample heaps have saved, and the machines that have saved them. -/

section

open List Sample Memory

/-- The words of RAM before the context in the chunk at word `k` was saved. -/
def unsaved (ram : List UInt32) (k : Nat) : List UInt32 := (ram.set (k + 4) 0).set (k + 9) 20

def contextScene (ram : List UInt32) (k : Nat) : Scene :=
  .ofWords (unsaved ram k) (464 + 4 * ram.length) (· = 456) (fun _ => ⟨6, 0, 1, 2⟩) fun _ => False

def contextMachine (s : Store) (ram : List UInt32) (k : Nat) (chunk : UInt32) : Machine where
  store := { s with mem := .ofWords (rom ++ unsaved ram k), collecting := false }
  ip := 463
  sp := chunk + 68
  lp := chunk + 40
  cp := 192
  sl := chunk + 72

def contextCalls (v : UInt32) : Calls := ⟨⟨456, 463, 192, [v], [5, 7]⟩, true, []⟩

def contextPlacement (chunk : UInt32) : Placement := ⟨⟨chunk, 18⟩, [], [], []⟩

/-- The words of a chunk with the context, before it is saved. -/
def contextWords (v : UInt32) : List (Nat × UInt32) :=
  [(1, 0), (2, 0), (3, 18), (4, 0), (5, 456), (7, 0), (8, 192), (9, 20), (10, v), (16, 5), (17, 7)]

/-- The store has the words of RAM, with the context saved in the chunk at word `k`. -/
structure Suspended (s : Store) (ram : List UInt32) (k : Nat) (chunk v : UInt32) : Prop where
  rom_eq : s.rom = { start := 0, size := 464 }
  eeprom_eq : s.eeprom = {}
  ram_eq : s.ram = { start := 464, size := .ofNat (4 * ram.length) }
  mem_eq : s.mem = .ofWords (rom ++ ram)
  address : chunk.toNat = 464 + 4 * k
  low : 17 ≤ k
  small : ram.length < 1000000
  free_aligned : ((unsaved ram k).getD 3 0).toNat % 4 = 0
  free_high : chunk.toNat + 72 ≤ ((unsaved ram k).getD 3 0).toNat
  free_le : ((unsaved ram k).getD 3 0).toNat ≤ ((unsaved ram k).getD 4 0).toNat
  inside : ((unsaved ram k).getD 4 0).toNat ≤ 464 + 4 * ram.length
  words : ∀ p ∈ contextWords v, (unsaved ram k).getD (k + p.1) 0 = p.2
  saved : (((unsaved ram k).set (k + 6) 463).set (k + 9) 28).set (k + 4) (chunk + 40) = ram

namespace Suspended

variable {ram : List UInt32} {k : Nat} {chunk v : UInt32}

lemma onward : (contextCalls v).entered = true ↔ (463 : UInt32) ≠ (contextScene ram k).entry 456 :=
  ⟨fun _ => show (463 : UInt32) ≠ 462 by decide, fun _ => rfl⟩

lemma length_unsaved : (unsaved ram k).length = ram.length := by
  rw [unsaved, length_set, length_set]

variable (h : Suspended s ram k chunk v)
include h

lemma bounds : 17 ≤ k ∧ k + 18 ≤ ram.length ∧ ram.length < 1000000 := by
  have := h.address
  have := h.free_high
  have := h.free_le
  have := h.inside
  exact ⟨h.low, by omega, h.small⟩

lemma ok : (contextScene ram k).Ok := by
  have length : (unsaved ram k).length = ram.length := length_unsaved
  have := h.bounds
  refine Scene.ok_of_words _ _ (by omega) (by omega) (by omega) ?_ fun _ hk => hk.elim
  rintro mp rfl
  exact reads_method

lemma ready : (contextScene ram k).Ready (contextMachine s ram k chunk).store := by
  have length : (unsaved ram k).length = ram.length := length_unsaved
  have := h.bounds
  have := h.address
  have := h.free_high
  have := h.inside
  have hready : (contextScene ram k).Ready (store .copying (unsaved ram k)) :=
    Scene.ready_of_words _ _ h.free_aligned (by omega) h.free_le h.inside (by omega)
  refine hready.congr h.rom_eq h.eeprom_eq (h.ram_eq.trans ?_) rfl rfl
  rw [← length]
  rfl

lemma word {a : Nat} (j : Nat) (u : UInt32) (ha : a = chunk.toNat + 4 * j)
    (hu : (j, u) ∈ contextWords v) :
    (contextMachine s ram k chunk).store.mem.peekWord a = u := by
  rw [ha, h.address, Nat.add_assoc, ← Nat.mul_add]
  exact (peekWord_ram _).trans (h.words _ hu)

lemma toNat_add {j : UInt32} (hj : j.toNat ≤ 72) :
    (chunk + j).toNat = chunk.toNat + j.toNat := by
  have := h.address
  have := h.bounds
  exact toNat_plus (by omega)

lemma holds : (contextScene ram k).Holds (contextMachine s ram k chunk).store ⟨chunk, 18⟩ := by
  have := h.address
  have := h.bounds
  have hfree : (contextMachine s ram k chunk).store.recorded 3 = (unsaved ram k).getD 3 0 := by
    rw [Store.recorded, show (contextMachine s ram k chunk).store.ram = _ from h.ram_eq]
    exact peekWord_ram 3
  constructor
  case aligned => exact show chunk.toNat % 4 = 0 by omega
  case low => exact show 464 + 64 ≤ chunk.toNat by omega
  case high =>
    rw [hfree]
    exact h.free_high
  case header => exact show 5 ≤ 18 by decide
  case fixed =>
    intro b hb
    have : b < 464 ∨ 464 + 4 * ram.length ≤ b := hb
    show b < chunk.toNat ∨ chunk.toNat + 72 ≤ b
    omega
  case size => exact congrArg UInt32.toNat (h.word 3 18 rfl (by simp [contextWords]))

lemma works : (contextScene ram k).Works (contextMachine s ram k chunk) (contextPlacement chunk)
    (contextCalls v).top := by
  have hlp : (contextPlacement chunk).lp = chunk.toNat + 40 := rfl
  have hstop : (contextPlacement chunk).room.stop = chunk.toNat + 72 := rfl
  have lies : (contextCalls v).top.Lies (contextMachine s ram k chunk).store.mem
      (contextPlacement chunk).lp (contextPlacement chunk).previous :=
    ⟨h.word 5 456 (by omega) (by simp [contextWords]),
      congrArg UInt32.toNat (h.word 7 0 (by omega) (by simp [contextWords])),
      h.word 8 192 (by omega) (by simp [contextWords]),
      h.word 10 v (by omega) (by simp [contextWords]), trivial⟩
  refine ⟨⟨⟨lies, rfl, rfl, ?_⟩, ?_⟩, ⟨?_, ?_, trivial⟩, Nat.le_refl _, h.toNat_add (by decide)⟩
  · show (contextPlacement chunk).lp + 28 < _
    omega
  · exact congrArg UInt32.toNat (h.word 9 20 (by omega) (by simp [contextWords]))
  · refine h.word 16 5 ?_ (by simp [contextWords])
    show (contextPlacement chunk).lp + 24 = _
    omega
  · refine h.word 17 7 ?_ (by simp [contextWords])
    show (contextPlacement chunk).lp + 24 + 4 = _
    omega

lemma standing : (contextScene ram k).Standing (contextMachine s ram k chunk) (contextCalls v)
    (contextPlacement chunk) := by
  have rooms : ∀ r ∈ (contextPlacement chunk).rooms,
      (contextScene ram k).Holds (contextMachine s ram k chunk).store r := by
    intro r hr
    obtain rfl := mem_singleton.1 hr
    exact h.holds
  refine ⟨⟨⟨h.ready, rooms, pairwise_singleton _ _, trivial, ?_, ?_⟩, ?_, rfl,
    h.toNat_add (by decide), h.toNat_add (by decide)⟩, rfl, rfl, h.works⟩
  · exact h.word 2 0 rfl (by simp [contextWords])
  · exact h.word 1 0 rfl (by simp [contextWords])
  · exact h.word 4 0 rfl (by simp [contextWords])

lemma savedMemory_eq : Scene.savedMemory (contextMachine s ram k chunk) (contextPlacement chunk)
    463 = .ofWords (rom ++ ram) := by
  have length : (unsaved ram k).length = ram.length := length_unsaved
  have address := h.address
  have := h.bounds
  have hlp : (contextPlacement chunk).lp = chunk.toNat + 40 := rfl
  have offset : (contextMachine s ram k chunk).sp - (contextMachine s ram k chunk).lp = 28 := by
    show chunk + 68 - (chunk + 40) = 28
    grind
  have h1 : (ofWords (rom ++ unsaved ram k)).pokeWord (464 + 4 * (k + 6)) 463 = _ :=
    pokeWord_ram _ (by omega)
  have h2 : (ofWords (rom ++ (unsaved ram k).set (k + 6) 463)).pokeWord (464 + 4 * (k + 9)) 28 =
    _ := pokeWord_ram _ (by rw [length_set]; omega)
  have h3 : (ofWords (rom ++ ((unsaved ram k).set (k + 6) 463).set (k + 9) 28)).pokeWord
      (464 + 4 * (k + 4)) (chunk + 40) = _ :=
    pokeWord_ram _ (by rw [length_set, length_set]; omega)
  rw [Scene.savedMemory, offset, show (contextPlacement chunk).lp - 16 = 464 + 4 * (k + 6) by omega,
    show (contextPlacement chunk).lp - 4 = 464 + 4 * (k + 9) by omega,
    show (contextPlacement chunk).room.chunk.toNat + 16 = 464 + 4 * (k + 4) from
      (congrArg (· + 16) address).trans (by omega)]
  show (((ofWords _).pokeWord _ _).pokeWord _ _).pokeWord _ (chunk + 40) = _
  rw [h1, h2, h3, h.saved]

lemma saves : Gives (Exec.saveContext 463) (contextMachine s ram k chunk) fun _ n =>
    n.store = { s with collecting := false } := by
  refine h.standing.saveContext 463 h.ok onward fun n _ _ hn => ?_
  rw [hn, h.savedMemory_eq, ← h.mem_eq]
  rfl

lemma agrees (kept : Agrees Sample.fixed s.mem t.mem) :
    Agrees (contextScene ram k).fixed (contextScene ram k).mem t.mem := by
  have length : (unsaved ram k).length = ram.length := length_unsaved
  rw [h.mem_eq] at kept
  have size : t.mem.size = (contextScene ram k).mem.size := by
    show _ = (ofWords _).size
    rw [kept.size, size_words, size_words, length]
  refine ⟨size, kept.order, fun b hb => ?_⟩
  rcases hb with hb | hb
  · have hk : b / 4 < 116 := by omega
    have h4 : b % 4 < 4 := Nat.mod_lt _ (by decide)
    show _ = (ofWords _).peek b
    rw [kept.peek b hb, ← Nat.div_add_mod b 4, peek_ofWords _ _ h4, peek_ofWords _ _ h4,
      getD_rom hk, getD_rom hk]
  · have above : t.mem.size ≤ b := by
      rw [kept.size, size_words]
      exact hb
    have above' : (contextScene ram k).mem.size ≤ b := size ▸ above
    rw [peek_eq, peek_eq, Array.getElem?_eq_none above, Array.getElem?_eq_none above']

end Suspended

lemma copying_suspended : Suspended Copying.sampleStore Copying.sampleRam 83 796 544 := by
  have length := Copying.sample_length
  refine ⟨rfl, rfl, rfl, rfl, rfl, by decide, by omega, by decide, by decide, by decide, ?_,
    by decide, by decide +kernel⟩
  rw [length]
  decide

lemma sliding_suspended : Suspended Sliding.sampleStore Sliding.sampleRam 29 580 572 := by
  refine ⟨rfl, rfl, rfl, rfl, rfl, ?_, ?_, ?_, ?_, ?_, ?_, ?_, ?_⟩ <;> decide

section

variable {order kept finalized : List Cell} {lists : Nat → List Cell}
  (C : Copying.Collected Copying.sampleScene Copying.sampleTable Copying.sampleQueues
    Copying.sampleStore order kept finalized lists t)
  (leaves : Copying.sampleScene.Leaves Copying.sampleStore t)
include C leaves

lemma copied_renews : (contextScene Copying.sampleRam 83).Renews
    (contextScene Copying.sampleRam 83) t (Copying.sampleScene.Image order)
    (contextPlacement 796).rooms := by
  have ok := Copying.sample_ok
  have length := Copying.sample_length
  have fixed_cases : ∀ {b}, (contextScene Copying.sampleRam 83).fixed b → b < 464 ∨ 1208 ≤ b := by
    intro b hb
    have : b < 464 ∨ 464 + 4 * Copying.sampleRam.length ≤ b := hb
    omega
  have := C.room
  have hfree := C.free
  have hstop := C.stop
  have : Copying.sampleScene.target = 868 := rfl
  have : Copying.sampleScene.half = 340 := rfl
  constructor
  case ok => exact copying_suspended.ok
  case rom => exact leaves.rom
  case eeprom => exact leaves.eeprom
  case ram => exact leaves.ram.trans copying_suspended.ready.ram
  case agrees =>
    refine copying_suspended.agrees (leaves.agrees.mono fun b hb => ⟨hb, .inl ?_⟩)
    exact Nat.lt_trans hb (by decide)
  case method =>
    rintro mp mp' rfl hm
    rw [hm.unique ok C.nodup (.still (.inl (by decide)))]
    exact ⟨rfl, rfl⟩
  case free =>
    intro b hb
    have := fixed_cases hb
    omega
  case chunk =>
    intro b r a hb hr hm
    obtain rfl := mem_singleton.1 hr
    have := fixed_cases hb
    have fresh : Copying.sampleScene.Fresh Copying.sampleChunk :=
      Copying.sample_fresh (by simp [Copying.sampleCells])
    have hp := Copying.Scene.Image.placed ok fresh hm
    have := hp.low
    have := hp.high
    have : Copying.sampleChunk.body = 72 := rfl
    show b < a.toNat ∨ a.toNat + 72 ≤ b
    omega

end

section

variable {tgt : UInt32 → UInt32} {free : UInt32} {L : List Cell}
  (packed : Sliding.sampleScene.Packed Sliding.sampleStore L tgt free t)
include packed

lemma slid_renews : (contextScene Sliding.sampleRam 29).Renews (contextScene Sliding.sampleRam 29)
    (finished t) (fun v v' => tgt v = v') (contextPlacement 580).rooms := by
  have heap := Sliding.sample_heap
  have length : Sliding.sampleRam.length = 58 := by decide
  have fixed_cases : ∀ {b}, (contextScene Sliding.sampleRam 29).fixed b → b < 464 ∨ 696 ≤ b := by
    intro b hb
    have : b < 464 ∨ 464 + 4 * Sliding.sampleRam.length ≤ b := hb
    omega
  have kin := packed.moved.kin
  have hlow := Sliding.sample_low
  have hhigh := Sliding.sample_high
  obtain ⟨-, bfree, ble, bstop⟩ := packed.bounds heap
  have hfree : (finished t).recorded 3 = free := packed.sized.free_eq
  have hstop : ((finished t).recorded 4).toNat ≤ 668 := hhigh ▸ bstop
  constructor
  case ok => exact sliding_suspended.ok
  case rom => exact kin.rom
  case eeprom => exact kin.eeprom
  case ram => exact kin.ram
  case agrees => exact sliding_suspended.agrees (Sliding.sample_rom packed.moved.fixed)
  case method =>
    rintro mp mp' rfl rfl
    rw [packed.shift.outside 456 (by decide)]
    exact ⟨rfl, rfl⟩
  case free =>
    intro b hb
    have := fixed_cases hb
    rw [hfree]
    omega
  case chunk =>
    intro b r a hb hr hm
    obtain rfl := mem_singleton.1 hr
    subst hm
    have := fixed_cases hb
    have hchunk : Sliding.sampleChunk ∈ Sliding.sampleScene.chunks := mem_singleton_self _
    have landed := packed.moved.landed heap packed.shift (.inr hchunk)
    have : (tgt 580).toNat + 72 ≤ free.toNat := landed.high
    have : 528 ≤ (tgt 580).toNat := by
      rcases packed.shift.chunk_cases heap hchunk with hl | ⟨-, he⟩
      · have : 536 + 4 ≤ (tgt 580).toNat := (packed.shift.low hl).1
        omega
      · rw [show tgt 580 = 580 from he]
        decide
    show b < (tgt 580).toNat ∨ (tgt 580).toNat + 72 ≤ b
    omega

end

def copyingMachine : Machine := contextMachine Copying.sampleStore Copying.sampleRam 83 796

def slidingMachine : Machine := contextMachine Sliding.sampleStore Sliding.sampleRam 29 580

/-- Both machines run a method with two operands. The chunk of the first goes to the other half. -/
theorem resume_restores_registers_sample :
    (Gives (Exec.saveContext 463) copyingMachine fun chunk n =>
      Reloads Eq (contextCalls 544) copyingMachine 463 chunk n.store chunk ∧
      Ends Copying.collect n.store fun _ t => chunk ≠ t.recorded 9 ∧ ∃ order,
        Reloads (Copying.sampleScene.Image order) (contextCalls 544) copyingMachine 463 chunk t
          (t.recorded 9)) ∧
    Gives (Exec.saveContext 463) slidingMachine fun chunk n =>
      Reloads Eq (contextCalls 572) slidingMachine 463 chunk n.store chunk ∧
      Ends (Store.insideCollector (Sliding.compact ⟨5, 4⟩ Sliding.sampleScene.space)) n.store
        fun _ t => ∃ tgt : UInt32 → UInt32, Reloads (fun v v' => tgt v = v') (contextCalls 572)
          slidingMachine 463 chunk t (t.recorded 9) := by
  constructor
  · have h := copying_suspended
    refine ((Scene.resume_restores_registers h.ok h.standing Suspended.onward).both h.saves).mono ?_
    rintro chunk n ⟨⟨rfl, reloads, copied, -⟩, hn⟩
    refine ⟨reloads, ?_⟩
    have hstore : n.store = Copying.sampleStore := hn
    have fresh : Copying.sampleScene.Fresh Copying.sampleChunk :=
      Copying.sample_fresh (by simp [Copying.sampleCells])
    rw [hstore] at copied ⊢
    have collects := copied _ _ _ Copying.sample_heap fun r hr => ⟨Copying.sampleChunk, fresh, rfl,
      mem_singleton.1 hr ▸ rfl, mem_singleton.1 hr ▸ rfl⟩
    refine (collects.both Copying.sample_heap.collect_leaves).mono ?_
    rintro - t ⟨⟨order, kept, finalized, lists, C, known⟩, _, _, _, _, -, -, leaves⟩
    have image := C.root 9 ⟨by omega, by omega, by omega⟩ (by omega)
    rw [show Copying.sampleStore.recorded 9 = 796 from Copying.sample_recorded] at image
    refine ⟨fun he => ?_, order, known _ _ (copied_renews C leaves) image⟩
    have : 868 + 4 ≤ (t.recorded 9).toNat :=
      (Copying.Scene.Image.placed Copying.sample_ok fresh image).low
    rw [← he] at this
    exact absurd this (by decide)
  · have h := sliding_suspended
    refine ((Scene.resume_restores_registers h.ok h.standing Suspended.onward).both h.saves).mono ?_
    rintro chunk n ⟨⟨rfl, reloads, -, slid⟩, hn⟩
    refine ⟨reloads, ?_⟩
    have hstore : atWork n.store = Sliding.sampleStore := by rw [hn]; rfl
    have fits : Forwarding.Fits ⟨5, 4⟩ (Classes.total Sliding.sampleClasses.suites) := by
      constructor <;> decide
    refine (slid Sliding.sampleScene Sliding.sampleClasses ⟨5, 4⟩ (hstore ▸ Sliding.sample_heap)
      fits fun r hr => ⟨Sliding.sampleChunk, mem_singleton_self _, mem_singleton.1 hr ▸ rfl,
        mem_singleton.1 hr ▸ rfl⟩).mono ?_
    rintro - _ ⟨tgt, free, u, packed, rfl, known⟩
    rw [hstore] at packed
    have moved : (finished u).recorded 9 = tgt (Sliding.sampleStore.recorded 9) :=
      packed.moved.root 1 (by omega)
    rw [moved, show Sliding.sampleStore.recorded 9 = 580 from Sliding.sample_recorded]
    exact ⟨tgt, known _ (slid_renews packed)⟩

end

end Stack

end DeviceVm
