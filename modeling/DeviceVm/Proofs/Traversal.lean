import DeviceVm.Proofs.Execution
import DeviceVm.Proofs.Objects

/-!
What a traversal does to an object, whatever its visitor does with a word. The invariant `I done`
of a visitor holds while the words in `done` of the object have been visited; a traversal visits
each word once, so that at its end all words that are not data are in `done`.
-/

namespace DeviceVm

namespace Traversal

/-- The word `x` was visited too. -/
def also (done : Nat → Prop) (x : Nat) : Nat → Prop := fun y => done y ∨ y = x

lemma not_also {done : Nat → Prop} {x y : Nat} (h : ¬ done x) (hne : x ≠ y) :
    ¬ also done y x := by
  rintro (hx | hx)
  · exact h hx
  · exact hne hx

variable {word : UInt32 → Int32 → Run Unit} {base map : UInt32} {s : Store}

lemma visitWords_ends (J : Nat → Store → Prop) {n : Nat} {i : UInt32}
    (step : ∀ (j : UInt32) t, i ≤ j → j.toNat < i.toNat + n → J j.toNat t →
      Ends (word base j.toInt32) t fun _ u => J (j.toNat + 1) u)
    (range : i.toNat + n < 4294967296) (h : J i.toNat s) :
    Ends (visitWords word base n i) s fun _ t => J (i.toNat + n) t := by
  induction n generalizing i s with
  | zero => exact .pure h
  | succ n ih =>
    have h1 : (i + 1).toNat = i.toNat + 1 := Word.toNat_plus (by
      show i.toNat + 1 < 4294967296
      omega)
    refine .bind (step i s (UInt32.le_refl i) (by omega) h) fun _ t ht => ?_
    have hr := ih
      (fun j u hj hn => step j u (UInt32.le_iff_toNat_le.2 (by
        have := UInt32.le_iff_toNat_le.1 hj
        omega)) (by omega)) (by omega) (h1 ▸ ht)
    rw [h1, show i.toNat + 1 + n = i.toNat + (n + 1) by omega] at hr
    exact hr

lemma visitMapped_ends (J : Nat → Store → Prop) {refs : Nat → Bool} {n : Nat} {i : UInt32}
    (bit : ∀ (j : UInt32) t, j.toNat < i.toNat + n → J j.toNat t →
      Class.mapBit map j t.mem = .ok (refs j.toNat))
    (step : ∀ (j : UInt32) t, i ≤ j → j.toNat < i.toNat + n → refs j.toNat = true →
      J j.toNat t → Ends (word base j.toInt32) t fun _ u => J (j.toNat + 1) u)
    (skip : ∀ j t, refs j = false → J j t → J (j + 1) t)
    (range : i.toNat + n < 4294967296) (h : J i.toNat s) :
    Ends (visitMapped word base map n i) s fun _ t => J (i.toNat + n) t := by
  induction n generalizing i s with
  | zero => exact .pure h
  | succ n ih =>
    have h1 : (i + 1).toNat = i.toNat + 1 := Word.toNat_plus (by
      show i.toNat + 1 < 4294967296
      omega)
    have next : ∀ t, J (i.toNat + 1) t →
        Ends (visitMapped word base map n (i + 1)) t fun _ u => J (i.toNat + (n + 1)) u := by
      intro t ht
      have hr := ih (fun j u hn => bit j u (by omega))
        (fun j u hj hn => step j u (UInt32.le_iff_toNat_le.2 (by
          have := UInt32.le_iff_toNat_le.1 hj
          omega)) (by omega)) (by omega) (h1 ▸ ht)
      rw [h1, show i.toNat + 1 + n = i.toNat + (n + 1) by omega] at hr
      exact hr
    refine .read_bind (bit i s (by omega) h) ?_
    cases hb : refs i.toNat with
    | true => exact .bind (step i s (UInt32.le_refl i) (by omega) hb h) fun _ t ht => next t ht
    | false => exact next s (skip _ s hb h)

/-! ### Frames -/

end Traversal

/-- The words of a frame that a traversal visits or rewrites. -/
def Activation.touches (f : Activation) (shift : UInt32) (x : Nat) : Prop :=
  x + 20 = f.pos ∨ x + 8 = f.pos ∨ x + 16 = f.pos ∨ (x + 12 = f.pos ∧ shift ≠ 0) ∨
    ∃ i < f.count.toNat, f.refs i = true ∧ x = f.pos + 4 * i

namespace Activation

variable {f : Activation} {w : Nat → UInt32} {body x : Nat} {shift : UInt32}

lemma Stands.touched (h : f.Stands w body) (hx : f.touches shift x) :
    f.spans x ∧ x % 4 = 0 ∧ x + 4 ≤ body ∧ 20 ≤ x := by
  have := h.aligned
  have := h.low
  have := h.high
  rw [spans]
  rcases hx with hx | hx | hx | ⟨hx, _⟩ | ⟨i, hi, _, hx⟩ <;> omega

lemma role_pointer (hx : f.touches 0 x) (hc : x + 16 ≠ f.pos) : f.role x = .pointer := by
  rw [role]
  rcases hx with hx | hx | hx | hx | ⟨i, hi, hr, hx⟩
  · rw [if_pos (.inl hx)]
  · rw [if_pos (.inr hx)]
  · exact absurd hx hc
  · exact absurd rfl hx.2
  · have he : (x - f.pos) / 4 = i := by omega
    rw [if_neg (by omega), if_neg (by omega), if_neg (by omega), he, if_pos ⟨by omega, hr⟩]

lemma role_code (hx : x + 16 = f.pos) : f.role x = .code := by
  rw [role, if_neg (by omega), if_pos hx]

lemma role_link (hx : x + 12 = f.pos) : f.role x = .link := by
  rw [role, if_neg (by omega), if_neg (by omega), if_pos hx]

lemma role_data (ha : f.pos % 4 = 0) (hx : x % 4 = 0) (hs : f.spans x)
    (hn : ¬ f.touches shift x) (h0 : shift ≠ 0) : f.role x = .data := by
  simp only [touches, not_or, not_and, not_exists] at hn
  obtain ⟨h1, h2, h3, h4, h5⟩ := hn
  rw [role, if_neg (by omega), if_neg h3, if_neg fun h => h4 h h0, if_neg]
  rintro ⟨hl, hr⟩
  have := hs.2
  exact h5 ((x - f.pos) / 4) (by omega) hr (by omega)

end Activation

variable {w : Nat → UInt32} {last pos body : Nat} {fs : List Activation}

lemma Cell.role_rest {c : Cell} (hc : c.isChunk) {x : Nat}
    (h : Frames w c.body last pos c.frames) (hx : x % 4 = 0)
    (hn : x ≠ 0 ∧ x ≠ 4 ∧ x ≠ 8 ∧ x ≠ 16) {shift : UInt32} (h0 : shift ≠ 0)
    (hf : ∀ f ∈ c.frames, ¬ f.touches shift x) : c.role x = .data := by
  rw [role, if_pos hc, if_neg hn.1, if_neg hn.2.1, if_neg hn.2.2.1, if_neg hn.2.2.2]
  cases he : c.frames.find? (·.spans x) with
  | none => rfl
  | some f =>
    have hm := List.mem_of_find?_eq_some he
    have hs := List.find?_some he
    exact Activation.role_data (h.stands hm).aligned hx (by simpa using hs) (hf f hm) h0

lemma Frames.last_lt
    (h : Frames w body last pos fs) (hp : pos < 2147483648) : last < 2147483648 := by
  induction h with
  | nil behind => omega
  | fresh _ _ top => omega
  | entered _ _ _ _ _ range _ ih => exact ih range

lemma Activation.Reads.map {m : Memory} {f : Activation} (h : f.Reads m) (n : Memory) :
    (liftM (Method.referenceMap f.method) : ReaderT Memory (Except Fault) UInt32) n =
      .ok (f.method + Method.mapOffset) := by
  have : Method.mapOffset.toNat = 5 := rfl
  have := h.room
  rw [Method.referenceMap, Word.plus_eq (by omega)]
  rfl

lemma Frames.length_le
    (h : Frames w body last pos fs) : fs ≠ [] → pos ≤ last ∧ pos + fs.length ≤ body + 1 := by
  induction h with
  | nil => exact fun h => absurd rfl h
  | fresh stands _ top =>
    intro _
    have := stands.high
    exact ⟨by omega, by simp; omega⟩
  | @entered f rest above stands _ low eq apart _ _ ih =>
    intro _
    have := stands.high
    refine ⟨low, ?_⟩
    cases rest with
    | nil => simp; omega
    | cons g rest =>
      have hr := ih (by simp)
      simp only [List.length_cons] at hr ⊢
      omega

namespace Traversal

/-- What a visitor does with the frames of a chunk at `o` that held the words `w`. Frame links
move by `shift`. -/
structure Walk (I : (Nat → Prop) → Store → Prop) (word : UInt32 → Int32 → Run Unit)
    (o body : Nat) (w : Nat → UInt32) (shift : UInt32) (fs : List Activation) : Prop where
  inside : ∀ {done s}, I done s → o + body ≤ s.mem.size ∧ s.mem.size ≤ 16777216
  unvisited : ∀ {done s x}, I done s → x % 4 = 0 → x + 4 ≤ body → ¬ done x →
    s.mem.peekWord (o + x) = w x
  reads : ∀ {done s f}, I done s → f ∈ fs → f.Reads s.mem
  visit : ∀ {done s f x base index}, I done s → f ∈ fs → f.touches 0 x → x + 16 ≠ f.pos →
    ¬ done x → Points base index (o + x) →
    Ends (word base index) s fun _ t => I (also done x) t
  code : ∀ {done s f}, I done s → f ∈ fs → done (f.pos - 20) → ¬ done (f.pos - 16) →
    I (also done (f.pos - 16)) (s.setMem (s.mem.pokeWord (o + (f.pos - 16))
      (s.mem.peekWord (o + (f.pos - 20)) + (w (f.pos - 16) - w (f.pos - 20)))))
  link : ∀ {done s f}, I done s → f ∈ fs → ¬ done (f.pos - 12) → shift ≠ 0 →
    I (also done (f.pos - 12)) (s.setMem (s.mem.pokeWord (o + (f.pos - 12))
      (if w (f.pos - 12) = 0 then 0 else w (f.pos - 12) + shift)))

namespace Walk

variable {I : (Nat → Prop) → Store → Prop} {o body : Nat} {w : Nat → UInt32} {shift : UInt32}
  {fs : List Activation} {f : Activation} {lp : UInt32} {done : Nat → Prop}

lemma points_header {j : Int} {index : Int32} {d : Nat} (hlp : lp.toNat = o + f.pos)
    (hj : index.toInt = j) (hd : j = -(d : Int)) (hp : 4 * d ≤ f.pos)
    (hb : 0 < d ∧ d < 16) : Points lp index (o + (f.pos - 4 * d)) := by
  have := lp.toNat_lt
  exact .lit j hj (by omega)

section

variable (h : Walk I word o body w shift fs) {last : Nat}
include h

lemma read_header (hi : I done s) (hs : f.Stands w body) (hlp : lp.toNat = o + f.pos)
    (ho : o % 4 = 0) {index : Int32} {d : Nat} (hd : index.toInt = -(d : Int))
    (hb : 0 < d ∧ d ≤ 5) (hn : ¬ done (f.pos - 4 * d)) :
    Memory.word lp index s.mem = .ok (w (f.pos - 4 * d)) := by
  have := h.inside hi
  have := hs.low
  have := hs.high
  have := hs.aligned
  rw [← h.unvisited hi (by omega) (by omega) hn]
  exact Memory.word_eq (points_header hlp hd rfl (by omega) (by omega)) (by omega)

lemma header_ends (hf : f ∈ fs) (hs : f.Stands w body) (hlp : lp.toNat = o + f.pos)
    (ho : o % 4 = 0) (hi : I done s) (hd : ∀ x, f.pos ≤ x + 20 → ¬ done x) {α : Type}
    {k : UInt32 → UInt32 → Run α} {post : α → Store → Prop}
    (hrest : ∀ t, I (fun x => done x ∨ x + 20 = f.pos ∨ x + 8 = f.pos ∨ x + 16 = f.pos ∨
      (x + 12 = f.pos ∧ shift ≠ 0)) t → Ends (k f.method (w (f.pos - 16))) t post) :
    Ends (do
      word lp (-2)
      let mp ← store (Frame.method lp)
      let ip ← store (Frame.ip lp)
      word lp (-5)
      let moved ← store (Frame.method lp)
      store (Frame.setIp lp (moved + (ip - mp)))
      if shift != 0 then
        let previous ← store (Frame.previous lp)
        store (Frame.setPrevious lp (if previous == 0 then 0 else previous + shift))
      k mp ip) s post := by
  have := hs.low
  have := hs.high
  have := hs.aligned
  have hm := hs.method
  have p2 : Points lp (-2) (o + (f.pos - 8)) :=
    points_header (d := 2) hlp rfl rfl (by omega) (by omega)
  have p3 : Points lp (-3) (o + (f.pos - 12)) :=
    points_header (d := 3) hlp rfl rfl (by omega) (by omega)
  have p4 : Points lp (-4) (o + (f.pos - 16)) :=
    points_header (d := 4) hlp rfl rfl (by omega) (by omega)
  have p5 : Points lp (-5) (o + (f.pos - 20)) :=
    points_header (d := 5) hlp rfl rfl (by omega) (by omega)
  refine .bind (h.visit hi hf (.inr (.inl (by omega))) (by omega) (hd _ (by omega)) p2)
    fun _ t1 h1 => ?_
  have m1 := not_also (hd (f.pos - 20) (by omega)) (y := f.pos - 8) (by omega)
  have i1 := not_also (hd (f.pos - 16) (by omega)) (y := f.pos - 8) (by omega)
  have l1 := not_also (hd (f.pos - 12) (by omega)) (y := f.pos - 8) (by omega)
  refine .read_bind (h.read_header h1 hs hlp ho (d := 5) rfl (by omega) m1) ?_
  refine .read_bind (h.read_header h1 hs hlp ho (d := 4) rfl (by omega) i1) ?_
  rw [show 4 * 5 = 20 from rfl, show 4 * 4 = 16 from rfl, hm]
  refine .bind (h.visit h1 hf (.inl (by omega)) (by omega) m1 p5) fun _ t2 h2 => ?_
  have i2 := not_also i1 (y := f.pos - 20) (by omega)
  have l2 := not_also l1 (y := f.pos - 20) (by omega)
  have := h.inside h2
  have hmoved : Frame.method lp t2.mem = .ok (t2.mem.peekWord (o + (f.pos - 20))) :=
    Memory.word_eq p5 (by omega)
  refine .read_bind hmoved ?_
  refine .edit_bind (Memory.setWord_eq p4 (by omega)) ?_
  have h3 := h.code h2 hf (.inr rfl) i2
  rw [hm] at h3
  have l3 := not_also l2 (y := f.pos - 16) (by omega)
  by_cases hshift : shift = 0
  · rw [if_neg (by simpa using hshift)]
    apply hrest
    refine cast (congrArg (fun d => I d _) (funext fun x => propext ?_)) h3
    simp only [also]
    grind
  rw [if_pos (by simpa using hshift)]
  have := h.inside h3
  refine .read_bind (h.read_header h3 hs hlp ho (d := 3) rfl (by omega) l3) ?_
  refine .edit_bind (Memory.setWord_eq p3 (by omega)) ?_
  have h4 := h.link h3 hf l3 hshift
  apply hrest
  simp only [beq_iff_eq]
  refine cast (congrArg (fun d => I d _) (funext fun x => propext ?_)) h4
  simp only [also]
  grind

lemma locals_ends (hf : f ∈ fs) (hs : f.Stands w body) (hlp : lp.toNat = o + f.pos)
    (hi : I done s) (hd : ∀ x, f.pos ≤ x → ¬ done x) :
    Ends (visitMapped word lp (f.method + Method.mapOffset) f.count.toNat 0) s fun _ t =>
      I (fun x => done x ∨ ∃ i < f.count.toNat, f.refs i = true ∧ x = f.pos + 4 * i) t := by
  have := h.inside hi
  have := hs.high
  have hcount := f.count.toNat_lt
  have hend := @visitMapped_ends word lp (f.method + Method.mapOffset) s
    (fun j t => I (fun x => done x ∨ ∃ i < j, f.refs i = true ∧ x = f.pos + 4 * i) t)
    f.refs f.count.toNat 0 ?_ ?_ ?_ (by simpa using hcount) ?_
  · simpa using hend
  · intro j t hj ht
    simp only [UInt32.toNat_zero, Nat.zero_add] at hj
    exact (h.reads ht hf).refs j (UInt32.lt_iff_toNat_lt.2 hj)
  · intro j t _ hj href ht
    simp only [UInt32.toNat_zero, Nat.zero_add] at hj
    have hp : Points lp j.toInt32 (o + (f.pos + 4 * j.toNat)) :=
      .nat (by omega) (by omega) (by omega)
    have hnew : ¬ (done (f.pos + 4 * j.toNat) ∨
        ∃ i < j.toNat, f.refs i = true ∧ f.pos + 4 * j.toNat = f.pos + 4 * i) := by
      rintro (hx | ⟨i, hij, _, he⟩)
      · exact hd _ (by omega) hx
      · omega
    refine (h.visit ht hf (.inr (.inr (.inr (.inr ⟨j.toNat, hj, href, rfl⟩)))) (by omega) hnew
      hp).mono fun _ u hu => ?_
    refine cast (congrArg (fun d => I d u) (funext fun x => propext ⟨?_, ?_⟩)) hu
    · rintro ((hx | ⟨i, hij, hr, he⟩) | rfl)
      · exact .inl hx
      · exact .inr ⟨i, by omega, hr, he⟩
      · exact .inr ⟨j.toNat, by omega, href, rfl⟩
    rintro (hx | ⟨i, hij, hr, he⟩)
    · exact .inl (.inl hx)
    · by_cases hie : i = j.toNat
      · exact .inr (hie ▸ he)
      · exact .inl (.inr ⟨i, by omega, hr, he⟩)
  · intro j t hr ht
    refine cast (congrArg (fun d => I d t) (funext fun x => propext ⟨?_, ?_⟩)) ht
    · rintro (hx | ⟨i, hij, hri, he⟩)
      · exact .inl hx
      · exact .inr ⟨i, by omega, hri, he⟩
    rintro (hx | ⟨i, hij, hri, he⟩)
    · exact .inl hx
    have : i ≠ j := by
      rintro rfl
      rw [hr] at hri
      exact Bool.false_ne_true hri
    exact .inr ⟨i, by omega, hri, he⟩
  · refine cast (congrArg (fun d => I d s) (funext fun x => propext ⟨.inl, ?_⟩)) hi
    rintro (hx | ⟨i, hij, _⟩)
    · exact hx
    · simp at hij

lemma visitFrames_ends (ho : o % 4 = 0) {pos : Nat} {gs : List Activation}
    (frames : Frames w body last pos gs) {top : UInt32} (htop : top.toNat = o + last)
    (hg : ∀ f ∈ gs, f ∈ fs) (hlp : lp.toNat = o + pos) (hi : I done s)
    (hd : ∀ x, pos ≤ x + 20 → ¬ done x) {fuel : Nat} (hfuel : gs.length < fuel) :
    Ends (visitFrames word top shift fuel lp) s fun _ t =>
      I (fun x => done x ∨ ∃ f ∈ gs, f.touches shift x) t := by
  induction frames generalizing s lp done fuel with
  | nil behind =>
    rcases fuel with _ | fuel
    · omega
    have hlt : lp > top := UInt32.lt_iff_toNat_lt.2 (by omega)
    rw [visitFrames, if_pos hlt]
    refine .pure (cast (congrArg (fun d => I d s) (funext fun x => propext ⟨.inl, ?_⟩)) hi)
    rintro (hx | ⟨f, hf, _⟩)
    · exact hx
    · exact absurd hf List.not_mem_nil
  | @fresh f stands entered ftop =>
    rcases fuel with _ | fuel
    · omega
    have hf := hg f List.mem_cons_self
    have hle : ¬ lp > top := fun hlt => by
      have := UInt32.lt_iff_toNat_lt.1 hlt
      omega
    rw [visitFrames, if_neg hle]
    refine h.header_ends hf stands hlp ho hi hd fun t ht => ?_
    have hr := h.reads ht hf
    refine .read_bind (hr.map _) ?_
    refine .read_bind hr.header ?_
    have he := stands.entered
    rw [entered] at he
    have heq : w (f.pos - 16) - f.method = f.header := by simpa using he.symm
    rw [if_pos (by simpa using heq)]
    have hc := hr.count
    rw [entered, if_neg Bool.false_ne_true] at hc
    refine .read_bind hc ?_
    refine .bind (h.locals_ends hf stands hlp ht ?_) fun _ u hu => ?_
    · rintro x hx (hdx | hdx)
      · exact hd x (by omega) hdx
      · omega
    have hlast : lp = top := UInt32.toNat_inj.1 (by omega)
    refine .read (b := ()) ?_ (cast (congrArg (fun d => I d u) (funext fun x => propext ?_)) hu)
    · show require (lp == top) = _
      simp [require, hlast]
    · simp only [List.mem_singleton, Activation.touches]
      grind
  | @entered f rest above stands entered low eq apart range hframes ih =>
    rcases fuel with _ | fuel
    · omega
    have hf := hg f List.mem_cons_self
    have := stands.low
    have := h.inside hi
    have hle : ¬ lp > top := fun hlt => by
      have := UInt32.lt_iff_toNat_lt.1 hlt
      omega
    rw [visitFrames, if_neg hle]
    refine h.header_ends hf stands hlp ho hi hd fun t ht => ?_
    have hr := h.reads ht hf
    refine .read_bind (hr.map _) ?_
    refine .read_bind hr.header ?_
    have he := stands.entered
    rw [entered] at he
    have hne : ¬ w (f.pos - 16) - f.method = f.header := by simpa using he.symm
    rw [if_neg (by simpa using hne)]
    have hc := hr.count
    rw [entered, if_pos rfl] at hc
    refine .read_bind hc ?_
    refine .bind (h.locals_ends hf stands hlp ht ?_) fun _ u hu => ?_
    · rintro x hx (hdx | hdx)
      · exact hd x (by omega) hdx
      · omega
    have hu' : I (fun x => done x ∨ f.touches shift x) u := by
      refine cast (congrArg (fun d => I d u) (funext fun x => propext ?_)) hu
      simp only [Activation.touches]
      grind
    have hn : ¬ (done (f.pos - 4 * 1) ∨ f.touches shift (f.pos - 4 * 1)) := by
      rintro (hx | hx)
      · exact hd _ (by omega) hx
      · simp only [Activation.touches] at hx
        omega
    have hoff : Frame.stackOffset lp u.mem = .ok (w (f.pos - 4)) :=
      h.read_header hu' stands hlp ho rfl (by omega) hn
    have : (lp + w (f.pos - 4)).toNat = lp.toNat + (w (f.pos - 4)).toNat :=
      Word.toNat_plus (by omega)
    have := Word.toNat_four
    have habove : Frame.above lp u.mem = .ok (lp + w (f.pos - 4) + 4) := by
      rw [Frame.above, Read.bind_ok hoff, Read.lift_ok (Word.plus_eq (by omega))]
      exact Word.plus_eq (by omega)
    refine .read_bind habove ?_
    have hnext : (lp + w (f.pos - 4) + 4).toNat = o + above := by
      rw [Word.toNat_plus] <;> omega
    by_cases hl : above ≤ last
    · have hlen : rest.length < fuel := by
        simp only [List.length_cons] at hfuel
        omega
      refine (ih (fun g hgr => hg g (List.mem_cons_of_mem f hgr)) hnext hu' ?_ hlen).mono
        fun _ v hv => cast (congrArg (fun d => I d v) (funext fun x => propext ?_)) hv
      · rintro x hx (hdx | hdx)
        · exact hd x (by omega) hdx
        · simp only [Activation.touches] at hdx
          omega
      · grind
    -- The walk ends here: the frame above would be behind the innermost one.
    have hrest : rest = [] := by
      by_cases hr : rest = []
      · exact hr
      · have := (hframes.length_le hr).1
        omega
    subst hrest
    have : 0 < fuel := by
      simp only [List.length_cons] at hfuel
      omega
    rcases fuel with _ | fuel
    · omega
    have hgt : lp + w (f.pos - 4) + 4 > top := UInt32.lt_iff_toNat_lt.2 (by omega)
    rw [visitFrames, if_pos hgt]
    refine .pure (cast (congrArg (fun d => I d u) (funext fun x => propext ?_)) hu')
    simp

lemma frames_ends (ho : o % 4 = 0) {walk stored target : UInt32} (hwalk : walk.toNat = o)
    (hshift : target - stored = shift) (room : 20 ≤ body) (hi : I done s)
    (hd : ∀ x, 16 ≤ x → ¬ done x)
    (hlast : w 16 ≠ 0 → (w 16 + (walk - stored)).toNat = o + last)
    (frames : w 16 ≠ 0 → Frames w body last 40 fs)
    (hset : ∀ t, I done t → shift ≠ 0 → w 16 ≠ 0 →
      I (also done 16) (t.setMem (t.mem.pokeWord (o + 16) (w 16 + shift)))) :
    Ends (Traversal.frames walk stored target word) s fun _ t =>
      I (fun x => done x ∨ (w 16 ≠ 0 ∧
        ((x = 16 ∧ shift ≠ 0) ∨ ∃ f ∈ fs, f.touches shift x))) t := by
  have := h.inside hi
  have p16 : Points walk 4 (o + 16) := .lit 4 rfl (by omega)
  have hread : Chunk.lastFrame walk s.mem = .ok (w 16) := by
    rw [← h.unvisited hi rfl room (hd 16 (by omega))]
    exact Memory.word_eq p16 (by omega)
  have hfirst : ∀ n : Memory, (liftM (Chunk.firstFrame walk) : ReaderT Memory (Except Fault) UInt32)
      n = .ok (walk + Chunk.firstFrameOffset) := by
    intro n
    have h40 : Chunk.firstFrameOffset.toNat = 40 := rfl
    rw [Chunk.firstFrame, Word.plus_eq (by omega)]
    rfl
  have h40 : (walk + Chunk.firstFrameOffset).toNat = o + 40 := by
    have h40 : Chunk.firstFrameOffset.toNat = 40 := rfl
    rw [Word.toNat_plus (by omega), h40, hwalk]
  rw [Traversal.frames]
  refine .read_bind hread ?_
  by_cases h0 : w 16 = 0
  · rw [if_pos (by simpa using h0)]
    refine .pure (cast (congrArg (fun d => I d s) (funext fun x => propext ?_)) hi)
    simp [h0]
  rw [if_neg (by simpa using h0)]
  have hlen : ∀ t, I done t → fs.length < t.mem.size + 1 := by
    intro t ht
    have := (h.inside ht).1
    by_cases hnil : fs = []
    · simp [hnil]
    · have := ((frames h0).length_le hnil).2
      omega
  -- The walk itself, from the store in which the innermost frame has its new address.
  have walked : ∀ t d, I d t → (∀ x, 40 ≤ x + 20 → ¬ d x) → t.mem.size = s.mem.size →
      Ends (do
        let first ← store (Chunk.firstFrame walk : Read UInt32)
        visitFrames word (w 16 + (walk - stored)) shift (← store Memory.walkBound) first) t
        fun _ u => I (fun x => d x ∨ ∃ f ∈ fs, f.touches shift x) u := by
    intro t d ht hn hsize
    refine .read_bind (hfirst _) ?_
    refine .read_bind (Memory.walkBound_eq _) ?_
    refine h.visitFrames_ends ho (frames h0) (hlast h0) (fun f hf => hf) h40 ht hn ?_
    have := hlen s hi
    omega
  simp only [hshift]
  by_cases hz : shift = 0
  · rw [if_neg (by simpa using hz)]
    refine (walked s done hi (fun x hx => hd x (by omega)) rfl).mono fun _ u hu => ?_
    refine cast (congrArg (fun d => I d u) (funext fun x => propext ?_)) hu
    simp [h0, hz]
  rw [if_pos (by simpa using hz)]
  refine .edit_bind (Memory.setWord_eq p16 (by omega)) ?_
  refine (walked _ _ (hset s hi hz h0) (fun x hx => not_also (hd x (by omega)) (by omega))
    (by simp)).mono fun _ u hu => ?_
  refine cast (congrArg (fun d => I d u) (funext fun x => propext ?_)) hu
  simp only [also]
  grind

end

end Walk

/-! ### Other objects -/

lemma object_ends {I : (Nat → Prop) → Store → Prop} {c : Cell} {oop : UInt32} {o : Nat}
    {chunk : UInt32 → Run Unit} (hoop : oop.toNat = o)
    (hrange : o + 4 * c.slots < 2147483648) (hshape : Shape.of oop c.kind s.mem = .ok c.shape)
    (hplain : ¬ c.isChunk) (slots : ∀ {done t}, I done t → c.SlotsRead t.mem)
    (visit : ∀ {done t i base index}, I done t → i < c.slots → c.refs i = true →
      ¬ done (4 * i) → Points base index (o + 4 * i) →
      Ends (word base index) t fun _ u => I (also done (4 * i)) u)
    (hi : I (fun _ => False) s) :
    Ends (object { word, chunk } oop c.kind) s fun _ t =>
      I (fun x => ∃ i < c.slots, c.refs i = true ∧ x = 4 * i) t := by
  let J : Nat → Store → Prop := fun j t => I (fun x => ∃ i < j, c.refs i = true ∧ x = 4 * i) t
  have start : J 0 s := by
    refine cast (congrArg (fun d => I d s) (funext fun x => propext ⟨False.elim, ?_⟩)) hi
    rintro ⟨i, hi, _⟩
    omega
  have step : ∀ (j : UInt32) t, j.toNat < c.slots → c.refs j.toNat = true → J j.toNat t →
      Ends (word oop j.toInt32) t fun _ u => J (j.toNat + 1) u := by
    intro j t hj hr ht
    have hnew : ¬ ∃ i < j.toNat, c.refs i = true ∧ 4 * j.toNat = 4 * i := by
      rintro ⟨i, hij, _, he⟩
      omega
    refine (visit ht hj hr hnew (.nat (by omega) (by omega) (by omega))).mono fun _ u hu => ?_
    refine cast (congrArg (fun d => I d u) (funext fun x => propext ⟨?_, ?_⟩)) hu
    · rintro (⟨i, hij, hri, he⟩ | he)
      · exact ⟨i, by omega, hri, he⟩
      · exact ⟨j.toNat, by omega, hr, he⟩
    · rintro ⟨i, hij, hri, he⟩
      by_cases hie : i = j.toNat
      · exact .inr (hie ▸ he)
      · exact .inl ⟨i, by omega, hri, he⟩
  have skip : ∀ j t, c.refs j = false → J j t → J (j + 1) t := by
    intro j t hr ht
    refine cast (congrArg (fun d => I d t) (funext fun x => propext ⟨?_, ?_⟩)) ht
    · rintro ⟨i, hij, hri, he⟩
      exact ⟨i, by omega, hri, he⟩
    rintro ⟨i, hij, hri, he⟩
    have : i ≠ j := by
      rintro rfl
      rw [hr] at hri
      exact Bool.false_ne_true hri
    exact ⟨i, by omega, hri, he⟩
  have array : ∀ n : UInt32, c.slots = n.toNat → (∀ i < c.slots, c.refs i = true) →
      Ends (visitWords word oop n.toNat 0) s fun _ t => J c.slots t := by
    intro n hn hrefs
    have hend := @visitWords_ends word oop s J n.toNat 0
      (fun j t _ hj => step j t (by simpa [hn] using hj) (hrefs _ (by simpa [hn] using hj)))
      (by simpa using n.toNat_lt) (by simpa using start)
    simpa [hn] using hend
  refine .read_bind hshape ?_
  have hslots : ∀ {done t}, I done t → c.SlotsRead t.mem := slots
  simp only [Cell.SlotsRead] at hslots
  cases hc : c.shape with
  | primitive =>
    have : c.slots = 0 := by simpa [hc] using hslots hi
    refine .pure (cast (congrArg (fun d => I d s) (funext fun x => propext ⟨False.elim, ?_⟩)) hi)
    rintro ⟨i, hi, _⟩
    omega
  | references n =>
    have hr := hslots hi
    simp only [hc] at hr
    exact array n hr.1 hr.2
  | classState n =>
    have hr := hslots hi
    simp only [hc] at hr
    exact array n hr.1 hr.2
  | stackChunk => exact absurd hc hplain
  | record map n =>
    simp only [hc] at hslots
    have hn := (hslots hi).1
    have hend := @visitMapped_ends word oop map s J c.refs n.toNat 0
      (fun j t hj ht => (hslots ht).2 j (UInt32.lt_iff_toNat_lt.2 (by simpa using hj)))
      (fun j t _ hj => step j t (by simpa [hn] using hj)) skip
      (by simpa using n.toNat_lt) (by simpa using start)
    simpa [hn] using hend

end Traversal

end DeviceVm
