import Mathlib.Data.List.Forall2
import Mathlib.Logic.Basic

/-! # Runs that may fail

Rules for loops in `Except` and `Option`: what a successful run says about its steps. `mapAccumM` is
the loop that rewrites the items of a vector one after another and carries a state along, `mapAccum`
one that cannot fail. -/

namespace AndroidSdk.Lib

universe u

variable {ε : Type u} {α σ : Type u}

/-- A sequence whose first computation gives a value. -/
theorem bind_ok {β : Type u} (a : α) (f : α → Except ε β) : (Except.ok a >>= f) = f a := rfl

/-- A sequence of two computations succeeds iff both do. -/
theorem bind_eq_ok_iff {β : Type u} {x : Except ε α} {f : α → Except ε β} {b : β} :
    x >>= f = .ok b ↔ ∃ a, x = .ok a ∧ f a = .ok b := by
  cases x with
  | error e => simp [bind, Except.bind]
  | ok a => simp [bind, Except.bind]

/-- **The invariant rule**: what every step of a successful loop preserves holds at its end. -/
theorem foldlM_invariant {step : σ → α → Except ε σ} {P : σ → Prop} {l : List α} {s s' : σ}
    (h : l.foldlM step s = .ok s') (hs : P s)
    (hstep : ∀ a ∈ l, ∀ t t', step t a = .ok t' → P t → P t') : P s' := by
  induction l generalizing s with
  | nil =>
      have heq : s = s' := by simpa [pure, Except.pure] using h
      rwa [← heq]
  | cons a l ih =>
      rw [List.foldlM_cons, bind_eq_ok_iff] at h
      obtain ⟨t, ht, hrest⟩ := h
      exact ih hrest (hstep a List.mem_cons_self s t ht hs) fun b hb =>
        hstep b (List.mem_cons_of_mem a hb)

/-- **The step rule**: a successful loop has made a successful step for each item. -/
theorem exists_step_of_foldlM {step : σ → α → Except ε σ} {l : List α} {s s' : σ}
    (h : l.foldlM step s = .ok s') {a : α} (ha : a ∈ l) : ∃ t t', step t a = .ok t' := by
  induction l generalizing s with
  | nil => simp at ha
  | cons b l ih =>
      rw [List.foldlM_cons, bind_eq_ok_iff] at h
      obtain ⟨t, ht, hrest⟩ := h
      rcases List.mem_cons.mp ha with rfl | hmem
      · exact ⟨s, t, ht⟩
      · exact ih hrest hmem

/-- **The rule for what a step establishes**: it holds at the end of a successful loop with such a
step, if no other step destroys it. -/
theorem foldlM_establishes {step : σ → α → Except ε σ} {P : σ → Prop} {l : List α} {s s' : σ}
    (h : l.foldlM step s = .ok s') {a : α} (ha : a ∈ l) (hhere : ∀ t t', step t a = .ok t' → P t')
    (hkeep : ∀ b ∈ l, ∀ t t', step t b = .ok t' → P t → P t') : P s' := by
  induction l generalizing s with
  | nil => exact absurd ha List.not_mem_nil
  | cons b l ih =>
      rw [List.foldlM_cons, bind_eq_ok_iff] at h
      obtain ⟨t, ht, hrest⟩ := h
      have hkeep' : ∀ c ∈ l, ∀ t t', step t c = .ok t' → P t → P t' := fun c hc =>
        hkeep c (List.mem_cons_of_mem b hc)
      rcases List.mem_cons.mp ha with rfl | hmem
      · exact foldlM_invariant hrest (hhere s t ht) hkeep'
      · exact ih hrest hmem hkeep'

/-- The error of a sequence is one of the two computations. -/
theorem bind_eq_error_iff {β : Type u} {x : Except ε α} {f : α → Except ε β} {e : ε} :
    x >>= f = .error e ↔ x = .error e ∨ ∃ a, x = .ok a ∧ f a = .error e := by
  cases x with
  | error e' => simp [bind, Except.bind]
  | ok a => simp [bind, Except.bind]

/-- **The error rule**: the error of a loop is one of a step, after those that have succeeded. -/
theorem exists_error_of_foldlM {step : σ → α → Except ε σ} {l : List α} {s : σ} {e : ε}
    (h : l.foldlM step s = .error e) :
    ∃ pre a post t, l = pre ++ a :: post ∧ pre.foldlM step s = .ok t ∧ step t a = .error e := by
  induction l generalizing s with
  | nil => cases h
  | cons a l ih =>
      rw [List.foldlM_cons] at h
      rcases bind_eq_error_iff.mp h with h | ⟨t, ht, h⟩
      · exact ⟨[], a, l, s, rfl, rfl, h⟩
      · obtain ⟨pre, b, post, u, rfl, hpre, hb⟩ := ih h
        refine ⟨a :: pre, b, post, u, rfl, ?_, hb⟩
        rw [List.foldlM_cons, bind_eq_ok_iff]
        exact ⟨t, ht, hpre⟩

/-- A loop without state succeeds iff each of its steps does. -/
theorem forM_eq_ok_iff {ε α : Type} {step : α → Except ε Unit} {l : List α} :
    l.forM step = .ok () ↔ ∀ a ∈ l, step a = .ok () := by
  induction l with
  | nil => simp [pure, Except.pure]
  | cons a l ih =>
      show (step a >>= fun _ => l.forM step) = .ok () ↔ _
      rw [bind_eq_ok_iff, List.forall_mem_cons, ← ih]
      constructor
      · rintro ⟨⟨⟩, hstep, hrest⟩
        exact ⟨hstep, hrest⟩
      · rintro ⟨hstep, hrest⟩
        exact ⟨(), hstep, hrest⟩

/-- A loop that collects results, in terms of its turns. -/
theorem mapM_eq_ok_iff {ε α β : Type} {f : α → Except ε β} {l : List α} {ys : List β} :
    l.mapM f = .ok ys ↔ List.Forall₂ (fun x y => f x = .ok y) l ys := by
  induction l generalizing ys with
  | nil => simp [pure, Except.pure, eq_comm]
  | cons x l ih =>
      rw [List.mapM_cons, List.forall₂_cons_left_iff, bind_eq_ok_iff]
      constructor
      · rintro ⟨y, hy, h⟩
        obtain ⟨zs, hzs, h⟩ := bind_eq_ok_iff.mp h
        cases h
        exact ⟨y, zs, hy, ih.mp hzs, rfl⟩
      · rintro ⟨y, zs, hy, hzs, rfl⟩
        exact ⟨y, hy, bind_eq_ok_iff.mpr ⟨zs, ih.mpr hzs, rfl⟩⟩

/-- Every turn of a loop that collects results has given one of them. -/
theorem exists_of_mapM {ε α β : Type} {f : α → Except ε β} {l : List α} {ys : List β}
    (h : l.mapM f = .ok ys) {a : α} (ha : a ∈ l) : ∃ b ∈ ys, f a = .ok b := by
  have hall := mapM_eq_ok_iff.mp h
  clear h
  induction hall with
  | nil => exact absurd ha List.not_mem_nil
  | @cons x y l ys hxy _ ih =>
      rcases List.mem_cons.mp ha with rfl | ha
      · exact ⟨y, List.mem_cons_self, hxy⟩
      · obtain ⟨b, hb, hab⟩ := ih ha
        exact ⟨b, List.mem_cons_of_mem y hb, hab⟩

/-- The error of a loop that collects results is one of a turn. -/
theorem exists_error_of_mapM {ε α β : Type} {f : α → Except ε β} {l : List α} {e : ε}
    (h : l.mapM f = .error e) : ∃ a ∈ l, f a = .error e := by
  induction l with
  | nil => cases h
  | cons a l ih =>
      rw [List.mapM_cons] at h
      rcases bind_eq_error_iff.mp h with h | ⟨b, -, h⟩
      · exact ⟨a, List.mem_cons_self, h⟩
      · rcases bind_eq_error_iff.mp h with h | ⟨bs, -, h⟩
        · obtain ⟨c, hc, hf⟩ := ih h
          exact ⟨c, List.mem_cons_of_mem a hc, hf⟩
        · cases h

/-- A loop that collects results and can fail in one way only. -/
theorem mapM_cases {ε α β : Type} {f : α → Except ε β} {p : α → Prop} {e : ε}
    (hok : ∀ a, p a → ∃ b, f a = .ok b) (herror : ∀ a, ¬ p a → f a = .error e) (l : List α) :
    (∀ a ∈ l, p a) ∧ (∃ bs, l.mapM f = .ok bs) ∨ (¬ ∀ a ∈ l, p a) ∧ l.mapM f = .error e := by
  induction l with
  | nil => exact .inl ⟨fun _ h => (nomatch h), [], rfl⟩
  | cons a l ih =>
      rw [List.mapM_cons, List.forall_mem_cons]
      by_cases ha : p a
      · obtain ⟨b, hb⟩ := hok a ha
        rw [hb]
        rcases ih with ⟨hl, bs, hbs⟩ | ⟨hl, hbs⟩
        · rw [hbs]
          exact .inl ⟨⟨ha, hl⟩, b :: bs, rfl⟩
        · rw [hbs]
          exact .inr ⟨fun h => hl h.2, rfl⟩
      · rw [herror a ha]
        exact .inr ⟨fun h => ha h.1, rfl⟩

/-- Related lists whose related items agree in a value have the same values. -/
theorem map_eq_map_of_forall₂ {α β γ : Type} {R : α → β → Prop} {f : α → γ} {g : β → γ} {l : List α}
    {ys : List β} (h : List.Forall₂ R l ys) (hR : ∀ x y, R x y → f x = g y) :
    l.map f = ys.map g := by
  induction h with
  | nil => rfl
  | cons hxy _ ih => rw [List.map_cons, List.map_cons, hR _ _ hxy, ih]

/-- Lists with the same values have the same values place by place. -/
theorem forall₂_of_map_eq_map {α β γ : Type} {f : α → γ} {g : β → γ} {l : List α} {m : List β}
    (h : l.map f = m.map g) : List.Forall₂ (fun a b => f a = g b) l m := by
  induction l generalizing m with
  | nil =>
      obtain rfl := List.map_eq_nil_iff.mp h.symm
      exact .nil
  | cons a l ih =>
      cases m with
      | nil => cases h
      | cons b m =>
          obtain ⟨hhead, htail⟩ := List.cons.inj h
          exact .cons hhead (ih htail)

/-- What follows from being related holds of every item on the right. -/
theorem forall_mem_of_forall₂ {α β : Type} {R : α → β → Prop} {P : β → Prop} {l : List α}
    {ys : List β} (h : List.Forall₂ R l ys) (hR : ∀ x y, R x y → P y) : ∀ y ∈ ys, P y := by
  induction h with
  | nil => exact fun y hy => nomatch hy
  | cons hxy _ ih => exact List.forall_mem_cons.mpr ⟨hR _ _ hxy, ih⟩

/-- A list whose items are all values of a function is a list of its values. -/
theorem exists_eq_map {α β : Type} {f : β → α} {P : β → Prop} {l : List α}
    (h : ∀ x ∈ l, ∃ y, x = f y ∧ P y) : ∃ ys : List β, l = ys.map f ∧ ∀ y ∈ ys, P y := by
  induction l with
  | nil => exact ⟨[], rfl, fun y hy => nomatch hy⟩
  | cons x l ih =>
      obtain ⟨⟨y, hy, hP⟩, hrest⟩ := List.forall_mem_cons.mp h
      obtain ⟨ys, rfl, hys⟩ := ih hrest
      exact ⟨y :: ys, by rw [hy, List.map_cons], List.forall_mem_cons.mpr ⟨hP, hys⟩⟩

/-! ## Loops in `Option` -/

/-- A loop that collects results, in terms of its turns. -/
theorem mapM_eq_some_iff {α β : Type} {f : α → Option β} {l : List α} {ys : List β} :
    l.mapM f = some ys ↔ List.Forall₂ (fun x y => f x = some y) l ys := by
  induction l generalizing ys with
  | nil => simp [eq_comm]
  | cons x l ih =>
      rw [List.mapM_cons, List.forall₂_cons_left_iff]
      constructor
      · intro h
        obtain ⟨y, hy, h⟩ := Option.bind_eq_some_iff.mp h
        obtain ⟨zs, hzs, h⟩ := Option.bind_eq_some_iff.mp h
        cases h
        exact ⟨y, zs, hy, ih.mp hzs, rfl⟩
      · rintro ⟨y, zs, hy, hzs, rfl⟩
        rw [hy, ih.mpr hzs]
        rfl

/-- A result that is only changed at the end. -/
theorem isSome_bind_pure {α β : Type} (x : Option α) (f : α → β) :
    (x >>= fun a => pure (f a)).isSome = x.isSome := by
  cases x <;> rfl

/-- The values of a run over a list stand where the items do. -/
theorem exists_getElem?_of_mapM {α β : Type} {f : α → Option β} {l : List α} {ys : List β} {i : ℕ}
    {x : α} (h : l.mapM f = some ys) (hx : l[i]? = some x) : ∃ y, f x = some y ∧ ys[i]? = some y := by
  have hall := mapM_eq_some_iff.mp h
  obtain ⟨hi, rfl⟩ := List.getElem?_eq_some_iff.mp hx
  have hi' : i < ys.length := hall.length_eq ▸ hi
  exact ⟨ys[i], hall.get hi hi', List.getElem?_eq_getElem hi'⟩

/-- The loop succeeds iff every turn does. -/
theorem isSome_mapM_iff {α β : Type} {f : α → Option β} {l : List α} :
    (l.mapM f).isSome = true ↔ ∀ x ∈ l, (f x).isSome = true := by
  induction l with
  | nil => simp
  | cons x l ih =>
      rw [List.forall_mem_cons, ← ih, List.mapM_cons]
      cases f x with
      | none => simp
      | some y => cases l.mapM f <;> simp

/-! ## Loops that rewrite a vector -/

section MapAccum

variable {ε σ α β : Type}

/-- Rewrite the items of a vector one after another. -/
def mapAccumM (f : σ → α → Except ε (σ × α)) (s : σ) : List α → Except ε (σ × List α)
  | [] => .ok (s, [])
  | a :: l => do
      let (s, a) ← f s a
      let (s, l) ← mapAccumM f s l
      return (s, a :: l)

variable {f : σ → α → Except ε (σ × α)} {s s' : σ}

/-- What a successful loop did to a nonempty vector. -/
theorem mapAccumM_cons_eq_ok_iff {a : α} {l l' : List α} :
    mapAccumM f s (a :: l) = .ok (s', l')
      ↔ ∃ t b m, f s a = .ok (t, b) ∧ mapAccumM f t l = .ok (s', m) ∧ l' = b :: m := by
  rw [mapAccumM, bind_eq_ok_iff]
  constructor
  · rintro ⟨⟨t, b⟩, hf, h⟩
    obtain ⟨⟨t', m⟩, hl, h⟩ := bind_eq_ok_iff.mp h
    cases h
    exact ⟨t, b, m, hf, hl, rfl⟩
  · rintro ⟨t, b, m, hf, hl, rfl⟩
    exact ⟨(t, b), hf, bind_eq_ok_iff.mpr ⟨(s', m), hl, rfl⟩⟩

/-- A loop over a longer vector is two loops. -/
theorem mapAccumM_append {l₁ l₂ m₁ m₂ : List α} {t : σ} (h₁ : mapAccumM f s l₁ = .ok (t, m₁))
    (h₂ : mapAccumM f t l₂ = .ok (s', m₂)) : mapAccumM f s (l₁ ++ l₂) = .ok (s', m₁ ++ m₂) := by
  induction l₁ generalizing s m₁ with
  | nil =>
      cases h₁
      exact h₂
  | cons a l₁ ih =>
      obtain ⟨u, b, m, hf, hl, rfl⟩ := mapAccumM_cons_eq_ok_iff.mp h₁
      exact mapAccumM_cons_eq_ok_iff.mpr ⟨u, b, m ++ m₂, hf, ih hl, rfl⟩

/-- **Nested loops are one loop** over the items that the inner loops see. -/
theorem mapAccumM_flatMap {g : σ → β → Except ε (σ × β)} {view : β → List α} {l l' : List β}
    (hg : ∀ s s' x x', g s x = .ok (s', x') → mapAccumM f s (view x) = .ok (s', view x'))
    (h : mapAccumM g s l = .ok (s', l')) :
    mapAccumM f s (l.flatMap view) = .ok (s', l'.flatMap view) := by
  induction l generalizing s l' with
  | nil =>
      cases h
      rfl
  | cons x l ih =>
      obtain ⟨t, y, m, hx, hl, rfl⟩ := mapAccumM_cons_eq_ok_iff.mp h
      exact mapAccumM_append (hg s t x y hx) (ih hl)

/-- A loop seen through a map of its items. -/
theorem mapAccumM_map {g : σ → β → Except ε (σ × β)} {view : β → α} {l l' : List β}
    (hg : ∀ s s' x x', g s x = .ok (s', x') → f s (view x) = .ok (s', view x'))
    (h : mapAccumM g s l = .ok (s', l')) :
    mapAccumM f s (l.map view) = .ok (s', l'.map view) := by
  induction l generalizing s l' with
  | nil =>
      cases h
      rfl
  | cons x l ih =>
      obtain ⟨t, y, m, hx, hl, rfl⟩ := mapAccumM_cons_eq_ok_iff.mp h
      exact mapAccumM_cons_eq_ok_iff.mpr ⟨t, view y, m.map view, hg s t x y hx, ih hl, rfl⟩

/-- The loop keeps the number of items. -/
theorem length_of_mapAccumM {l l' : List α} (h : mapAccumM f s l = .ok (s', l')) :
    l'.length = l.length := by
  induction l generalizing s l' with
  | nil =>
      cases h
      rfl
  | cons a l ih =>
      obtain ⟨t, b, m, -, hl, rfl⟩ := mapAccumM_cons_eq_ok_iff.mp h
      rw [List.length_cons, List.length_cons, ih hl]

end MapAccum

/-! ## Loops that carry a state and cannot fail -/

/-- The loop that replaces the items of a list and carries a state. -/
def mapAccum {σ α β : Type} (f : σ → α → σ × β) : σ → List α → σ × List β
  | s, [] => (s, [])
  | s, a :: l =>
      let r := f s a
      let rest := mapAccum f r.1 l
      (rest.1, r.2 :: rest.2)

section MapAccum

variable {σ α β : Type} {f : σ → α → σ × β}

/-- The new items, if they do not depend on the state. -/
theorem mapAccum_snd {g : α → β} (s : σ) {l : List α} (h : ∀ s, ∀ a ∈ l, (f s a).2 = g a) :
    (mapAccum f s l).2 = l.map g := by
  induction l generalizing s with
  | nil => rfl
  | cons a l ih =>
      show (f s a).2 :: (mapAccum f (f s a).1 l).2 = g a :: l.map g
      rw [h s a List.mem_cons_self,
        ih (f s a).1 fun s b hb => h s b (List.mem_cons_of_mem _ hb)]

/-- The items of a loop that carries a state, one by one. -/
theorem forall₂_mapAccum {R : β → α → Prop}
    (h : ∀ s a, R (f s a).2 a) (s : σ) (l : List α) :
    List.Forall₂ R (mapAccum f s l).2 l := by
  induction l generalizing s with
  | nil => exact .nil
  | cons a l ih => exact .cons (h s a) (ih (f s a).1)

/-- What a loop that carries a state computes from its items. -/
theorem map_mapAccum {γ : Type} {g : β → γ} {g' : α → γ}
    (h : ∀ s a, g (f s a).2 = g' a) (s : σ) (l : List α) :
    (mapAccum f s l).2.map g = l.map g' := by
  induction l generalizing s with
  | nil => rfl
  | cons a l ih => exact congrArg₂ List.cons (h s a) (ih (f s a).1)

/-- The same, for several results of each item. -/
theorem flatMap_mapAccum {γ : Type} {g : β → List γ} {g' : α → List γ}
    (h : ∀ s a, g (f s a).2 = g' a) (s : σ) (l : List α) :
    (mapAccum f s l).2.flatMap g = l.flatMap g' := by
  rw [List.flatMap_def, List.flatMap_def, map_mapAccum h]

/-- A loop whose state is a family of states that do not depend on each other: it is a loop for each
of them. -/
theorem mapAccum_family {κ : Type} {ks : List κ} {f : List σ → α → List σ × β}
    {g : κ → σ → α → σ} {item : α → β}
    (h : ∀ (F : κ → σ) a, f (ks.map F) a = (ks.map fun k => g k (F k) a, item a)) (F : κ → σ)
    (l : List α) :
    mapAccum f (ks.map F) l = (ks.map fun k => l.foldl (g k) (F k), l.map item) := by
  induction l generalizing F with
  | nil => rfl
  | cons a l ih =>
      rw [mapAccum, h]
      dsimp only
      rw [ih fun k => g k (F k) a]
      rfl

/-- A loop that appends to its state. -/
theorem mapAccum_append {γ : Type} {f : List γ → α → List γ × β} {g : α → List γ} {item : α → β}
    {l : List α} (h : ∀ s, ∀ a ∈ l, f s a = (s ++ g a, item a)) (s : List γ) :
    mapAccum f s l = (s ++ l.flatMap g, l.map item) := by
  induction l generalizing s with
  | nil => simp [mapAccum]
  | cons a l ih =>
      rw [mapAccum, h s a List.mem_cons_self]
      dsimp only
      rw [ih fun s b hb => h s b (List.mem_cons_of_mem _ hb)]
      simp

end MapAccum

/-- Lists of one length for each item are the same iff they are the same for each. -/
theorem flatMap_eq_flatMap_iff {α β : Type} {f g : α → List β}
    (h : ∀ a, (f a).length = (g a).length) (l : List α) :
    l.flatMap f = l.flatMap g ↔ ∀ a ∈ l, f a = g a := by
  constructor
  · intro heq
    induction l with
    | nil => exact fun a ha => nomatch ha
    | cons b l ih =>
        rw [List.flatMap_cons, List.flatMap_cons] at heq
        obtain ⟨hhead, htail⟩ := List.append_inj heq (h b)
        exact List.forall_mem_cons.mpr ⟨hhead, ih htail⟩
  · exact fun heq => List.flatMap_congr heq

/-- **A loop seen through a view of its state**: if each step does to the view what a loop over some
items does, the whole does what the loop over all these items does. -/
theorem foldl_view {σ ω α β : Type} {P : σ → Prop} (view : σ → ω) {step : σ → α → σ}
    {items : α → List β} {viewStep : ω → β → ω}
    (hstep : ∀ s a, P s → P (step s a) ∧ view (step s a) = (items a).foldl viewStep (view s))
    {s : σ} (hs : P s) (l : List α) :
    P (l.foldl step s) ∧ view (l.foldl step s) = (l.flatMap items).foldl viewStep (view s) := by
  induction l generalizing s with
  | nil => exact ⟨hs, rfl⟩
  | cons a l ih =>
      obtain ⟨hs', hview⟩ := hstep s a hs
      rw [List.foldl_cons, List.flatMap_cons, List.foldl_append, ← hview]
      exact ih hs'

end AndroidSdk.Lib
