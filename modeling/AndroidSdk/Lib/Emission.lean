import AndroidSdk.Lib.Run

/-! # Loops that emit a text

Computations that may fail and that append to an output, and two runs of such a loop.

* **`emitAll`** — what the items of a list emit one after another, or the first failure.
* **`Emits`** — a computation appends a text to the output of a state.
* **`Emits.foldlM`** — the rule for loops.
* **`emitAll_eq_iff`** — when two runs emit the same text or fail alike. -/

namespace AndroidSdk.Lib

variable {ε α β σ : Type}

/-- What the items emit one after another, or the first failure. -/
def emitAll (f : α → Except ε (List β)) : List α → Except ε (List β)
  | [] => .ok []
  | a :: l => do
      let t ← f a
      let u ← emitAll f l
      return t ++ u

/-- An item that fails. -/
theorem emitAll_cons_of_error {f : α → Except ε (List β)} {a : α} {e : ε} (h : f a = .error e)
    (l : List α) : emitAll f (a :: l) = .error e := by
  rw [emitAll, h]
  rfl

/-- An item that emits a text. -/
theorem emitAll_cons_of_ok {f : α → Except ε (List β)} {a : α} {t : List β} (h : f a = .ok t)
    (l : List α) : emitAll f (a :: l) = (emitAll f l).map (t ++ ·) := by
  rw [emitAll, h]
  cases hl : emitAll f l <;> rfl

/-- The items of two lists. -/
theorem emitAll_append (f : α → Except ε (List β)) (l m : List α) :
    emitAll f (l ++ m) = emitAll f l >>= fun t => (emitAll f m).map (t ++ ·) := by
  induction l with
  | nil =>
      show emitAll f m = (emitAll f m).map ([] ++ ·)
      cases emitAll f m <;> rfl
  | cons a l ih =>
      cases ha : f a with
      | error e =>
          rw [List.cons_append, emitAll_cons_of_error ha, emitAll_cons_of_error ha]
          rfl
      | ok t =>
          rw [List.cons_append, emitAll_cons_of_ok ha, emitAll_cons_of_ok ha, ih]
          cases hl : emitAll f l with
          | error e => rfl
          | ok u =>
              cases hm : emitAll f m with
              | error e => rfl
              | ok v => exact congrArg Except.ok (List.append_assoc t u v).symm

/-- One item. -/
theorem emitAll_singleton (f : α → Except ε (List β)) (a : α) : emitAll f [a] = f a := by
  cases h : f a with
  | error e => exact emitAll_cons_of_error h []
  | ok t =>
      rw [emitAll_cons_of_ok h]
      exact congrArg Except.ok (List.append_nil t)

/-- The texts that the items emit, each made of some parts. -/
theorem exists_parts {γ : Type} {f : α → Except ε (List β)} {R : α → List γ → Prop}
    {text : γ → List β} {l : List α} {t : List β} (h : emitAll f l = .ok t)
    (hR : ∀ a ∈ l, ∀ u, f a = .ok u → ∃ parts, R a parts ∧ u = parts.flatMap text) :
    ∃ blocks, List.Forall₂ R l blocks ∧ t = blocks.flatten.flatMap text := by
  induction l generalizing t with
  | nil =>
      obtain rfl := Except.ok.inj h
      exact ⟨[], .nil, rfl⟩
  | cons a l ih =>
      obtain ⟨hRa, hRl⟩ := List.forall_mem_cons.mp hR
      obtain ⟨u, hu, h⟩ := bind_eq_ok_iff.mp h
      obtain ⟨v, hv, h⟩ := bind_eq_ok_iff.mp h
      obtain rfl := Except.ok.inj h
      obtain ⟨parts, hparts, rfl⟩ := hRa u hu
      obtain ⟨blocks, hblocks, rfl⟩ := ih hv hRl
      refine ⟨parts :: blocks, .cons hparts hblocks, ?_⟩
      rw [List.flatten_cons, List.flatMap_append]

/-- Items that all emit a text. -/
theorem emitAll_of_ok {f : α → Except ε (List β)} {t : α → List β} {l : List α}
    (h : ∀ a ∈ l, f a = .ok (t a)) : emitAll f l = .ok (l.flatMap t) := by
  induction l with
  | nil => rfl
  | cons a l ih =>
      obtain ⟨ha, hl⟩ := List.forall_mem_cons.mp h
      rw [emitAll_cons_of_ok ha, ih hl]
      rfl

/-- Items of which one fails, and which fail in one way only. -/
theorem emitAll_of_error {f : α → Except ε (List β)} {e : ε} {l : List α}
    (h : ∀ a ∈ l, f a = .error e ∨ ∃ t, f a = .ok t) (herror : ∃ a ∈ l, f a = .error e) :
    emitAll f l = .error e := by
  induction l with
  | nil =>
      obtain ⟨a, ha, _⟩ := herror
      exact absurd ha List.not_mem_nil
  | cons a l ih =>
      obtain ⟨ha, hl⟩ := List.forall_mem_cons.mp h
      rcases ha with ha | ⟨t, ha⟩
      · exact emitAll_cons_of_error ha l
      · have hrest : ∃ b ∈ l, f b = .error e := by
          obtain ⟨b, hb, hbe⟩ := herror
          rcases List.mem_cons.mp hb with rfl | hb
          · rw [ha] at hbe
            cases hbe
          · exact ⟨b, hb, hbe⟩
        rw [emitAll_cons_of_ok ha, ih hl hrest]
        rfl

/-- The texts of items that emit at most as much. -/
theorem length_flatMap_le {f g : α → List β} {l : List α}
    (h : ∀ a ∈ l, (f a).length ≤ (g a).length) : (l.flatMap f).length ≤ (l.flatMap g).length := by
  induction l with
  | nil => exact Nat.le_refl _
  | cons a l ih =>
      obtain ⟨ha, hl⟩ := List.forall_mem_cons.mp h
      rw [List.flatMap_cons, List.flatMap_cons, List.length_append, List.length_append]
      exact Nat.add_le_add ha (ih hl)

/-- Items that emit at most as much emit the same text iff each of them does. -/
theorem flatMap_eq_iff_of_length_le {f g : α → List β} {l : List α}
    (h : ∀ a ∈ l, (f a).length ≤ (g a).length) :
    l.flatMap f = l.flatMap g ↔ ∀ a ∈ l, f a = g a := by
  refine ⟨fun heq => ?_, List.flatMap_congr⟩
  induction l with
  | nil => exact fun _ h => nomatch h
  | cons a l ih =>
      obtain ⟨ha, hl⟩ := List.forall_mem_cons.mp h
      rw [List.flatMap_cons, List.flatMap_cons] at heq
      have hrest := length_flatMap_le hl
      have hlengths := congrArg List.length heq
      rw [List.length_append, List.length_append] at hlengths
      obtain ⟨hhead, htail⟩ := List.append_inj heq (by omega)
      exact List.forall_mem_cons.mpr ⟨hhead, ih hl htail⟩

/-! ## States with an output -/

section Emits

variable {τ : Type} {view : σ → Option (List β)} {P : σ → Prop} {view' : τ → Option (List β)}
  {P' : τ → Prop} {output : Option (List β)} {s : σ} {r : Except ε σ} {text : Except ε (List β)}

/-- A computation that starts with an output, if there is one: it fails as the text does, or it ends
in a state with a property and has appended the text to its output. -/
def Emits (view : σ → Option (List β)) (P : σ → Prop) (output : Option (List β)) (r : Except ε σ)
    (text : Except ε (List β)) : Prop :=
  match text with
  | .error e => r = .error e
  | .ok t => ∃ s, r = .ok s ∧ P s ∧ view s = output.map (· ++ t)

/-- Nothing is emitted. -/
theorem Emits.of_ok (hs : P s) : Emits view P (view s) (.ok s : Except ε σ) (.ok []) :=
  ⟨s, rfl, hs, by cases h : view s <;> simp⟩

/-- A computation that starts with a longer output. -/
theorem Emits.after {t : List β} (h : Emits view P (output.map (· ++ t)) r text) :
    Emits view P output r (text.map (t ++ ·)) := by
  cases text with
  | error e => exact h
  | ok u =>
      obtain ⟨s, hs, hP, hview⟩ := h
      refine ⟨s, hs, hP, ?_⟩
      rw [hview, Option.map_map]
      exact congrArg (fun g => Option.map g output) (funext fun v => List.append_assoc v t u)

/-- **The rule for sequences.** -/
theorem Emits.bind {k : σ → Except ε τ} {text' : Except ε (List β)}
    (hr : Emits view P output r text)
    (hk : ∀ s, P s → Emits view' P' (view s) (k s) text') :
    Emits view' P' output (r >>= k) (text >>= fun t => text'.map (t ++ ·)) := by
  cases text with
  | error e =>
      have hr : r = .error e := hr
      rw [hr]
      exact rfl
  | ok t =>
      obtain ⟨s, rfl, hs, hview⟩ := hr
      exact Emits.after (hview ▸ hk s hs)

/-- A computation whose result is made into a state of another kind. -/
theorem Emits.map {f : σ → τ} (h : Emits view P output r text)
    (hf : ∀ s, P s → P' (f s) ∧ view' (f s) = view s) :
    Emits view' P' output (r >>= fun s => .ok (f s)) text := by
  cases text with
  | error e =>
      have hr : r = .error e := h
      rw [hr]
      exact rfl
  | ok t =>
      obtain ⟨s, rfl, hP, hview⟩ := h
      obtain ⟨hP', hview'⟩ := hf s hP
      exact ⟨f s, rfl, hP', hview'.trans hview⟩

/-- What a computation makes that starts with an empty output. -/
theorem Emits.map_view (h : Emits view P (some []) r text) : r.map view = text.map some := by
  cases text with
  | error e =>
      have hr : r = .error e := h
      rw [hr]
      rfl
  | ok t =>
      obtain ⟨s, rfl, _, hview⟩ := h
      exact congrArg Except.ok hview

/-- **The rule for loops**: what the steps emit. -/
theorem Emits.foldlM {γ : Type} {step : σ → γ → Except ε σ} {items : γ → List α}
    {f : α → Except ε (List β)}
    (hstep : ∀ s c, P s → Emits view P (view s) (step s c) (emitAll f (items c))) (hs : P s)
    (l : List γ) : Emits view P (view s) (l.foldlM step s) (emitAll f (l.flatMap items)) := by
  induction l generalizing s with
  | nil => exact Emits.of_ok hs
  | cons c l ih =>
      rw [List.foldlM_cons, List.flatMap_cons, emitAll_append]
      exact (hstep s c hs).bind fun s' hs' => ih hs'

end Emits

/-! ## Two runs -/

section TwoRuns

variable {f g : α → Except ε (List β)} {ready : α → Bool} {fine : α → Prop}

/-- Two runs of a loop. An item that is not ready fails alike in both. An item that is ready emits a
text in the second run; in the first one it emits one that is not longer if it is fine, and otherwise
fails as no item does in the second run. -/
structure TwoRuns (f g : α → Except ε (List β)) (ready : α → Bool) (fine : α → Prop) : Prop where
  alike : ∀ a, ready a = false → ∃ e, f a = .error e ∧ g a = .error e
  emitted : ∀ a, ready a = true → ∃ u, g a = .ok u
  shorter : ∀ a, ready a = true → fine a → ∃ t u, f a = .ok t ∧ g a = .ok u ∧ t.length ≤ u.length
  apart : ∀ a b, ready a = true → ¬ fine a → ∃ e, f a = .error e ∧ g b ≠ .error e

/-- A failure of a run is that of an item. -/
theorem exists_error_of_emitAll {l : List α} {e : ε} (h : emitAll g l = .error e) :
    ∃ a ∈ l, g a = .error e := by
  induction l with
  | nil => cases h
  | cons a l ih =>
      cases ha : g a with
      | error e' =>
          rw [emitAll_cons_of_error ha] at h
          exact ⟨a, List.mem_cons_self, ha.trans h⟩
      | ok t =>
          rw [emitAll_cons_of_ok ha] at h
          cases hl : emitAll g l with
          | error e' =>
              rw [hl] at h
              obtain ⟨b, hb, hbe⟩ := ih (hl.trans h)
              exact ⟨b, List.mem_cons_of_mem a hb, hbe⟩
          | ok u =>
              rw [hl] at h
              cases h

/-- The first run does not emit more than the second one. -/
theorem TwoRuns.length_le (h : TwoRuns f g ready fine) {l : List α} {t u : List β}
    (ht : emitAll f l = .ok t) (hu : emitAll g l = .ok u) : t.length ≤ u.length := by
  induction l generalizing t u with
  | nil =>
      obtain rfl := Except.ok.inj ht
      exact Nat.zero_le _
  | cons a l ih =>
      obtain ⟨t₁, ht₁, ht⟩ := bind_eq_ok_iff.mp ht
      obtain ⟨t₂, ht₂, ht⟩ := bind_eq_ok_iff.mp ht
      obtain ⟨u₁, hu₁, hu⟩ := bind_eq_ok_iff.mp hu
      obtain ⟨u₂, hu₂, hu⟩ := bind_eq_ok_iff.mp hu
      obtain rfl := Except.ok.inj ht
      obtain rfl := Except.ok.inj hu
      have hready : ready a = true := by
        by_contra hready
        obtain ⟨e, _, he⟩ := h.alike a (Bool.eq_false_iff.mpr hready)
        rw [hu₁] at he
        cases he
      have hfine : fine a := by
        by_contra hfine
        obtain ⟨e, he, _⟩ := h.apart a a hready hfine
        rw [ht₁] at he
        cases he
      obtain ⟨t', u', ht', hu', hle⟩ := h.shorter a hready hfine
      rw [ht₁] at ht'
      rw [hu₁] at hu'
      obtain rfl := Except.ok.inj ht'
      obtain rfl := Except.ok.inj hu'
      rw [List.length_append, List.length_append]
      exact Nat.add_le_add hle (ih ht₂ hu₂)

/-- Items that all emit a text in the second run are ready. -/
theorem TwoRuns.ready_of_ok (h : TwoRuns f g ready fine) {l : List α} {u : List β}
    (hu : emitAll g l = .ok u) : ∀ a ∈ l, ready a = true := by
  induction l generalizing u with
  | nil => exact fun _ h => nomatch h
  | cons a l ih =>
      obtain ⟨u₁, hu₁, hu⟩ := bind_eq_ok_iff.mp hu
      obtain ⟨u₂, hu₂, _⟩ := bind_eq_ok_iff.mp hu
      refine List.forall_mem_cons.mpr ⟨?_, ih hu₂⟩
      by_contra hready
      obtain ⟨e, _, he⟩ := h.alike a (Bool.eq_false_iff.mpr hready)
      rw [hu₁] at he
      cases he

/-- The second run fails at an item that is not ready. -/
theorem TwoRuns.not_ready_of_error (h : TwoRuns f g ready fine) {l : List α} {e : ε}
    (he : emitAll g l = .error e) : ¬ ∀ a ∈ l, ready a = true := by
  intro hready
  obtain ⟨a, ha, hae⟩ := exists_error_of_emitAll he
  obtain ⟨u, hu⟩ := h.emitted a (hready a ha)
  rw [hu] at hae
  cases hae

/-- **When two runs emit the same text or fail alike**: the items before the first one that is not
ready are fine, and if all are ready, each emits the same text in both runs. -/
theorem TwoRuns.emitAll_eq_iff (h : TwoRuns f g ready fine) (l : List α) :
    emitAll f l = emitAll g l
      ↔ (∀ a ∈ l.takeWhile ready, fine a)
        ∧ ((∀ a ∈ l, ready a = true) → ∀ a ∈ l, f a = g a) := by
  induction l with
  | nil => exact iff_of_true rfl ⟨fun _ h => (nomatch h), fun _ _ h => (nomatch h)⟩
  | cons a l ih =>
      cases hready : ready a with
      | false =>
          obtain ⟨e, hf, hg⟩ := h.alike a hready
          rw [emitAll_cons_of_error hf, emitAll_cons_of_error hg, List.takeWhile_cons, hready]
          refine iff_of_true rfl ⟨fun _ h => (nomatch h), fun hall => ?_⟩
          rw [hall a List.mem_cons_self] at hready
          cases hready
      | true =>
          rw [List.takeWhile_cons, hready, if_pos rfl, List.forall_mem_cons]
          by_cases hfine : fine a
          case neg =>
            -- the first run fails, and the second one does not fail so
            refine iff_of_false (fun heq => ?_) fun hall => hfine hall.1.1
            obtain ⟨e, hf, _⟩ := h.apart a a hready hfine
            rw [emitAll_cons_of_error hf] at heq
            obtain ⟨b, _, hb⟩ := exists_error_of_emitAll heq.symm
            obtain ⟨e', hf', hne⟩ := h.apart a b hready hfine
            obtain rfl := Except.error.inj (hf.symm.trans hf')
            exact hne hb
          obtain ⟨t, u, hf, hg, hle⟩ := h.shorter a hready hfine
          rw [emitAll_cons_of_ok hf, emitAll_cons_of_ok hg, List.forall_mem_cons,
            List.forall_mem_cons, hf, hg, and_iff_right hfine, and_iff_right hready]
          have hrest (heq : (∀ a ∈ l.takeWhile ready, fine a) ∧
              ((∀ a ∈ l, ready a = true) → Except.ok t = (.ok u : Except ε _) ∧
                ∀ a ∈ l, f a = g a)) : emitAll f l = emitAll g l :=
            ih.mpr ⟨heq.1, fun hall => (heq.2 hall).2⟩
          cases hF : emitAll f l with
          | error e =>
              cases hG : emitAll g l with
              | error e' =>
                  rw [hF, hG] at ih
                  refine Iff.trans ⟨fun heq => ?_, fun heq => ?_⟩ (ih.trans (and_congr_right
                    fun _ => iff_of_true (fun hall => absurd hall (h.not_ready_of_error hG))
                      fun hall => absurd hall (h.not_ready_of_error hG)))
                  · exact congrArg Except.error (Except.error.inj heq)
                  · exact congrArg Except.error (Except.error.inj heq)
              | ok w =>
                  rw [hF, hG] at hrest
                  exact iff_of_false (fun heq => nomatch heq) fun heq => nomatch hrest heq
          | ok v =>
              cases hG : emitAll g l with
              | error e' =>
                  rw [hF, hG] at hrest
                  exact iff_of_false (fun heq => nomatch heq) fun heq => nomatch hrest heq
              | ok w =>
                  have hall := h.ready_of_ok hG
                  have hlength := h.length_le hF hG
                  rw [hF, hG] at ih hrest
                  constructor
                  · intro heq
                    have happend : t ++ v = u ++ w := Except.ok.inj heq
                    have hlengths := congrArg List.length happend
                    rw [List.length_append, List.length_append] at hlengths
                    obtain ⟨htu, hvw⟩ := List.append_inj happend (by omega)
                    obtain ⟨hfines, hsame⟩ := ih.mp (congrArg Except.ok hvw)
                    exact ⟨hfines, fun _ => ⟨congrArg Except.ok htu, hsame hall⟩⟩
                  · intro heq
                    have htu := Except.ok.inj (heq.2 hall).1
                    have hvw := Except.ok.inj (hrest heq)
                    rw [htu, hvw]

end TwoRuns

end AndroidSdk.Lib
