import Mathlib.Data.List.Basic
import Mathlib.Logic.Basic

/-! # Loops that report, on a state of many keys

A loop whose steps report diagnostics and whether they failed, and go on in either case. Its steps
touch a few keys of the state each; what is seen under a key in the end depends on the steps that
touch the key alone.

* **`runSteps`** — the loop; a step that aborts ends it without a result.
* **`Follows`** — what is seen under every key changes as the steps that touch it say, and nothing
  is reported exactly where every step is quiet on what it sees. Such facts compose
  (`Follows.append`).
* **`runSteps_follows`** — the rule for loops. -/

namespace AndroidSdk.Lib

/-! ## The loop -/

/-- What is reported: diagnostics, and whether something failed. -/
structure Report (ε : Type) where
  diagnostics : List ε
  error : Bool
  deriving DecidableEq

namespace Report

variable {ε : Type}

/-- Nothing is reported. -/
def clean : Report ε := ⟨[], false⟩

/-- One report after the other. -/
def andThen (r r' : Report ε) : Report ε := ⟨r.diagnostics ++ r'.diagnostics, r.error || r'.error⟩

@[simp] theorem diagnostics_clean : (clean : Report ε).diagnostics = [] := rfl

@[simp] theorem error_clean : (clean : Report ε).error = false := rfl

@[simp] theorem diagnostics_andThen (r r' : Report ε) :
    (r.andThen r').diagnostics = r.diagnostics ++ r'.diagnostics := rfl

@[simp] theorem error_andThen (r r' : Report ε) : (r.andThen r').error = (r.error || r'.error) := rfl

end Report

variable {α β ε σ κ κ' ν : Type}

/-- A loop over steps that report. -/
def runSteps (step : α → σ → Option (Report ε × σ)) : List α → σ → Option (Report ε × σ)
  | [], s => some (.clean, s)
  | x :: xs, s =>
      (step x s).bind fun first => (runSteps step xs first.2).map fun rest =>
        (first.1.andThen rest.1, rest.2)

/-- A loop that starts with a step. -/
theorem runSteps_cons_eq_some_iff {step : α → σ → Option (Report ε × σ)} {x : α} {xs : List α}
    {s s'' : σ} {r : Report ε} : runSteps step (x :: xs) s = some (r, s'') ↔
    ∃ r₁ s' r₂, step x s = some (r₁, s') ∧ runSteps step xs s' = some (r₂, s'') ∧
      r₁.andThen r₂ = r := by
  rw [runSteps, Option.bind_eq_some_iff]
  constructor
  · rintro ⟨⟨r₁, s'⟩, hfirst, hrest⟩
    obtain ⟨⟨r₂, t⟩, hlast, heq⟩ := Option.map_eq_some_iff.mp hrest
    cases heq
    exact ⟨r₁, s', r₂, hfirst, hlast, rfl⟩
  · rintro ⟨r₁, s', r₂, hfirst, hrest, rfl⟩
    exact ⟨(r₁, s'), hfirst, Option.map_eq_some_iff.mpr ⟨(r₂, s''), hrest, rfl⟩⟩

/-! ## What is seen under a key -/

section Follows

variable [DecidableEq κ] [DecidableEq κ']

/-- The steps that touch a key. -/
def touching (k : κ) (xs : List (κ × α)) : List α := (xs.filter (·.1 = k)).map Prod.snd

@[simp] theorem touching_nil (k : κ) : touching k ([] : List (κ × α)) = [] := rfl

theorem touching_append (k : κ) (xs ys : List (κ × α)) :
    touching k (xs ++ ys) = touching k xs ++ touching k ys := by
  rw [touching, List.filter_append, List.map_append]
  rfl

@[simp] theorem mem_touching_iff {k : κ} {xs : List (κ × α)} {x : α} :
    x ∈ touching k xs ↔ (k, x) ∈ xs := by
  simp [touching]

theorem touching_cons (k : κ) (x : κ × α) (xs : List (κ × α)) :
    touching k (x :: xs) = if x.1 = k then x.2 :: touching k xs else touching k xs := by
  by_cases hx : x.1 = k <;> simp [touching, hx]

/-- Steps under pairs that share the first component. -/
theorem touching_map_pair (k : κ) (k' : κ') (t : κ) (xs : List (κ' × α)) :
    touching (k, k') (xs.map fun x => ((t, x.1), x.2)) = if t = k then touching k' xs else [] := by
  induction xs with
  | nil => simp
  | cons x xs ih =>
      rw [List.map_cons, touching_cons, ih, touching_cons]
      by_cases ht : t = k <;> by_cases hx : x.1 = k' <;> simp [ht, hx]

variable (act : α → ν → ν) (quiet : α → ν → Prop)

/-- Every step is quiet on what it sees. -/
def QuietRun : List α → ν → Prop
  | [], _ => True
  | x :: xs, v => quiet x v ∧ QuietRun xs (act x v)

variable {act quiet}

theorem quietRun_append {xs ys : List α} {v : ν} : QuietRun act quiet (xs ++ ys) v ↔
    QuietRun act quiet xs v ∧ QuietRun act quiet ys (xs.foldl (fun v x => act x v) v) := by
  induction xs generalizing v with
  | nil => simp [QuietRun]
  | cons x xs ih => simp [QuietRun, ih, and_assoc]

variable (act quiet)

/-- What is seen under a key changes by the steps that touch it, and `clean` says that all of them
are quiet. -/
structure Follows (xs : List (κ × α)) (F F' : κ → ν) (clean : Prop) : Prop where
  view : ∀ k, F' k = (touching k xs).foldl (fun v x => act x v) (F k)
  clean : clean ↔ ∀ k, QuietRun act quiet (touching k xs) (F k)

variable {act quiet} {xs ys : List (κ × α)} {F F' F'' : κ → ν} {p q : Prop}

/-- Without a step nothing changes. -/
theorem Follows.nil (F : κ → ν) (hp : p) : Follows act quiet ([] : List (κ × α)) F F p :=
  ⟨fun _ => rfl, iff_of_true hp fun _ => trivial⟩

/-- One step under one key. -/
theorem Follows.single {k : κ} {x : α} (hview : F' k = act x (F k)) (hother : ∀ k' ≠ k, F' k' = F k')
    (hclean : p ↔ quiet x (F k)) : Follows act quiet [(k, x)] F F' p := by
  have htouching (k' : κ) : touching k' [(k, x)] = if k = k' then [x] else [] := by
    by_cases hk : k = k' <;> simp [touching, hk]
  refine ⟨fun k' => ?_, hclean.trans ⟨fun h k' => ?_, fun h => ?_⟩⟩
  · rw [htouching]
    by_cases hk : k = k'
    · subst hk
      simpa using hview
    · simpa [hk] using hother k' (Ne.symm hk)
  · rw [htouching]
    by_cases hk : k = k'
    · subst hk
      simpa [QuietRun] using h
    · simp [hk, QuietRun]
  · have hk := h k
    rw [htouching, if_pos rfl] at hk
    exact hk.1

/-- **Steps compose.** -/
theorem Follows.append (h : Follows act quiet xs F F' p) (h' : Follows act quiet ys F' F'' q) :
    Follows act quiet (xs ++ ys) F F'' (p ∧ q) := by
  refine ⟨fun k => ?_, ?_⟩
  · rw [touching_append, List.foldl_append, ← h.view, h'.view]
  · simp only [touching_append, quietRun_append, ← h.view]
    rw [h.clean, h'.clean, forall_and]

/-- Steps on the part of the state under one first component. -/
theorem Follows.pair {t : κ} {xs : List (κ' × α)} {f f' : κ' → ν} {F F' : κ × κ' → ν}
    (h : Follows act quiet xs f f' p) (hF : ∀ k', F (t, k') = f k') (hF' : ∀ k', F' (t, k') = f' k')
    (hother : ∀ k ≠ t, ∀ k', F' (k, k') = F (k, k')) :
    Follows act quiet (xs.map fun x => ((t, x.1), x.2)) F F' p := by
  refine ⟨?_, h.clean.trans ⟨?_, ?_⟩⟩
  · rintro ⟨k, k'⟩
    rw [touching_map_pair]
    by_cases hk : t = k
    · subst hk
      rw [if_pos rfl, hF', hF, h.view]
    · rw [if_neg hk, hother k (Ne.symm hk)]
      rfl
  · rintro hquiet ⟨k, k'⟩
    rw [touching_map_pair]
    by_cases hk : t = k
    · subst hk
      rw [if_pos rfl, hF]
      exact hquiet k'
    · rw [if_neg hk]
      trivial
  · intro hquiet k'
    have hk := hquiet (t, k')
    rwa [touching_map_pair, if_pos rfl, hF] at hk

/-- **The rule for loops**: if every step that does not fail keeps an invariant and changes what is
seen by a list of keyed steps, then so does the loop that does not fail. -/
theorem runSteps_follows {step : β → σ → Option (Report ε × σ)} {I : σ → Prop} {view : σ → κ → ν}
    {steps : β → List (κ × α)}
    (hstep : ∀ x s r s', I s → step x s = some (r, s') → r.error = false →
      I s' ∧ Follows act quiet (steps x) (view s) (view s') (r.diagnostics = []))
    {bs : List β} {s s' : σ} {r : Report ε} (hs : I s) (h : runSteps step bs s = some (r, s'))
    (hr : r.error = false) :
    I s' ∧ Follows act quiet (bs.flatMap steps) (view s) (view s') (r.diagnostics = []) := by
  induction bs generalizing s r with
  | nil =>
      cases h
      exact ⟨hs, .nil _ rfl⟩
  | cons b bs ih =>
      obtain ⟨r₁, t, r₂, hfirst, hrest, rfl⟩ := runSteps_cons_eq_some_iff.mp h
      rw [Report.error_andThen, Bool.or_eq_false_iff] at hr
      obtain ⟨ht, hfollows⟩ := hstep b s r₁ t hs hfirst hr.1
      obtain ⟨hs', hfollows'⟩ := ih ht hrest hr.2
      refine ⟨hs', ?_⟩
      rw [List.flatMap_cons, Report.diagnostics_andThen, List.append_eq_nil_iff]
      exact hfollows.append hfollows'

end Follows

end AndroidSdk.Lib
