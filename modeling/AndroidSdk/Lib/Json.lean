import AndroidSdk.Lib.JsonTokens

/-! # JSON texts

A parser for JSON texts, and two kinds of facts about it: what it reads from a text that is laid out
in a known way, and how many characters a text has at least.

* **`Json.parse`** — the value of a text, or nothing if it is not well-formed.
* **`Json.cost`** — the number of characters that a value takes in any text, blanks apart.
* **`Json.cost_le_of_parse`** — a text has no fewer characters than its value takes.
* **`Json.Reads`** — a text of a value, whatever follows it. -/

namespace AndroidSdk.Lib

/-- A JSON value. Numbers are kept as they are written. -/
inductive Json where
  | null
  | bool (b : Bool)
  | num (literal : List Char)
  | str (text : List Char)
  | arr (elements : List Json)
  | obj (members : List (List Char × Json))

namespace Json

/-! ## The parser -/

/-- A word that a text starts with. -/
def keyword (word t : List Char) : Option (List Char) :=
  if word.isPrefixOf t then some (t.drop word.length) else none

/-- A value that is a word or a number. -/
def scalar (t : List Char) : Option (Json × List Char) :=
  ((keyword "true".toList t).map fun rest => (.bool true, rest)).or
    (((keyword "false".toList t).map fun rest => (.bool false, rest)).or
      (((keyword "null".toList t).map fun rest => (.null, rest)).or
        ((number t).map fun p => (.num p.1, p.2))))

mutual

/-- A value, which starts with no blanks. -/
def value : ℕ → List Char → Option (Json × List Char)
  | 0, _ => none
  | fuel + 1, t =>
      if t.head? = some '"' then (string t.tail).map fun p => (.str p.1, p.2)
      else if t.head? = some '[' then
        if (skipBlanks t.tail).head? = some ']' then some (.arr [], (skipBlanks t.tail).tail)
        else (elements fuel (skipBlanks t.tail)).map fun p => (.arr p.1, p.2)
      else if t.head? = some '{' then
        if (skipBlanks t.tail).head? = some '}' then some (.obj [], (skipBlanks t.tail).tail)
        else (members fuel (skipBlanks t.tail)).map fun p => (.obj p.1, p.2)
      else scalar t

/-- The values of an array, up to the closing bracket. -/
def elements : ℕ → List Char → Option (List Json × List Char)
  | 0, _ => none
  | fuel + 1, t => do
      let (v, u) ← value fuel t
      if (skipBlanks u).head? = some ']' then return ([v], (skipBlanks u).tail)
      else if (skipBlanks u).head? = some ',' then
        let (vs, rest) ← elements fuel (skipBlanks (skipBlanks u).tail)
        return (v :: vs, rest)
      else none

/-- The members of an object, up to the closing brace. -/
def members : ℕ → List Char → Option (List (List Char × Json) × List Char)
  | 0, _ => none
  | fuel + 1, t =>
      if t.head? = some '"' then do
        let (name, u) ← string t.tail
        if (skipBlanks u).head? = some ':' then
          let (v, u) ← value fuel (skipBlanks (skipBlanks u).tail)
          if (skipBlanks u).head? = some '}' then return ([(name, v)], (skipBlanks u).tail)
          else if (skipBlanks u).head? = some ',' then
            let (ms, rest) ← members fuel (skipBlanks (skipBlanks u).tail)
            return ((name, v) :: ms, rest)
          else none
        else none
      else none

end

/-- **The value of a JSON text.** -/
def parse (t : List Char) : Option Json := do
  let (v, rest) ← value (t.length + 1) (skipBlanks t)
  if skipBlanks rest = [] then return v else none

example : (parse "\x7b\"op\": [1, -2.5e3, null], \"\\u0041\": true\x7d".toList).isSome = true := by
  decide +kernel

/-! ## What a value takes -/

mutual

/-- The number of characters that a value takes, blanks apart. -/
def cost : Json → ℕ
  | .null => 4
  | .bool b => if b then 4 else 5
  | .num literal => inked literal
  | .str text => inked text + 2
  | .arr vs => 1 + max 1 (costs vs)
  | .obj ms => 1 + memberCosts ms

/-- What values take, each with a separator. -/
def costs : List Json → ℕ
  | [] => 0
  | v :: vs => cost v + 1 + costs vs

/-- What members take, each with the quotes of its name, the colon and a separator. -/
def memberCosts : List (List Char × Json) → ℕ
  | [] => 0
  | (name, v) :: ms => inked name + cost v + 4 + memberCosts ms

end

/-- A character that is looked at and dropped. -/
theorem inked_tail {c : Char} {t : List Char} (h : t.head? = some c) (hc : isBlank c = false) :
    inked t = inked t.tail + 1 := by
  obtain ⟨t, rfl⟩ := List.head?_eq_some_iff.mp h
  exact inked_cons_of_inked hc

/-- A word takes its characters. -/
theorem inked_of_keyword {word t rest : List Char} (h : keyword word t = some rest) :
    inked word + inked rest = inked t := by
  rw [keyword] at h
  split at h
  next hword =>
    cases h
    obtain ⟨u, rfl⟩ := List.isPrefixOf_iff_prefix.mp hword
    rw [List.drop_left, inked_append]
  · cases h

/-- A word or a number takes its characters. -/
theorem cost_of_scalar {t rest : List Char} {v : Json} (h : scalar t = some (v, rest)) :
    cost v + inked rest = inked t := by
  rw [scalar] at h
  obtain h | ⟨-, h⟩ := Option.or_eq_some_iff.mp h
  · obtain ⟨u, hword, h⟩ := Option.map_eq_some_iff.mp h
    cases h
    exact inked_of_keyword hword
  · obtain h | ⟨-, h⟩ := Option.or_eq_some_iff.mp h
    · obtain ⟨u, hword, h⟩ := Option.map_eq_some_iff.mp h
      cases h
      exact inked_of_keyword hword
    · obtain h | ⟨-, h⟩ := Option.or_eq_some_iff.mp h
      · obtain ⟨u, hword, h⟩ := Option.map_eq_some_iff.mp h
        cases h
        exact inked_of_keyword hword
      · obtain ⟨⟨literal, u⟩, hnumber, h⟩ := Option.map_eq_some_iff.mp h
        cases h
        rw [cost, ← inked_append, number_append hnumber]

/-- What is read as a value is at least what the value takes. -/
def ValueFits (fuel : ℕ) : Prop :=
  ∀ t v rest, value fuel t = some (v, rest) → cost v + inked rest ≤ inked t

/-- What is read as elements is at least what they take. -/
def ElementsFit (fuel : ℕ) : Prop :=
  ∀ t vs rest, elements fuel t = some (vs, rest) → 1 ≤ costs vs ∧ costs vs + inked rest ≤ inked t

/-- What is read as members is at least what they take. -/
def MembersFit (fuel : ℕ) : Prop :=
  ∀ t ms rest, members fuel t = some (ms, rest) → memberCosts ms + inked rest ≤ inked t

/-- The step for values. -/
theorem valueFits_succ {fuel : ℕ} (ihelements : ElementsFit fuel) (ihmembers : MembersFit fuel) :
    ValueFits (fuel + 1) := by
  intro t v rest h
  rw [value] at h
  split at h
  next hquote =>
    obtain ⟨⟨text, u⟩, hstring, h⟩ := Option.map_eq_some_iff.mp h
    cases h
    have hbody := inked_of_stringBody hstring
    rw [inked_tail hquote (by decide), cost]
    dsimp only
    omega
  split at h
  next hbracket =>
    have htail := inked_tail hbracket (by decide)
    rw [← inked_skipBlanks t.tail] at htail
    split at h
    next hclose =>
      cases h
      rw [htail, inked_tail hclose (by decide), cost, costs, max_eq_left (Nat.zero_le 1)]
      omega
    · obtain ⟨⟨vs, u⟩, helements, h⟩ := Option.map_eq_some_iff.mp h
      cases h
      obtain ⟨hpos, hle⟩ := ihelements _ _ _ helements
      rw [cost, htail, max_eq_right hpos]
      dsimp only
      omega
  split at h
  next hbrace =>
    have htail := inked_tail hbrace (by decide)
    rw [← inked_skipBlanks t.tail] at htail
    split at h
    next hclose =>
      cases h
      rw [htail, inked_tail hclose (by decide), cost, memberCosts]
      omega
    · obtain ⟨⟨ms, u⟩, hmembers, h⟩ := Option.map_eq_some_iff.mp h
      cases h
      have hle := ihmembers _ _ _ hmembers
      rw [cost, htail]
      dsimp only
      omega
  · exact (cost_of_scalar h).le

/-- The step for elements. -/
theorem elementsFit_succ {fuel : ℕ} (ihvalue : ValueFits fuel) (ihelements : ElementsFit fuel) :
    ElementsFit (fuel + 1) := by
  intro t vs rest h
  rw [elements] at h
  obtain ⟨⟨v, u⟩, hvalue, h⟩ := Option.bind_eq_some_iff.mp h
  have hle := ihvalue _ _ _ hvalue
  dsimp only at h
  rw [← inked_skipBlanks u] at hle
  split at h
  next hclose =>
    cases h
    rw [inked_tail hclose (by decide)] at hle
    simp only [costs]
    omega
  split at h
  next hcomma =>
    obtain ⟨⟨vs', u'⟩, helements, h⟩ := Option.bind_eq_some_iff.mp h
    cases h
    obtain ⟨-, hrest⟩ := ihelements _ _ _ helements
    rw [inked_tail hcomma (by decide)] at hle
    rw [inked_skipBlanks] at hrest
    simp only [costs]
    omega
  · cases h

/-- The step for members. -/
theorem membersFit_succ {fuel : ℕ} (ihvalue : ValueFits fuel) (ihmembers : MembersFit fuel) :
    MembersFit (fuel + 1) := by
  intro t ms rest h
  rw [members] at h
  split at h
  next hquote =>
    obtain ⟨⟨name, u⟩, hname, h⟩ := Option.bind_eq_some_iff.mp h
    have hbody := inked_of_stringBody hname
    have htail := inked_tail hquote (by decide)
    dsimp only at h
    rw [← inked_skipBlanks u] at hbody
    split at h
    next hcolon =>
      obtain ⟨⟨v, w⟩, hvalue, h⟩ := Option.bind_eq_some_iff.mp h
      have hle := ihvalue _ _ _ hvalue
      rw [inked_tail hcolon (by decide)] at hbody
      dsimp only at h
      rw [inked_skipBlanks, ← inked_skipBlanks w] at hle
      split at h
      next hclose =>
        cases h
        rw [inked_tail hclose (by decide)] at hle
        simp only [memberCosts]
        omega
      split at h
      next hcomma =>
        obtain ⟨⟨ms', w'⟩, hmembers, h⟩ := Option.bind_eq_some_iff.mp h
        cases h
        have hrest := ihmembers _ _ _ hmembers
        rw [inked_tail hcomma (by decide)] at hle
        rw [inked_skipBlanks] at hrest
        simp only [memberCosts]
        omega
      · cases h
    · cases h
  · cases h

/-- **What the parser takes from a text is at least what the value takes**, by induction on the
fuel. -/
theorem fits (fuel : ℕ) : ValueFits fuel ∧ ElementsFit fuel ∧ MembersFit fuel := by
  induction fuel with
  | zero =>
      refine ⟨?_, ?_, ?_⟩
      · intro t v rest h
        cases h
      · intro t vs rest h
        cases h
      · intro t ms rest h
        cases h
  | succ fuel ih =>
      obtain ⟨ihvalue, ihelements, ihmembers⟩ := ih
      exact ⟨valueFits_succ ihelements ihmembers, elementsFit_succ ihvalue ihelements,
        membersFit_succ ihvalue ihmembers⟩

/-- **A text has no fewer characters than its value takes.** -/
theorem cost_le_of_parse {t : List Char} {v : Json} (h : parse t = some v) : cost v ≤ inked t := by
  rw [parse] at h
  obtain ⟨⟨v', rest⟩, hvalue, h⟩ := Option.bind_eq_some_iff.mp h
  dsimp only at h
  split at h
  · cases h
    have hle := (fits _).1 _ _ _ hvalue
    rw [inked_skipBlanks] at hle
    omega
  · cases h

/-- What values take, as a sum. -/
theorem costs_eq_sum (vs : List Json) : costs vs = (vs.map fun v => cost v + 1).sum := by
  induction vs with
  | nil => rfl
  | cons v vs ih => rw [costs, List.map_cons, List.sum_cons, ih]

/-- What members take, as a sum. -/
theorem memberCosts_eq_sum (ms : List (List Char × Json)) :
    memberCosts ms = (ms.map fun p => inked p.1 + cost p.2 + 4).sum := by
  induction ms with
  | nil => rfl
  | cons p ms ih => rw [memberCosts, List.map_cons, List.sum_cons, ih]

/-- What members before others take. -/
theorem memberCosts_append (ms ms' : List (List Char × Json)) :
    memberCosts (ms ++ ms') = memberCosts ms + memberCosts ms' := by
  rw [memberCosts_eq_sum, memberCosts_eq_sum, memberCosts_eq_sum, List.map_append, List.sum_append]

/-- **Members take at least what some of them take.** -/
theorem memberCosts_le_of_subset {ms ms' : List (List Char × Json)}
    (hnodup : (ms.map Prod.fst).Nodup) (h : ms ⊆ ms') : memberCosts ms ≤ memberCosts ms' := by
  obtain ⟨l, hperm, hsub⟩ := List.subperm_of_subset (List.Nodup.of_map Prod.fst hnodup) h
  rw [memberCosts_eq_sum, memberCosts_eq_sum, ← (hperm.map _).sum_eq]
  exact (hsub.map _).sum_le_sum fun n _ => Nat.zero_le n

/-! ## Texts that are laid out in a known way -/

/-- A text of a value, whatever follows it. -/
structure Reads (t : List Char) (v : Json) : Prop where
  starts : ∃ c u, t = c :: u ∧ isBlank c = false ∧ c ≠ ']'
  reads : ∀ fuel rest, cost v < fuel → Stops rest → value fuel (t ++ rest) = some (v, rest)

/-- A text of the elements of an array, with the closing bracket. -/
structure ReadsElements (t : List Char) (vs : List Json) : Prop where
  starts : ∃ c u, t = c :: u ∧ isBlank c = false ∧ c ≠ ']'
  pos : 1 ≤ costs vs
  reads : ∀ fuel rest, costs vs < fuel → elements fuel (t ++ rest) = some (vs, rest)

/-- A text of the members of an object, with the closing brace. -/
structure ReadsMembers (t : List Char) (ms : List (List Char × Json)) : Prop where
  starts : ∃ u, t = '"' :: u
  reads : ∀ fuel rest, memberCosts ms < fuel → members fuel (t ++ rest) = some (ms, rest)

section Reads

variable {t u w w' : List Char} {v : Json} {vs : List Json} {ms : List (List Char × Json)}

/-- A character that does not continue a number. -/
theorem stops_cons {c : Char} (hdigit : c.isDigit = false) (hpoint : c ≠ '.') (he : c ≠ 'e')
    (hE : c ≠ 'E') : Stops (c :: t) := by
  intro c' hc'
  cases hc'
  exact ⟨hdigit, hpoint, he, hE⟩

/-- Blanks stop a number. -/
theorem Stops.append (hw : ∀ c ∈ w, isBlank c = true) (h : Stops t) : Stops (w ++ t) := by
  match w with
  | [] => exact h
  | c :: w =>
      have hc := hw c List.mem_cons_self
      simp only [isBlank, Bool.or_eq_true, decide_eq_true_eq] at hc
      obtain ((rfl | rfl) | rfl) | rfl := hc <;>
        exact stops_cons (by decide) (by decide) (by decide) (by decide)

/-- A text that does not start with a blank. -/
theorem skipBlanks_of_starts (hw : ∀ c ∈ w, isBlank c = true)
    (ht : ∃ c u, t = c :: u ∧ isBlank c = false ∧ c ≠ ']') (rest : List Char) :
    skipBlanks (w ++ (t ++ rest)) = t ++ rest := by
  obtain ⟨c, u, rfl, hc, -⟩ := ht
  rw [skipBlanks_append hw, List.cons_append, skipBlanks_cons hc]

/-- A word that is no number. -/
theorem reads_true : Reads "true".toList (.bool true) where
  starts := ⟨'t', "rue".toList, rfl, by decide, by decide⟩
  reads fuel rest hfuel _ := by
    obtain ⟨fuel, rfl⟩ := Nat.exists_eq_add_one.mpr (Nat.zero_lt_of_lt hfuel)
    rfl

/-- A string of plain characters in quotes. -/
theorem reads_str (h : ∀ c ∈ t, isPlain c = true) : Reads ('"' :: (t ++ ['"'])) (.str t) where
  starts := ⟨'"', t ++ ['"'], rfl, by decide, by decide⟩
  reads fuel rest hfuel _ := by
    obtain ⟨fuel, rfl⟩ := Nat.exists_eq_add_one.mpr (Nat.zero_lt_of_lt hfuel)
    have hstring : string (t ++ '"' :: rest) = some (t, rest) :=
      stringBody_plain h (by simp)
    rw [List.cons_append, List.append_assoc, List.singleton_append, value, List.head?_cons,
      if_pos rfl, List.tail_cons, hstring]
    rfl

/-- An integer. -/
theorem reads_int (n : ℤ) : Reads (toString n).toList (.num (toString n).toList) := by
  -- it starts with a digit or a sign
  have hstart : ∃ c u, (toString n).toList = c :: u ∧ (c.isDigit = true ∨ c = '-') := by
    cases n with
    | ofNat m =>
        rw [toList_toString_ofNat]
        obtain ⟨c, u, hcu⟩ := List.exists_cons_of_ne_nil (Nat.toDigits_ne_nil (n := m) (b := 10))
        exact ⟨c, u, hcu, .inl (isDigit_of_mem_toDigits (hcu ▸ List.mem_cons_self))⟩
    | negSucc m => exact ⟨'-', _, toList_toString_negSucc m, .inr rfl⟩
  obtain ⟨c, u, hcu, hc⟩ := hstart
  have hne (c' : Char) (hdigit : c'.isDigit = false) (hminus : c' ≠ '-') : c ≠ c' := by
    rintro rfl
    obtain hc | hc := hc
    · rw [hc] at hdigit
      cases hdigit
    · exact hminus hc
  refine ⟨⟨c, u, hcu, ?_, hne ']' (by decide) (by decide)⟩, ?_⟩
  · simp [isBlank, hne ' ' (by decide) (by decide), hne '\n' (by decide) (by decide),
      hne '\r' (by decide) (by decide), hne '\t' (by decide) (by decide)]
  · intro fuel rest hfuel hstops
    obtain ⟨fuel, rfl⟩ := Nat.exists_eq_add_one.mpr (Nat.zero_lt_of_lt hfuel)
    have hhead (c' : Char) (hdigit : c'.isDigit = false) (hminus : c' ≠ '-') :
        ((toString n).toList ++ rest).head? ≠ some c' := by
      rw [hcu, List.cons_append, List.head?_cons]
      exact fun h => hne c' hdigit hminus (Option.some.inj h)
    have hword (c' : Char) (word : List Char) (hdigit : c'.isDigit = false) (hminus : c' ≠ '-') :
        keyword (c' :: word) ((toString n).toList ++ rest) = none := by
      rw [hcu, keyword, if_neg]
      intro h
      exact hne c' hdigit hminus (List.cons_prefix_cons.mp (List.isPrefixOf_iff_prefix.mp h)).1.symm
    rw [value, if_neg (hhead '"' (by decide) (by decide)),
      if_neg (hhead '[' (by decide) (by decide)), if_neg (hhead '{' (by decide) (by decide)), scalar]
    have htrue : keyword "true".toList ((toString n).toList ++ rest) = none :=
      hword 't' "rue".toList (by decide) (by decide)
    have hfalse : keyword "false".toList ((toString n).toList ++ rest) = none :=
      hword 'f' "alse".toList (by decide) (by decide)
    have hnull : keyword "null".toList ((toString n).toList ++ rest) = none :=
      hword 'n' "ull".toList (by decide) (by decide)
    rw [htrue, hfalse, hnull, number_toString n hstops]
    rfl

/-- The last element of an array. -/
theorem readsElements_single (hv : Reads t v) (hw : ∀ c ∈ w, isBlank c = true) :
    ReadsElements (t ++ (w ++ [']'])) [v] where
  starts := by
    obtain ⟨c, u, rfl, hc⟩ := hv.starts
    exact ⟨c, u ++ (w ++ [']']), rfl, hc⟩
  pos := by
    rw [costs]
    omega
  reads fuel rest hfuel := by
    obtain ⟨fuel, rfl⟩ := Nat.exists_eq_add_one.mpr (Nat.zero_lt_of_lt hfuel)
    have hstops : Stops (w ++ (']' :: rest)) :=
      (stops_cons (by decide) (by decide) (by decide) (by decide)).append hw
    have hskip : skipBlanks (w ++ (']' :: rest)) = ']' :: rest := by
      rw [skipBlanks_append hw, skipBlanks_cons (by decide)]
    simp only [costs] at hfuel
    rw [List.append_assoc, List.append_assoc, List.singleton_append, elements,
      hv.reads fuel _ (by omega) hstops, Option.bind_eq_bind, Option.bind_some]
    dsimp only
    rw [hskip, List.head?_cons, if_pos rfl]
    rfl

/-- An element of an array before others. -/
theorem readsElements_cons (hv : Reads t v) (hw : ∀ c ∈ w, isBlank c = true)
    (hvs : ReadsElements u vs) : ReadsElements (t ++ (',' :: (w ++ u))) (v :: vs) where
  starts := by
    obtain ⟨c, u', rfl, hc⟩ := hv.starts
    exact ⟨c, u' ++ (',' :: (w ++ u)), rfl, hc⟩
  pos := by
    rw [costs]
    omega
  reads fuel rest hfuel := by
    obtain ⟨fuel, rfl⟩ := Nat.exists_eq_add_one.mpr (Nat.zero_lt_of_lt hfuel)
    have hstops : Stops (',' :: (w ++ (u ++ rest))) :=
      stops_cons (by decide) (by decide) (by decide) (by decide)
    have hskip : skipBlanks (',' :: (w ++ (u ++ rest))) = ',' :: (w ++ (u ++ rest)) :=
      skipBlanks_cons (by decide)
    simp only [costs] at hfuel
    rw [List.append_assoc, List.cons_append, List.append_assoc, elements,
      hv.reads fuel _ (by omega) hstops, Option.bind_eq_bind, Option.bind_some]
    dsimp only
    rw [hskip, List.head?_cons, if_neg (by decide), if_pos rfl, List.tail_cons,
      skipBlanks_of_starts hw hvs.starts, hvs.reads fuel rest (by omega)]
    rfl

/-- An array without elements. -/
theorem reads_arr_nil (hw : ∀ c ∈ w, isBlank c = true) : Reads ('[' :: (w ++ [']'])) (.arr []) where
  starts := ⟨'[', w ++ [']'], rfl, by decide, by decide⟩
  reads fuel rest hfuel _ := by
    obtain ⟨fuel, rfl⟩ := Nat.exists_eq_add_one.mpr (Nat.zero_lt_of_lt hfuel)
    have hskip : skipBlanks (w ++ (']' :: rest)) = ']' :: rest := by
      rw [skipBlanks_append hw, skipBlanks_cons (by decide)]
    rw [List.cons_append, List.append_assoc, List.singleton_append, value, List.head?_cons,
      if_neg (by decide), if_pos rfl, List.tail_cons, hskip, List.head?_cons, if_pos rfl]
    rfl

/-- **An array with elements.** -/
theorem reads_arr (hw : ∀ c ∈ w, isBlank c = true) (hvs : ReadsElements t vs) :
    Reads ('[' :: (w ++ t)) (.arr vs) where
  starts := ⟨'[', w ++ t, rfl, by decide, by decide⟩
  reads fuel rest hfuel _ := by
    obtain ⟨fuel, rfl⟩ := Nat.exists_eq_add_one.mpr (Nat.zero_lt_of_lt hfuel)
    have hclose : (t ++ rest).head? ≠ some ']' := by
      obtain ⟨c, u, rfl, -, hc⟩ := hvs.starts
      exact fun h => hc (Option.some.inj h)
    rw [cost, max_eq_right hvs.pos] at hfuel
    rw [List.cons_append, List.append_assoc, value, List.head?_cons, if_neg (by decide), if_pos rfl,
      List.tail_cons, skipBlanks_of_starts hw hvs.starts, if_neg hclose,
      hvs.reads fuel rest (by omega)]
    rfl

/-- The name of a member, up to its value. -/
theorem members_of_name {name : List Char} (hname : ∀ c ∈ name, isPlain c = true) (fuel : ℕ)
    (rest : List Char) :
    members (fuel + 1) ('"' :: (name ++ ('"' :: ':' :: ' ' :: rest))) = (do
      let (v, u) ← value fuel (skipBlanks rest)
      if (skipBlanks u).head? = some '\x7d' then return ([(name, v)], (skipBlanks u).tail)
      else if (skipBlanks u).head? = some ',' then
        let (ms, rest) ← members fuel (skipBlanks (skipBlanks u).tail)
        return ((name, v) :: ms, rest)
      else none) := by
  have hstring : string (name ++ ('"' :: ':' :: ' ' :: rest)) = some (name, ':' :: ' ' :: rest) :=
    stringBody_plain hname (by simp)
  have hcolon : skipBlanks (':' :: ' ' :: rest) = ':' :: ' ' :: rest := skipBlanks_cons (by decide)
  rw [members, List.head?_cons, if_pos rfl, List.tail_cons, hstring, Option.bind_eq_bind,
    Option.bind_some]
  dsimp only
  rw [hcolon, List.head?_cons, if_pos rfl, List.tail_cons]
  rfl

/-- The last member of an object. -/
theorem readsMembers_single {name : List Char} (hname : ∀ c ∈ name, isPlain c = true)
    (hv : Reads t v) (hw : ∀ c ∈ w, isBlank c = true) :
    ReadsMembers ('"' :: (name ++ ('"' :: ':' :: ' ' :: (t ++ (w ++ ['\x7d']))))) [(name, v)] where
  starts := ⟨_, rfl⟩
  reads fuel rest hfuel := by
    obtain ⟨fuel, rfl⟩ := Nat.exists_eq_add_one.mpr (Nat.zero_lt_of_lt hfuel)
    have hstops : Stops (w ++ ('\x7d' :: rest)) :=
      (stops_cons (by decide) (by decide) (by decide) (by decide)).append hw
    have hskip : skipBlanks (w ++ ('\x7d' :: rest)) = '\x7d' :: rest := by
      rw [skipBlanks_append hw, skipBlanks_cons (by decide)]
    have hstart : skipBlanks (t ++ (w ++ ('\x7d' :: rest))) = t ++ (w ++ ('\x7d' :: rest)) :=
      skipBlanks_of_starts (w := []) (by simp) hv.starts _
    simp only [memberCosts] at hfuel
    simp only [List.cons_append, List.append_assoc, List.nil_append]
    rw [members_of_name hname, hstart, hv.reads fuel _ (by omega) hstops, Option.bind_eq_bind,
      Option.bind_some]
    dsimp only
    rw [hskip, List.head?_cons, if_pos rfl]
    rfl

/-- A member of an object before others. -/
theorem readsMembers_cons {name : List Char} (hname : ∀ c ∈ name, isPlain c = true)
    (hv : Reads t v) (hw : ∀ c ∈ w, isBlank c = true) (hms : ReadsMembers u ms) :
    ReadsMembers ('"' :: (name ++ ('"' :: ':' :: ' ' :: (t ++ (',' :: (w ++ u))))))
      ((name, v) :: ms) where
  starts := ⟨_, rfl⟩
  reads fuel rest hfuel := by
    obtain ⟨fuel, rfl⟩ := Nat.exists_eq_add_one.mpr (Nat.zero_lt_of_lt hfuel)
    have hstops : Stops (',' :: (w ++ (u ++ rest))) :=
      stops_cons (by decide) (by decide) (by decide) (by decide)
    have hskip : skipBlanks (',' :: (w ++ (u ++ rest))) = ',' :: (w ++ (u ++ rest)) :=
      skipBlanks_cons (by decide)
    have hstart : skipBlanks (t ++ (',' :: (w ++ (u ++ rest)))) = t ++ (',' :: (w ++ (u ++ rest))) :=
      skipBlanks_of_starts (w := []) (by simp) hv.starts _
    have hnext : skipBlanks (w ++ (u ++ rest)) = u ++ rest := by
      obtain ⟨u', rfl⟩ := hms.starts
      exact skipBlanks_of_starts hw ⟨'"', u', rfl, by decide, by decide⟩ rest
    simp only [memberCosts] at hfuel
    simp only [List.cons_append, List.append_assoc]
    rw [members_of_name hname, hstart, hv.reads fuel _ (by omega) hstops, Option.bind_eq_bind,
      Option.bind_some]
    dsimp only
    rw [hskip, List.head?_cons, if_neg (by decide), if_pos rfl, List.tail_cons, hnext,
      hms.reads fuel rest (by omega)]
    rfl

/-- **An object with members.** -/
theorem reads_obj (hw : ∀ c ∈ w, isBlank c = true) (hms : ReadsMembers t ms) :
    Reads ('\x7b' :: (w ++ t)) (.obj ms) where
  starts := ⟨'\x7b', w ++ t, rfl, by decide, by decide⟩
  reads fuel rest hfuel _ := by
    obtain ⟨fuel, rfl⟩ := Nat.exists_eq_add_one.mpr (Nat.zero_lt_of_lt hfuel)
    obtain ⟨u, rfl⟩ := hms.starts
    have hskip : skipBlanks (w ++ ('"' :: u ++ rest)) = '"' :: u ++ rest :=
      skipBlanks_of_starts hw ⟨'"', u, rfl, by decide, by decide⟩ rest
    rw [cost] at hfuel
    rw [List.cons_append, List.append_assoc, value, List.head?_cons, if_neg (by decide),
      if_neg (by decide), if_pos rfl, List.tail_cons, hskip, if_neg (by simp),
      hms.reads fuel rest (by omega)]
    rfl

/-- **The value of a text after blanks.** -/
theorem parse_of_reads (hw : ∀ c ∈ w, isBlank c = true) (hv : Reads t v)
    (hcost : cost v ≤ inked t) : parse (w ++ t) = some v := by
  have hlength := inked_le_length t
  have hskip := skipBlanks_of_starts hw hv.starts []
  have hread := hv.reads ((w ++ t).length + 1) [] (by rw [List.length_append]; omega)
    fun c hc => by cases hc
  rw [List.append_nil] at hskip hread
  rw [parse, hskip, hread]
  rfl

end Reads

end Json

end AndroidSdk.Lib
