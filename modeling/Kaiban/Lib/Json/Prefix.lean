/-
What a JSON value is read from.

The parser takes a value from a prefix of its text and never looks past the unit after
it, so the same prefix gives the same value in front of any other text.  This is what
decides whether a JSON text that was cut off still parses.
-/
import Kaiban.Lib.Json.RoundTrip

open JsString

namespace Json

/-! ### What a value is read from

A value is read from a prefix of the text and reads the same with any other text after
that prefix; after a number that text must not continue it. -/

theorem readString_reads {n : ℕ} {s r x : JsString} (h : readString n s = some (x, r)) :
    ∃ c, s = c ++ r ∧ c ≠ [] ∧ ∀ r', readString n (c ++ r') = some (x, r') := by
  induction n generalizing s x with
  | zero => simp [readString] at h
  | succ n ih =>
      simp only [readString] at h
      cases hstep : stringStep s with
      | none => simp [hstep] at h
      | some p =>
          cases p with
          | close r₁ =>
              simp only [hstep, Option.some.injEq, Prod.mk.injEq] at h
              obtain ⟨rfl, rfl⟩ := h
              refine ⟨[unit '"'], stringStep_close hstep, by simp, fun r' => ?_⟩
              simp [readString, stringStep]
          | unit u r₁ =>
              simp only [hstep] at h
              obtain ⟨⟨y, r₂⟩, hy, heq⟩ := Option.map_eq_some_iff.mp h
              simp only [Prod.mk.injEq] at heq
              obtain ⟨rfl, rfl⟩ := heq
              obtain ⟨c₁, hc₁, hne, hany₁⟩ := stringStep_reads hstep
              obtain ⟨c₂, hc₂, -, hany₂⟩ := ih hy
              refine ⟨c₁ ++ c₂, by rw [hc₁, hc₂, List.append_assoc], by simp [hne], fun r' => ?_⟩
              rw [List.append_assoc]
              exact readString_unit (hany₁ _) (hany₂ r')

theorem readWord_eq {w s r : JsString} (h : readWord w s = some r) : s = w ++ r := by
  induction w generalizing s with
  | nil => exact Option.some.inj h
  | cons u w ih =>
      cases s with
      | nil => simp [readWord] at h
      | cons v s =>
          simp only [readWord] at h
          by_cases hu : u = v
          · rw [if_pos hu] at h
            rw [ih h, hu, List.cons_append]
          · simp [hu] at h

/-- The text after a value may be anything, unless the value is a number. -/
def Follows (v : Json) (r : JsString) : Prop :=
  ∀ k, v = .num k → NumberText.NoNumberHead r

theorem follows_obj (ms : List (JsString × Json)) (r : JsString) : Follows (.obj ms) r := by
  intro k hk
  exact absurd hk (by simp)

/-- A comma or a bracket, after white space, may follow any value. -/
theorem follows_expected {c : Char} (hc : c = ']' ∨ c = '}' ∨ c = ',') {p : JsString}
    (hlast : p.getLast? = some (unit c)) (hp : ∀ u ∈ p.head?, isSpace u = true ∨ u = unit c)
      (v : Json)
    (r : JsString) : Follows v (p ++ r) := by
  intro _ _ u hu
  cases p with
  | nil => simp at hlast
  | cons x xs =>
      obtain rfl : x = u := by simpa using hu
      rcases hp x (by simp) with hx | rfl
      · simp only [isSpace, Bool.or_eq_true, decide_eq_true_eq] at hx
        have hpoint : (unit '.').val = 0x2E ∧ (unit 'e').val = 0x65 ∧ (unit 'E').val = 0x45 := by
          decide
        refine ⟨?_, ?_, ?_, ?_⟩
        · simp only [NumberText.isDigit, Bool.and_eq_false_iff, decide_eq_false_iff_not]
          omega
        all_goals
          rintro rfl
          omega
      · rcases hc with rfl | rfl | rfl <;> decide

theorem readNumber_head {u : CodeUnit} {rest : JsString} {x : Decimal × JsString}
    (h : NumberText.readNumber (u :: rest) = some x) :
    NumberText.isDigit u = true ∨ u = unit '-' := by
  by_cases hm : u = unit '-'
  · exact .inr hm
  by_cases hd : NumberText.isDigit u = true
  · exact .inl hd
  · simp [NumberText.readNumber, NumberText.readMinus, hm, NumberText.spanDigits, hd] at h

/-- A value does not begin with white space or a closing bracket. -/
theorem readValue_head {n : ℕ} {u : CodeUnit} {rest : JsString} {x : Json × JsString}
    (h : readValue n (u :: rest) = some x) : isSpace u = false ∧ u ≠ unit ']' := by
  cases n with
  | zero => simp [readValue] at h
  | succ n =>
      by_cases h1 : u = unit '{'
      · subst h1; decide
      by_cases h2 : u = unit '['
      · subst h2; decide
      by_cases h3 : u = unit '"'
      · subst h3; decide
      by_cases h4 : u = unit 't'
      · subst h4; decide
      by_cases h5 : u = unit 'f'
      · subst h5; decide
      by_cases h6 : u = unit 'n'
      · subst h6; decide
      simp only [readValue, if_neg h1, if_neg h2, if_neg h3, if_neg h4, if_neg h5, if_neg h6] at h
      obtain ⟨y, hy, -⟩ := Option.map_eq_some_iff.mp h
      have hhead := isHead_of_digit (readNumber_head hy)
      exact ⟨hhead.1, hhead.2.1⟩

/-- A value that begins with a brace is an object, and no other is. -/
theorem readValue_brace {n : ℕ} {u : CodeUnit} {rest r : JsString} {v : Json}
    (h : readValue n (u :: rest) = some (v, r)) : u = unit '{' ↔ ∃ ms, v = .obj ms := by
  cases n with
  | zero => simp [readValue] at h
  | succ n =>
      by_cases h1 : u = unit '{'
      · simp only [readValue, if_pos h1] at h
        refine ⟨fun _ => ?_, fun _ => h1⟩
        cases hclose : expect '}' rest with
        | some r₁ =>
            simp only [hclose, Option.some.injEq, Prod.mk.injEq] at h
            exact ⟨[], h.1.symm⟩
        | none =>
            simp only [hclose] at h
            obtain ⟨y, -, heq⟩ := Option.map_eq_some_iff.mp h
            exact ⟨y.1, (Prod.mk.inj heq).1.symm⟩
      · refine ⟨fun hu => absurd hu h1, ?_⟩
        rintro ⟨ms, rfl⟩
        simp only [readValue, if_neg h1] at h
        split at h
        · split at h
          · simp at h
          · obtain ⟨y, -, heq⟩ := Option.map_eq_some_iff.mp h
            simp at heq
        repeat' split at h
        all_goals
          obtain ⟨y, -, heq⟩ := Option.map_eq_some_iff.mp h
          simp at heq

theorem readItems_open {n : ℕ} {s : JsString} {x : List Json × JsString}
    (h : readItems n s = some x) : expect ']' s = none := by
  cases n with
  | zero => simp [readItems] at h
  | succ n =>
      simp only [readItems] at h
      cases hv : readValue n (skipSpace s) with
      | none => simp [hv] at h
      | some p =>
          cases hs : skipSpace s with
          | nil => simp [expect, hs]
          | cons u rest =>
              rw [hs] at hv
              simp [expect, hs, (readValue_head hv).2]

theorem readMembers_open {n : ℕ} {s : JsString} {x : List (JsString × Json) × JsString}
    (h : readMembers n s = some x) : expect '}' s = none := by
  cases n with
  | zero => simp [readMembers] at h
  | succ n =>
      simp only [readMembers] at h
      cases hq : expect '"' s with
      | none => simp [hq] at h
      | some r => exact expect_other hq (by decide)

/-- What `readValue` reads, with any text after it.  An object ends with its brace. -/
def Reads (n : ℕ) : Prop :=
  (∀ s v r, readValue n s = some (v, r) →
    ∃ c, s = c ++ r ∧ c ≠ [] ∧ (∀ ms, v = .obj ms → c.getLast? = some (unit '}')) ∧
      ∀ r', Follows v r' → readValue n (c ++ r') = some (v, r')) ∧
  (∀ s vs r, readItems n s = some (vs, r) →
    ∃ c, s = c ++ r ∧ ∀ r', readItems n (c ++ r') = some (vs, r')) ∧
  (∀ s ms r, readMembers n s = some (ms, r) →
    ∃ c, s = c ++ r ∧ c.getLast? = some (unit '}') ∧
      ∀ r', readMembers n (c ++ r') = some (ms, r'))

theorem getLast_append {c d : JsString} {u : CodeUnit} (h : d.getLast? = some u) :
    (c ++ d).getLast? = some u := by
  cases d with
  | nil => simp at h
  | cons x xs => rw [List.getLast?_append_of_ne_nil _ (by simp), h]

theorem readWord_value {w s r : JsString} {v x : Json}
    (h : (readWord w s).map (fun r => (v, r)) = some (x, r)) :
    x = v ∧ s = w ++ r := by
  obtain ⟨y, hy, heq⟩ := Option.map_eq_some_iff.mp h
  simp only [Prod.mk.injEq] at heq
  obtain ⟨rfl, rfl⟩ := heq
  exact ⟨rfl, readWord_eq hy⟩

theorem reads_value {n : ℕ} (ih : Reads n) (s : JsString) (v : Json) (r : JsString)
    (h : readValue (n + 1) s = some (v, r)) :
    ∃ c, s = c ++ r ∧ c ≠ [] ∧ (∀ ms, v = .obj ms → c.getLast? = some (unit '}')) ∧
      ∀ r', Follows v r' → readValue (n + 1) (c ++ r') = some (v, r') := by
  cases s with
  | nil => simp [readValue] at h
  | cons u rest =>
      by_cases h1 : u = unit '{'
      · simp only [readValue, if_pos h1] at h
        cases hclose : expect '}' rest with
        | some r₁ =>
            simp only [hclose, Option.some.injEq, Prod.mk.injEq] at h
            obtain ⟨rfl, rfl⟩ := h
            obtain ⟨p, hp, hlast, -, hany⟩ := expect_reads hclose
            refine ⟨u :: p, by rw [hp, List.cons_append], by simp,
              fun _ _ => getLast_append (c := [u]) hlast, fun r' _ => ?_⟩
            simp only [List.cons_append, readValue, if_pos h1, hany r']
        | none =>
            simp only [hclose] at h
            obtain ⟨⟨ms, r₁⟩, hms, heq⟩ := Option.map_eq_some_iff.mp h
            simp only [Prod.mk.injEq] at heq
            obtain ⟨rfl, rfl⟩ := heq
            obtain ⟨c, hc, hlast, hany⟩ := ih.2.2 _ _ _ hms
            refine ⟨u :: c, by rw [hc, List.cons_append], by simp,
              fun _ _ => getLast_append (c := [u]) hlast, fun r' _ => ?_⟩
            simp only [List.cons_append, readValue, if_pos h1, readMembers_open (hany r'), hany r',
              Option.map_some]
      by_cases h2 : u = unit '['
      · simp only [readValue, if_neg h1, if_pos h2] at h
        cases hclose : expect ']' rest with
        | some r₁ =>
            simp only [hclose, Option.some.injEq, Prod.mk.injEq] at h
            obtain ⟨rfl, rfl⟩ := h
            obtain ⟨p, hp, -, -, hany⟩ := expect_reads hclose
            refine ⟨u :: p, by rw [hp, List.cons_append], by simp, by simp, fun r' _ => ?_⟩
            simp only [List.cons_append, readValue, if_neg h1, if_pos h2, hany r']
        | none =>
            simp only [hclose] at h
            obtain ⟨⟨vs, r₁⟩, hvs, heq⟩ := Option.map_eq_some_iff.mp h
            simp only [Prod.mk.injEq] at heq
            obtain ⟨rfl, rfl⟩ := heq
            obtain ⟨c, hc, hany⟩ := ih.2.1 _ _ _ hvs
            refine ⟨u :: c, by rw [hc, List.cons_append], by simp, by simp, fun r' _ => ?_⟩
            simp only [List.cons_append, readValue, if_neg h1, if_pos h2, readItems_open (hany r'),
              hany r', Option.map_some]
      by_cases h3 : u = unit '"'
      · simp only [readValue, if_neg h1, if_neg h2, if_pos h3] at h
        obtain ⟨⟨x, r₁⟩, hx, heq⟩ := Option.map_eq_some_iff.mp h
        simp only [Prod.mk.injEq] at heq
        obtain ⟨rfl, rfl⟩ := heq
        obtain ⟨c, hc, -, hany⟩ := readString_reads hx
        refine ⟨u :: c, by rw [hc, List.cons_append], by simp, by simp, fun r' _ => ?_⟩
        simp only [List.cons_append, readValue, if_neg h1, if_neg h2, if_pos h3, hany r',
          Option.map_some]
      by_cases h4 : u = unit 't'
      · simp only [readValue, if_neg h1, if_neg h2, if_neg h3, if_pos h4] at h
        obtain ⟨rfl, hs⟩ := readWord_value h
        refine ⟨u :: js "rue", by rw [hs, List.cons_append], by simp, by simp, fun r' _ => ?_⟩
        simp only [List.cons_append, readValue, if_neg h1, if_neg h2, if_neg h3, if_pos h4,
          readWord_append, Option.map_some]
      by_cases h5 : u = unit 'f'
      · simp only [readValue, if_neg h1, if_neg h2, if_neg h3, if_neg h4, if_pos h5] at h
        obtain ⟨rfl, hs⟩ := readWord_value h
        refine ⟨u :: js "alse", by rw [hs, List.cons_append], by simp, by simp, fun r' _ => ?_⟩
        simp only [List.cons_append, readValue, if_neg h1, if_neg h2, if_neg h3, if_neg h4,
          if_pos h5, readWord_append, Option.map_some]
      by_cases h6 : u = unit 'n'
      · simp only [readValue, if_neg h1, if_neg h2, if_neg h3, if_neg h4, if_neg h5, if_pos h6] at h
        obtain ⟨rfl, hs⟩ := readWord_value h
        refine ⟨u :: js "ull", by rw [hs, List.cons_append], by simp, by simp, fun r' _ => ?_⟩
        simp only [List.cons_append, readValue, if_neg h1, if_neg h2, if_neg h3, if_neg h4,
          if_neg h5, if_pos h6, readWord_append, Option.map_some]
      · simp only [readValue, if_neg h1, if_neg h2, if_neg h3, if_neg h4, if_neg h5,
          if_neg h6] at h
        obtain ⟨⟨d, r₁⟩, hd, heq⟩ := Option.map_eq_some_iff.mp h
        simp only [Prod.mk.injEq] at heq
        obtain ⟨rfl, rfl⟩ := heq
        obtain ⟨c, hc, hne, hany⟩ := NumberText.readNumber_reads hd
        obtain ⟨x, xs, rfl⟩ := List.exists_cons_of_ne_nil hne
        obtain ⟨rfl, -⟩ : u = x ∧ rest = xs ++ r₁ := by simpa using hc
        refine ⟨u :: xs, hc, hne, by simp, fun r' hr => ?_⟩
        have hread := hany r' (hr _ rfl)
        rw [List.cons_append] at hread ⊢
        simp only [readValue, if_neg h1, if_neg h2, if_neg h3, if_neg h4, if_neg h5, if_neg h6,
          hread, Option.map_some]

/-- A value after white space, from its prefix of the text. -/
theorem reads_skipped {n : ℕ} (ih : Reads n) {s r : JsString} {v : Json}
    (h : readValue n (skipSpace s) = some (v, r)) :
    ∃ c, s = c ++ r ∧ c ≠ [] ∧
      ∀ r', Follows v r' → readValue n (skipSpace (c ++ r')) = some (v, r') := by
  obtain ⟨w, hw, hspace, hhead⟩ := skipSpace_split s
  obtain ⟨c, hc, hne, -, hany⟩ := ih.1 _ _ _ h
  refine ⟨w ++ c, by rw [List.append_assoc, ← hc]; exact hw, by simp [hne], fun r' hr => ?_⟩
  have hskip : skipSpace (c ++ r') = c ++ r' := by
    apply skipSpace_of_head
    intro u hu
    obtain ⟨x, xs, rfl⟩ := List.exists_cons_of_ne_nil hne
    obtain rfl : x = u := by simpa using hu
    exact hhead x (by rw [hc]; rfl)
  rw [List.append_assoc, skipSpace_append hspace, hskip]
  exact hany r' hr

theorem reads_items {n : ℕ} (ih : Reads n) (s : JsString) (vs : List Json) (r : JsString)
    (h : readItems (n + 1) s = some (vs, r)) :
    ∃ c, s = c ++ r ∧ ∀ r', readItems (n + 1) (c ++ r') = some (vs, r') := by
  simp only [readItems] at h
  cases hv : readValue n (skipSpace s) with
  | none => simp [hv] at h
  | some p =>
      obtain ⟨v, r₁⟩ := p
      simp only [hv] at h
      obtain ⟨c₁, hc₁, -, hany₁⟩ := reads_skipped ih hv
      cases hcomma : expect ',' r₁ with
      | some r₂ =>
          simp only [hcomma] at h
          obtain ⟨⟨ws, r₃⟩, hws, heq⟩ := Option.map_eq_some_iff.mp h
          simp only [Prod.mk.injEq] at heq
          obtain ⟨rfl, rfl⟩ := heq
          obtain ⟨p, hp, hplast, hphead, hpany⟩ := expect_reads hcomma
          obtain ⟨c₂, hc₂, hany₂⟩ := ih.2.1 _ _ _ hws
          refine ⟨c₁ ++ (p ++ c₂), by rw [hc₁, hp, hc₂]; simp, fun r' => ?_⟩
          have hfollow := follows_expected (c := ',') (by simp) hplast hphead v (c₂ ++ r')
          simp only [List.append_assoc, readItems, hany₁ _ hfollow, hpany, hany₂ r',
            Option.map_some]
      | none =>
          simp only [hcomma] at h
          obtain ⟨r₂, hclose, heq⟩ := Option.map_eq_some_iff.mp h
          simp only [Prod.mk.injEq] at heq
          obtain ⟨rfl, rfl⟩ := heq
          obtain ⟨p, hp, hplast, hphead, hpany⟩ := expect_reads hclose
          refine ⟨c₁ ++ p, by rw [hc₁, hp]; simp, fun r' => ?_⟩
          have hfollow := follows_expected (c := ']') (by simp) hplast hphead v r'
          have hno : expect ',' (p ++ r') = none := expect_other (hpany r') (by decide)
          simp only [List.append_assoc, readItems, hany₁ _ hfollow, hno, hpany, Option.map_some]

theorem reads_members {n : ℕ} (ih : Reads n) (s : JsString) (ms : List (JsString × Json))
    (r : JsString) (h : readMembers (n + 1) s = some (ms, r)) :
    ∃ c, s = c ++ r ∧ c.getLast? = some (unit '}') ∧
      ∀ r', readMembers (n + 1) (c ++ r') = some (ms, r') := by
  simp only [readMembers] at h
  cases hk : (expect '"' s).bind (readString n) with
  | none => simp [hk] at h
  | some q =>
      obtain ⟨k, r₁⟩ := q
      simp only [hk] at h
      obtain ⟨s₁, hquote, hname⟩ := Option.bind_eq_some_iff.mp hk
      cases hv : (expect ':' r₁).bind fun r => readValue n (skipSpace r) with
      | none => simp [hv] at h
      | some q =>
          obtain ⟨v, r₂⟩ := q
          simp only [hv] at h
          obtain ⟨s₂, hcolon, hvalue⟩ := Option.bind_eq_some_iff.mp hv
          obtain ⟨p₁, hp₁, -, -, hpany₁⟩ := expect_reads hquote
          obtain ⟨c₁, hc₁, -, hany₁⟩ := readString_reads hname
          obtain ⟨p₂, hp₂, -, -, hpany₂⟩ := expect_reads hcolon
          obtain ⟨c₂, hc₂, -, hany₂⟩ := reads_skipped ih hvalue
          cases hcomma : expect ',' r₂ with
          | some r₃ =>
              simp only [hcomma] at h
              obtain ⟨⟨ws, r₄⟩, hws, heq⟩ := Option.map_eq_some_iff.mp h
              simp only [Prod.mk.injEq] at heq
              obtain ⟨rfl, rfl⟩ := heq
              obtain ⟨p₃, hp₃, hplast, hphead, hpany₃⟩ := expect_reads hcomma
              obtain ⟨c₃, hc₃, hlast, hany₃⟩ := ih.2.2 _ _ _ hws
              refine ⟨p₁ ++ (c₁ ++ (p₂ ++ (c₂ ++ (p₃ ++ c₃)))), ?_,
                getLast_append (getLast_append (getLast_append (getLast_append
                  (getLast_append hlast)))), fun r' => ?_⟩
              · rw [hp₁, hc₁, hp₂, hc₂, hp₃, hc₃]
                simp
              have hfollow := follows_expected (c := ',') (by simp) hplast hphead v (c₃ ++ r')
              simp only [List.append_assoc, readMembers, hpany₁, hany₁, hpany₂, hany₂ _ hfollow,
                hpany₃, hany₃ r', Option.bind_some, Option.map_some]
          | none =>
              simp only [hcomma] at h
              obtain ⟨r₃, hclose, heq⟩ := Option.map_eq_some_iff.mp h
              simp only [Prod.mk.injEq] at heq
              obtain ⟨rfl, rfl⟩ := heq
              obtain ⟨p₃, hp₃, hplast, hphead, hpany₃⟩ := expect_reads hclose
              refine ⟨p₁ ++ (c₁ ++ (p₂ ++ (c₂ ++ p₃))), ?_,
                getLast_append (getLast_append (getLast_append (getLast_append hplast))),
                fun r' => ?_⟩
              · rw [hp₁, hc₁, hp₂, hc₂, hp₃]
                simp
              have hfollow := follows_expected (c := '}') (by simp) hplast hphead v r'
              have hno : expect ',' (p₃ ++ r') = none := expect_other (hpany₃ r') (by decide)
              simp only [List.append_assoc, readMembers, hpany₁, hany₁, hpany₂, hany₂ _ hfollow,
                hno, hpany₃, Option.bind_some, Option.map_some]

theorem reads (n : ℕ) : Reads n := by
  induction n with
  | zero => exact ⟨by simp [readValue], by simp [readItems], by simp [readMembers]⟩
  | succ n ih => exact ⟨reads_value ih, reads_items ih, reads_members ih⟩

/-! ### Enough fuel

Fuel twice as long as what is read is enough to read it, so the fuel `parse` takes never
runs out: no fuel reads a text that `parse` does not.
-/

theorem readString_enough {n m : ℕ} {s r x : JsString} (h : readString n s = some (x, r))
    (hm : s.length ≤ r.length + m) : readString m s = some (x, r) := by
  induction n generalizing s x m with
  | zero => simp [readString] at h
  | succ n ih =>
      simp only [readString] at h
      cases hstep : stringStep s with
      | none => simp [hstep] at h
      | some p =>
          cases p with
          | close r₁ =>
              simp only [hstep, Option.some.injEq, Prod.mk.injEq] at h
              obtain ⟨rfl, rfl⟩ := h
              have hs := stringStep_close hstep
              obtain ⟨m, rfl⟩ : ∃ k, m = k + 1 := ⟨m - 1, by rw [hs] at hm; simp at hm; omega⟩
              simp [readString, hstep]
          | unit u r₁ =>
              simp only [hstep] at h
              obtain ⟨⟨y, r₂⟩, hy, heq⟩ := Option.map_eq_some_iff.mp h
              simp only [Prod.mk.injEq] at heq
              obtain ⟨rfl, rfl⟩ := heq
              have hlen := stringStep_length hstep
              obtain ⟨c, hc, -, -⟩ := readString_reads hy
              have hle : r₂.length ≤ r₁.length := by rw [hc, List.length_append]; omega
              obtain ⟨m, rfl⟩ : ∃ k, m = k + 1 := ⟨m - 1, by omega⟩
              exact readString_unit hstep (ih hy (by omega))

theorem expect_length {c : Char} {s r : JsString} (h : expect c s = some r) :
    r.length < s.length := by
  obtain ⟨p, hp, hlast, -⟩ := expect_reads h
  have hne : p ≠ [] := by
    rintro rfl
    simp at hlast
  have hpos := List.length_pos_iff.mpr hne
  rw [hp, List.length_append]
  omega

theorem readString_length {n : ℕ} {s r x : JsString} (h : readString n s = some (x, r)) :
    r.length < s.length := by
  obtain ⟨c, hc, hne, -⟩ := readString_reads h
  have hpos := List.length_pos_iff.mpr hne
  rw [hc, List.length_append]
  omega

theorem readValue_length {n : ℕ} {s r : JsString} {v : Json} (h : readValue n s = some (v, r)) :
    r.length < s.length := by
  obtain ⟨c, hc, hne, -⟩ := (reads n).1 _ _ _ h
  have hpos := List.length_pos_iff.mpr hne
  rw [hc, List.length_append]
  omega

theorem length_skipSpace_le (s : JsString) : (skipSpace s).length ≤ s.length := by
  obtain ⟨w, hw, -, -⟩ := skipSpace_split s
  have := congrArg List.length hw
  rw [List.length_append] at this
  omega

/-- What is read with fuel `n` is read with fuel twice as long as what was read. -/
def Enough (n : ℕ) : Prop :=
  (∀ m s v r, readValue n s = some (v, r) → 2 * s.length ≤ 2 * r.length + m →
    readValue m s = some (v, r)) ∧
  (∀ m s vs r, readItems n s = some (vs, r) → 2 * s.length ≤ 2 * r.length + m →
    readItems m s = some (vs, r)) ∧
  (∀ m s ms r, readMembers n s = some (ms, r) → 2 * s.length ≤ 2 * r.length + m →
    readMembers m s = some (ms, r))

theorem enough_value {n : ℕ} (ih : Enough n) (m : ℕ) (s : JsString) (v : Json) (r : JsString)
    (h : readValue (n + 1) s = some (v, r)) (hm : 2 * s.length ≤ 2 * r.length + m) :
    readValue m s = some (v, r) := by
  have hlen := readValue_length h
  obtain ⟨m, rfl⟩ : ∃ k, m = k + 1 := ⟨m - 1, by omega⟩
  cases s with
  | nil => simp [readValue] at h
  | cons u rest =>
      rw [List.length_cons] at hm
      by_cases h1 : u = unit '{'
      · simp only [readValue, if_pos h1] at h ⊢
        cases hclose : expect '}' rest with
        | some r => simpa only [hclose] using h
        | none =>
            simp only [hclose] at h ⊢
            obtain ⟨⟨ms, r₁⟩, hms, heq⟩ := Option.map_eq_some_iff.mp h
            simp only [Prod.mk.injEq] at heq
            obtain ⟨rfl, rfl⟩ := heq
            rw [ih.2.2 m rest ms r₁ hms (by omega), Option.map_some]
      by_cases h2 : u = unit '['
      · simp only [readValue, if_neg h1, if_pos h2] at h ⊢
        cases hclose : expect ']' rest with
        | some r => simpa only [hclose] using h
        | none =>
            simp only [hclose] at h ⊢
            obtain ⟨⟨vs, r₁⟩, hvs, heq⟩ := Option.map_eq_some_iff.mp h
            simp only [Prod.mk.injEq] at heq
            obtain ⟨rfl, rfl⟩ := heq
            rw [ih.2.1 m rest vs r₁ hvs (by omega), Option.map_some]
      by_cases h3 : u = unit '"'
      · simp only [readValue, if_neg h1, if_neg h2, if_pos h3] at h ⊢
        obtain ⟨⟨x, r₁⟩, hx, heq⟩ := Option.map_eq_some_iff.mp h
        simp only [Prod.mk.injEq] at heq
        obtain ⟨rfl, rfl⟩ := heq
        rw [readString_enough hx (by omega), Option.map_some]
      · simpa only [readValue, if_neg h1, if_neg h2, if_neg h3] using h

theorem enough_items {n : ℕ} (ih : Enough n) (m : ℕ) (s : JsString) (vs : List Json)
    (r : JsString) (h : readItems (n + 1) s = some (vs, r))
    (hm : 2 * s.length ≤ 2 * r.length + m) : readItems m s = some (vs, r) := by
  simp only [readItems] at h
  cases hv : readValue n (skipSpace s) with
  | none => simp [hv] at h
  | some p =>
      obtain ⟨v, r₁⟩ := p
      have hskip := length_skipSpace_le s
      have hvlen := readValue_length hv
      simp only [hv] at h
      cases hcomma : expect ',' r₁ with
      | none =>
          simp only [hcomma] at h
          obtain ⟨r₂, hclose, heq⟩ := Option.map_eq_some_iff.mp h
          simp only [Prod.mk.injEq] at heq
          obtain ⟨rfl, rfl⟩ := heq
          have hlen := expect_length hclose
          obtain ⟨m, rfl⟩ : ∃ k, m = k + 1 := ⟨m - 1, by omega⟩
          simp only [readItems, ih.1 m _ v r₁ hv (by omega), hcomma, hclose, Option.map_some]
      | some r₂ =>
          simp only [hcomma] at h
          obtain ⟨⟨ws, r₃⟩, hws, heq⟩ := Option.map_eq_some_iff.mp h
          simp only [Prod.mk.injEq] at heq
          obtain ⟨rfl, rfl⟩ := heq
          have hlen := expect_length hcomma
          obtain ⟨c, hc, -⟩ := (reads n).2.1 _ _ _ hws
          have hle : r₃.length ≤ r₂.length := by rw [hc, List.length_append]; omega
          obtain ⟨m, rfl⟩ : ∃ k, m = k + 1 := ⟨m - 1, by omega⟩
          simp only [readItems, ih.1 m _ v r₁ hv (by omega), hcomma,
            ih.2.1 m r₂ ws r₃ hws (by omega), Option.map_some]

theorem enough_members {n : ℕ} (ih : Enough n) (m : ℕ) (s : JsString)
    (ms : List (JsString × Json)) (r : JsString) (h : readMembers (n + 1) s = some (ms, r))
    (hm : 2 * s.length ≤ 2 * r.length + m) : readMembers m s = some (ms, r) := by
  simp only [readMembers] at h
  cases hk : (expect '"' s).bind (readString n) with
  | none => simp [hk] at h
  | some q =>
      obtain ⟨k, r₁⟩ := q
      obtain ⟨s₁, hquote, hname⟩ := Option.bind_eq_some_iff.mp hk
      simp only [hk] at h
      cases hv : (expect ':' r₁).bind fun r => readValue n (skipSpace r) with
      | none => simp [hv] at h
      | some p =>
          obtain ⟨v, r₂⟩ := p
          obtain ⟨s₂, hcolon, hvalue⟩ := Option.bind_eq_some_iff.mp hv
          simp only [hv] at h
          have h1 := expect_length hquote
          have h2 := readString_length hname
          have h3 := expect_length hcolon
          have h4 := length_skipSpace_le s₂
          have h5 := readValue_length hvalue
          cases hcomma : expect ',' r₂ with
          | none =>
              simp only [hcomma] at h
              obtain ⟨r₃, hclose, heq⟩ := Option.map_eq_some_iff.mp h
              simp only [Prod.mk.injEq] at heq
              obtain ⟨rfl, rfl⟩ := heq
              have h6 := expect_length hclose
              obtain ⟨m, rfl⟩ : ∃ k, m = k + 1 := ⟨m - 1, by omega⟩
              simp only [readMembers, hquote, readString_enough hname (m := m) (by omega), hcolon,
                ih.1 m _ v r₂ hvalue (by omega), hcomma, hclose, Option.bind_some,
                Option.map_some]
          | some r₃ =>
              simp only [hcomma] at h
              obtain ⟨⟨ws, r₄⟩, hws, heq⟩ := Option.map_eq_some_iff.mp h
              simp only [Prod.mk.injEq] at heq
              obtain ⟨rfl, rfl⟩ := heq
              have h6 := expect_length hcomma
              obtain ⟨c, hc, -⟩ := (reads n).2.2 _ _ _ hws
              have hle : r₄.length ≤ r₃.length := by rw [hc, List.length_append]; omega
              obtain ⟨m, rfl⟩ : ∃ k, m = k + 1 := ⟨m - 1, by omega⟩
              simp only [readMembers, hquote, readString_enough hname (m := m) (by omega), hcolon,
                ih.1 m _ v r₂ hvalue (by omega), hcomma, ih.2.2 m r₃ ws r₄ hws (by omega),
                Option.bind_some, Option.map_some]

theorem enough (n : ℕ) : Enough n := by
  induction n with
  | zero => exact ⟨by simp [readValue], by simp [readItems], by simp [readMembers]⟩
  | succ n ih =>
      exact ⟨fun m s v r h hm => enough_value ih m s v r h hm,
        fun m s vs r h hm => enough_items ih m s vs r h hm,
        fun m s ms r h hm => enough_members ih m s ms r h hm⟩

/-- **Whatever any fuel reads from the beginning of a text, `parse` reads.** -/
theorem parse_of_readValue {n : ℕ} {s r : JsString} {v : Json}
    (h : readValue n (skipSpace s) = some (v, r)) (hr : ∀ u ∈ r, isSpace u = true) :
    parse s = some v := by
  have hskip := length_skipSpace_le s
  have hfuel : 2 * (skipSpace s).length ≤ 2 * r.length + fuelFor s := by
    unfold fuelFor
    omega
  simp only [parse, (enough n).1 _ _ _ _ h hfuel, skipSpace_eq_nil.mpr hr, if_true]

/-! ### Cutting the text of an object -/

/-- What parsing an object's text says about the text. -/
theorem parse_obj {s : JsString} {ms : List (JsString × Json)} (h : parse s = some (.obj ms)) :
    ∃ w c r, s = w ++ (c ++ r) ∧ (∀ u ∈ w, isSpace u = true) ∧ (∀ u ∈ r, isSpace u = true) ∧
      c.getLast? = some (unit '}') ∧ (∀ u ∈ c.head?, isSpace u = false) ∧
      ∀ r', readValue (fuelFor s) (c ++ r') = some (.obj ms, r') := by
  unfold parse at h
  cases hv : readValue (fuelFor s) (skipSpace s) with
  | none => simp [hv] at h
  | some p =>
      obtain ⟨v, r⟩ := p
      simp only [hv] at h
      by_cases hr : skipSpace r = []
      · rw [if_pos hr, Option.some.injEq] at h
        subst h
        obtain ⟨w, hw, hspace, hhead⟩ := skipSpace_split s
        obtain ⟨c, hc, hne, hlast, hany⟩ := (reads (fuelFor s)).1 _ _ _ hv
        refine ⟨w, c, r, by rw [← hc]; exact hw, hspace, skipSpace_eq_nil.mp hr, hlast ms rfl,
          ?_, fun r' => hany r' (follows_obj ms r')⟩
        intro u hu
        rw [hc] at hhead
        cases c with
        | nil => exact absurd rfl hne
        | cons x xs => exact hhead u (by simpa using hu)
      · simp [hr] at h

/-- White space after the text of an object is outside what the object is read from. -/
theorem split_before_space {s t p r : JsString} (h : s ++ t = p ++ r)
    (ht : ∀ u ∈ t, isSpace u = true) (hp : p.getLast? = some (unit '}')) :
    ∃ b, s = p ++ b ∧ r = b ++ t := by
  rcases List.append_eq_append_iff.mp h with ⟨a, ha, hta⟩ | ⟨b, hb, hr⟩
  · cases a with
    | nil => exact ⟨[], by rw [ha]; simp, by simpa using hta.symm⟩
    | cons x xs =>
        have hlast : (x :: xs).getLast? = some (unit '}') := by
          rw [ha, List.getLast?_append_of_ne_nil _ (by simp)] at hp
          exact hp
        have hmem : unit '}' ∈ t := by
          rw [hta]
          exact List.mem_append_left _ (List.mem_of_getLast? hlast)
        exact absurd (ht _ hmem) (by decide)
  · exact ⟨b, hb, hr⟩

/-- **The text of an object parses the same with any white space after it.** -/
theorem parse_obj_space {s t : JsString} {ms : List (JsString × Json)}
    (h : parse (s ++ t) = some (.obj ms)) (ht : ∀ u ∈ t, isSpace u = true)
    {t' : JsString} (ht' : ∀ u ∈ t', isSpace u = true) :
    parse (s ++ t') = some (.obj ms) := by
  obtain ⟨w, c, r, hs, hw, hr, hlast, hhead, hany⟩ := parse_obj h
  rw [← List.append_assoc] at hs
  obtain ⟨b, hsb, hrb⟩ := split_before_space hs ht (getLast_append hlast)
  have hskip : skipSpace (s ++ t') = c ++ (b ++ t') := by
    rw [hsb, List.append_assoc, List.append_assoc, skipSpace_append hw]
    apply skipSpace_of_head
    intro u hu
    cases c with
    | nil => simp at hlast
    | cons x xs => exact hhead u (by simpa using hu)
  have hread := hany (b ++ t')
  rw [← hskip] at hread
  refine parse_of_readValue hread fun u hu => ?_
  rcases List.mem_append.mp hu with hu | hu
  · exact hr u (by rw [hrb]; exact List.mem_append_left _ hu)
  · exact ht' u hu

/-- **The text of an object does not parse once something that is not white space has
been cut off its end.** -/
theorem parse_obj_cut {s q : JsString} {ms : List (JsString × Json)}
    (h : parse (s ++ q) = some (.obj ms)) (hq : ∃ u ∈ q, isSpace u = false) :
    parse s = none := by
  obtain ⟨u, hu, hspace⟩ := hq
  cases hp : parse s with
  | none => rfl
  | some v =>
      unfold parse at hp
      cases hv : readValue (fuelFor s) (skipSpace s) with
      | none => simp [hv] at hp
      | some x =>
          obtain ⟨v', r⟩ := x
          obtain ⟨w, hw, hwspace, hwhead⟩ := skipSpace_split s
          obtain ⟨c, hc, hne, -, hany⟩ := (reads (fuelFor s)).1 _ _ _ hv
          obtain ⟨w₀, c₀, r₀, hs₀, hw₀, hr₀, hlast₀, hhead₀, hany₀⟩ := parse_obj h
          -- Both readings begin at the first unit that is not white space.
          have hskip : skipSpace (s ++ q) = c ++ (r ++ q) := by
            rw [hw, hc, List.append_assoc, List.append_assoc, skipSpace_append hwspace]
            apply skipSpace_of_head
            intro x hx
            cases c with
            | nil => exact absurd rfl hne
            | cons y ys => exact hwhead x (by rw [hc]; simpa using hx)
          have hskip₀ : skipSpace (s ++ q) = c₀ ++ r₀ := by
            rw [hs₀, skipSpace_append hw₀]
            apply skipSpace_of_head
            intro x hx
            cases c₀ with
            | nil => simp at hlast₀
            | cons y ys => exact hhead₀ x (by simpa using hx)
          have hobj := hany₀ r₀
          rw [← hskip₀, hskip] at hobj
          have hfollow : Follows v' (r ++ q) := by
            rintro k rfl
            obtain ⟨x, xs, rfl⟩ := List.exists_cons_of_ne_nil hne
            rw [hc] at hv
            exact absurd ((readValue_brace hv).mp ((readValue_brace hobj).mpr ⟨ms, rfl⟩)) (by simp)
          have hread := hany (r ++ q) hfollow
          have hlen : 2 * (c ++ (r ++ q)).length ≤ 2 * (r ++ q).length + fuelFor (s ++ q) := by
            have := congrArg List.length hw
            rw [hc, List.length_append, List.length_append] at this
            simp only [fuelFor, List.length_append]
            omega
          rw [(enough _).1 _ _ _ _ hread hlen] at hobj
          simp only [Option.some.injEq, Prod.mk.injEq] at hobj
          have hmem : u ∈ r₀ := by
            rw [← hobj.2]
            exact List.mem_append_right _ hu
          rw [hr₀ u hmem] at hspace
          exact absurd hspace (by simp)

end Json
