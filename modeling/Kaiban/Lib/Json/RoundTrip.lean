/-
What `JSON.stringify` writes is read back by `JSON.parse`.

The strings come first: an escaped code point is read back as its units, one by one.
The values follow by recursion on the tree, with the fuel bounded by the text written.
-/
import Kaiban.Lib.Json

open JsString

namespace Json

/-! ### White space and expected units -/

theorem skipSpace_of_head {s : JsString} (h : ∀ u ∈ s.head?, isSpace u = false) :
    skipSpace s = s := by
  cases s with
  | nil => rfl
  | cons u rest => simp [skipSpace, h u rfl]

theorem skipSpace_split (s : JsString) :
    ∃ w, s = w ++ skipSpace s ∧ (∀ u ∈ w, isSpace u = true) ∧
      ∀ u ∈ (skipSpace s).head?, isSpace u = false := by
  induction s with
  | nil => exact ⟨[], rfl, by simp, by simp [skipSpace]⟩
  | cons u rest ih =>
      obtain ⟨w, hw, hspace, hhead⟩ := ih
      by_cases hu : isSpace u = true
      · have hskip : skipSpace (u :: rest) = skipSpace rest := by simp [skipSpace, hu]
        rw [hskip]
        exact ⟨u :: w, by rw [List.cons_append, ← hw], by simpa [hu] using hspace, hhead⟩
      · have hskip : skipSpace (u :: rest) = u :: rest := by simp [skipSpace, hu]
        rw [hskip]
        exact ⟨[], rfl, by simp, by simpa using hu⟩

theorem skipSpace_append {w : JsString} (hw : ∀ u ∈ w, isSpace u = true) (s : JsString) :
    skipSpace (w ++ s) = skipSpace s := by
  induction w with
  | nil => rfl
  | cons u rest ih =>
      simp [skipSpace, hw u (by simp), ih fun x hx => hw x (by simp [hx])]

theorem skipSpace_eq_nil {s : JsString} : skipSpace s = [] ↔ ∀ u ∈ s, isSpace u = true := by
  constructor
  · intro h
    obtain ⟨w, hw, hspace, -⟩ := skipSpace_split s
    rw [h, List.append_nil] at hw
    rwa [hw]
  · intro h
    have hnil := skipSpace_append h []
    rwa [List.append_nil] at hnil

theorem expect_cons {c : Char} (hc : isSpace (unit c) = false) (r : JsString) :
    expect c (unit c :: r) = some r := by
  simp [expect, skipSpace, hc]

theorem expect_ne {c : Char} {u : CodeUnit} (hu : isSpace u = false) (hne : u ≠ unit c)
    (r : JsString) : expect c (u :: r) = none := by
  simp [expect, skipSpace, hu, hne]

/-- Only one unit comes next. -/
theorem expect_other {c d : Char} {s r : JsString} (h : expect c s = some r)
    (hne : unit c ≠ unit d) : expect d s = none := by
  unfold expect at h ⊢
  cases hs : skipSpace s with
  | nil => rfl
  | cons u rest =>
      simp only [hs] at h ⊢
      by_cases hu : u = unit c
      · rw [if_neg fun hd => hne (hu.symm.trans hd)]
      · simp [hu] at h

/-- An expected unit is read from a prefix of the text, which continues no number. -/
theorem expect_reads {c : Char} {s r : JsString} (h : expect c s = some r) :
    ∃ p, s = p ++ r ∧ p.getLast? = some (unit c) ∧
      (∀ u ∈ p.head?, isSpace u = true ∨ u = unit c) ∧ ∀ r', expect c (p ++ r') = some r' := by
  obtain ⟨w, hw, hspace, hhead⟩ := skipSpace_split s
  unfold expect at h
  cases hs : skipSpace s with
  | nil => simp [hs] at h
  | cons u rest =>
      simp only [hs] at h
      by_cases hu : u = unit c
      · rw [if_pos hu, Option.some.injEq] at h
        subst h
        have hnot : isSpace u = false := hhead u (by rw [hs]; rfl)
        refine ⟨w ++ [u], by rw [List.append_assoc, List.singleton_append, ← hs]; exact hw,
          by simp [hu], ?_, ?_⟩
        · intro x hx
          cases w with
          | nil => exact .inr (by simpa [hu] using hx.symm)
          | cons y ys =>
              obtain rfl : y = x := by simpa using hx
              exact .inl (hspace y (by simp))
        · intro r'
          have hskip : skipSpace (w ++ [u] ++ r') = u :: r' := by
            rw [List.append_assoc, skipSpace_append hspace]
            simp [skipSpace, hnot]
          rw [expect, hskip]
          simp [hu]
      · rw [if_neg hu] at h
        exact absurd h (by simp)

/-! ### Strings -/

theorem stringStep_plain {u : CodeUnit} (h1 : u ≠ unit '"') (h2 : u ≠ unit '\\')
    (h3 : 0x20 ≤ u.val) (r : JsString) : stringStep (u :: r) = some (.unit u r) := by
  simp [stringStep, h1, h2, Nat.not_lt.mpr h3]

theorem stringStep_letter {e x : CodeUnit} (he : e ≠ unit 'u') (h : unescape e = some x)
    (r : JsString) : stringStep (unit '\\' :: e :: r) = some (.unit x r) := by
  have hne : unit '\\' ≠ unit '"' := by decide
  simp [stringStep, hne, he, h]

theorem hexValue_hexUnit {d : ℕ} (hd : d < 0x10) : hexValue (hexUnit d) = some d := by
  unfold hexUnit
  by_cases h : d < 10
  · have hval : (Fin.ofNat 0x10000 (0x30 + d)).val = 0x30 + d := Nat.mod_eq_of_lt (by omega)
    have hdec : 0x30 ≤ 0x30 + d ∧ 0x30 + d < 0x3A := by omega
    rw [if_pos h]
    simp only [hexValue, hval, if_pos hdec, Option.some.injEq]
    omega
  · have hval : (Fin.ofNat 0x10000 (0x57 + d)).val = 0x57 + d := Nat.mod_eq_of_lt (by omega)
    have hdec : ¬ (0x30 ≤ 0x57 + d ∧ 0x57 + d < 0x3A) := by omega
    have hlow : 0x61 ≤ 0x57 + d ∧ 0x57 + d < 0x67 := by omega
    rw [if_neg h]
    simp only [hexValue, hval, if_neg hdec, if_pos hlow, Option.some.injEq]
    omega

theorem stringStep_hexEscape {c : ℕ} (hc : c < 0x10000) (r : JsString) :
    stringStep (hexEscape c ++ r) = some (.unit (Fin.ofNat 0x10000 c) r) := by
  have hsum : c / 0x1000 % 0x10 * 0x1000 + c / 0x100 % 0x10 * 0x100 + c / 0x10 % 0x10 * 0x10
      + c % 0x10 = c := by omega
  have hquad : hexQuad (hexUnit (c / 0x1000 % 0x10)) (hexUnit (c / 0x100 % 0x10))
      (hexUnit (c / 0x10 % 0x10)) (hexUnit (c % 0x10)) = some (Fin.ofNat 0x10000 c) := by
    simp only [hexQuad, hexValue_hexUnit (Nat.mod_lt _ (by norm_num : 0x10 > 0)), hsum]
  have hne : unit '\\' ≠ unit '"' := by decide
  simp only [hexEscape, List.cons_append, List.nil_append, stringStep, if_neg hne, if_true, hquad,
    Option.map_some]

theorem readString_unit {n : ℕ} {s r t : JsString} {u : CodeUnit} {x : JsString}
    (hstep : stringStep s = some (.unit u r)) (h : readString n r = some (x, t)) :
    readString (n + 1) s = some (u :: x, t) := by
  simp [readString, hstep, h]

theorem unescape_letters :
    unescape (unit '"') = some 0x22 ∧ unescape (unit '\\') = some 0x5C ∧
    unescape (unit 'b') = some 0x08 ∧ unescape (unit 'f') = some 0x0C ∧
    unescape (unit 'n') = some 0x0A ∧ unescape (unit 'r') = some 0x0D ∧
    unescape (unit 't') = some 0x09 := by
  decide

/-- One escaped code point is read back as its units. -/
theorem readString_escape {c n : ℕ} (hc : c < 0x110000) {r x t : JsString}
    (h : readString n r = some (x, t)) :
    readString (n + (pointUnits c).length) (escape c ++ r) = some (pointUnits c ++ x, t) := by
  obtain ⟨h22, h5C, h08, h0C, h0A, h0D, h09⟩ := unescape_letters
  have hletter : ∀ {e : Char} {k : ℕ}, unit e ≠ unit 'u' → k < 0x10000 →
      unescape (unit e) = some (Fin.ofNat 0x10000 k) →
      readString (n + (pointUnits k).length) ([unit '\\', unit e] ++ r)
        = some (pointUnits k ++ x, t) := by
    intro e k he hk hu
    simp only [pointUnits, if_pos hk]
    exact readString_unit (stringStep_letter he hu r) h
  unfold escape
  by_cases e22 : c = 0x22
  · subst e22; exact hletter (by decide) (by norm_num) h22
  rw [if_neg e22]
  by_cases e5C : c = 0x5C
  · subst e5C; exact hletter (by decide) (by norm_num) h5C
  rw [if_neg e5C]
  by_cases e08 : c = 0x08
  · subst e08; exact hletter (by decide) (by norm_num) h08
  rw [if_neg e08]
  by_cases e0C : c = 0x0C
  · subst e0C; exact hletter (by decide) (by norm_num) h0C
  rw [if_neg e0C]
  by_cases e0A : c = 0x0A
  · subst e0A; exact hletter (by decide) (by norm_num) h0A
  rw [if_neg e0A]
  by_cases e0D : c = 0x0D
  · subst e0D; exact hletter (by decide) (by norm_num) h0D
  rw [if_neg e0D]
  by_cases e09 : c = 0x09
  · subst e09; exact hletter (by decide) (by norm_num) h09
  rw [if_neg e09]
  by_cases hhex : c < 0x20 ∨ isSurrogate c = true
  · have hbmp : c < 0x10000 := by
      simp only [isSurrogate, Bool.and_eq_true, decide_eq_true_eq] at hhex
      omega
    rw [if_pos hhex]
    simp only [pointUnits, if_pos hbmp]
    exact readString_unit (stringStep_hexEscape hbmp r) h
  · rw [if_neg hhex]
    have hplain : ∀ k, k < 0x10000 → 0x20 ≤ k → k ≠ 0x22 → k ≠ 0x5C → ∀ r',
        stringStep (Fin.ofNat 0x10000 k :: r') = some (.unit (Fin.ofNat 0x10000 k) r') := by
      intro k hk h20 hq hb r'
      have hval : (Fin.ofNat 0x10000 k).val = k := Nat.mod_eq_of_lt hk
      refine stringStep_plain ?_ ?_ (by omega) r'
      · intro he
        have : k = 0x22 := by rw [← hval, he]; rfl
        exact hq this
      · intro he
        have : k = 0x5C := by rw [← hval, he]; rfl
        exact hb this
    by_cases hbmp : c < 0x10000
    · simp only [pointUnits, if_pos hbmp]
      exact readString_unit (hplain c hbmp (by omega) e22 e5C r) h
    · simp only [pointUnits, if_neg hbmp]
      exact readString_unit (hplain _ (by omega) (by omega) (by omega) (by omega) _)
        (readString_unit (hplain _ (by omega) (by omega) (by omega) (by omega) r) h)

theorem readString_points {cs : List ℕ} (hcs : ∀ c ∈ cs, c < 0x110000) (r : JsString) :
    readString ((ofPoints cs).length + 1) (cs.flatMap escape ++ unit '"' :: r)
      = some (ofPoints cs, r) := by
  induction cs with
  | nil => simp [readString, stringStep]
  | cons c rest ih =>
      have hrest := ih fun d hd => hcs d (by simp [hd])
      have hc := readString_escape (hcs c (by simp)) hrest
      rw [List.flatMap_cons, ofPoints_cons, List.append_assoc, List.length_append]
      rw [show (pointUnits c).length + (ofPoints rest).length + 1
        = (ofPoints rest).length + 1 + (pointUnits c).length by omega]
      exact hc

/-- A unit of a string is read from a prefix of the text, whatever follows it. -/
theorem stringStep_reads {s r : JsString} {u : CodeUnit} (h : stringStep s = some (.unit u r)) :
    ∃ c, s = c ++ r ∧ c ≠ [] ∧ ∀ r', stringStep (c ++ r') = some (.unit u r') := by
  cases s with
  | nil => simp [stringStep] at h
  | cons v rest =>
      simp only [stringStep] at h
      by_cases hq : v = unit '"'
      · simp [hq] at h
      rw [if_neg hq] at h
      by_cases hb : v = unit '\\'
      · rw [if_pos hb] at h
        rcases rest with _ | ⟨e, rest₁⟩
        · simp at h
        simp only at h
        by_cases he : e = unit 'u'
        · rw [if_pos he] at h
          rcases rest₁ with _ | ⟨a, _ | ⟨b, _ | ⟨c, _ | ⟨d, rest₂⟩⟩⟩⟩
          · simp at h
          · simp at h
          · simp at h
          · simp at h
          · obtain ⟨x, hx, heq⟩ := Option.map_eq_some_iff.mp h
            obtain ⟨rfl, rfl⟩ := StringStep.unit.inj heq
            refine ⟨[v, e, a, b, c, d], rfl, by simp, fun r' => ?_⟩
            have hne : unit '\\' ≠ unit '"' := by decide
            simp [stringStep, hne, hb, he, hx]
        · rw [if_neg he] at h
          obtain ⟨x, hx, heq⟩ := Option.map_eq_some_iff.mp h
          obtain ⟨rfl, rfl⟩ := StringStep.unit.inj heq
          refine ⟨[v, e], rfl, by simp, fun r' => ?_⟩
          have hne : unit '\\' ≠ unit '"' := by decide
          simp [stringStep, hne, hb, he, hx]
      rw [if_neg hb] at h
      by_cases hlow : v.val < 0x20
      · simp [hlow] at h
      rw [if_neg hlow] at h
      obtain ⟨rfl, rfl⟩ := StringStep.unit.inj (Option.some.inj h)
      refine ⟨[v], rfl, by simp, fun r' => stringStep_plain hq hb (Nat.not_lt.mp hlow) r'⟩

theorem stringStep_close {s r : JsString} (h : stringStep s = some (.close r)) :
    s = unit '"' :: r := by
  cases s with
  | nil => simp [stringStep] at h
  | cons v rest =>
      simp only [stringStep] at h
      by_cases hq : v = unit '"'
      · rw [if_pos hq, Option.some.injEq, StringStep.close.injEq] at h
        rw [hq, h]
      rw [if_neg hq] at h
      by_cases hb : v = unit '\\'
      · rw [if_pos hb] at h
        rcases rest with _ | ⟨e, rest₁⟩
        · simp at h
        simp only at h
        by_cases he : e = unit 'u'
        · rw [if_pos he] at h
          rcases rest₁ with _ | ⟨a, _ | ⟨b, _ | ⟨c, _ | ⟨d, rest₂⟩⟩⟩⟩ <;> simp at h
        · simp [he] at h
      rw [if_neg hb] at h
      by_cases hlow : v.val < 0x20 <;> simp [hlow] at h

theorem stringStep_length {s r : JsString} {u : CodeUnit} (h : stringStep s = some (.unit u r)) :
    r.length < s.length := by
  obtain ⟨c, hc, hne, -⟩ := stringStep_reads h
  have hpos := List.length_pos_iff.mpr hne
  rw [hc, List.length_append]
  omega

theorem readString_mono {n m : ℕ} {s : JsString} {x : JsString × JsString}
    (h : readString n s = some x) (hnm : n ≤ m) : readString m s = some x := by
  induction n generalizing m s x with
  | zero => simp [readString] at h
  | succ n ih =>
      obtain ⟨m, rfl⟩ : ∃ k, m = k + 1 := ⟨m - 1, by omega⟩
      simp only [readString] at h ⊢
      cases hstep : stringStep s with
      | none => simp [hstep] at h
      | some p =>
          cases p with
          | close r => simpa [hstep] using h
          | unit u r =>
              simp only [hstep] at h ⊢
              obtain ⟨y, hy, rfl⟩ := Option.map_eq_some_iff.mp h
              rw [ih hy (m := m) (by omega)]
              rfl

theorem length_pointUnits_le {c : ℕ} : (pointUnits c).length ≤ (escape c).length := by
  have hunits : (pointUnits c).length ≤ 2 := by
    unfold pointUnits
    split <;> simp
  unfold escape
  repeat' split
  all_goals first
    | exact hunits
    | exact le_rfl
    | exact hunits.trans (by simp [hexEscape])

theorem length_le_escaped (s : JsString) : s.length ≤ ((codePoints s).flatMap escape).length := by
  conv_lhs => rw [← ofPoints_codePoints s]
  induction codePoints s with
  | nil => simp
  | cons c rest ih =>
      have hc := length_pointUnits_le (c := c)
      rw [ofPoints_cons, List.flatMap_cons, List.length_append, List.length_append]
      omega

/-- **A quoted string is read back as it was, lone surrogates included.** -/
theorem readString_quote {n : ℕ} (s r : JsString)
    (hn : ((codePoints s).flatMap escape).length + 1 ≤ n) :
    readString n ((codePoints s).flatMap escape ++ unit '"' :: r) = some (s, r) := by
  have hpoints := readString_points (codePoints_lt s) r
  rw [ofPoints_codePoints] at hpoints
  have hlen := length_le_escaped s
  exact readString_mono hpoints (by omega)

/-! ### What is written is read back -/

/-- How the text of a value begins. -/
def IsHead (u : CodeUnit) : Prop :=
  isSpace u = false ∧ u ≠ unit ']' ∧ u ≠ unit '}' ∧ u ≠ unit ','

theorem isHead_of_digit {u : CodeUnit} (h : NumberText.isDigit u = true ∨ u = unit '-') :
    IsHead u := by
  have hval : u.val = 0x2D ∨ (0x30 ≤ u.val ∧ u.val < 0x3A) := by
    rcases h with h | rfl
    · simpa [NumberText.isDigit] using Or.inr h
    · exact .inl (by decide)
  have hne : ∀ c : Char, c.toNat < 0x10000 → u.val ≠ c.toNat → u ≠ unit c := by
    rintro c hc hu rfl
    exact hu (Nat.mod_eq_of_lt hc)
  refine ⟨?_, hne _ (by decide) ?_, hne _ (by decide) ?_, hne _ (by decide) ?_⟩
  · simp only [isSpace, Bool.or_eq_false_iff, decide_eq_false_iff_not]
    omega
  all_goals
    simp only [Char.reduceToNat]
    omega

theorem numberText_head (d : Decimal) :
    ∃ u rest, NumberText.numberText d = u :: rest ∧
      (NumberText.isDigit u = true ∨ u = unit '-') := by
  have hwf := NumberText.literalOf_wellFormed d
  obtain ⟨k, ks, hks⟩ := List.exists_cons_of_ne_nil hwf.whole_ne
  have hk := (NumberText.isDigit_digitUnit (hwf.whole_lt k (by simp [hks]))).1
  unfold NumberText.numberText NumberText.Literal.text
  cases (NumberText.literalOf d).neg with
  | false =>
      refine ⟨NumberText.digitUnit k, ks.map NumberText.digitUnit ++
        ((NumberText.literalOf d).fractionText ++ (NumberText.literalOf d).exponentText), ?_,
        .inl hk⟩
      simp [hks]
  | true =>
      refine ⟨unit '-', (NumberText.literalOf d).whole.map NumberText.digitUnit ++
        ((NumberText.literalOf d).fractionText ++ (NumberText.literalOf d).exponentText), ?_,
        .inr rfl⟩
      simp

theorem stringify_head (v : Json) : ∃ u rest, stringify v = u :: rest ∧ IsHead u := by
  cases v with
  | null => exact ⟨unit 'n', _, by simp only [stringify]; rfl, by unfold IsHead; decide⟩
  | bool b =>
      cases b with
      | false => exact ⟨unit 'f', _, by simp only [stringify]; rfl, by unfold IsHead; decide⟩
      | true => exact ⟨unit 't', _, by simp only [stringify]; rfl, by unfold IsHead; decide⟩
  | num n =>
      cases n with
      | finite d =>
          obtain ⟨u, rest, hu, hhead⟩ := numberText_head d
          exact ⟨u, rest, by simpa only [stringify, numberJson] using hu, isHead_of_digit hhead⟩
      | nan => exact ⟨unit 'n', _, by simp only [stringify]; rfl, by unfold IsHead; decide⟩
      | posInfinity => exact ⟨unit 'n', _, by simp only [stringify]; rfl, by unfold IsHead; decide⟩
      | negInfinity => exact ⟨unit 'n', _, by simp only [stringify]; rfl, by unfold IsHead; decide⟩
  | str s => exact ⟨unit '"', _, by simp only [stringify, quote]; rfl, by unfold IsHead; decide⟩
  | arr vs => exact ⟨unit '[', _, by simp only [stringify]; rfl, by unfold IsHead; decide⟩
  | obj ms => exact ⟨unit '{', _, by simp only [stringify]; rfl, by unfold IsHead; decide⟩

theorem skipSpace_stringify (v : Json) (r : JsString) :
    skipSpace (stringify v ++ r) = stringify v ++ r := by
  obtain ⟨u, rest, hu, hhead⟩ := stringify_head v
  apply skipSpace_of_head
  intro x hx
  rw [hu] at hx
  obtain rfl : u = x := by simpa using hx
  exact hhead.1

theorem expect_stringify {c : Char} (hc : c = ']' ∨ c = '}' ∨ c = ',') (v : Json)
    (r : JsString) : expect c (stringify v ++ r) = none := by
  obtain ⟨u, rest, hu, h1, h2, h3, h4⟩ := stringify_head v
  rw [hu, List.cons_append]
  rcases hc with rfl | rfl | rfl
  · exact expect_ne h1 h2 _
  · exact expect_ne h1 h3 _
  · exact expect_ne h1 h4 _

theorem noNumberHead_cons {c : Char} (hc : c = ']' ∨ c = '}' ∨ c = ',') (r : JsString) :
    NumberText.NoNumberHead (unit c :: r) := by
  intro u hu
  obtain rfl : unit c = u := by simpa using hu
  rcases hc with rfl | rfl | rfl <;> decide

/-- What follows a value in an array or an object is a comma or a bracket. -/
theorem moreItems_head (vs : List Json) (r : JsString) :
    NumberText.NoNumberHead (moreItems vs ++ r) := by
  cases vs with
  | nil => simpa [moreItems] using noNumberHead_cons (c := ']') (by simp) r
  | cons v rest =>
      rw [moreItems, List.cons_append]
      exact noNumberHead_cons (c := ',') (by simp) _

theorem moreMembers_head (ms : List (JsString × Json)) (r : JsString) :
    NumberText.NoNumberHead (moreMembers ms ++ r) := by
  rcases ms with _ | ⟨⟨k, v⟩, rest⟩
  · simpa [moreMembers] using noNumberHead_cons (c := '}') (by simp) r
  · rw [moreMembers, List.cons_append]
    exact noNumberHead_cons (c := ',') (by simp) _

theorem quote_append (s r : JsString) :
    quote s ++ r = unit '"' :: ((codePoints s).flatMap escape ++ unit '"' :: r) := by
  simp [quote]

theorem readWord_append (w r : JsString) : readWord w (w ++ r) = some r := by
  induction w with
  | nil => rfl
  | cons u rest ih => simp [readWord, ih]

/-- A word is read once its first unit has chosen it. -/
theorem readValue_word (n : ℕ) (r : JsString) :
    readValue (n + 1) (js "true" ++ r) = some (.bool true, r) ∧
    readValue (n + 1) (js "false" ++ r) = some (.bool false, r) ∧
    readValue (n + 1) (js "null" ++ r) = some (.null, r) := by
  have ht : js "true" = unit 't' :: js "rue" := rfl
  have hf : js "false" = unit 'f' :: js "alse" := rfl
  have hn : js "null" = unit 'n' :: js "ull" := rfl
  refine ⟨?_, ?_, ?_⟩
  · have h : unit 't' ≠ unit '{' ∧ unit 't' ≠ unit '[' ∧ unit 't' ≠ unit '"' := by decide
    simp [ht, readValue, h, readWord_append]
  · have h : unit 'f' ≠ unit '{' ∧ unit 'f' ≠ unit '[' ∧ unit 'f' ≠ unit '"' ∧
        unit 'f' ≠ unit 't' := by decide
    simp [hf, readValue, h, readWord_append]
  · have h : unit 'n' ≠ unit '{' ∧ unit 'n' ≠ unit '[' ∧ unit 'n' ≠ unit '"' ∧
        unit 'n' ≠ unit 't' ∧ unit 'n' ≠ unit 'f' := by decide
    simp [hn, readValue, h, readWord_append]

theorem digit_ne {u : CodeUnit} (hu : NumberText.isDigit u = true ∨ u = unit '-') :
    u ≠ unit '{' ∧ u ≠ unit '[' ∧ u ≠ unit '"' ∧ u ≠ unit 't' ∧ u ≠ unit 'f' ∧
      u ≠ unit 'n' := by
  refine ⟨?_, ?_, ?_, ?_, ?_, ?_⟩ <;>
    (rintro rfl; exact absurd hu (by decide))

theorem readValue_number {n : ℕ} (d : Decimal) {r : JsString} (hr : NumberText.NoNumberHead r) :
    readValue (n + 1) (NumberText.numberText d ++ r) = some (.num (.finite d), r) := by
  obtain ⟨u, rest, hu, hhead⟩ := numberText_head d
  obtain ⟨h1, h2, h3, h4, h5, h6⟩ := digit_ne hhead
  have hread := NumberText.readNumber_numberText d hr
  rw [hu, List.cons_append] at hread ⊢
  simp only [readValue, if_neg h1, if_neg h2, if_neg h3, if_neg h4, if_neg h5, if_neg h6, hread,
    Option.map_some]

theorem printedNumber_read {n : ℕ} (k : JsNumber) {r : JsString}
    (hr : NumberText.NoNumberHead r) :
    readValue (n + 1) (numberJson k ++ r) = some (printedNumber k, r) := by
  cases k with
  | finite d => exact readValue_number d hr
  | nan => exact (readValue_word n r).2.2
  | posInfinity => exact (readValue_word n r).2.2
  | negInfinity => exact (readValue_word n r).2.2

theorem length_stringify_pos (v : Json) : 0 < (stringify v).length := by
  obtain ⟨u, rest, hu, -⟩ := stringify_head v
  simp [hu]

theorem length_moreItems_pos (vs : List Json) : 0 < (moreItems vs).length := by
  cases vs <;> simp [moreItems]

theorem length_moreMembers_pos (ms : List (JsString × Json)) : 0 < (moreMembers ms).length := by
  cases ms <;> simp [moreMembers]

mutual
/-- **What is written for a value is read back as the printed value.** -/
theorem readValue_stringify : ∀ (v : Json) {n : ℕ} {r : JsString},
    2 * (stringify v).length ≤ n + 1 → NumberText.NoNumberHead r →
    readValue n (stringify v ++ r) = some (printed v, r)
  | .null, n, r, hn, hr => by
      obtain ⟨m, rfl⟩ : ∃ m, n = m + 1 := ⟨n - 1, by simp [stringify, js] at hn; omega⟩
      simpa only [stringify, printed] using (readValue_word m r).2.2
  | .bool true, n, r, hn, hr => by
      obtain ⟨m, rfl⟩ : ∃ m, n = m + 1 := ⟨n - 1, by simp [stringify, js] at hn; omega⟩
      simpa only [stringify, printed] using (readValue_word m r).1
  | .bool false, n, r, hn, hr => by
      obtain ⟨m, rfl⟩ : ∃ m, n = m + 1 := ⟨n - 1, by simp [stringify, js] at hn; omega⟩
      simpa only [stringify, printed] using (readValue_word m r).2.1
  | .num k, n, r, hn, hr => by
      have hpos := length_stringify_pos (.num k)
      obtain ⟨m, rfl⟩ : ∃ m, n = m + 1 := ⟨n - 1, by omega⟩
      simpa only [stringify, printed] using printedNumber_read k hr
  | .str s, n, r, hn, hr => by
      simp only [stringify, quote, List.length_cons, List.length_append, List.length_nil] at hn
      obtain ⟨m, rfl⟩ : ∃ m, n = m + 1 := ⟨n - 1, by omega⟩
      have h : unit '"' ≠ unit '{' ∧ unit '"' ≠ unit '[' := by decide
      rw [stringify, quote_append]
      simp only [readValue, if_neg h.1, if_neg h.2, if_true,
        readString_quote s r (by omega : _ ≤ m), Option.map_some, printed]
  | .arr [], n, r, hn, hr => by
      obtain ⟨m, rfl⟩ : ∃ m, n = m + 1 := ⟨n - 1, by simp [stringify, items] at hn; omega⟩
      have h : unit '[' ≠ unit '{' := by decide
      have hclose := expect_cons (c := ']') (by decide) r
      simp [stringify, items, printed, printedItems, readValue, h, hclose]
  | .arr (v :: vs), n, r, hn, hr => by
      simp only [stringify, List.length_cons] at hn
      obtain ⟨m, rfl⟩ : ∃ m, n = m + 1 := ⟨n - 1, by omega⟩
      have h : unit '[' ≠ unit '{' := by decide
      have hopen : expect ']' (items (v :: vs) ++ r) = none := by
        rw [items, List.append_assoc]
        exact expect_stringify (by simp) v _
      rw [stringify, List.cons_append]
      simp only [readValue, if_neg h, if_true, hopen,
        readItems_stringify v vs (by omega : _ ≤ m), Option.map_some, printed]
  | .obj [], n, r, hn, hr => by
      obtain ⟨m, rfl⟩ : ∃ m, n = m + 1 := ⟨n - 1, by simp [stringify, members] at hn; omega⟩
      have hclose := expect_cons (c := '}') (by decide) r
      simp [stringify, members, printed, printedMembers, readValue, hclose]
  | .obj ((k, v) :: ms), n, r, hn, hr => by
      simp only [stringify, List.length_cons] at hn
      obtain ⟨m, rfl⟩ : ∃ m, n = m + 1 := ⟨n - 1, by omega⟩
      have hopen : expect '}' (members ((k, v) :: ms) ++ r) = none := by
        rw [members, List.append_assoc, quote_append]
        exact expect_ne (by decide) (by decide) _
      rw [stringify, List.cons_append]
      simp only [readValue, if_true, hopen, readMembers_stringify k v ms (by omega : _ ≤ m),
        Option.map_some, printed]
termination_by v => sizeOf v

theorem readItems_stringify : ∀ (v : Json) (vs : List Json) {n : ℕ} {r : JsString},
    2 * (items (v :: vs)).length ≤ n →
    readItems n (items (v :: vs) ++ r) = some (printedItems (v :: vs), r)
  | v, vs, n, r, hn => by
      have hpos := length_moreItems_pos vs
      simp only [items, List.length_append] at hn
      obtain ⟨m, rfl⟩ : ∃ m, n = m + 1 := ⟨n - 1, by omega⟩
      have hv := readValue_stringify v (n := m) (by omega) (moreItems_head vs r)
      rw [items, List.append_assoc]
      simp only [readItems, skipSpace_stringify, hv]
      cases vs with
      | nil =>
          have hcomma : expect ',' (unit ']' :: r) = none :=
            expect_ne (by decide) (by decide) r
          have hclose := expect_cons (c := ']') (by decide) r
          simp [moreItems, hcomma, hclose, printedItems]
      | cons w ws =>
          have hmore : moreItems (w :: ws) ++ r = unit ',' :: (items (w :: ws) ++ r) := by
            rw [moreItems, items, List.cons_append]
          have hcomma := expect_cons (c := ',') (by decide) (items (w :: ws) ++ r)
          have hws : 2 * (items (w :: ws)).length ≤ m := by
            rw [moreItems] at hn
            rw [items]
            simp only [List.length_cons, List.length_append] at hn ⊢
            omega
          rw [hmore, hcomma]
          simp only [readItems_stringify w ws hws, Option.map_some, printedItems]
termination_by v vs => sizeOf (v :: vs)

theorem readMembers_stringify : ∀ (k : JsString) (v : Json) (ms : List (JsString × Json))
    {n : ℕ} {r : JsString}, 2 * (members ((k, v) :: ms)).length ≤ n →
    readMembers n (members ((k, v) :: ms) ++ r) = some (printedMembers ((k, v) :: ms), r)
  | k, v, ms, n, r, hn => by
      have hpos := length_moreMembers_pos ms
      simp only [members, quote, List.length_append, List.length_cons, List.length_nil] at hn
      obtain ⟨m, rfl⟩ : ∃ m, n = m + 1 := ⟨n - 1, by omega⟩
      have hname := readString_quote k (unit ':' :: (stringify v ++ (moreMembers ms ++ r)))
        (by omega : _ ≤ m)
      have hv := readValue_stringify v (n := m) (by omega) (moreMembers_head ms r)
      have hquote := expect_cons (c := '"') (by decide)
        ((codePoints k).flatMap escape ++
          unit '"' :: unit ':' :: (stringify v ++ (moreMembers ms ++ r)))
      have hcolon := expect_cons (c := ':') (by decide) (stringify v ++ (moreMembers ms ++ r))
      have hfirst : members ((k, v) :: ms) ++ r
          = unit '"' :: ((codePoints k).flatMap escape ++
            unit '"' :: unit ':' :: (stringify v ++ (moreMembers ms ++ r))) := by
        rw [members, List.append_assoc, List.cons_append, List.append_assoc, quote_append]
      rw [hfirst]
      simp only [readMembers, hquote, Option.bind_some, hname, hcolon, skipSpace_stringify, hv]
      rcases hms : ms with _ | ⟨⟨k', w⟩, ws⟩
      · have hcomma : expect ',' (unit '}' :: r) = none :=
          expect_ne (by decide) (by decide) r
        have hclose := expect_cons (c := '}') (by decide) r
        simp [moreMembers, hcomma, hclose, printedMembers]
      · have hmore : moreMembers ((k', w) :: ws) ++ r
            = unit ',' :: (members ((k', w) :: ws) ++ r) := by
          rw [moreMembers, members, List.cons_append]
        have hcomma := expect_cons (c := ',') (by decide) (members ((k', w) :: ws) ++ r)
        have hws : 2 * (members ((k', w) :: ws)).length ≤ m := by
          rw [hms, moreMembers] at hn
          rw [members]
          simp only [List.length_cons, List.length_append] at hn ⊢
          omega
        rw [hmore, hcomma]
        simp only [readMembers_stringify k' w ws hws, Option.map_some, printedMembers]
termination_by k v ms => sizeOf ((k, v) :: ms)
decreasing_by
  · simp only [List.cons.sizeOf_spec, Prod.mk.sizeOf_spec]
    omega
  · subst hms
    simp only [List.cons.sizeOf_spec, Prod.mk.sizeOf_spec]
    omega
end

/-- **`JSON.parse` undoes `JSON.stringify`, up to what JSON cannot say.** -/
theorem parse_stringify (v : Json) : parse (stringify v) = some (printed v) := by
  have hfuel : 2 * (stringify v).length ≤ fuelFor (stringify v) + 1 := by
    unfold fuelFor
    omega
  have hread := readValue_stringify v (r := []) hfuel (by simp [NumberText.NoNumberHead])
  have hskip := skipSpace_stringify v []
  rw [List.append_nil] at hread hskip
  simp [parse, hskip, hread, skipSpace]

/-! ### Writing again -/

mutual
/-- **A value that was read back is written as it was before.** -/
theorem stringify_printed : ∀ v : Json, stringify (printed v) = stringify v
  | .null => rfl
  | .bool _ => rfl
  | .num n => by cases n <;> rfl
  | .str _ => rfl
  | .arr vs => congrArg (List.cons (unit '[')) (items_printed vs)
  | .obj ms => congrArg (List.cons (unit '{')) (members_printed ms)

theorem items_printed : ∀ vs : List Json, items (printedItems vs) = items vs
  | [] => rfl
  | v :: vs => congrArg₂ (· ++ ·) (stringify_printed v) (moreItems_printed vs)

theorem moreItems_printed : ∀ vs : List Json, moreItems (printedItems vs) = moreItems vs
  | [] => rfl
  | v :: vs => congrArg (List.cons (unit ','))
      (congrArg₂ (· ++ ·) (stringify_printed v) (moreItems_printed vs))

theorem members_printed : ∀ ms : List (JsString × Json), members (printedMembers ms) = members ms
  | [] => rfl
  | (k, v) :: ms => congrArg (fun text => quote k ++ unit ':' :: text)
      (congrArg₂ (· ++ ·) (stringify_printed v) (moreMembers_printed ms))

theorem moreMembers_printed : ∀ ms : List (JsString × Json),
    moreMembers (printedMembers ms) = moreMembers ms
  | [] => rfl
  | (k, v) :: ms => congrArg (fun text => unit ',' :: (quote k ++ unit ':' :: text))
      (congrArg₂ (· ++ ·) (stringify_printed v) (moreMembers_printed ms))
end

end Json
