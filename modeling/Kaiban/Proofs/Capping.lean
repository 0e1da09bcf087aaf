/-
What the rounds of `capDataSize` keep of a text.

A text is measured twice: in raw bytes, which the limit is about, and in the bytes of
its JSON, which the budget is about.  Escaping a code point never makes it smaller, so
cutting the excess off the raw limit always makes progress.

The question asked here is whether a text keeps everything but white space at its end.
One round at the budget and one below it decide that, and `ClosesInBudget` is the
condition on the text they come down to.
-/
import Kaiban.Outbound
import Kaiban.Lib.Json.Prefix

open JsString

namespace Kaiban

/-! ### The size of a quoted text -/

/-- A text all of whose code points can be encoded. -/
def Encodable (s : JsString) : Prop := ∃ cs, s = ofPoints cs ∧ ∀ c ∈ cs, IsScalar c

theorem Encodable.byteLength_append {s : JsString} (h : Encodable s) (t : JsString) :
    byteLength (s ++ t) = byteLength s + byteLength t := by
  obtain ⟨cs, rfl, hcs⟩ := h
  simp only [byteLength_eq, codePoints_ofPoints_append hcs, codePoints_ofPoints hcs, pointsSize,
    List.map_append, List.sum_append]

theorem isScalar_of_small {c : ℕ} (h : c < 0xD800) : IsScalar c := by
  refine ⟨by omega, ?_⟩
  simp only [isSurrogate, Bool.and_eq_false_iff, decide_eq_false_iff_not]
  omega

/-- A text below the surrogates is a code point for each unit. -/
theorem encodable_small {s : JsString} (h : ∀ u ∈ s, u.val < 0xD800) : Encodable s := by
  refine ⟨s.map Fin.val, ?_, ?_⟩
  · induction s with
    | nil => rfl
    | cons u rest ih =>
        rw [List.map_cons, ofPoints_cons, pointUnits_unit,
          ← ih fun v hv => h v (by simp [hv])]
        rfl
  · intro c hc
    obtain ⟨u, hu, rfl⟩ := List.mem_map.mp hc
    exact isScalar_of_small (h u hu)

theorem codePoints_small {s : JsString} (h : ∀ u ∈ s, u.val < 0xD800) (t : JsString) :
    codePoints (s ++ t) = s.map Fin.val ++ codePoints t := by
  induction s with
  | nil => rfl
  | cons u rest ih =>
      have hu := h u (by simp)
      have hhigh : isHigh u = false := by
        simp only [isHigh, Bool.and_eq_false_iff, decide_eq_false_iff_not]
        omega
      rw [List.cons_append, codePoints_cons hhigh, ih fun v hv => h v (by simp [hv])]
      rfl

theorem unit_small (c : Char) (hc : c.toNat < 0xD800) : (unit c).val < 0xD800 := by
  have hval : (unit c).val = c.toNat := Nat.mod_eq_of_lt (by omega)
  omega

theorem hexUnit_small {d : ℕ} (hd : d < 0x10) : (Json.hexUnit d).val < 0x80 := by
  unfold Json.hexUnit
  by_cases h : d < 10
  · have hval : (Fin.ofNat 0x10000 (0x30 + d)).val = 0x30 + d := Nat.mod_eq_of_lt (by omega)
    rw [if_pos h]
    omega
  · have hval : (Fin.ofNat 0x10000 (0x57 + d)).val = 0x57 + d := Nat.mod_eq_of_lt (by omega)
    rw [if_neg h]
    omega

theorem hexEscape_small (c : ℕ) : ∀ u ∈ Json.hexEscape c, u.val < 0x80 := by
  have hslash : (unit '\\').val < 0x80 := by decide
  have hletter : (unit 'u').val < 0x80 := by decide
  intro u hu
  simp only [Json.hexEscape, List.mem_cons, List.not_mem_nil, or_false] at hu
  rcases hu with rfl | rfl | rfl | rfl | rfl | rfl
  · exact hslash
  · exact hletter
  all_goals exact hexUnit_small (Nat.mod_lt _ (by norm_num))

/-- The bytes of an escaped code point. -/
def escapeSize (c : ℕ) : ℕ := byteLength (Json.escape c)

def escapedSize (cs : List ℕ) : ℕ := (cs.map escapeSize).sum

@[simp] theorem escapedSize_nil : escapedSize [] = 0 := rfl

@[simp] theorem escapedSize_cons (c : ℕ) (cs : List ℕ) :
    escapedSize (c :: cs) = escapeSize c + escapedSize cs := by simp [escapedSize]

theorem escapedSize_append (cs ds : List ℕ) :
    escapedSize (cs ++ ds) = escapedSize cs + escapedSize ds := by simp [escapedSize]

theorem encodable_letter (c : Char) (hc : c.toNat < 0xD800) :
    Encodable [unit '\\', unit c] := by
  apply encodable_small
  intro u hu
  simp only [List.mem_cons, List.not_mem_nil, or_false] at hu
  rcases hu with rfl | rfl
  · exact unit_small _ (by decide)
  · exact unit_small _ hc

/-- An escaped code point can be encoded and takes at least its own bytes. -/
theorem escape_spec {c : ℕ} (hc : c < 0x110000) :
    Encodable (Json.escape c) ∧ utf8Size c ≤ escapeSize c := by
  have hletter : ∀ {e : Char} {k : ℕ}, e.toNat < 0x80 → k < 0x80 →
      Encodable [unit '\\', unit e] ∧ utf8Size k ≤ byteLength [unit '\\', unit e] := by
    intro e k he hk
    refine ⟨encodable_letter e (by omega), ?_⟩
    have hone : utf8Size k = 1 := by simp [utf8Size, hk]
    have hsmall : ∀ u ∈ [unit '\\', unit e], u.val < 0xD800 := by
      intro u hu
      simp only [List.mem_cons, List.not_mem_nil, or_false] at hu
      rcases hu with rfl | rfl
      · exact unit_small _ (by decide)
      · exact unit_small _ (by omega)
    have hpoints := codePoints_small hsmall []
    rw [List.append_nil] at hpoints
    rw [byteLength_eq, hpoints, hone]
    simp only [List.map_cons, List.map_nil, codePoints, List.append_nil, pointsSize_cons]
    have := utf8Size_pos (unit '\\').val
    omega
  unfold escapeSize Json.escape
  by_cases e22 : c = 0x22
  · subst e22; exact hletter (by decide) (by norm_num)
  rw [if_neg e22]
  by_cases e5C : c = 0x5C
  · subst e5C; exact hletter (by decide) (by norm_num)
  rw [if_neg e5C]
  by_cases e08 : c = 0x08
  · subst e08; exact hletter (by decide) (by norm_num)
  rw [if_neg e08]
  by_cases e0C : c = 0x0C
  · subst e0C; exact hletter (by decide) (by norm_num)
  rw [if_neg e0C]
  by_cases e0A : c = 0x0A
  · subst e0A; exact hletter (by decide) (by norm_num)
  rw [if_neg e0A]
  by_cases e0D : c = 0x0D
  · subst e0D; exact hletter (by decide) (by norm_num)
  rw [if_neg e0D]
  by_cases e09 : c = 0x09
  · subst e09; exact hletter (by decide) (by norm_num)
  rw [if_neg e09]
  by_cases hhex : c < 0x20 ∨ isSurrogate c = true
  · rw [if_pos hhex]
    have hsmall : ∀ u ∈ Json.hexEscape c, u.val < 0xD800 := fun u hu => by
      have := hexEscape_small c u hu
      omega
    refine ⟨encodable_small hsmall, ?_⟩
    have hpoints := codePoints_small hsmall []
    rw [List.append_nil] at hpoints
    have hsize : utf8Size c ≤ 4 := by
      unfold utf8Size
      split <;> [omega; split <;> [omega; split <;> omega]]
    rw [byteLength_eq, hpoints]
    simp only [Json.hexEscape, List.map_cons, List.map_nil, codePoints, List.append_nil,
      pointsSize_cons]
    have h1 := utf8Size_pos (unit '\\').val
    have h2 := utf8Size_pos (unit 'u').val
    have h3 := utf8Size_pos (Json.hexUnit (c / 0x1000 % 0x10)).val
    have h4 := utf8Size_pos (Json.hexUnit (c / 0x100 % 0x10)).val
    omega
  · rw [if_neg hhex]
    have hscalar : IsScalar c := ⟨hc, by simpa using fun h => hhex (.inr h)⟩
    have hpoints := codePoints_pointUnits hscalar []
    rw [List.append_nil] at hpoints
    refine ⟨⟨[c], by simp, by simpa using hscalar⟩, ?_⟩
    rw [byteLength_eq, hpoints]
    simp [codePoints]

theorem byteLength_escaped {cs : List ℕ} (h : ∀ c ∈ cs, c < 0x110000) (t : JsString) :
    byteLength (cs.flatMap Json.escape ++ t) = escapedSize cs + byteLength t := by
  induction cs with
  | nil => simp
  | cons c rest ih =>
      rw [List.flatMap_cons, List.append_assoc,
        (escape_spec (h c (by simp))).1.byteLength_append, ih fun d hd => h d (by simp [hd]),
        escapedSize_cons, escapeSize, Nat.add_assoc]

/-- **The JSON of a text takes two quotes and its escaped code points.** -/
theorem byteLength_quote (s t : JsString) :
    byteLength (Json.quote s ++ t) = 2 + escapedSize (codePoints s) + byteLength t := by
  have hquote : Encodable [unit '"'] :=
    encodable_small fun u hu => by
      obtain rfl : u = unit '"' := by simpa using hu
      exact unit_small _ (by decide)
  have hone : byteLength [unit '"'] = 1 := by decide
  have hcons : ∀ r, byteLength (unit '"' :: r) = 1 + byteLength r := fun r => by
    rw [← hone, ← hquote.byteLength_append]
    rfl
  rw [Json.quote_append, hcons, byteLength_escaped (codePoints_lt s), hcons]
  omega

theorem jsonBytes_str (s : JsString) : jsonBytes (.str s) = 2 + escapedSize (codePoints s) := by
  have h := byteLength_quote s []
  rw [List.append_nil] at h
  simpa [jsonBytes, Json.stringify] using h

theorem pointsSize_le_escapedSize {cs : List ℕ} (h : ∀ c ∈ cs, c < 0x110000) :
    pointsSize cs ≤ escapedSize cs := by
  induction cs with
  | nil => simp
  | cons c rest ih =>
      have hc := (escape_spec (h c (by simp))).2
      have hrest := ih fun d hd => h d (by simp [hd])
      rw [pointsSize_cons, escapedSize_cons]
      omega

theorem replaced_replaced (c : ℕ) : replaced (replaced c) = replaced c := by
  unfold replaced
  by_cases hs : isSurrogate c = true
  · have hfix : isSurrogate 0xFFFD = false := by decide +kernel
    rw [if_pos hs, hfix]
    rfl
  · rw [if_neg hs, if_neg hs]

/-- Replacing a lone surrogate makes its JSON no larger. -/
theorem escapedSize_replaced_le (cs : List ℕ) :
    escapedSize (cs.map replaced) ≤ escapedSize cs := by
  induction cs with
  | nil => simp
  | cons c rest ih =>
      have hc : escapeSize (replaced c) ≤ escapeSize c := by
        unfold replaced
        by_cases hs : isSurrogate c = true
        · have hfix : escapeSize 0xFFFD = 3 := by decide +kernel
          rw [if_pos hs, hfix]
          have hlt : c < 0x110000 := by
            simp only [isSurrogate, Bool.and_eq_true, decide_eq_true_eq] at hs
            omega
          have hsize : utf8Size c = 3 := by
            simp only [isSurrogate, Bool.and_eq_true, decide_eq_true_eq] at hs
            have h : ¬ c < 0x80 ∧ ¬ c < 0x800 ∧ c < 0x10000 := by omega
            simp [utf8Size, h]
          have := (escape_spec hlt).2
          omega
        · rw [if_neg hs]
      rw [List.map_cons, escapedSize_cons, escapedSize_cons]
      omega

/-! ### White space at the end -/

/-- A text without the JSON white space it ends with. -/
def core (s : JsString) : JsString := (s.reverse.dropWhile Json.isSpace).reverse

/-- The JSON white space a text ends with. -/
def tail (s : JsString) : JsString := (s.reverse.takeWhile Json.isSpace).reverse

theorem core_append_tail (s : JsString) : core s ++ tail s = s := by
  unfold core tail
  rw [← List.reverse_append, List.takeWhile_append_dropWhile, List.reverse_reverse]

theorem tail_isSpace (s : JsString) : ∀ u ∈ tail s, Json.isSpace u = true := by
  intro u hu
  exact List.mem_takeWhile_imp (List.mem_reverse.mp hu)

/-- What is left of a text does not end with white space. -/
theorem core_getLast (s : JsString) : ∀ u ∈ (core s).getLast?, Json.isSpace u = false := by
  intro u hu
  have hnot := List.head?_dropWhile_not Json.isSpace s.reverse
  unfold core at hu
  rw [List.getLast?_reverse, Option.mem_def] at hu
  rw [hu] at hnot
  exact hnot

/-- The white space that takes two bytes as JSON: line ends and tabs. -/
def breaks (t : JsString) : ℕ := (t.filter fun u => u ≠ unit ' ').length

theorem breaks_append (t r : JsString) : breaks (t ++ r) = breaks t + breaks r := by
  simp [breaks]

theorem breaks_take_le (t : JsString) (n : ℕ) : breaks (t.take n) ≤ breaks t := by
  conv_rhs => rw [← List.take_append_drop n t]
  rw [breaks_append]
  omega

theorem isSpace_small {u : CodeUnit} (h : Json.isSpace u = true) : u.val < 0x80 := by
  simp only [Json.isSpace, Bool.or_eq_true, decide_eq_true_eq] at h
  omega

theorem codePoints_append_space (s : JsString) {t : JsString}
    (ht : ∀ u ∈ t, Json.isSpace u = true) :
    codePoints (s ++ t) = codePoints s ++ t.map Fin.val := by
  have hsmall : ∀ t : JsString, (∀ u ∈ t, Json.isSpace u = true) →
      codePoints t = t.map Fin.val := by
    intro t ht
    have h := codePoints_small (s := t) (fun u hu => by
      have := isSpace_small (ht u hu)
      omega) []
    simpa [codePoints] using h
  rw [codePoints_append s, hsmall t ht]
  intro u hu
  have hspace := isSpace_small (ht u (List.mem_of_head? hu))
  simp only [isLow, Bool.and_eq_false_iff, decide_eq_false_iff_not]
  omega

theorem codePoints_split (s : JsString) :
    codePoints s = codePoints (core s) ++ (tail s).map Fin.val := by
  conv_lhs => rw [← core_append_tail s]
  exact codePoints_append_space _ (tail_isSpace s)

/-- White space is a byte each, and line ends and tabs are one more as JSON. -/
theorem space_sizes {t : JsString} (ht : ∀ u ∈ t, Json.isSpace u = true) :
    pointsSize (t.map Fin.val) = t.length ∧
      escapedSize (t.map Fin.val) = t.length + breaks t ∧
      (t.map Fin.val).map replaced = t.map Fin.val := by
  induction t with
  | nil => simp [breaks]
  | cons u rest ih =>
      obtain ⟨h1, h2, h3⟩ := ih fun v hv => ht v (by simp [hv])
      have hu := ht u (by simp)
      have hsmall := isSpace_small hu
      have hone : utf8Size u.val = 1 := by simp [utf8Size, hsmall]
      have hrep : replaced u.val = u.val := by
        have hs : isSurrogate u.val = false := (isScalar_of_small (by omega)).2
        simp [replaced, hs]
      have hsize : escapeSize u.val = 1 + (if u ≠ unit ' ' then 1 else 0) := by
        simp only [Json.isSpace, Bool.or_eq_true, decide_eq_true_eq] at hu
        rcases hu with ((hu | hu) | hu) | hu
        · obtain rfl : u = unit ' ' := Fin.ext hu
          decide
        · obtain rfl : u = 0x09 := Fin.ext hu
          decide
        · obtain rfl : u = 0x0A := Fin.ext hu
          decide
        · obtain rfl : u = 0x0D := Fin.ext hu
          decide
      refine ⟨?_, ?_, ?_⟩
      · rw [List.map_cons, pointsSize_cons, hone, h1, List.length_cons]
        omega
      · rw [List.map_cons, escapedSize_cons, hsize, h2, List.length_cons]
        by_cases hsp : u = unit ' '
        · simp [breaks, hsp]
          omega
        · simp [breaks, hsp]
          omega
      · rw [List.map_cons, List.map_cons, hrep, h3]

/-! ### Two rounds decide -/

theorem takeBytes_append (cs ds : List ℕ) (n : ℕ) :
    takeBytes (pointsSize cs + n) (cs ++ ds) = cs ++ takeBytes n ds := by
  induction cs with
  | nil => simp
  | cons c rest ih =>
      have hle : utf8Size c ≤ utf8Size c + pointsSize rest + n := by omega
      have hsub : utf8Size c + pointsSize rest + n - utf8Size c = pointsSize rest + n := by omega
      simp only [pointsSize_cons, List.cons_append, takeBytes, if_pos hle, hsub, ih]

theorem takeBytes_space {t : JsString} (ht : ∀ u ∈ t, Json.isSpace u = true) (n : ℕ) :
    takeBytes n (t.map Fin.val) = (t.take n).map Fin.val := by
  induction t generalizing n with
  | nil => simp [takeBytes]
  | cons u rest ih =>
      have hone : utf8Size u.val = 1 := by simp [utf8Size, isSpace_small (ht u (by simp))]
      cases n with
      | zero => simp [takeBytes, hone]
      | succ n => simp [takeBytes, hone, ih (fun v hv => ht v (by simp [hv])) n]

/-- Cutting a text that ends with white space to no less than the rest of it. -/
theorem truncate_space {s : JsString} {cs : List ℕ} {t : JsString}
    (hs : codePoints s = cs ++ t.map Fin.val) (ht : ∀ u ∈ t, Json.isSpace u = true) {n : ℕ}
    (hn : n < t.length) :
    truncateToBytes s (pointsSize cs + n)
      = ofPoints (cs.map replaced ++ (t.take n).map Fin.val) := by
  have hsize : byteLength s = pointsSize cs + t.length := by
    rw [byteLength_eq, hs, pointsSize, List.map_append, List.sum_append]
    have := (space_sizes ht).1
    unfold pointsSize at this ⊢
    omega
  have htake : ∀ u ∈ t.take n, Json.isSpace u = true := fun u hu => ht u (List.mem_of_mem_take hu)
  rw [truncateToBytes_eq (by omega), hs, takeBytes_append, takeBytes_space ht, List.map_append,
    (space_sizes htake).2.2]

/-- Every round keeps a run of characters from the beginning, within the limit. -/
theorem capRounds_keeps (budget : ℤ) (s : JsString) (n : ℕ) :
    byteLength (capRounds budget s n) ≤ n ∧
      (capRounds budget s n = s ∨
        ∃ pre, pre <+: codePoints s ∧ capRounds budget s n = ofPoints (pre.map replaced)) := by
  have hcut : ∀ (s : JsString) (n : ℕ), truncateToBytes s n = s ∨
      ∃ pre, pre <+: codePoints s ∧ truncateToBytes s n = ofPoints (pre.map replaced) := by
    intro s n
    by_cases h : byteLength s ≤ n
    · exact .inl (truncateToBytes_of_le h)
    · exact .inr ⟨_, takeBytes_initial n _, truncateToBytes_eq (not_le.mp h)⟩
  induction s, n using capRounds.induct budget with
  | case1 s n cut hstop =>
      rw [capRounds, if_pos hstop]
      exact ⟨byteLength_truncateToBytes_le s n, hcut s n⟩
  | case2 s n cut hstop ih =>
      rw [capRounds, if_neg hstop]
      have hle := byteLength_truncateToBytes_le s n
      refine ⟨?_, ?_⟩
      · have hpos : ¬ (excess budget (truncateToBytes s n) ≤ 0 ∨ n = 0) := hstop
        have := ih.1
        simp only [cut] at this ⊢
        omega
      · rcases hcut s n with hsame | ⟨pre, hpre, hcs⟩
        · have h2 := ih.2
          simp only [cut] at h2 ⊢
          rw [hsame] at h2 ⊢
          exact h2
        · refine .inr ?_
          have hscalar : ∀ c ∈ pre.map replaced, IsScalar c := by
            intro c hc
            obtain ⟨d, hd, rfl⟩ := List.mem_map.mp hc
            exact replaced_isScalar (codePoints_lt s d (hpre.subset hd))
          have hpoints : codePoints cut = pre.map replaced := by
            simp only [cut]
            rw [hcs, codePoints_ofPoints hscalar]
          rcases ih.2 with heq | ⟨pre', hpre', heq⟩
          · exact ⟨pre, hpre, heq.trans hcs⟩
          · rw [hpoints] at hpre'
            obtain ⟨pre'', hpre'', rfl⟩ := List.prefix_map_iff.mp hpre'
            refine ⟨pre'', hpre''.trans hpre, heq.trans ?_⟩
            rw [List.map_map]
            simp [Function.comp_def, replaced_replaced]

/-- What is kept of a text when less than its first part is. -/
theorem capRounds_short {budget : ℤ} {s : JsString} {cs ds : List ℕ}
    (hs : codePoints s = cs ++ ds) {n : ℕ} (hn : n < pointsSize cs) :
    ∃ pre, pre <+: cs ∧ pre ≠ cs ∧ capRounds budget s n = ofPoints (pre.map replaced) := by
  have hlt := codePoints_lt s
  obtain ⟨hle, hkept⟩ := capRounds_keeps budget s n
  have hsize : pointsSize cs ≤ byteLength s := by
    rw [byteLength_eq, hs, pointsSize, pointsSize, List.map_append, List.sum_append]
    omega
  rcases hkept with heq | ⟨pre, hpre, heq⟩
  · rw [heq] at hle
    omega
  · have hpresize : pointsSize pre ≤ n := by
      rwa [heq, byteLength_ofPoints fun c hc => hlt c (hpre.subset hc)] at hle
    rw [hs] at hpre
    rcases List.prefix_or_prefix_of_prefix hpre (List.prefix_append cs ds) with hpc | hcp
    · refine ⟨pre, hpc, ?_, heq⟩
      rintro rfl
      omega
    · obtain ⟨rest, rfl⟩ := hcp
      rw [pointsSize, List.map_append, List.sum_append] at hpresize
      unfold pointsSize at hn
      omega

/-- The limit after a text that ends with the white space `t` went over the budget. -/
theorem next_limit (budget : ℕ) {r : JsString} {cs : List ℕ} {t : JsString}
    (hr : codePoints r = cs ++ t.map Fin.val) (ht : ∀ u ∈ t, Json.isSpace u = true) :
    excess budget r = escapedSize cs + (t.length + breaks t) - budget ∧
      (byteLength r : ℤ) - excess budget r
        = pointsSize cs + budget - (escapedSize cs + breaks t) := by
  obtain ⟨h1, h2, -⟩ := space_sizes ht
  have hexcess : excess budget r = escapedSize cs + (t.length + breaks t) - budget := by
    unfold excess
    rw [jsonBytes_str, hr, escapedSize_append, h2]
    push_cast
    omega
  have hsize : byteLength r = pointsSize cs + t.length := by
    rw [byteLength_eq, hr, pointsSize, List.map_append, List.sum_append]
    unfold pointsSize at h1 ⊢
    omega
  refine ⟨hexcess, ?_⟩
  rw [hexcess, hsize]
  push_cast
  omega

/-- **After a round that went over the budget, all but white space is kept exactly when
the rest and the line ends of the white space fit.** -/
theorem capRounds_after (budget : ℕ) {r : JsString} {cs : List ℕ} {t : JsString}
    (hr : codePoints r = cs ++ t.map Fin.val) (ht : ∀ u ∈ t, Json.isSpace u = true)
    (hover : 0 < excess budget r) :
    (escapedSize cs + breaks t ≤ budget →
      ∃ x, capRounds budget r ((byteLength r : ℤ) - excess budget r).toNat
        = ofPoints (cs.map replaced ++ (t.take x).map Fin.val)) ∧
    (budget < escapedSize cs + breaks t → 0 < pointsSize cs →
      ∃ pre, pre <+: cs ∧ pre ≠ cs ∧
        capRounds budget r ((byteLength r : ℤ) - excess budget r).toNat
          = ofPoints (pre.map replaced)) := by
  obtain ⟨hexcess, hlimit⟩ := next_limit budget hr ht
  refine ⟨fun hfit => ?_, fun hlong hpos => ?_⟩
  · obtain ⟨x, hx⟩ : ∃ x, x = budget - (escapedSize cs + breaks t) := ⟨_, rfl⟩
    have hnat : ((byteLength r : ℤ) - excess budget r).toNat = pointsSize cs + x := by
      rw [hlimit]
      omega
    have hlt : x < t.length := by omega
    have hcut := truncate_space hr ht hlt
    refine ⟨x, ?_⟩
    have htake : ∀ u ∈ t.take x, Json.isSpace u = true := fun u hu =>
      ht u (List.mem_of_mem_take hu)
    have hscalar : ∀ c ∈ cs.map replaced ++ (t.take x).map Fin.val, IsScalar c := by
      intro c hc
      rcases List.mem_append.mp hc with hc | hc
      · obtain ⟨d, hd, rfl⟩ := List.mem_map.mp hc
        exact replaced_isScalar (codePoints_lt r d (by rw [hr]; simp [hd]))
      · obtain ⟨u, hu, rfl⟩ := List.mem_map.mp hc
        have := isSpace_small (htake u hu)
        exact isScalar_of_small (by omega)
    -- The second cut fits, so the loop ends with it.
    have hstop : excess budget (truncateToBytes r (pointsSize cs + x)) ≤ 0 := by
      unfold excess
      rw [hcut, jsonBytes_str, codePoints_ofPoints hscalar, escapedSize_append,
        (space_sizes htake).2.1, List.length_take]
      have h1 := escapedSize_replaced_le cs
      have h2 := breaks_take_le t x
      push_cast
      omega
    rw [hnat, capRounds, if_pos (.inl hstop), hcut]
  · have hnat : ((byteLength r : ℤ) - excess budget r).toNat < pointsSize cs := by
      rw [hlimit]
      omega
    exact capRounds_short hr hnat

/-- The text up to its closing brace, and the line ends of the white space after it, fit
the budget.  In a text longer than the budget only the white space up to it counts, and
lone surrogates count as their replacement. -/
def ClosesInBudget (budget : ℕ) (s : JsString) : Prop :=
  if byteLength s ≤ budget then escapedSize (codePoints (core s)) + breaks (tail s) ≤ budget
  else escapedSize ((codePoints (core s)).map replaced)
    + breaks ((tail s).take (budget - byteLength (core s))) ≤ budget

instance (budget : ℕ) (s : JsString) : Decidable (ClosesInBudget budget s) := by
  unfold ClosesInBudget
  infer_instance

/-- **What the rounds keep of a text whose JSON is over the budget.** -/
theorem capRounds_text {budget : ℕ} {s : JsString} (hpos : 0 < byteLength (core s))
    (hover : budget < escapedSize (codePoints s)) (hbudget : 0 < budget) :
    (ClosesInBudget budget s → ∃ x, capRounds budget s budget
      = ofPoints ((codePoints (core s)).map replaced ++ ((tail s).take x).map Fin.val)) ∧
    (¬ ClosesInBudget budget s → ∃ pre, pre <+: codePoints (core s) ∧ pre ≠ codePoints (core s) ∧
      capRounds budget s budget = ofPoints (pre.map replaced)) := by
  have hsplit := codePoints_split s
  have htail := tail_isSpace s
  obtain ⟨hsize, hescaped, -⟩ := space_sizes htail
  have hlen : byteLength s = byteLength (core s) + (tail s).length := by
    rw [byteLength_eq, hsplit, byteLength_eq, ← hsize]
    simp [pointsSize]
  unfold ClosesInBudget
  by_cases hraw : byteLength s ≤ budget
  · -- The first round cuts nothing.
    have hexcess : 0 < excess budget s := by
      unfold excess
      rw [jsonBytes_str]
      push_cast
      omega
    have hround : capRounds budget s budget
        = capRounds budget s ((byteLength s : ℤ) - excess budget s).toNat := by
      conv_lhs => rw [capRounds]
      simp only [truncateToBytes_of_le hraw]
      rw [if_neg (by omega)]
    obtain ⟨hkept, hcut⟩ := capRounds_after budget hsplit htail hexcess
    rw [if_pos hraw, hround]
    exact ⟨hkept, fun h => hcut (by omega) hpos⟩
  · rw [if_neg hraw]
    by_cases hcore : byteLength (core s) ≤ budget
    · -- The first round cuts white space only.
      obtain ⟨x, hx⟩ : ∃ x, x = budget - byteLength (core s) := ⟨_, rfl⟩
      have hcut := truncate_space hsplit htail (n := x) (by omega)
      have hbudget' : pointsSize (codePoints (core s)) + x = budget := by
        rw [← byteLength_eq]
        omega
      rw [hbudget'] at hcut
      have htake : ∀ u ∈ (tail s).take x, Json.isSpace u = true := fun u hu =>
        htail u (List.mem_of_mem_take hu)
      have hscalar : ∀ c ∈ (codePoints (core s)).map replaced, IsScalar c := by
        intro c hc
        obtain ⟨d, hd, rfl⟩ := List.mem_map.mp hc
        exact replaced_isScalar (codePoints_lt (core s) d hd)
      have hspace : ∀ c ∈ ((tail s).take x).map Fin.val, IsScalar c := by
        intro c hc
        obtain ⟨u, hu, rfl⟩ := List.mem_map.mp hc
        have := isSpace_small (htake u hu)
        exact isScalar_of_small (by omega)
      have hpoints : codePoints (truncateToBytes s budget)
          = (codePoints (core s)).map replaced ++ ((tail s).take x).map Fin.val := by
        rw [hcut, codePoints_ofPoints]
        intro c hc
        exact (List.mem_append.mp hc).elim (hscalar c) (hspace c)
      have hidem : ((codePoints (core s)).map replaced).map replaced
          = (codePoints (core s)).map replaced := by
        rw [List.map_map]
        simp [Function.comp_def, replaced_replaced]
      rw [← hx]
      by_cases hdone : excess budget (truncateToBytes s budget) ≤ 0
      · have hround : capRounds budget s budget = truncateToBytes s budget := by
          rw [capRounds, if_pos (.inl (by simpa using hdone))]
        have hfits := (next_limit budget hpoints htake).1
        refine ⟨fun _ => ⟨x, by rw [hround, hcut]⟩, fun h => absurd ?_ h⟩
        omega
      · have hround : capRounds budget s budget = capRounds budget (truncateToBytes s budget)
            ((byteLength (truncateToBytes s budget) : ℤ)
              - excess budget (truncateToBytes s budget)).toNat := by
          conv_lhs => rw [capRounds]
          rw [if_neg (by omega)]
        obtain ⟨hkept, hshort⟩ := capRounds_after budget hpoints htake
          (not_le.mp hdone)
        rw [hround]
        refine ⟨fun h => ?_, fun h => ?_⟩
        · obtain ⟨y, hy⟩ := hkept h
          rw [hidem, List.take_take] at hy
          exact ⟨_, hy⟩
        · have hsizepos : 0 < pointsSize ((codePoints (core s)).map replaced) := by
            rw [pointsSize_map_replaced, ← byteLength_eq]
            exact hpos
          obtain ⟨pre, hpre, hne, hy⟩ := hshort (not_le.mp h) hsizepos
          obtain ⟨pre', hpre', rfl⟩ := List.prefix_map_iff.mp hpre
          refine ⟨pre', hpre', ?_, ?_⟩
          · rintro rfl
            exact hne rfl
          · rw [hy, List.map_map]
            simp [Function.comp_def, replaced_replaced]
    · -- The first round cuts into the text itself.
      have hlong : budget < escapedSize ((codePoints (core s)).map replaced) := by
        have hlt : ∀ c ∈ (codePoints (core s)).map replaced, c < 0x110000 := by
          intro c hc
          obtain ⟨d, hd, rfl⟩ := List.mem_map.mp hc
          exact (replaced_isScalar (codePoints_lt (core s) d hd)).1
        have h := pointsSize_le_escapedSize hlt
        rw [pointsSize_map_replaced, ← byteLength_eq] at h
        omega
      exact ⟨fun h => by omega, fun _ => capRounds_short hsplit (not_le.mp hcore)⟩

end Kaiban
