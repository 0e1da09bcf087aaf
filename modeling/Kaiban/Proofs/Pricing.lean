/-
A model is priced by the longest known name it extends.

The table is asked three times: for the name as it is, for a key of the same normal form,
and for the longest key the normal form extends.  Keys of one normal form have one price,
so the three answers are one rule.  The exception is a model with the name of a member
every object has, which is found in the table as it is and is no price.
-/
import Kaiban.Pricing

open JsString

namespace Kaiban

variable (T : CaseTables)

/-! ### The rule -/

/-- A known name, which the default is not. -/
def Known (m : JsString × Price) : Prop := m ∈ modelPricing ∧ m.1 ≠ js "default"

/-- The normal form is the key, or extends it by a hyphen. -/
def Extends (normalized key : JsString) : Prop :=
  normalized = key ∨ key ++ js "-" <+: normalized

/-- The price of the longest known key a normal form extends, and else the default one. -/
inductive LongestPrice (normalized : JsString) : Price → Prop where
  | known (m : JsString × Price) (hm : Known m)
      (hextends : Extends normalized (normalizeModel T m.1))
      (hlongest : ∀ m', Known m' → Extends normalized (normalizeModel T m'.1) →
        (normalizeModel T m'.1).length ≤ (normalizeModel T m.1).length) :
      LongestPrice normalized m.2
  | default (hnone : ∀ m, Known m → ¬ Extends normalized (normalizeModel T m.1)) :
      LongestPrice normalized defaultPrice

theorem Extends.isPrefix {normalized key : JsString} (h : Extends normalized key) :
    key <+: normalized := by
  rcases h with rfl | h
  · exact List.prefix_rfl
  · exact (List.prefix_append key _).trans h

/-! ### The keys -/

/-- The normal form of a name that is lowered as it stands. -/
def plainNorm (key : JsString) : JsString :=
  dropSuffix isVersionSuffix (dropSuffix isDateSuffix (dropProvider key))

theorem normalizeModel_key {m : JsString × Price} (hm : m ∈ modelPricing) :
    normalizeModel T m.1 = plainNorm m.1 := by
  have hsmall : ∀ m ∈ modelPricing, m.1.all CaseTables.smallAscii = true := by decide +kernel
  unfold normalizeModel plainNorm
  rw [T.toLowerCase_smallAscii (hsmall m hm)]

/-- Keys of one normal form have one price. -/
theorem price_of_norm {m m' : JsString × Price} (hm : Known m) (hm' : Known m')
    (h : normalizeModel T m.1 = normalizeModel T m'.1) : m.2 = m'.2 := by
  have hcoherent : ∀ m ∈ modelPricing, ∀ m' ∈ modelPricing,
      plainNorm m.1 = plainNorm m'.1 → m.2 = m'.2 := by decide +kernel
  rw [normalizeModel_key T hm.1, normalizeModel_key T hm'.1] at h
  exact hcoherent m hm.1 m' hm'.1 h

theorem default_unknown {m : JsString × Price} (hm : Known m) :
    ¬ Extends (normalizeModel T (js "default")) (normalizeModel T m.1) := by
  have hnone : ∀ m ∈ modelPricing, m.1 ≠ js "default" →
      ¬ (plainNorm (js "default") = plainNorm m.1 ∨
        plainNorm m.1 ++ js "-" <+: plainNorm (js "default")) := by decide +kernel
  rw [normalizeModel_key T hm.1, normalizeModel_key T (m := (js "default", defaultPrice))
    (by decide +kernel)]
  exact hnone m hm.1 hm.2

/-- The rule gives one price. -/
theorem LongestPrice.unique {normalized : JsString} {p q : Price}
    (hp : LongestPrice T normalized p) (hq : LongestPrice T normalized q) : p = q := by
  cases hp with
  | known m hm hextends hlongest =>
      cases hq with
      | known m' hm' hextends' hlongest' =>
          refine price_of_norm T hm hm' ?_
          have hlength := le_antisymm (hlongest' m hm hextends) (hlongest m' hm' hextends')
          exact (List.prefix_of_prefix_length_le hextends.isPrefix hextends'.isPrefix
            hlength.le).eq_of_length hlength
      | default hnone => exact absurd hextends (hnone m hm)
  | default hnone =>
      cases hq with
      | known m hm hextends _ => exact absurd hextends (hnone m hm)
      | default _ => rfl

/-! ### The three searches -/

theorem mem_normalizedPricing {e : NormalizedPrice} :
    e ∈ normalizedPricing T ↔ ∃ m, Known m ∧ e = ⟨m.1, normalizeModel T m.1, m.2⟩ := by
  unfold normalizedPricing Known
  rw [StableSort.mem_byKey, List.mem_map]
  constructor
  · rintro ⟨m, hm, rfl⟩
    exact ⟨m, by simpa using hm, rfl⟩
  · rintro ⟨m, hm, rfl⟩
    exact ⟨m, by simpa using hm, rfl⟩

/-- A known key the normal form is the same as is the longest it extends. -/
theorem LongestPrice.of_norm {m : JsString × Price} (hm : Known m) {normalized : JsString}
    (h : normalized = normalizeModel T m.1) : LongestPrice T normalized m.2 := by
  refine .known m hm (.inl h) fun m' _ hextends => ?_
  rw [← h]
  exact hextends.isPrefix.length_le

theorem pricingOf_price {model : JsString} {p : Price} (h : pricingOf model = some (.price p)) :
    LongestPrice T (normalizeModel T model) p := by
  unfold pricingOf at h
  split at h
  · rename_i m hfind
    obtain rfl := PricingEntry.price.inj (Option.some.inj h)
    have hmem := List.mem_of_find?_eq_some hfind
    obtain rfl : m.1 = model := by simpa using List.find?_some hfind
    by_cases hdefault : m.1 = js "default"
    · have hprice : ∀ m ∈ modelPricing, m.1 = js "default" → m.2 = defaultPrice := by
        decide +kernel
      have hrule : LongestPrice T (normalizeModel T (js "default")) defaultPrice :=
        .default fun m' hm' => default_unknown T hm'
      rw [hprice m hmem hdefault]
      rwa [← hdefault] at hrule
    · exact .of_norm T ⟨hmem, hdefault⟩ rfl
  · split at h <;> simp at h

/-- **The searches find the price of the rule.** -/
theorem resolvePricing_search {model : JsString} (h : pricingOf model = none) :
    ∃ p, resolvePricing T model = .price p ∧ LongestPrice T (normalizeModel T model) p := by
  unfold resolvePricing
  rw [h]
  dsimp only
  cases hsame : (normalizedPricing T).find? fun e => e.norm = normalizeModel T model with
  | some e =>
      obtain ⟨m, hm, rfl⟩ := (mem_normalizedPricing T).mp (List.mem_of_find?_eq_some hsame)
      have hnorm : normalizeModel T m.1 = normalizeModel T model := by
        simpa using List.find?_some hsame
      exact ⟨_, rfl, .of_norm T hm hnorm.symm⟩
  | none =>
      have hdiffers (m) (hm : Known m) : normalizeModel T m.1 ≠ normalizeModel T model := by
        have hentry := List.find?_eq_none.mp hsame _
          ((mem_normalizedPricing T).mpr ⟨m, hm, rfl⟩)
        simpa using hentry
      have hextends (m) (hm : Known m)
          (hext : Extends (normalizeModel T model) (normalizeModel T m.1)) :
          (normalizeModel T m.1 ++ js "-").isPrefixOf (normalizeModel T model) = true := by
        rcases hext with heq | hext
        · exact absurd heq.symm (hdiffers m hm)
        · exact List.isPrefixOf_iff_prefix.mpr hext
      cases hlonger : (normalizedPricing T).find? fun e =>
          (e.norm ++ js "-").isPrefixOf (normalizeModel T model) with
      | some e =>
          obtain ⟨m, hm, rfl⟩ := (mem_normalizedPricing T).mp (List.mem_of_find?_eq_some hlonger)
          have hfound : (normalizeModel T m.1 ++ js "-").isPrefixOf (normalizeModel T model)
            = true := by simpa using List.find?_some hlonger
          refine ⟨_, rfl, .known m hm (.inr (List.isPrefixOf_iff_prefix.mp hfound)) ?_⟩
          intro m' hm' hext
          have hmem := (mem_normalizedPricing T).mpr ⟨m', hm', rfl⟩
          unfold normalizedPricing at hmem hlonger
          have hle := StableSort.le_of_find? (fun e : NormalizedPrice => e.norm.length) hlonger
            ((StableSort.mem_byKey _).mp hmem) (hextends m' hm' hext)
          exact hle
      | none =>
          refine ⟨_, rfl, .default fun m hm hext => ?_⟩
          exact List.find?_eq_none.mp hlonger _ ((mem_normalizedPricing T).mpr ⟨m, hm, rfl⟩)
            (hextends m hm hext)

theorem pricingOf_inherited {model : JsString} (h : model ∈ inheritedNames) :
    pricingOf model = some (.inherited model) := by
  have hforeign : ∀ name ∈ inheritedNames,
      (modelPricing.find? fun m => m.1 = name) = none := by decide +kernel
  unfold pricingOf
  rw [hforeign model h]
  exact if_pos h

theorem resolvePricing_inherited {model : JsString} (h : model ∈ inheritedNames) :
    resolvePricing T model = .inherited model := by
  unfold resolvePricing
  rw [pricingOf_inherited h]

/-- A model with no inherited name has the price of the rule. -/
theorem resolvePricing_price {model : JsString} (h : model ∉ inheritedNames) :
    ∃ p, resolvePricing T model = .price p ∧ LongestPrice T (normalizeModel T model) p := by
  cases hentry : pricingOf model with
  | none => exact resolvePricing_search T hentry
  | some entry =>
      have hresolve : resolvePricing T model = entry := by
        unfold resolvePricing
        rw [hentry]
      cases entry with
      | price p => exact ⟨p, hresolve, pricingOf_price T hentry⟩
      | inherited name =>
          unfold pricingOf at hentry
          rw [if_neg h] at hentry
          split at hentry <;> simp at hentry

/-! ### Date suffixes -/

theorem afterDigits_length {n : ℕ} {s t : JsString} (h : afterDigits n s = some t) :
    s.length = n + t.length := by
  induction n generalizing s with
  | zero =>
      rw [afterDigits] at h
      rw [Option.some.inj h]
      omega
  | succ n ih =>
      cases s with
      | nil => exact absurd h (by simp [afterDigits])
      | cons u s =>
          rw [afterDigits] at h
          split at h
          · rw [List.length_cons, ih h]
            omega
          · exact absurd h (by simp)

theorem afterDigits_digit {n : ℕ} {s t : JsString} (h : afterDigits n s = some t) :
    ∀ i < n, ∀ u ∈ s[i]?, NumberText.isDigit u = true := by
  induction n generalizing s with
  | zero => exact fun i hi => absurd hi (Nat.not_lt_zero i)
  | succ n ih =>
      cases s with
      | nil => exact absurd h (by simp [afterDigits])
      | cons v s =>
          rw [afterDigits] at h
          split at h
          · rename_i hv
            intro i hi u hu
            cases i with
            | zero =>
                obtain rfl := Option.some.inj hu
                exact hv
            | succ i => exact ih h i (by omega) u hu
          · exact absurd h (by simp)

theorem afterHyphen_length (s : JsString) :
    (afterHyphen s).length ≤ s.length ∧ s.length ≤ (afterHyphen s).length + 1 := by
  cases s with
  | nil => exact ⟨le_refl _, Nat.zero_le _⟩
  | cons u s =>
      rw [afterHyphen]
      split
      · exact ⟨Nat.le_succ _, le_refl _⟩
      · exact ⟨le_refl _, Nat.le_succ _⟩

/-- A date has between nine and eleven units, the first a separator and the next four digits. -/
structure DateShape (s : JsString) : Prop where
  least : 9 ≤ s.length
  most : s.length ≤ 11
  separator : ∀ u ∈ s[0]?, isSeparator u = true
  digits : ∀ i < 4, ∀ u ∈ s[i + 1]?, NumberText.isDigit u = true

theorem dateShape {s : JsString} (h : isDateSuffix s = true) : DateShape s := by
  cases s with
  | nil => exact absurd h (by simp [isDateSuffix])
  | cons u s =>
      unfold isDateSuffix at h
      obtain ⟨hsep, hdigits⟩ := Bool.and_eq_true_iff.mp h
      obtain ⟨t, hyear, hday⟩ := Option.bind_eq_some_iff.mp (of_decide_eq_true hdigits)
      obtain ⟨r, hr, hmonth⟩ := Option.bind_eq_some_iff.mp hyear
      have hlength := afterDigits_length hr
      have hlengthr := afterDigits_length hmonth
      have hlengtht := afterDigits_length hday
      have hhyphen := afterHyphen_length r
      have hhyphent := afterHyphen_length t
      rw [List.length_nil] at hlengtht
      refine ⟨?_, ?_, ?_, fun i hi v hv => afterDigits_digit hr i hi v hv⟩
      · rw [List.length_cons]
        omega
      · rw [List.length_cons]
        omega
      · intro v hv
        obtain rfl := Option.some.inj hv
        exact hsep

theorem isSeparator_not_digit {u : CodeUnit} (h : isSeparator u = true) :
    NumberText.isDigit u = false := by
  unfold isSeparator at h
  rcases Bool.or_eq_true_iff.mp h with h | h <;> rw [of_decide_eq_true h] <;> decide

/-- No date begins before a date. -/
theorem isDateSuffix_append {s d : JsString} (hd : isDateSuffix d = true) (hs : s ≠ []) :
    isDateSuffix (s ++ d) = false := by
  by_contra h
  have hdate := dateShape hd
  have hall := dateShape (Bool.not_eq_false _ ▸ h : isDateSuffix (s ++ d) = true)
  have hleast := hdate.least
  have hmost := hall.most
  have hpos := List.length_pos_of_ne_nil hs
  rw [List.length_append] at hmost
  obtain ⟨u, hu⟩ : ∃ u, d[0]? = some u := ⟨d[0], List.getElem?_eq_getElem (by omega)⟩
  have hdigit := hall.digits (s.length - 1) (by omega) u (by
    rw [Nat.sub_add_cancel hpos, List.getElem?_append_right (le_refl _), Nat.sub_self]
    exact hu)
  exact absurd hdigit (by simp [isSeparator_not_digit (hdate.separator u hu)])

theorem dropSuffix_date {s d : JsString} (hd : isDateSuffix d = true) :
    dropSuffix isDateSuffix (s ++ d) = s := by
  induction s with
  | nil =>
      cases d with
      | nil => rfl
      | cons u d => exact if_pos hd
  | cons u s ih =>
      rw [List.cons_append, dropSuffix, ← List.cons_append,
        isDateSuffix_append hd (List.cons_ne_nil u s), if_neg Bool.false_ne_true, ih]

theorem afterDigits_all {p : CodeUnit → Bool} (hp : ∀ u, NumberText.isDigit u = true → p u = true)
    {n : ℕ} {s t : JsString} (h : afterDigits n s = some t) (ht : t.all p = true) :
    s.all p = true := by
  induction n generalizing s with
  | zero => rwa [← Option.some.inj h] at ht
  | succ n ih =>
      cases s with
      | nil => rfl
      | cons u s =>
          rw [afterDigits] at h
          split at h
          · rename_i hu
            rw [List.all_cons, hp u hu, ih h]
            rfl
          · exact absurd h (by simp)

/-- A unit of a date: a separator or a digit. -/
def isDateUnit (u : CodeUnit) : Bool := isSeparator u || NumberText.isDigit u

theorem isDateSuffix_units {d : JsString} (h : isDateSuffix d = true) :
    d.all isDateUnit = true := by
  have hhyphen {s : JsString} (hs : (afterHyphen s).all isDateUnit = true) :
      s.all isDateUnit = true := by
    cases s with
    | nil => rfl
    | cons u s =>
        rw [afterHyphen] at hs
        split at hs
        · rename_i hu
          rw [List.all_cons, hs, of_decide_eq_true hu]
          rfl
        · exact hs
  have hdigit (u) (hu : NumberText.isDigit u = true) : isDateUnit u = true := by
    unfold isDateUnit
    rw [hu, Bool.or_true]
  cases d with
  | nil => rfl
  | cons u s =>
      unfold isDateSuffix at h
      obtain ⟨hsep, hdigits⟩ := Bool.and_eq_true_iff.mp h
      obtain ⟨t, hyear, hday⟩ := Option.bind_eq_some_iff.mp (of_decide_eq_true hdigits)
      obtain ⟨r, hr, hmonth⟩ := Option.bind_eq_some_iff.mp hyear
      have hs := afterDigits_all hdigit hr
        (hhyphen (afterDigits_all hdigit hmonth (hhyphen (afterDigits_all hdigit hday rfl))))
      rw [List.all_cons, hs, Bool.and_true]
      unfold isDateUnit
      rw [hsep, Bool.true_or]

theorem isDateUnit_mark {u : CodeUnit} (h : isDateUnit u = true) :
    CaseTables.asciiMark u = true ∧ u ≠ unit '/' := by
  unfold isDateUnit isSeparator at h
  have hval : u = unit '-' ∨ u = unit ':' ∨ (0x30 ≤ u.val ∧ u.val < 0x3A) := by
    rcases Bool.or_eq_true_iff.mp h with h | h
    · rcases Bool.or_eq_true_iff.mp h with h | h
      · exact .inl (of_decide_eq_true h)
      · exact .inr (.inl (of_decide_eq_true h))
    · exact .inr (.inr (by simpa [NumberText.isDigit] using h))
  rcases hval with rfl | rfl | hdigit
  · decide
  · decide
  · refine ⟨?_, ?_⟩
    · simp only [CaseTables.asciiMark, CaseTables.smallAscii, Bool.and_eq_true,
        Bool.not_eq_true', Bool.and_eq_false_iff, decide_eq_true_eq, decide_eq_false_iff_not]
      omega
    · rintro rfl
      exact absurd hdigit (by decide)

/-! ### Names with a date -/

theorem dropProvider_append {s d : JsString} (hd : ∀ u ∈ d, u ≠ unit '/') :
    dropProvider (s ++ d) = dropProvider s ++ d := by
  have hdrop : d.dropWhile (fun u => u ≠ unit '/') = [] := by
    rw [List.dropWhile_eq_nil_iff]
    exact fun u hu => decide_eq_true (hd u hu)
  unfold dropProvider
  rw [List.dropWhile_append, hdrop]
  cases hs : s.dropWhile fun u => u ≠ unit '/' with
  | nil => simp
  | cons v rest =>
      have hsne : s ≠ [] := by
        rintro rfl
        exact absurd hs (by simp)
      rw [List.head?_append_of_ne_nil _ hsne]
      simp only [List.isEmpty_cons, Bool.false_eq_true, if_false, List.cons_append]
      split <;> rfl

/-- A name from whose normal form no date is dropped. -/
def Undated (model : JsString) : Prop :=
  dropSuffix isDateSuffix (dropProvider (T.toLowerCase model))
    = dropProvider (T.toLowerCase model)

theorem normalizeModel_dated {model d : JsString} (hd : isDateSuffix d = true)
    (hundated : Undated T model) : normalizeModel T (model ++ d) = normalizeModel T model := by
  have hmarks : d.all CaseTables.asciiMark = true := by
    rw [List.all_eq_true]
    exact fun u hu => (isDateUnit_mark (List.all_eq_true.mp (isDateSuffix_units hd) u hu)).1
  have hslash (u) (hu : u ∈ d) : u ≠ unit '/' :=
    (isDateUnit_mark (List.all_eq_true.mp (isDateSuffix_units hd) u hu)).2
  unfold normalizeModel
  rw [T.toLowerCase_append_marks model hmarks, dropProvider_append hslash,
    dropSuffix_date hd, hundated]

theorem dated_not_inherited {model d : JsString} (hd : isDateSuffix d = true) :
    model ++ d ∉ inheritedNames := by
  have hlast : ∀ name ∈ inheritedNames, name.getLast?.any isDateUnit = false := by
    decide +kernel
  intro hmem
  obtain ⟨u, hu⟩ : ∃ u, d.getLast? = some u := by
    cases hlast : d.getLast? with
    | some u => exact ⟨u, rfl⟩
    | none =>
        rw [List.getLast?_eq_none_iff.mp hlast] at hd
        exact absurd hd (by decide)
  have hunit := List.all_eq_true.mp (isDateSuffix_units hd) u (List.mem_of_getLast? hu)
  have hname := hlast _ hmem
  rw [List.getLast?_append, hu] at hname
  exact absurd (hunit.symm.trans hname) (by decide)

/-! ### The pricing as a whole -/

/-- The price of a model is the rule's, and what it costs is a number that is not negative
and no more than the count of tokens. -/
structure Priced (model : JsString) : Prop where
  longest : ∀ p, resolvePricing T model = .price p ↔ LongestPrice T (normalizeModel T model) p
  cost : ∀ inputTokens outputTokens : ℚ, 0 ≤ inputTokens → 0 ≤ outputTokens →
    ∃ c, estimateCost T model inputTokens outputTokens = some c ∧ 0 ≤ c ∧
      ∀ most, inputTokens ≤ most → outputTokens ≤ most → c ≤ most

theorem LongestPrice.bounds {normalized : JsString} {p : Price}
    (h : LongestPrice T normalized p) :
    0 ≤ p.input ∧ 0 ≤ p.output ∧ p.input + p.output ≤ 1000000 := by
  have hbounds : ∀ m ∈ modelPricing,
      0 ≤ m.2.input ∧ 0 ≤ m.2.output ∧ m.2.input + m.2.output ≤ 1000000 := by decide +kernel
  cases h with
  | known m hm _ _ => exact hbounds m hm.1
  | default _ => exact hbounds (js "default", defaultPrice) (by decide +kernel)

theorem estimateCost_bounds {model : JsString} {p : Price}
    (hresolve : resolvePricing T model = .price p) (hinput : 0 ≤ p.input) (houtput : 0 ≤ p.output)
    (hsum : p.input + p.output ≤ 1000000) {x y : ℚ} (hx : 0 ≤ x) (hy : 0 ≤ y) :
    ∃ c, estimateCost T model x y = some c ∧ 0 ≤ c ∧ ∀ most, x ≤ most → y ≤ most → c ≤ most := by
  unfold estimateCost
  rw [hresolve]
  refine ⟨_, rfl, by positivity, fun most hxm hym => ?_⟩
  have hmost : 0 ≤ most := hx.trans hxm
  calc x / 1000000 * p.input + y / 1000000 * p.output
      ≤ most / 1000000 * p.input + most / 1000000 * p.output := by gcongr
    _ = most / 1000000 * (p.input + p.output) := by ring
    _ ≤ most / 1000000 * 1000000 := by gcongr
    _ = most := by ring

theorem priced_iff (model : JsString) : Priced T model ↔ model ∉ inheritedNames := by
  constructor
  · intro h hmem
    obtain ⟨c, hc, -⟩ := h.cost 0 0 (le_refl _) (le_refl _)
    unfold estimateCost at hc
    rw [resolvePricing_inherited T hmem] at hc
    exact absurd hc (by simp)
  · intro h
    obtain ⟨p, hresolve, hrule⟩ := resolvePricing_price T h
    obtain ⟨hinput, houtput, hsum⟩ := hrule.bounds
    refine ⟨fun q => ⟨fun hq => ?_, fun hq => ?_⟩, fun x y hx hy =>
      estimateCost_bounds T hresolve hinput houtput hsum hx hy⟩
    · rwa [PricingEntry.price.inj (hq.symm.trans hresolve)]
    · rw [hresolve, hrule.unique T hq]

/-- Models of one normal form have one price, unless one has an inherited name. -/
theorem resolvePricing_eq_iff {model other : JsString}
    (hnorm : normalizeModel T other = normalizeModel T model) (h : model ∉ inheritedNames) :
    resolvePricing T other = resolvePricing T model ↔ other ∉ inheritedNames := by
  obtain ⟨p, hresolve, hrule⟩ := resolvePricing_price T h
  constructor
  · intro heq hmem
    rw [hresolve, resolvePricing_inherited T hmem] at heq
    exact absurd heq (by simp)
  · intro hother
    obtain ⟨q, hresolve', hrule'⟩ := resolvePricing_price T hother
    rw [hresolve, hresolve', hrule.unique T (hnorm ▸ hrule')]

/-- **A model is priced by the longest known name.**  The rule holds and the cost is a number
exactly for the models without an inherited name; and between such names neither the case
nor a date makes a difference. -/
theorem resolvePricing_longest :
    (∀ model, Priced T model ↔ model ∉ inheritedNames) ∧
    (∀ model other, T.toLowerCase other = T.toLowerCase model → model ∉ inheritedNames →
      (resolvePricing T other = resolvePricing T model ↔ other ∉ inheritedNames)) ∧
    ∀ model d, isDateSuffix d = true → Undated T model →
      (resolvePricing T (model ++ d) = resolvePricing T model ↔ model ∉ inheritedNames) := by
  refine ⟨priced_iff T, fun model other hlower h => ?_, fun model d hd hundated => ?_⟩
  · refine resolvePricing_eq_iff T ?_ h
    unfold normalizeModel
    rw [hlower]
  · rw [eq_comm]
    exact resolvePricing_eq_iff T (normalizeModel_dated T hd hundated).symm
      (dated_not_inherited hd)

/-- A model is priced, and neither its case nor a date changes its price. -/
theorem resolvePricing_longest_dated :
    Priced .basic (js "gpt-4o") ∧
      resolvePricing .basic (js "GPT-4o") = resolvePricing .basic (js "gpt-4o") ∧
      resolvePricing .basic (js "gpt-4o" ++ js "-2024-08-06")
        = resolvePricing .basic (js "gpt-4o") := by
  obtain ⟨hpriced, hcase, hdated⟩ := resolvePricing_longest .basic
  have hown : js "gpt-4o" ∉ inheritedNames := by decide +kernel
  have hupper : js "GPT-4o" ∉ inheritedNames := by decide +kernel
  have hundated : Undated .basic (js "gpt-4o") := by
    unfold Undated
    decide +kernel
  exact ⟨(hpriced _).mpr hown, (hcase _ _ (by decide +kernel) hown).mpr hupper,
    (hdated _ _ (by decide +kernel) hundated).mpr hown⟩

/-- The constructor every object has is no price. -/
theorem constructor_not_priced : ¬ Priced CaseTables.basic (js "constructor") := by
  intro h
  exact (priced_iff CaseTables.basic (js "constructor")).mp h (by decide +kernel)

end Kaiban
