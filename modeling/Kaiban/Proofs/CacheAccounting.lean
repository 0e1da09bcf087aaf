/-
What the prompt cache saves is what it takes off the price.

A price is the full price of the tokens less what is saved on the cached ones.  Both are
rounded on their own, so together they may miss the rounded full price by one.
-/
import Kaiban.Economics
import Mathlib.Tactic.FieldSimp
import Mathlib.Tactic.Linarith
import Mathlib.Tactic.Positivity
import Mathlib.Tactic.Ring

namespace Kaiban

/-! ### Rounding -/

theorem mathRound_mono {x y : ℚ} (h : x ≤ y) : mathRound x ≤ mathRound y :=
  Int.floor_mono (add_le_add_left h _)

theorem mathRound_nonneg {x : ℚ} (h : 0 ≤ x) : 0 ≤ mathRound x := by
  unfold mathRound
  apply Int.floor_nonneg.mpr
  positivity

/-- Two amounts that are rounded apart miss their rounded sum by one at most. -/
theorem mathRound_add (x y : ℚ) : |mathRound x + mathRound y - mathRound (x + y)| ≤ 1 := by
  unfold mathRound
  have hx := Int.floor_le (x + 1 / 2)
  have hx' := Int.lt_floor_add_one (x + 1 / 2)
  have hy := Int.floor_le (y + 1 / 2)
  have hy' := Int.lt_floor_add_one (y + 1 / 2)
  have hxy := Int.floor_le (x + y + 1 / 2)
  have hxy' := Int.lt_floor_add_one (x + y + 1 / 2)
  have hlow : (-2 : ℚ) < ((⌊x + 1 / 2⌋ + ⌊y + 1 / 2⌋ - ⌊x + y + 1 / 2⌋ : ℤ) : ℚ) := by
    push_cast
    linarith
  have hhigh : ((⌊x + 1 / 2⌋ + ⌊y + 1 / 2⌋ - ⌊x + y + 1 / 2⌋ : ℤ) : ℚ) < 2 := by
    push_cast
    linarith
  have hlow' : (-2 : ℤ) < ⌊x + 1 / 2⌋ + ⌊y + 1 / 2⌋ - ⌊x + y + 1 / 2⌋ := by exact_mod_cast hlow
  have hhigh' : ⌊x + 1 / 2⌋ + ⌊y + 1 / 2⌋ - ⌊x + y + 1 / 2⌋ < 2 := by exact_mod_cast hhigh
  exact abs_le.mpr ⟨by omega, by omega⟩

/-! ### Counts -/

theorem nonNegative_eq (x : ℚ) : nonNegative (some x) = max x 0 := by
  unfold nonNegative
  dsimp only
  split
  · rename_i h
    exact (max_eq_left h.le).symm
  · rename_i h
    exact (max_eq_right (not_lt.mp h)).symm

theorem nonNegative_nonneg (value : Option ℚ) : 0 ≤ nonNegative value := by
  cases value with
  | none => exact le_rfl
  | some x =>
      rw [nonNegative_eq]
      exact le_max_right _ _

theorem nonNegative_mono {x y : ℚ} (h : x ≤ y) : nonNegative (some x) ≤ nonNegative (some y) := by
  rw [nonNegative_eq, nonNegative_eq]
  exact max_le_max_right 0 h

/-- The cached tokens, as they are priced. -/
def cachedTokens (usage : TokenUsage) : ℚ :=
  clamp (nonNegative usage.cachedInputTokens) 0 (nonNegative (some usage.inputTokens))

theorem cachedTokens_eq (usage : TokenUsage) : cachedTokens usage
    = min (nonNegative usage.cachedInputTokens) (nonNegative (some usage.inputTokens)) := by
  unfold cachedTokens clamp
  rw [max_eq_left (nonNegative_nonneg _)]

theorem cachedTokens_nonneg (usage : TokenUsage) : 0 ≤ cachedTokens usage := by
  rw [cachedTokens_eq]
  exact le_min (nonNegative_nonneg _) (nonNegative_nonneg _)

theorem cachedTokens_le (usage : TokenUsage) :
    cachedTokens usage ≤ nonNegative (some usage.inputTokens) := by
  rw [cachedTokens_eq]
  exact min_le_right _ _

/-! ### Prices -/

/-- A pricing of the kind the accounting is for. -/
structure ModelPricing.Sound (pricing : ModelPricing) : Prop where
  input : 0 ≤ pricing.inputPer1k
  output : 0 ≤ pricing.outputPer1k
  discount : ∀ d, pricing.cacheDiscount = some d → 0 ≤ d ∧ d ≤ 1

/-- The share of the price of a cached token that is still paid. -/
def ModelPricing.paidShare (pricing : ModelPricing) : ℚ := pricing.cacheDiscount.getD 1

theorem ModelPricing.Sound.paidShare {pricing : ModelPricing} (h : pricing.Sound) :
    0 ≤ pricing.paidShare ∧ pricing.paidShare ≤ 1 := by
  unfold ModelPricing.paidShare
  cases hd : pricing.cacheDiscount with
  | none => exact ⟨zero_le_one, le_rfl⟩
  | some d => exact h.discount d hd

/-- What the usage costs without a cache, before it is rounded. -/
def fullPrice (usage : TokenUsage) (pricing : ModelPricing) : ℚ :=
  nonNegative (some usage.inputTokens) / 1000 * pricing.inputPer1k +
    nonNegative (some usage.outputTokens) / 1000 * pricing.outputPer1k

/-- What the cache saves, before it is rounded. -/
def savedPrice (usage : TokenUsage) (pricing : ModelPricing) : ℚ :=
  cachedTokens usage / 1000 * pricing.inputPer1k * (1 - pricing.paidShare)

/-- **What is paid and what is saved are the full price.** -/
theorem priceUsage_eq (usage : TokenUsage) (pricing : ModelPricing) : priceUsage usage pricing
    = ⟨mathRound (fullPrice usage pricing - savedPrice usage pricing),
      mathRound (savedPrice usage pricing)⟩ := by
  have hpaid : (nonNegative (some usage.inputTokens) - cachedTokens usage) / 1000
        * pricing.inputPer1k
      + cachedTokens usage / 1000 * pricing.inputPer1k * pricing.paidShare
      + nonNegative (some usage.outputTokens) / 1000 * pricing.outputPer1k
      = fullPrice usage pricing - savedPrice usage pricing := by
    unfold fullPrice savedPrice
    ring
  rw [← hpaid]
  rfl

/-- The usage without any cached tokens. -/
def TokenUsage.uncached (usage : TokenUsage) : TokenUsage :=
  { usage with cachedInputTokens := none }

theorem priceUsage_uncached (usage : TokenUsage) (pricing : ModelPricing) :
    (priceUsage usage.uncached pricing).costUnits = mathRound (fullPrice usage pricing) := by
  have hnone : cachedTokens usage.uncached = 0 := by
    rw [cachedTokens_eq]
    exact min_eq_left (nonNegative_nonneg _)
  have hsaved : savedPrice usage.uncached pricing = 0 := by
    unfold savedPrice
    rw [hnone]
    ring
  rw [priceUsage_eq, hsaved, sub_zero]
  rfl

theorem savedPrice_nonneg (usage : TokenUsage) {pricing : ModelPricing} (h : pricing.Sound) :
    0 ≤ savedPrice usage pricing := by
  have hin := h.input
  have hcached := cachedTokens_nonneg usage
  have hshare : 0 ≤ 1 - pricing.paidShare := sub_nonneg.mpr h.paidShare.2
  unfold savedPrice
  positivity

/-- The price of a token of the input is not below what it is when it is cached. -/
theorem savedPrice_le (usage : TokenUsage) {pricing : ModelPricing} (h : pricing.Sound) :
    savedPrice usage pricing ≤ fullPrice usage pricing := by
  have hin := h.input
  have hout := h.output
  have htokens := nonNegative_nonneg (some usage.outputTokens)
  have hcached := cachedTokens_nonneg usage
  have hle := cachedTokens_le usage
  have hshare : 1 - pricing.paidShare ≤ 1 := by linarith [h.paidShare.1]
  calc savedPrice usage pricing
      ≤ cachedTokens usage / 1000 * pricing.inputPer1k := by
        unfold savedPrice
        apply mul_le_of_le_one_right _ hshare
        positivity
    _ ≤ nonNegative (some usage.inputTokens) / 1000 * pricing.inputPer1k := by gcongr
    _ ≤ fullPrice usage pricing := by
        unfold fullPrice
        apply le_add_of_nonneg_right
        positivity

/-- More input costs no less, whatever of it is cached. -/
theorem paid_input_mono {usage : TokenUsage} {pricing : ModelPricing} (h : pricing.Sound) {more : ℚ}
    (hmore : usage.inputTokens ≤ more) :
    fullPrice usage pricing - savedPrice usage pricing
      ≤ fullPrice { usage with inputTokens := more } pricing
        - savedPrice { usage with inputTokens := more } pricing := by
  have hin := h.input
  obtain ⟨hlow, hhigh⟩ := h.paidShare
  have htokens : nonNegative (some usage.inputTokens) ≤ nonNegative (some more) :=
    nonNegative_mono hmore
  -- The cached tokens grow by no more than the tokens.
  have hcached : cachedTokens { usage with inputTokens := more } - cachedTokens usage
      ≤ nonNegative (some more) - nonNegative (some usage.inputTokens) := by
    rw [cachedTokens_eq, cachedTokens_eq]
    dsimp only
    rcases le_total (nonNegative usage.cachedInputTokens)
      (nonNegative (some usage.inputTokens)) with hle | hle
    · rw [min_eq_left hle, min_eq_left (hle.trans htokens)]
      linarith
    · rw [min_eq_right hle]
      linarith [min_le_right (nonNegative usage.cachedInputTokens) (nonNegative (some more))]
  have hgrown : cachedTokens usage ≤ cachedTokens { usage with inputTokens := more } := by
    rw [cachedTokens_eq, cachedTokens_eq]
    exact min_le_min_left _ htokens
  have hsaved : savedPrice { usage with inputTokens := more } pricing - savedPrice usage pricing
      ≤ (nonNegative (some more) - nonNegative (some usage.inputTokens)) / 1000
        * pricing.inputPer1k := by
    calc savedPrice { usage with inputTokens := more } pricing - savedPrice usage pricing
        = (cachedTokens { usage with inputTokens := more } - cachedTokens usage) / 1000
          * pricing.inputPer1k * (1 - pricing.paidShare) := by
          unfold savedPrice
          ring
      _ ≤ (cachedTokens { usage with inputTokens := more } - cachedTokens usage) / 1000
          * pricing.inputPer1k := by
          apply mul_le_of_le_one_right
          · have hdiff := sub_nonneg.mpr hgrown
            positivity
          · linarith
      _ ≤ _ := by gcongr
  have hfull : fullPrice { usage with inputTokens := more } pricing - fullPrice usage pricing
      = (nonNegative (some more) - nonNegative (some usage.inputTokens)) / 1000
        * pricing.inputPer1k := by
    unfold fullPrice
    ring
  linarith

theorem savedPrice_cached_mono (usage : TokenUsage) {pricing : ModelPricing} (h : pricing.Sound)
    {c c' : Option ℚ} (hc : nonNegative c ≤ nonNegative c') :
    savedPrice { usage with cachedInputTokens := c } pricing
      ≤ savedPrice { usage with cachedInputTokens := c' } pricing := by
  have hin := h.input
  have hshare : 0 ≤ 1 - pricing.paidShare := sub_nonneg.mpr h.paidShare.2
  have hcached : cachedTokens { usage with cachedInputTokens := c }
      ≤ cachedTokens { usage with cachedInputTokens := c' } := by
    rw [cachedTokens_eq, cachedTokens_eq]
    exact min_le_min_right _ hc
  unfold savedPrice
  gcongr

/-! ### Conservation -/

/-- What holds of the price of a usage.  The rounded full price is what the same usage costs
without any cached tokens. -/
structure PriceConserved (usage : TokenUsage) (pricing : ModelPricing) : Prop where
  full : (priceUsage usage.uncached pricing).costUnits = mathRound (fullPrice usage pricing)
  cost : 0 ≤ (priceUsage usage pricing).costUnits ∧
    (priceUsage usage pricing).costUnits ≤ mathRound (fullPrice usage pricing)
  savings : 0 ≤ (priceUsage usage pricing).cacheSavings
  sum : |(priceUsage usage pricing).costUnits + (priceUsage usage pricing).cacheSavings
    - mathRound (fullPrice usage pricing)| ≤ 1
  input : ∀ more, usage.inputTokens ≤ more → (priceUsage usage pricing).costUnits
    ≤ (priceUsage { usage with inputTokens := more } pricing).costUnits
  output : ∀ more, usage.outputTokens ≤ more → (priceUsage usage pricing).costUnits
    ≤ (priceUsage { usage with outputTokens := more } pricing).costUnits
  cached : ∀ c c', c ≤ c' →
    (priceUsage { usage with cachedInputTokens := some c' } pricing).costUnits
      ≤ (priceUsage { usage with cachedInputTokens := some c } pricing).costUnits
  missing : ∀ c, (priceUsage { usage with cachedInputTokens := some c } pricing).costUnits
    ≤ (priceUsage usage.uncached pricing).costUnits

/-- **The price of a usage and what its cache saves are its full price**, up to the rounding,
and the price follows the counts. -/
theorem priceUsage_conserved (usage : TokenUsage) {pricing : ModelPricing} (h : pricing.Sound) :
    PriceConserved usage pricing where
  full := priceUsage_uncached usage pricing
  cost := by
    rw [priceUsage_eq]
    refine ⟨mathRound_nonneg (sub_nonneg.mpr (savedPrice_le usage h)), mathRound_mono ?_⟩
    exact sub_le_self _ (savedPrice_nonneg usage h)
  savings := by
    rw [priceUsage_eq]
    exact mathRound_nonneg (savedPrice_nonneg usage h)
  sum := by
    rw [priceUsage_eq]
    have hsum := mathRound_add (fullPrice usage pricing - savedPrice usage pricing)
      (savedPrice usage pricing)
    rwa [sub_add_cancel] at hsum
  input more hmore := by
    rw [priceUsage_eq, priceUsage_eq]
    exact mathRound_mono (paid_input_mono h hmore)
  output more hmore := by
    rw [priceUsage_eq, priceUsage_eq]
    apply mathRound_mono
    have hout := h.output
    have htokens : nonNegative (some usage.outputTokens) ≤ nonNegative (some more) :=
      nonNegative_mono hmore
    have hsaved : savedPrice { usage with outputTokens := more } pricing
        = savedPrice usage pricing := rfl
    have hfull :
        fullPrice usage pricing ≤ fullPrice { usage with outputTokens := more } pricing := by
      unfold fullPrice
      dsimp only
      gcongr
    linarith
  cached c c' hc := by
    rw [priceUsage_eq, priceUsage_eq]
    exact mathRound_mono (sub_le_sub_left (savedPrice_cached_mono usage h (nonNegative_mono hc)) _)
  missing c := by
    rw [priceUsage_eq, priceUsage_eq]
    have hnone : nonNegative none ≤ nonNegative (some c) := nonNegative_nonneg (some c)
    exact mathRound_mono (sub_le_sub_left (savedPrice_cached_mono usage h hnone) _)

/-- A usage half of whose input is cached at a quarter of the price. -/
theorem priceUsage_conserved_cached :
    PriceConserved ⟨1000, 200, some 500⟩ ⟨3, 15, some (1 / 4)⟩ := by
  refine priceUsage_conserved _ ⟨by norm_num, by norm_num, fun d hd => ?_⟩
  obtain rfl := Option.some.inj hd
  exact ⟨by norm_num, by norm_num⟩

end Kaiban
