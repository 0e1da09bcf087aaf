/-
Facts about spend.

A ceiling is reported exactly when it is reached, and a total never falls below it again,
however sums are rounded.  The spend of a value does not depend on its surrogates or on the
numbers JSON cannot say.

A saved spend is read back as it was saved, but for a total that is infinite: JSON has no
text for it, so it is saved as `null` and read as zero.
-/
import Kaiban.Budget
import Kaiban.Lib.Json.RoundTrip

open JsString

namespace Kaiban

theorem filter_eq_some_iff {x : Option Amount} {t : Total} {c : Amount} :
    (x.filter fun c : Amount => (c : Total) ≤ t) = some c ↔ x = some c ∧ c ≤ t := by
  simp [Option.filter_eq_some_iff]

/-! ### Numbers -/

section

variable [Arithmetic]

/-- The total is a number of the language, or infinite. -/
def Total.IsNumber (t : Total) : Prop := ∀ a : Amount, t = a → Arithmetic.round a = a

theorem Amount.number_of_isNumber {a : Amount} (h : Arithmetic.round a = a) : a.number = a := by
  unfold Amount.number
  rw [h]
  rfl

theorem Amount.number_isNumber (a : Amount) :
    Arithmetic.round a.number = (a.number : Amount) := by
  unfold Amount.number
  cases h : Arithmetic.round a using WithTop.recTopCoe with
  | top => exact Arithmetic.round_zero
  | coe b => exact Arithmetic.round_round h

theorem Amount.number_zero : (0 : Amount).number = 0 :=
  Amount.number_of_isNumber Arithmetic.round_zero

theorem Total.isNumber_add (t : Total) (a : Amount) : (t.add a).IsNumber := by
  intro b hb
  cases t using WithTop.recTopCoe with
  | top => exact absurd hb WithTop.top_ne_coe
  | coe x => exact Arithmetic.round_round hb

/-- **A total does not fall**, however its sums are rounded. -/
theorem Total.le_add {t : Total} (h : t.IsNumber) (a : Amount) : t ≤ t.add a := by
  cases t using WithTop.recTopCoe with
  | top => exact le_rfl
  | coe x =>
      calc (x : Total) = Arithmetic.round x := (h x rfl).symm
        _ ≤ Arithmetic.round (x + a) := Arithmetic.round_mono (le_add_of_nonneg_right a.2)

/-- A number that is added is in the total. -/
theorem Total.le_add_number {a : Amount} (h : Arithmetic.round a = a) (t : Total) :
    a ≤ t.add a := by
  cases t using WithTop.recTopCoe with
  | top => exact le_top
  | coe x =>
      calc (a : Total) = Arithmetic.round a := h.symm
        _ ≤ Arithmetic.round (x + a) := Arithmetic.round_mono (le_add_of_nonneg_left x.2)

/-- Both totals are numbers of the language. -/
structure RunningTotals.AreNumbers (t : RunningTotals) : Prop where
  totalTokens : t.totalTokens.IsNumber
  estimatedCost : t.estimatedCost.IsNumber

theorem RunningTotals.areNumbers_add (t : RunningTotals) (a : SpendTotals) :
    (t.add a).AreNumbers := ⟨t.totalTokens.isNumber_add _, t.estimatedCost.isNumber_add _⟩

theorem RunningTotals.areNumbers_zero : (0 : RunningTotals).AreNumbers := by
  refine ⟨fun a ha => ?_, fun a ha => ?_⟩ <;>
    exact WithTop.coe_inj.mp ha ▸ Arithmetic.round_zero

/-- An amount of each kind that is a number. -/
structure SpendTotals.AreNumbers (s : SpendTotals) : Prop where
  totalTokens : Arithmetic.round s.totalTokens = s.totalTokens
  estimatedCost : Arithmetic.round s.estimatedCost = s.estimatedCost

/-- What is added to nothing is not rounded. -/
theorem SpendTotals.AreNumbers.first {s : SpendTotals} (h : s.AreNumbers) :
    (0 : RunningTotals).add s = s.running := by
  refine RunningTotals.ext ?_ ?_
  · show Arithmetic.round (0 + s.totalTokens) = s.totalTokens
    rw [zero_add, h.totalTokens]
  · show Arithmetic.round (0 + s.estimatedCost) = s.estimatedCost
    rw [zero_add, h.estimatedCost]

/-! ### Ceilings -/

/-- **A reason is given exactly when a ceiling is reached.** -/
theorem overBudgetReason_isSome (totals : RunningTotals) (budget : WorkflowBudget) :
    (overBudgetReason totals budget).isSome = true ↔ OverBudget totals budget := by
  unfold overBudgetReason OverBudget
  cases htok : (isCapped budget.maxTokens).filter
      fun c : Amount => (c : Total) ≤ totals.totalTokens with
  | some c => exact iff_of_true rfl (.inl ⟨c, filter_eq_some_iff.mp htok⟩)
  | none =>
      have hno : ¬ ∃ c, isCapped budget.maxTokens = some c ∧ c ≤ totals.totalTokens := by
        rintro ⟨c, hc⟩
        rw [filter_eq_some_iff.mpr hc] at htok
        exact absurd htok (by simp)
      cases hcost : (isCapped budget.maxCostUsd).filter
          fun c : Amount => (c : Total) ≤ totals.estimatedCost with
      | some c => exact iff_of_true rfl (.inr ⟨c, filter_eq_some_iff.mp hcost⟩)
      | none =>
          have hno' : ¬ ∃ c, isCapped budget.maxCostUsd = some c ∧ c ≤ totals.estimatedCost := by
            rintro ⟨c, hc⟩
            rw [filter_eq_some_iff.mpr hc] at hcost
            exact absurd hcost (by simp)
          exact iff_of_false (by simp) (not_or.mpr ⟨hno, hno'⟩)

theorem overBudgetReason_eq_none {totals : RunningTotals} {budget : WorkflowBudget} :
    overBudgetReason totals budget = none ↔ ¬ OverBudget totals budget := by
  rw [← overBudgetReason_isSome, Bool.not_eq_true, Option.isSome_eq_false_iff,
    Option.isNone_iff_eq_none]

/-- A ceiling that is reached is reached by larger totals. -/
theorem OverBudget.mono {totals more : RunningTotals} {budget : WorkflowBudget}
    (h : OverBudget totals budget) (htokens : totals.totalTokens ≤ more.totalTokens)
    (hcost : totals.estimatedCost ≤ more.estimatedCost) : OverBudget more budget := by
  rcases h with ⟨c, hc, hle⟩ | ⟨c, hc, hle⟩
  · exact .inl ⟨c, hc, hle.trans htokens⟩
  · exact .inr ⟨c, hc, hle.trans hcost⟩

/-- Spending more does not bring a workflow back under its ceiling. -/
theorem OverBudget.add {totals : RunningTotals} {budget : WorkflowBudget}
    (h : OverBudget totals budget) (hnumbers : totals.AreNumbers) (more : SpendTotals) :
    OverBudget (totals.add more) budget :=
  h.mono (Total.le_add hnumbers.totalTokens _) (Total.le_add hnumbers.estimatedCost _)

/-- A spend that reaches a ceiling brings any totals there. -/
theorem OverBudget.added {spend : SpendTotals} {budget : WorkflowBudget}
    (h : OverBudget spend.running budget) (hnumbers : spend.AreNumbers) (totals : RunningTotals) :
    OverBudget (totals.add spend) budget :=
  h.mono (Total.le_add_number hnumbers.totalTokens _)
    (Total.le_add_number hnumbers.estimatedCost _)

theorem isCapped_pos {n : JsNumber} {c : Amount} (h : isCapped n = some c) : 0 < c := by
  unfold isCapped at h
  dsimp only at h
  split at h
  · rename_i hpos
    exact Option.some.inj h ▸ hpos
  · exact absurd h (by simp)

/-- A workflow that has spent nothing is under its ceilings. -/
theorem not_overBudget_zero (budget : WorkflowBudget) : ¬ OverBudget 0 budget := by
  have hnot : ∀ {c : Amount}, 0 < c → ¬ (c : Total) ≤ (0 : Amount) := fun hpos hle =>
    absurd (WithTop.coe_le_coe.mp hle) (not_le.mpr hpos)
  rintro (⟨c, hc, hle⟩ | ⟨c, hc, hle⟩)
  · exact hnot (isCapped_pos hc) hle
  · exact hnot (isCapped_pos hc) hle

end

/-! ### Blurred values -/

theorem cleanNumber_zero : cleanNumber (some (JsNumber.ofInt 0)) = 0 := by
  have h : ¬ (0 : Decimal) < Decimal.ofInt 0 := by
    rw [Decimal.lt_iff, Decimal.coe_ofInt]
    simp
  simp only [cleanNumber, JsNumber.ofInt, dif_neg h]

theorem get_blurMembers {k : JsString} (hk : ∀ u ∈ k, u.val < 0xD800)
    (ms : List (JsString × Json)) :
    Json.get (Json.blurMembers ms) k = (Json.get ms k).map Json.blur := by
  have hmap : ∀ ms : List (JsString × Json),
      Json.blurMembers ms = ms.map fun m => (mask m.1, Json.blur m.2) := by
    intro ms
    induction ms with
    | nil => rfl
    | cons m rest ih => rw [Json.blurMembers, ih, List.map_cons]
  have hname : ∀ m : JsString × Json, (mask m.1 = k) ↔ m.1 = k := fun m =>
    JsNumber.mask_eq_iff hk m.1
  unfold Json.get
  rw [hmap, ← List.map_reverse, List.find?_map]
  simp only [Function.comp_def, hname, Option.map_map]

theorem clean_object (ms : List (JsString × Json)) :
    cleanNumber ((Json.objectText ms).map JsNumber.ofText) = 0 := by
  unfold Json.objectText
  by_cases h : (Json.get ms (js "toString")).isSome = true
  · rw [if_pos h]
    rfl
  · have hnan : JsNumber.ofText (js "[object Object]") = .nan := by decide
    rw [if_neg h, Option.map_some, hnan]
    rfl

/-- Two elements are joined by a comma, and no number has one. -/
theorem clean_join_two (v w : Json) (vs : List Json) :
    cleanNumber ((Json.joinText (v :: w :: vs)).map JsNumber.ofText) = 0 := by
  have hmore : ∀ t, Json.moreText (w :: vs) = some t → unit ',' ∈ t := by
    intro t ht
    cases w with
    | null =>
        obtain ⟨r, -, rfl⟩ := Option.map_eq_some_iff.mp (by simpa only [Json.moreText] using ht)
        simp
    | _ =>
        simp only [Json.moreText] at ht
        obtain ⟨x, -, hx⟩ := Option.bind_eq_some_iff.mp ht
        obtain ⟨r, -, rfl⟩ := Option.map_eq_some_iff.mp hx
        simp
  have hjoin : ∀ t, Json.joinText (v :: w :: vs) = some t → unit ',' ∈ t := by
    intro t ht
    cases v with
    | null => exact hmore t (by simpa only [Json.joinText] using ht)
    | _ =>
        simp only [Json.joinText] at ht
        obtain ⟨x, -, hx⟩ := Option.bind_eq_some_iff.mp ht
        obtain ⟨r, hr, rfl⟩ := Option.map_eq_some_iff.mp hx
        exact List.mem_append_right x (hmore r hr)
  cases ht : Json.joinText (v :: w :: vs) with
  | none => rfl
  | some t => rw [Option.map_some, JsNumber.ofText_comma (hjoin t ht)]; rfl

theorem joinText_single (v : Json) :
    Json.joinText [v] = if v matches .null then some [] else Json.toText v := by
  cases v <;> simp [Json.joinText, Json.moreText]

/-- The amount of a list with one element does not change when the element is blurred. -/
theorem clean_join_blur : ∀ v : Json,
    cleanNumber ((Json.joinText [Json.blur v]).map JsNumber.ofText)
      = cleanNumber ((Json.joinText [v]).map JsNumber.ofText)
  | .null => rfl
  | .bool b => rfl
  | .num n => by
      have hempty : JsNumber.ofText [] = JsNumber.ofInt 0 := rfl
      have hzero := cleanNumber_zero
      have hnan : JsNumber.ofText (js "NaN") = .nan := by decide
      have hpos : JsNumber.ofText (js "Infinity") = .posInfinity := by decide
      have hneg : JsNumber.ofText (js "-Infinity") = .negInfinity := by decide
      cases n with
      | finite d => rfl
      | nan =>
          simp only [Json.blur, Json.printedNumber, Json.joinText, Json.moreText, Json.toText,
            JsNumber.text, Option.bind_some, Option.map_some, List.append_nil, hempty, hzero, hnan]
          rfl
      | posInfinity =>
          simp only [Json.blur, Json.printedNumber, Json.joinText, Json.moreText, Json.toText,
            JsNumber.text, Option.bind_some, Option.map_some, List.append_nil, hempty, hzero, hpos]
          rfl
      | negInfinity =>
          simp only [Json.blur, Json.printedNumber, Json.joinText, Json.moreText, Json.toText,
            JsNumber.text, Option.bind_some, Option.map_some, List.append_nil, hempty, hzero, hneg]
          rfl
  | .str s => by
      simp [Json.blur, joinText_single, Json.toText, JsNumber.ofText_mask]
  | .arr [] => rfl
  | .arr [w] => by
      have hw := clean_join_blur w
      simpa [Json.blur, Json.blurItems, joinText_single (.arr _), Json.toText] using hw
  | .arr (w :: x :: vs) => by
      have h1 := clean_join_two w x vs
      have h2 := clean_join_two (Json.blur w) (Json.blur x) (Json.blurItems vs)
      simp only [Json.blur, Json.blurItems, joinText_single, Json.toText] at h1 h2 ⊢
      simpa using h2.trans h1.symm
  | .obj ms => by
      simp [Json.blur, joinText_single, Json.toText, clean_object]

/-- **The amount a value stands for does not depend on what blurring drops.** -/
theorem cleanSpendAmount_blur (v : Json) :
    cleanSpendAmount (some (Json.blur v)) = cleanSpendAmount (some v) := by
  have hzero := cleanNumber_zero
  cases v with
  | null => rfl
  | bool b => rfl
  | num n =>
      cases n with
      | finite d => rfl
      | nan => exact hzero
      | posInfinity => exact hzero
      | negInfinity => exact hzero
  | str s =>
      simp [Json.blur, cleanSpendAmount, Json.toNumber, JsNumber.ofText_mask]
  | arr vs =>
      rcases vs with _ | ⟨v, _ | ⟨w, vs⟩⟩
      · rfl
      · exact clean_join_blur v
      · simp only [Json.blur, Json.blurItems, cleanSpendAmount, Json.toNumber, clean_join_two]
  | obj ms => simp only [Json.blur, cleanSpendAmount, Json.toNumber, clean_object]

theorem usageNames_small : ∀ k ∈ usageNames, ∀ u ∈ k, u.val < 0xD800 := by
  have h : ∀ w ∈ ["inputTokens", "outputTokens", "estimatedCost"], ∀ u ∈ js w, u.val < 0xD800 := by
    intro w hw
    apply js_small
    simp only [List.mem_cons, List.not_mem_nil, or_false] at hw
    rcases hw with rfl | rfl | rfl <;> rfl
  intro k hk
  obtain ⟨w, hw, rfl⟩ : ∃ w ∈ ["inputTokens", "outputTokens", "estimatedCost"], js w = k := by
    simpa [usageNames, eq_comm] using hk
  exact h w hw

/-- **The spend of a value does not depend on what blurring drops.** -/
theorem spendOfValue_blur (v : Json) : spendOfValue (Json.blur v) = spendOfValue v := by
  cases v with
  | null => rfl
  | bool b => rfl
  | num n => cases n <;> rfl
  | str s => rfl
  | arr vs => rfl
  | obj ms =>
      have hget : ∀ k ∈ usageNames,
          Json.get (Json.blurMembers ms) k = (Json.get ms k).map Json.blur := fun k hk =>
        get_blurMembers (usageNames_small k hk) ms
      have hnone : (usageNames.all fun k => (Json.get (Json.blurMembers ms) k).isNone)
          = usageNames.all fun k => (Json.get ms k).isNone := by
        rw [Bool.eq_iff_iff, List.all_eq_true, List.all_eq_true]
        refine forall_congr' fun k => forall_congr' fun hk => ?_
        rw [hget k hk, Option.isNone_map]
      have hclean : ∀ k ∈ usageNames,
          cleanSpendAmount (Json.get (Json.blurMembers ms) k)
            = cleanSpendAmount (Json.get ms k) := by
        intro k hk
        rw [hget k hk]
        cases Json.get ms k with
        | none => rfl
        | some v => exact cleanSpendAmount_blur v
      simp only [Json.blur, spendOfValue, hnone]
      rw [hclean (js "inputTokens") (by simp [usageNames]),
        hclean (js "outputTokens") (by simp [usageNames]),
        hclean (js "estimatedCost") (by simp [usageNames])]

/-- Printing a value and reading it back keeps its spend. -/
theorem spendOfValue_printed (v : Json) : spendOfValue (Json.printed v) = spendOfValue v := by
  rw [← spendOfValue_blur (Json.printed v), Json.blur_printed, spendOfValue_blur]

/-! ### The saved spend -/

theorem cleanSpendAmount_amount (a : Amount) :
    cleanSpendAmount (some (.num (.finite a.val))) = a := by
  simp only [cleanSpendAmount, Json.toNumber, cleanNumber]
  by_cases h : 0 < a.val
  · rw [dif_pos h]
  · rw [dif_neg h]
    exact Subtype.ext (le_antisymm a.2 (not_lt.mp h))

section

variable [Arithmetic]

/-- What is read of a total that was saved: infinity is saved as `null`, and read as zero. -/
def RunningTotals.read (t : RunningTotals) : SpendTotals :=
  ⟨t.totalTokens.untopD 0, t.estimatedCost.untopD 0⟩

theorem Total.read_number {t : Total} (h : t.IsNumber) :
    (cleanSpendAmount (some (Json.printedNumber t.toNumber))).number = t.untopD 0 := by
  cases t using WithTop.recTopCoe with
  | top =>
      have hclean : cleanSpendAmount (some .null) = 0 := cleanNumber_zero
      show (cleanSpendAmount (some .null)).number = 0
      rw [hclean, Amount.number_zero]
  | coe x =>
      have hprinted : Arithmetic.round (Arithmetic.printed x) = x :=
        Arithmetic.round_printed (h x rfl)
      show (cleanSpendAmount (some (.num (.finite (Arithmetic.printed x).val)))).number = x
      rw [cleanSpendAmount_amount]
      unfold Amount.number
      rw [hprinted]
      rfl

/-- The object a saved spend is read as. -/
theorem parse_persistedText (totals : RunningTotals) (stop : Option JsString) :
    Json.parse (persistedText totals stop) = some (.obj
      [(js "totalTokens", Json.printedNumber totals.totalTokens.toNumber),
        (js "estimatedCost", Json.printedNumber totals.estimatedCost.toNumber),
        (js "stop", stop.elim .null fun detail =>
          .obj [(js "reason", .str (js "budget_exceeded")), (js "detail", .str detail)])]) := by
  unfold persistedText
  rw [Json.parse_stringify]
  cases stop <;> rfl

/-- A total that has become infinite is saved as `null`. -/
theorem member_persistedText {totals : RunningTotals} {stop : Option JsString} :
    (totals.totalTokens = ⊤ →
      member (Json.parse (persistedText totals stop)) (js "totalTokens") = some .null) ∧
    (totals.estimatedCost = ⊤ →
      member (Json.parse (persistedText totals stop)) (js "estimatedCost") = some .null) := by
  have h1 : js "stop" ≠ js "totalTokens" ∧ js "stop" ≠ js "estimatedCost" ∧
      js "estimatedCost" ≠ js "totalTokens" := by decide
  obtain ⟨hst, hse, het⟩ := h1
  rw [parse_persistedText]
  refine ⟨fun h => ?_, fun h => ?_⟩
  · simp only [member, Json.get, List.reverse_cons, List.reverse_nil, List.nil_append,
      List.cons_append, List.find?_cons, hst, het, decide_false, decide_true, Option.map_some, h]
    rfl
  · simp only [member, Json.get, List.reverse_cons, List.reverse_nil, List.nil_append,
      List.cons_append, List.find?_cons, hse, decide_false, decide_true, Option.map_some, h]
    rfl

/-- **A saved spend is read back as it was saved**, but for the totals that have become
infinite. -/
theorem parsePersistedSpend_text {totals : RunningTotals} (h : totals.AreNumbers)
    (stop : Option JsString) :
    parsePersistedSpend (some (persistedText totals stop)) = some ⟨totals.read, stop⟩ := by
  have h1 : js "stop" ≠ js "totalTokens" ∧ js "stop" ≠ js "estimatedCost" ∧
      js "estimatedCost" ≠ js "totalTokens" ∧ js "detail" ≠ js "reason" := by decide
  obtain ⟨hst, hse, het, hdr⟩ := h1
  have htokens := Total.read_number h.totalTokens
  have hcost := Total.read_number h.estimatedCost
  unfold parsePersistedSpend
  rw [Option.bind_some, parse_persistedText]
  cases stop with
  | none => simp [member, Json.get, hst, hse, het, htokens, hcost, RunningTotals.read]
  | some detail =>
      simp [member, Json.get, hst, hse, het, hdr, htokens, hcost, RunningTotals.read, textOrEmpty,
        Json.toText]

/-- A total is finite when the budget has a ceiling for it. -/
structure FiniteWhereCapped (totals : RunningTotals) (budget : WorkflowBudget) : Prop where
  tokens : (isCapped budget.maxTokens).isSome = true → totals.totalTokens ≠ ⊤
  cost : (isCapped budget.maxCostUsd).isSome = true → totals.estimatedCost ≠ ⊤

/-- What is read of finite totals reaches the ceilings they reach. -/
theorem OverBudget.read {totals : RunningTotals} {budget : WorkflowBudget}
    (h : OverBudget totals budget) (hfinite : FiniteWhereCapped totals budget) :
    OverBudget totals.read.running budget := by
  have hle : ∀ {c : Amount} {t : Total}, c ≤ t → t ≠ ⊤ → (c : Total) ≤ (t.untopD 0 : Amount) := by
    intro c t hct htop
    obtain ⟨a, rfl⟩ := WithTop.ne_top_iff_exists.mp htop
    exact hct
  rcases h with ⟨c, hc, hct⟩ | ⟨c, hc, hct⟩
  · exact .inl ⟨c, hc, hle hct (hfinite.tokens (by rw [hc]; rfl))⟩
  · exact .inr ⟨c, hc, hle hct (hfinite.cost (by rw [hc]; rfl))⟩

/-- What is read of totals reaches no other ceilings. -/
theorem OverBudget.of_read {totals : RunningTotals} {budget : WorkflowBudget}
    (h : OverBudget totals.read.running budget) : OverBudget totals budget := by
  have hle : ∀ t : Total, ((t.untopD 0 : Amount) : Total) ≤ t := by
    intro t
    cases t using WithTop.recTopCoe with
    | top => exact le_top
    | coe a => exact le_rfl
  exact h.mono (hle totals.totalTokens) (hle totals.estimatedCost)

/-- What is read of an entry is a number. -/
theorem parsePersistedSpend_areNumbers {entry : Option JsString} {saved : PersistedSpend}
    (h : parsePersistedSpend entry = some saved) : saved.totals.AreNumbers := by
  have htotals : saved.totals =
      ⟨(cleanSpendAmount (member (entry.bind Json.parse) (js "totalTokens"))).number,
        (cleanSpendAmount (member (entry.bind Json.parse) (js "estimatedCost"))).number⟩ := by
    unfold parsePersistedSpend at h
    dsimp only at h
    split at h
    · split at h
      · obtain ⟨detail, -, rfl⟩ := Option.map_eq_some_iff.mp h
        rfl
      · obtain rfl := Option.some.inj h
        rfl
    · obtain rfl := Option.some.inj h
      rfl
  rw [htotals]
  exact ⟨Amount.number_isNumber _, Amount.number_isNumber _⟩

/-- A record without an entry has no spend. -/
theorem parsePersistedSpend_none : parsePersistedSpend none = some ⟨0, none⟩ := by
  have hclean : (cleanSpendAmount none).number = 0 := by
    have hzero : cleanSpendAmount none = 0 := cleanNumber_zero
    rw [hzero, Amount.number_zero]
  show some (PersistedSpend.mk ⟨(cleanSpendAmount none).number, (cleanSpendAmount none).number⟩
    none) = _
  rw [hclean]
  rfl

end

end Kaiban
