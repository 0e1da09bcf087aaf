/-
The three readers of a handler's usage: the worker's tally, the workflow's account and what
a caller is told.

The account cleans every field and needs one of them to be there.  The worker's tally
cleans them alike, but counts only a result with both token fields.  A caller is told the
numbers as they are, a negative one included, and nothing at all when a member does not
convert.  So the three agree exactly when these differences do not show.
-/
import Kaiban.ParseHandlerResult
import Kaiban.Publisher
import Kaiban.Proofs.Budget
import Kaiban.Lib.Json.Ordered

open JsString

namespace Kaiban

variable {ms : List (JsString × Json)}

/-- The three readers count the same for a result. -/
structure ReadersAgree (v : Json) : Prop where
  /-- The worker's tally and the workflow's account. -/
  tallied : ((extractTokenMetadata v).getD 0).totalTokens
    = ((spendOfHandlerResult (.str (Json.stringify v))).getD 0).totalTokens
  /-- The workflow's account and what a caller is told of an answer. -/
  told : ∀ ms, v = .obj ms → (Json.get ms (js "answer")).isSome = true →
    (parseHandlerResult (Json.stringify v)).inputTokens
        + (parseHandlerResult (Json.stringify v)).outputTokens
      = ((spendOfHandlerResult (.str (Json.stringify v))).getD 0).totalTokens.val ∧
    (parseHandlerResult (Json.stringify v)).estimatedCost
      = ((spendOfHandlerResult (.str (Json.stringify v))).getD 0).estimatedCost.val

/-- A member as the JSON text of the result carries it. -/
def sentMember (ms : List (JsString × Json)) (k : JsString) : Option Json :=
  (Json.get ms k).map Json.printed

/-- No conversion of the answer or of a usage member throws. -/
def Convertible (ms : List (JsString × Json)) : Prop :=
  (textOrEmpty (sentMember ms (js "answer"))).isSome = true ∧
    ∀ k ∈ usageNames, (toSafeNumber (sentMember ms k)).isSome = true

/-- The differences between the readers do not show in a result. -/
structure ReadsAlike (ms : List (JsString × Json)) : Prop where
  /-- A token field that is alone counts nothing. -/
  both : (Json.get ms (js "inputTokens")).isSome = true ∧
      (Json.get ms (js "outputTokens")).isSome = true ∨
    cleanSpendAmount (Json.get ms (js "inputTokens")) = 0 ∧
      cleanSpendAmount (Json.get ms (js "outputTokens")) = 0
  /-- No member is negative. -/
  positive : (Json.get ms (js "answer")).isSome = true → Convertible ms →
    ∀ k ∈ usageNames, ∀ d, toSafeNumber (sentMember ms k) = some d → 0 ≤ d
  /-- When a member does not convert, no other counts. -/
  converts : (Json.get ms (js "answer")).isSome = true → ¬ Convertible ms →
    ∀ k ∈ usageNames, cleanSpendAmount (sentMember ms k) = 0

/-! ### One member -/

theorem get_printedMembers (ms : List (JsString × Json)) (k : JsString) :
    Json.get (Json.printedMembers ms) k = sentMember ms k := by
  unfold sentMember Json.get
  rw [Json.printedMembers_eq, ← List.map_reverse, List.find?_map, Option.map_map, Option.map_map]
  rfl

theorem cleanSpendAmount_none : cleanSpendAmount none = 0 := cleanNumber_zero

theorem cleanNumber_finite (d : Decimal) :
    (cleanNumber (some (.finite d))).val = max d 0 := by
  by_cases h : 0 < d
  · simp only [cleanNumber, dif_pos h, max_eq_left h.le]
  · simp only [cleanNumber, dif_neg h, max_eq_right (not_lt.mp h)]
    rfl

/-- What a caller is told of a member, less what is negative, is what is accounted. -/
theorem cleanSpendAmount_of_safe {x : Option Json} {d : Decimal} (h : toSafeNumber x = some d) :
    (cleanSpendAmount x).val = max d 0 := by
  have hzero : (0 : Amount).val = max 0 0 := (max_self 0).symm
  cases x with
  | none =>
      obtain rfl := Option.some.inj h
      rw [cleanSpendAmount_none]
      exact hzero
  | some v =>
      cases v with
      | null =>
          obtain rfl := Option.some.inj h
          exact (congrArg Subtype.val cleanNumber_zero).trans hzero
      | _ =>
          rw [toSafeNumber.eq_3 _ (by simp)] at h
          obtain ⟨n, hn, rfl⟩ := Option.map_eq_some_iff.mp h
          rw [cleanSpendAmount.eq_3 _ (by simp), hn]
          cases n with
          | finite d => exact cleanNumber_finite d
          | _ => exact hzero

/-! ### What each reader counts -/

/-- The workflow's account cleans each member. -/
theorem spendOfValue_total (ms : List (JsString × Json)) :
    (spendOfValue (.obj ms)).getD 0
      = ⟨cleanSpendAmount (Json.get ms (js "inputTokens"))
          + cleanSpendAmount (Json.get ms (js "outputTokens")),
        cleanSpendAmount (Json.get ms (js "estimatedCost"))⟩ := by
  rw [spendOfValue]
  split
  · rename_i hnone
    have habsent : ∀ k ∈ usageNames, cleanSpendAmount (Json.get ms k) = 0 := by
      intro k hk
      rw [Option.isNone_iff_eq_none.mp (List.all_eq_true.mp hnone k hk)]
      exact cleanSpendAmount_none
    rw [habsent (js "inputTokens") (by simp [usageNames]),
      habsent (js "outputTokens") (by simp [usageNames]),
      habsent (js "estimatedCost") (by simp [usageNames]), add_zero]
    rfl
  · rfl

theorem spendOf_stringify (v : Json) :
    spendOfHandlerResult (.str (Json.stringify v)) = spendOfValue (Json.printed v) := by
  simp only [spendOfHandlerResult, Json.parse_stringify, Option.bind_some]

theorem parse_object (ms : List (JsString × Json)) :
    parseHandlerResult (Json.stringify (.obj ms))
      = (parsedMembers (Json.printedMembers ms)).getD ⟨Json.stringify (.obj ms), 0, 0, 0⟩ := by
  unfold parseHandlerResult
  rw [Json.parse_stringify]
  rfl

theorem amounts_add_eq_zero {a b : Amount} : a + b = 0 ↔ a = 0 ∧ b = 0 := by
  rw [Subtype.ext_iff, Subtype.ext_iff, Subtype.ext_iff]
  exact add_eq_zero_iff_of_nonneg a.2 b.2

/-! ### The worker's tally -/

theorem tallied_iff (ms : List (JsString × Json)) :
    ((extractTokenMetadata (.obj ms)).getD 0).totalTokens
        = ((spendOfHandlerResult (.str (Json.stringify (.obj ms)))).getD 0).totalTokens ↔
      ((Json.get ms (js "inputTokens")).isSome = true ∧
          (Json.get ms (js "outputTokens")).isSome = true ∨
        cleanSpendAmount (Json.get ms (js "inputTokens")) = 0 ∧
          cleanSpendAmount (Json.get ms (js "outputTokens")) = 0) := by
  rw [spendOf_stringify, spendOfValue_printed, spendOfValue_total]
  unfold extractTokenMetadata
  dsimp only
  split
  · rename_i hboth
    exact ⟨fun _ => .inl hboth, fun _ => rfl⟩
  · rename_i hnot
    refine ⟨fun h => .inr (amounts_add_eq_zero.mp h.symm), fun h => ?_⟩
    rcases h with hboth | hzero
    · exact absurd hboth hnot
    · exact (amounts_add_eq_zero.mpr hzero).symm

/-! ### What a caller is told -/

/-- The members of a result whose conversions all succeed. -/
theorem parsedMembers_converts (hanswer : (Json.get ms (js "answer")).isSome = true)
    (hconv : Convertible ms) :
    ∃ text input output cost, toSafeNumber (sentMember ms (js "inputTokens")) = some input ∧
      toSafeNumber (sentMember ms (js "outputTokens")) = some output ∧
      toSafeNumber (sentMember ms (js "estimatedCost")) = some cost ∧
      parsedMembers (Json.printedMembers ms) = some ⟨text, input, output, cost⟩ := by
  obtain ⟨answer, ha⟩ := Option.isSome_iff_exists.mp hanswer
  obtain ⟨text, ht⟩ := Option.isSome_iff_exists.mp hconv.1
  obtain ⟨input, hi⟩ :=
    Option.isSome_iff_exists.mp (hconv.2 (js "inputTokens") (by simp [usageNames]))
  obtain ⟨output, ho⟩ :=
    Option.isSome_iff_exists.mp (hconv.2 (js "outputTokens") (by simp [usageNames]))
  obtain ⟨cost, hc⟩ :=
    Option.isSome_iff_exists.mp (hconv.2 (js "estimatedCost") (by simp [usageNames]))
  have hsent : sentMember ms (js "answer") = some (Json.printed answer) := by
    rw [sentMember, ha, Option.map_some]
  rw [hsent] at ht
  refine ⟨text, input, output, cost, hi, ho, hc, ?_⟩
  unfold parsedMembers
  rw [get_printedMembers, get_printedMembers, get_printedMembers, get_printedMembers, hsent, hi,
    ho, hc]
  simp [ht]

/-- A result with a member that does not convert is an answer as a whole. -/
theorem parsedMembers_throws (hconv : ¬ Convertible ms) :
    parsedMembers (Json.printedMembers ms) = none := by
  rw [Option.eq_none_iff_forall_ne_some]
  intro r hr
  unfold parsedMembers at hr
  rw [get_printedMembers, get_printedMembers, get_printedMembers, get_printedMembers] at hr
  simp only [Option.bind_eq_bind, Option.bind_eq_some_iff] at hr
  obtain ⟨answer, ha, text, ht, input, hi, output, ho, cost, hc, -⟩ := hr
  refine hconv ⟨?_, fun k hk => ?_⟩
  · rw [ha, ht]
    rfl
  · simp only [usageNames, List.mem_cons, List.not_mem_nil, or_false] at hk
    rcases hk with rfl | rfl | rfl
    · rw [hi]; rfl
    · rw [ho]; rfl
    · rw [hc]; rfl

theorem told_iff (hanswer : (Json.get ms (js "answer")).isSome = true) :
    ((parseHandlerResult (Json.stringify (.obj ms))).inputTokens
        + (parseHandlerResult (Json.stringify (.obj ms))).outputTokens
      = ((spendOfHandlerResult (.str (Json.stringify (.obj ms)))).getD 0).totalTokens.val ∧
    (parseHandlerResult (Json.stringify (.obj ms))).estimatedCost
      = ((spendOfHandlerResult (.str (Json.stringify (.obj ms)))).getD 0).estimatedCost.val) ↔
    (Convertible ms → ∀ k ∈ usageNames, ∀ d, toSafeNumber (sentMember ms k) = some d → 0 ≤ d) ∧
      (¬ Convertible ms → ∀ k ∈ usageNames, cleanSpendAmount (sentMember ms k) = 0) := by
  rw [parse_object, spendOf_stringify, Json.printed, spendOfValue_total, get_printedMembers,
    get_printedMembers, get_printedMembers]
  have hall : ∀ P : JsString → Prop, (∀ k ∈ usageNames, P k) ↔
      P (js "inputTokens") ∧ P (js "outputTokens") ∧ P (js "estimatedCost") := by
    intro P
    simp [usageNames]
  by_cases hconv : Convertible ms
  · obtain ⟨text, input, output, cost, hi, ho, hc, hparsed⟩ :=
      parsedMembers_converts hanswer hconv
    rw [hparsed, Option.getD_some, hall]
    simp only [hi, ho, hc, Option.some.injEq, forall_eq', hconv, not_true_eq_false,
      IsEmpty.forall_iff, and_true, forall_const]
    have hsum : ∀ a b : Amount, (a + b).val = a.val + b.val := fun _ _ => rfl
    rw [hsum, cleanSpendAmount_of_safe hi, cleanSpendAmount_of_safe ho,
      cleanSpendAmount_of_safe hc,
      add_eq_add_iff_eq_and_eq (le_max_left input 0) (le_max_left output 0), left_eq_sup,
      left_eq_sup, left_eq_sup, and_assoc]
  · rw [parsedMembers_throws hconv, Option.getD_none]
    simp only [hconv, IsEmpty.forall_iff, true_and, not_false_eq_true, forall_const]
    rw [hall fun k => cleanSpendAmount (sentMember ms k) = 0, add_zero, ← and_assoc,
      ← amounts_add_eq_zero, Subtype.ext_iff, Subtype.ext_iff]
    exact and_congr eq_comm eq_comm

/-! ### Every result -/

/-- **The three readers agree on a result exactly when none of their differences shows**: a
token field without the other, a negative number, a member that does not convert. -/
theorem readers_agree_iff (v : Json) :
    ReadersAgree v ↔ ∀ ms, v = .obj ms → ReadsAlike ms := by
  constructor
  · rintro h ms rfl
    have htold := fun hanswer => (told_iff hanswer).mp (h.told ms rfl hanswer)
    exact ⟨(tallied_iff ms).mp h.tallied, fun ha => (htold ha).1, fun ha => (htold ha).2⟩
  · intro h
    refine ⟨?_, fun ms hv hanswer => ?_⟩
    · cases v with
      | obj ms => exact (tallied_iff ms).mpr (h ms rfl).both
      | _ =>
          rw [spendOf_stringify, spendOfValue_printed]
          rfl
    · subst hv
      exact (told_iff hanswer).mpr ⟨(h ms rfl).positive hanswer, (h ms rfl).converts hanswer⟩

/-- An answer whose cost the model's price table does not know. -/
def unpricedAnswer : Json :=
  .obj [(js "answer", .str (js "ok")), (js "inputTokens", .num (JsNumber.ofInt 10)),
    (js "outputTokens", .num (JsNumber.ofInt 5)), (js "estimatedCost", .num (JsNumber.ofInt (-1)))]

/-- The caller is told a negative cost for it, which is accounted as none. -/
theorem unpriced_told_negative :
    ¬ ReadersAgree unpricedAnswer ∧
    (parseHandlerResult (Json.stringify unpricedAnswer)).estimatedCost = Decimal.ofInt (-1) ∧
    ((spendOfHandlerResult (.str (Json.stringify unpricedAnswer))).getD 0).estimatedCost = 0 := by
  have htold : (parseHandlerResult (Json.stringify unpricedAnswer)).estimatedCost
      = Decimal.ofInt (-1) := by decide +kernel
  have hspent : ((spendOfHandlerResult (.str (Json.stringify unpricedAnswer))).getD 0).estimatedCost
      = 0 := by decide +kernel
  refine ⟨fun h => ?_, htold, hspent⟩
  have heq := (h.told _ rfl (by decide)).2
  rw [htold, hspent] at heq
  exact absurd heq (by decide +kernel)

end Kaiban
