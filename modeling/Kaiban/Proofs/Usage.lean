/-
What becomes of a handler's usage.

The usage of a result reaches the orchestrator exactly when the completion fits the cap,
or the result is a text that the cap cuts only after its closing brace.  A larger result
that is an object is replaced by the text `[object Object]`, and its usage is gone.
-/
import Kaiban.Completion
import Kaiban.Proofs.Budget
import Kaiban.Proofs.Capping

open JsString

namespace Kaiban

/-- The completion of a result fits the cap as it is, or the result is a text that is
cut only after its closing brace. -/
def SurvivesCap (result : Json) : Prop :=
  jsonBytes (.obj (completedData result)) ≤ maxPublishDataLen ∨
    ∃ s, result = .str s ∧ ClosesInBudget textBudget s

/-! ### The fields around the result -/

theorem names_ne : js "result" ≠ js "status" ∧ js "_truncated" ≠ js "status" ∧
    js "_truncated" ≠ js "result" := by
  decide

theorem cappedFields_completed (r : Json) : cappedFields (completedData r)
    = [(js "status", .str (js "success")), (js "result", .str []),
      (js "_truncated", .bool true)] := by
  obtain ⟨h1, h2, h3⟩ := names_ne
  simp [cappedFields, completedData, spread, Json.get, List.find?_cons, h1, h2, h3, h2.symm,
    h3.symm]

/-- The other fields of a capped completion take 50 bytes. -/
theorem resultBudget_completed (r : Json) :
    resultBudget (completedData r) = textBudget ∧ textBudget = 65486 := by
  have hsize : jsonBytes (.obj [(js "status", .str (js "success")), (js "result", .str []),
      (js "_truncated", .bool true)]) = 50 := by decide +kernel
  have hall : ∀ r, resultBudget (completedData r) = 65486 := by
    intro r
    rw [resultBudget, cappedFields_completed, hsize]
    unfold maxPublishDataLen
    omega
  have htext : textBudget = 65486 := by
    rw [textBudget, hall]
    omega
  rw [hall, htext]
  exact ⟨by omega, rfl⟩

/-- The data of a completion that was capped. -/
theorem capped_completed (r : Json) (t : JsString) :
    spread (cappedFields (completedData r)) [(js "result", .str t)]
      = [(js "status", .str (js "success")), (js "result", .str t),
        (js "_truncated", .bool true)] := by
  obtain ⟨h1, h2, h3⟩ := names_ne
  rw [cappedFields_completed]
  simp [spread, Json.get, List.find?_cons, h1, h3, h3.symm]

theorem transported_eq (data : MessageData) :
    transported data = some (Json.printedMembers data) := by
  unfold transported
  rw [Json.parse_stringify]
  rfl

/-- A capped text arrives as it was cut. -/
theorem accounted_capped (r : Json) (t : JsString) :
    ((transported (spread (cappedFields (completedData r)) [(js "result", .str t)])).bind
      fun data => spendOfHandlerResult (.str (completionText data)))
      = spendOfHandlerResult (.str t) := by
  obtain ⟨-, -, h⟩ := names_ne
  rw [capped_completed, transported_eq]
  simp [completionText, Json.printedMembers, Json.printed, Json.get, h]

/-! ### A completion that fits -/

theorem get_completed (r : Json) :
    Json.get (Json.printedMembers (completedData r)) (js "result") = some (Json.printed r) := by
  simp [completedData, Json.printedMembers, Json.get]

/-- **The usage of a result that fits arrives.** -/
theorem accounted_of_fits {r : Json} (hcarries : (spendOfHandlerResult r).isSome = true)
    (h : jsonBytes (.obj (completedData r)) ≤ maxPublishDataLen) :
    accountedSpend r = spendOfHandlerResult r := by
  unfold accountedSpend capDataSize
  rw [if_pos h]
  simp only
  rw [transported_eq, Option.bind_some, completionText, get_completed]
  cases r with
  | str s => rfl
  | obj ms =>
      simp only [Json.printed, spendOfHandlerResult, Json.parse_stringify, Option.bind_some]
      have hprinted := spendOfValue_printed (.obj (Json.printedMembers ms))
      simp only [Json.printed] at hprinted
      rw [hprinted]
      exact spendOfValue_printed (.obj ms)
  | null => simp [spendOfHandlerResult, spendOfValue] at hcarries
  | bool b => simp [spendOfHandlerResult, spendOfValue] at hcarries
  | num n => simp [spendOfHandlerResult, spendOfValue] at hcarries
  | arr vs => simp [spendOfHandlerResult, spendOfValue] at hcarries

/-! ### An object that does not fit -/

/-- **The usage of an object that does not fit is lost.** -/
theorem accounted_object {ms : List (JsString × Json)}
    (h : ¬ jsonBytes (.obj (completedData (.obj ms))) ≤ maxPublishDataLen) :
    accountedSpend (.obj ms) = none := by
  unfold accountedSpend capDataSize
  rw [if_neg h]
  by_cases hto : (Json.get ms (js "toString")).isSome = true
  · have htext : valueText (.obj ms) = .error () := by
      simp only [valueText, Json.toText, Json.objectText, if_pos hto]
    rw [htext]
    rfl
  · have htext : valueText (.obj ms) = .ok (js "[object Object]") := by
      simp only [valueText, Json.toText, Json.objectText, if_neg hto]
    rw [htext]
    simp only [Except.map]
    rw [accounted_capped, (resultBudget_completed _).1]
    have hlen : byteLength (js "[object Object]") = 15 := by decide +kernel
    have hjson : jsonBytes (.str (js "[object Object]")) = 17 := by decide +kernel
    have hparse : (Json.parse (js "[object Object]")).isNone = true := by decide +kernel
    have hkept : ∀ n : ℕ, 15 ≤ n →
        capRounds n (js "[object Object]") (n : ℤ).toNat = js "[object Object]" := by
      intro n hn
      have hcut : truncateToBytes (js "[object Object]") (n : ℤ).toNat = js "[object Object]" :=
        truncateToBytes_of_le (by rw [hlen]; omega)
      rw [capRounds, hcut]
      refine if_pos (.inl ?_)
      rw [excess, hjson]
      omega
    rw [hkept textBudget (by rw [(resultBudget_completed .null).2]; omega), spendOfHandlerResult,
      Option.isNone_iff_eq_none.mp hparse]
    rfl

/-! ### A text that does not fit -/

/-- A completion that does not fit has a text whose JSON is over the budget. -/
theorem over_of_not_fits {s : JsString}
    (h : ¬ jsonBytes (.obj (completedData (.str s))) ≤ maxPublishDataLen) :
    textBudget < escapedSize (codePoints s) := by
  have hbrace : byteLength [unit '\x7d'] = 1 := by decide +kernel
  have hopen : unit '\x7b' :: (Json.quote (js "status") ++ unit ':' :: (Json.quote (js "success")
      ++ unit ',' :: (Json.quote (js "result") ++ [unit ':'])))
      = js "\x7b\"status\":\"success\",\"result\":" := by decide +kernel
  have hfirst : Json.stringify (.obj (completedData (.str s)))
      = js "\x7b\"status\":\"success\",\"result\":" ++ (Json.quote s ++ [unit '\x7d']) := by
    rw [← hopen]
    simp [completedData, Json.stringify, Json.members, Json.moreMembers]
  have hlen : byteLength (js "\x7b\"status\":\"success\",\"result\":") = 29 := by decide +kernel
  rw [jsonBytes, hfirst, (encodable_small (js_small rfl)).byteLength_append,
    byteLength_quote, hlen, hbrace] at h
  rw [(resultBudget_completed .null).2]
  unfold maxPublishDataLen at h
  omega

/-- What the agent makes of a text that does not fit. -/
theorem accounted_text {s : JsString}
    (h : ¬ jsonBytes (.obj (completedData (.str s))) ≤ maxPublishDataLen) :
    accountedSpend (.str s) = spendOfHandlerResult (.str (capRounds textBudget s textBudget)) := by
  have htext : valueText (.str s) = .ok s := by
    simp only [valueText, Json.toText]
  unfold accountedSpend capDataSize
  rw [if_neg h, htext]
  simp only [Except.map]
  rw [accounted_capped, (resultBudget_completed _).1, Int.toNat_natCast]

/-- Two texts with one mask carry the same usage. -/
theorem spendOfHandlerResult_mask {s t : JsString} (h : mask s = mask t) :
    spendOfHandlerResult (.str s) = spendOfHandlerResult (.str t) := by
  simp only [spendOfHandlerResult]
  rcases Json.map_eq_map (Json.parse_alike h) with ⟨h1, h2⟩ | ⟨v, w, h1, h2, hvw⟩
  · rw [h1, h2]
  · rw [h1, h2, Option.bind_some, Option.bind_some, ← spendOfValue_blur v, hvw, spendOfValue_blur]

theorem ofPoints_ne_nil {cs : List ℕ} (h : cs ≠ []) : ofPoints cs ≠ [] := by
  cases cs with
  | nil => exact absurd rfl h
  | cons c rest =>
      have hunits : pointUnits c ≠ [] := by
        unfold pointUnits
        split <;> simp
      simp [hunits]

theorem ofPoints_val (s : JsString) : ofPoints (s.map Fin.val) = s := by
  induction s with
  | nil => rfl
  | cons u rest ih => rw [List.map_cons, ofPoints_cons, pointUnits_unit, ih, List.singleton_append]

/-- A text that carries usage is the text of an object. -/
theorem carries_text {s : JsString} (h : (spendOfHandlerResult (.str s)).isSome = true) :
    ∃ ms, Json.parse s = some (.obj ms) := by
  simp only [spendOfHandlerResult] at h
  cases hp : Json.parse s with
  | none => simp [hp] at h
  | some v =>
      cases v with
      | obj ms => exact ⟨ms, rfl⟩
      | null => simp [hp, spendOfValue] at h
      | bool b => simp [hp, spendOfValue] at h
      | num n => simp [hp, spendOfValue] at h
      | str t => simp [hp, spendOfValue] at h
      | arr vs => simp [hp, spendOfValue] at h

theorem parse_space {s : JsString} (h : ∀ u ∈ s, Json.isSpace u = true) : Json.parse s = none := by
  unfold Json.parse
  rw [Json.skipSpace_eq_nil.mpr h]
  have hnil : ∀ n, Json.readValue n [] = none := by
    intro n
    cases n <;> simp [Json.readValue]
  rw [hnil]

/-- **A text over the budget keeps its usage exactly when its closing brace fits.** -/
theorem accounted_text_iff {s : JsString}
    (hcarries : (spendOfHandlerResult (.str s)).isSome = true)
    (h : ¬ jsonBytes (.obj (completedData (.str s))) ≤ maxPublishDataLen) :
    accountedSpend (.str s) = spendOfHandlerResult (.str s) ↔ ClosesInBudget textBudget s := by
  obtain ⟨ms, hparse⟩ := carries_text hcarries
  have hover := over_of_not_fits h
  have hbudget : 0 < textBudget := by
    rw [(resultBudget_completed .null).2]
    omega
  have hcore : core s ≠ [] := by
    intro hc
    have hs := core_append_tail s
    rw [hc, List.nil_append] at hs
    rw [parse_space (s := s) (by rw [← hs]; exact tail_isSpace s)] at hparse
    exact absurd hparse (by simp)
  have hpos : 0 < byteLength (core s) := by
    obtain ⟨u, rest, hu⟩ := List.exists_cons_of_ne_nil hcore
    have hne : codePoints (core s) ≠ [] := by
      intro hc
      have := ofPoints_codePoints (core s)
      rw [hc, ofPoints_nil] at this
      exact hcore this.symm
    obtain ⟨c, cs, hcs⟩ := List.exists_cons_of_ne_nil hne
    rw [byteLength_eq, hcs, pointsSize_cons]
    have := utf8Size_pos c
    omega
  obtain ⟨hkept, hcut⟩ := capRounds_text hpos hover hbudget
  rw [accounted_text h]
  constructor
  · intro heq
    by_contra hno
    obtain ⟨pre, hpre, hne, hrounds⟩ := hcut hno
    obtain ⟨rest, hrest⟩ := hpre
    -- The text kept stops before the closing brace, so it does not parse.
    have hsplit : ofPoints pre ++ (ofPoints rest ++ tail s) = s := by
      rw [← List.append_assoc, ← ofPoints_append, hrest, ofPoints_codePoints, core_append_tail]
    have hrestne : rest ≠ [] := by
      rintro rfl
      exact hne (by simpa using hrest)
    have hvisible : ∃ u ∈ ofPoints rest ++ tail s, Json.isSpace u = false := by
      obtain ⟨u, hu⟩ : ∃ u, (core s).getLast? = some u :=
        ⟨_, List.getLast?_eq_getLast_of_ne_nil hcore⟩
      have hlast : (ofPoints rest).getLast? = some u := by
        have hcs : core s = ofPoints pre ++ ofPoints rest := by
          rw [← ofPoints_append, hrest, ofPoints_codePoints]
        rwa [hcs, List.getLast?_append_of_ne_nil _ (ofPoints_ne_nil hrestne)] at hu
      exact ⟨u, List.mem_append_left _ (List.mem_of_getLast? hlast), core_getLast s u hu⟩
    have hnone : Json.parse (ofPoints pre) = none := by
      rw [← hsplit] at hparse
      exact Json.parse_obj_cut hparse hvisible
    have hmask : mask (capRounds textBudget s textBudget) = mask (ofPoints pre) := by
      rw [hrounds]
      refine mask_ofPoints_replaced fun c hc => codePoints_lt (core s) c ?_
      rw [← hrest]
      exact List.mem_append_left _ hc
    have hlost : spendOfHandlerResult (.str (ofPoints pre)) = none := by
      simp only [spendOfHandlerResult, hnone, Option.bind_none]
    rw [← heq, spendOfHandlerResult_mask hmask, hlost] at hcarries
    exact absurd hcarries (by simp)
  · intro hcloses
    obtain ⟨x, hrounds⟩ := hkept hcloses
    have htake : ∀ u ∈ (tail s).take x, Json.isSpace u = true := fun u hu =>
      tail_isSpace s u (List.mem_of_mem_take hu)
    have hmask : mask (capRounds textBudget s textBudget) = mask (core s ++ (tail s).take x) := by
      rw [hrounds, ofPoints_append, mask_append, mask_append,
        mask_ofPoints_replaced (codePoints_lt _), ofPoints_codePoints, ofPoints_val]
    rw [spendOfHandlerResult_mask hmask]
    have hwhole := hparse
    rw [← core_append_tail s] at hwhole
    simp only [spendOfHandlerResult]
    rw [Json.parse_obj_space hwhole (tail_isSpace s) htake, hparse]

/-! ### Every result -/

/-- **The usage of a result reaches the orchestrator exactly when the result survives
the cap.** -/
theorem usage_conserved_iff (r : Json) (hcarries : (spendOfHandlerResult r).isSome = true) :
    accountedSpend r = spendOfHandlerResult r ↔ SurvivesCap r := by
  unfold SurvivesCap
  by_cases hfits : jsonBytes (.obj (completedData r)) ≤ maxPublishDataLen
  · exact ⟨fun _ => .inl hfits, fun _ => accounted_of_fits hcarries hfits⟩
  · cases r with
    | str s =>
        rw [accounted_text_iff hcarries hfits]
        refine ⟨fun h => .inr ⟨s, rfl, h⟩, ?_⟩
        rintro (h | ⟨t, ht, h⟩)
        · exact absurd h hfits
        · rwa [Json.str.inj ht]
    | obj ms =>
        rw [accounted_object hfits]
        refine ⟨fun h => ?_, ?_⟩
        · rw [← h] at hcarries
          exact absurd hcarries (by simp)
        · rintro (h | ⟨t, ht, -⟩)
          · exact absurd h hfits
          · exact absurd ht (by simp)
    | null => simp [spendOfHandlerResult, spendOfValue] at hcarries
    | bool b => simp [spendOfHandlerResult, spendOfValue] at hcarries
    | num n => simp [spendOfHandlerResult, spendOfValue] at hcarries
    | arr vs => simp [spendOfHandlerResult, spendOfValue] at hcarries

theorem usage_conserved_small :
    (spendOfHandlerResult (.obj [(js "inputTokens", .num (JsNumber.ofInt 5))])).isSome = true ∧
    (accountedSpend (.obj [(js "inputTokens", .num (JsNumber.ofInt 5))])
        = spendOfHandlerResult (.obj [(js "inputTokens", .num (JsNumber.ofInt 5))]) ↔
      SurvivesCap (.obj [(js "inputTokens", .num (JsNumber.ofInt 5))])) :=
  ⟨by decide, usage_conserved_iff _ (by decide)⟩

theorem length_le_byteLength (s : JsString) : s.length ≤ byteLength s := by
  conv_lhs => rw [← ofPoints_codePoints s]
  rw [byteLength_eq]
  induction codePoints s with
  | nil => simp
  | cons c rest ih =>
      have hc : (pointUnits c).length ≤ utf8Size c := by
        unfold pointUnits
        by_cases h : c < 0x10000
        · rw [if_pos h]
          exact utf8Size_pos c
        · have hsize : utf8Size c = 4 := by
            have h' : ¬ c < 0x80 ∧ ¬ c < 0x800 := by omega
            simp [utf8Size, h, h']
          rw [if_neg h, hsize]
          simp
      rw [ofPoints_cons, List.length_append, pointsSize_cons]
      omega

/-- A result with an answer and a token count. -/
def answered (answer : JsString) : Json :=
  .obj [(js "answer", .str answer), (js "inputTokens", .num (JsNumber.ofInt 1200))]

/-- An answer longer than the cap makes the completion larger than it. -/
theorem answered_large {answer : JsString} (h : maxPublishDataLen < answer.length) :
    ¬ jsonBytes (.obj (completedData (answered answer))) ≤ maxPublishDataLen := by
  have hquote := Json.length_le_escaped answer
  have hbytes := length_le_byteLength (Json.stringify (.obj (completedData (answered answer))))
  simp only [completedData, answered, Json.stringify, Json.members, Json.moreMembers, Json.quote,
    List.length_cons, List.length_append, List.length_nil] at hbytes
  unfold jsonBytes
  simp only [completedData, answered, Json.stringify, Json.members, Json.moreMembers, Json.quote]
  omega

theorem spend_answered (answer : JsString) :
    (spendOfHandlerResult (answered answer)).map SpendTotals.totalTokens
      = some (cleanNumber (some (JsNumber.ofInt 1200))) := by
  have h : js "inputTokens" ≠ js "outputTokens" ∧ js "inputTokens" ≠ js "estimatedCost" ∧
      js "answer" ≠ js "outputTokens" ∧ js "answer" ≠ js "estimatedCost" := by decide
  obtain ⟨h1, h2, h3, h4⟩ := h
  simp [answered, spendOfHandlerResult, spendOfValue, usageNames, Json.get, h1, h2, h3, h4,
    cleanSpendAmount, Json.toNumber, cleanNumber_zero]

/-- The 1,200 tokens of an answer of 70,000 letters are not accounted. -/
theorem longAnswer_unaccounted :
    accountedSpend (answered (List.replicate 70000 (unit 'a'))) = none ∧
    (spendOfHandlerResult (answered (List.replicate 70000 (unit 'a')))).map
      SpendTotals.totalTokens = some (cleanNumber (some (JsNumber.ofInt 1200))) ∧
    cleanNumber (some (JsNumber.ofInt 1200)) ≠ 0 := by
  refine ⟨accounted_object (answered_large ?_), spend_answered _, ?_⟩
  · rw [List.length_replicate, maxPublishDataLen]
    omega
  · have hpos : (0 : Decimal) < Decimal.ofInt 1200 := by
      rw [Decimal.lt_iff, Decimal.coe_ofInt]
      norm_num
    intro h
    simp only [cleanNumber, JsNumber.ofInt, dif_pos hpos] at h
    exact absurd (congrArg Subtype.val h) (ne_of_gt hpos)

end Kaiban
