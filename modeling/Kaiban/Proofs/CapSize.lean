/-
What the cap makes of a completion: within 65,536 bytes, and from the beginning of the text.

The last round leaves no excess, and the text it leaves was cut from the beginning in every
round.  The only way not to get a record is a result over the cap that does not convert to a
text.
-/
import Kaiban.Proofs.Usage

open JsString

namespace Kaiban

/-! ### The loop -/

/-- The loop of `capDataSize`, for a number of rounds; `none` when it has not returned. -/
def capLoop (budget : ℤ) : ℕ → JsString → ℕ → Option JsString
  | 0, _, _ => none
  | rounds + 1, result, rawLimit =>
      let cut := truncateToBytes result rawLimit
      if excess budget cut ≤ 0 ∨ rawLimit = 0 then some cut
      else capLoop budget rounds cut (byteLength cut - excess budget cut).toNat

/-- **The loop ends**, after no more rounds than its first limit has bytes. -/
theorem capLoop_ends (budget : ℤ) (result : JsString) (rawLimit : ℕ) :
    ∀ rounds, rawLimit < rounds →
      capLoop budget rounds result rawLimit = some (capRounds budget result rawLimit) := by
  induction result, rawLimit using capRounds.induct budget with
  | case1 s n cut hstop =>
      intro rounds hlt
      obtain ⟨r, rfl⟩ := Nat.exists_eq_succ_of_ne_zero (Nat.ne_of_gt (Nat.zero_lt_of_lt hlt))
      rw [capLoop, if_pos hstop, capRounds, if_pos hstop]
  | case2 s n cut hstop ih =>
      intro rounds hlt
      obtain ⟨r, rfl⟩ := Nat.exists_eq_succ_of_ne_zero (Nat.ne_of_gt (Nat.zero_lt_of_lt hlt))
      have hleft : ¬ (excess budget (truncateToBytes s n) ≤ 0 ∨ n = 0) := hstop
      have hle := byteLength_truncateToBytes_le s n
      rw [capLoop, if_neg hstop, capRounds, if_neg hstop]
      refine ih r ?_
      simp only [cut]
      omega

/-- The last round leaves no excess. -/
theorem capRounds_excess {budget : ℤ} (hbudget : 0 ≤ budget) (result : JsString) (rawLimit : ℕ) :
    excess budget (capRounds budget result rawLimit) ≤ 0 := by
  induction result, rawLimit using capRounds.induct budget with
  | case1 s n cut hstop =>
      rw [capRounds, if_pos hstop]
      rcases hstop with hfits | rfl
      · exact hfits
      · have hnil : truncateToBytes s 0 = [] := by
          have hle := byteLength_truncateToBytes_le s 0
          by_contra hne
          have hpos := length_le_byteLength (truncateToBytes s 0)
          have hlen := List.length_pos_of_ne_nil hne
          omega
        have hquotes : jsonBytes (.str []) = 2 := by decide +kernel
        rw [hnil, excess, hquotes]
        omega
  | case2 s n cut hstop ih =>
      rw [capRounds, if_neg hstop]
      exact ih

/-! ### The record -/

/-- The fields around a capped result take 48 bytes. -/
theorem jsonBytes_capped (t : JsString) :
    jsonBytes (.obj [(js "status", .str (js "success")), (js "result", .str t),
      (js "_truncated", .bool true)]) = 48 + jsonBytes (.str t) := by
  have hopen : unit '\x7b' :: (Json.quote (js "status") ++ unit ':' :: (Json.quote (js "success")
      ++ unit ',' :: (Json.quote (js "result") ++ [unit ':'])))
      = js "\x7b\"status\":\"success\",\"result\":" := by decide +kernel
  have hclose : unit ',' ::
      (Json.quote (js "_truncated") ++ unit ':' :: (js "true" ++ [unit '\x7d']))
      = js ",\"_truncated\":true\x7d" := by decide +kernel
  have hfirst : Json.stringify (.obj [(js "status", .str (js "success")), (js "result", .str t),
        (js "_truncated", .bool true)])
      = js "\x7b\"status\":\"success\",\"result\":"
        ++ (Json.quote t ++ js ",\"_truncated\":true\x7d") := by
    rw [← hopen, ← hclose]
    simp [Json.stringify, Json.members, Json.moreMembers]
  have hlen : byteLength (js "\x7b\"status\":\"success\",\"result\":") = 29 := by decide +kernel
  have hrest : byteLength (js ",\"_truncated\":true\x7d") = 19 := by decide +kernel
  rw [jsonBytes, hfirst, (encodable_small (js_small rfl)).byteLength_append, byteLength_quote, hlen,
    hrest, jsonBytes_str]
  omega

/-- What the cap has to make of a completion. -/
structure CapsWithin (result : Json) (record : MessageData) : Prop where
  bytes : jsonBytes (.obj record) ≤ maxPublishDataLen
  whole : jsonBytes (.obj (completedData result)) ≤ maxPublishDataLen →
    record = completedData result
  /-- A record that does not fit keeps its status and the beginning of its text. -/
  cut : ¬ jsonBytes (.obj (completedData result)) ≤ maxPublishDataLen →
    Json.get record (js "_truncated") = some (.bool true) ∧
    Json.get record (js "status") = some (.str (js "success")) ∧
    ∃ text kept, Json.toText result = some text ∧
      Json.get record (js "result") = some (.str kept) ∧
      ∃ pre, pre <+: codePoints text ∧ (codePoints kept).map replaced = pre.map replaced

/-- What is kept of a text is its beginning, up to the lone surrogates. -/
theorem capRounds_beginning (budget : ℤ) (s : JsString) (n : ℕ) :
    ∃ pre, pre <+: codePoints s ∧
      (codePoints (capRounds budget s n)).map replaced = pre.map replaced := by
  rcases (capRounds_keeps budget s n).2 with heq | ⟨pre, hpre, heq⟩
  · exact ⟨codePoints s, List.prefix_refl _, by rw [heq]⟩
  · refine ⟨pre, hpre, ?_⟩
    have hscalar : ∀ c ∈ pre.map replaced, IsScalar c := by
      intro c hc
      obtain ⟨d, hd, rfl⟩ := List.mem_map.mp hc
      exact replaced_isScalar (codePoints_lt s d (hpre.subset hd))
    rw [heq, codePoints_ofPoints hscalar, List.map_map]
    simp [Function.comp_def, replaced_replaced]

/-- **The cap gives a record as it should, unless the result is too large and does not
convert to a text.** -/
theorem caps_within_iff (result : Json) :
    (∀ text, ∃ rounds, capLoop textBudget rounds text textBudget
      = some (capRounds textBudget text textBudget)) ∧
    ((∃ record, capDataSize (completedData result) (valueText result) = .ok record ∧
        CapsWithin result record) ↔
      jsonBytes (.obj (completedData result)) ≤ maxPublishDataLen ∨
        (Json.toText result).isSome = true) := by
  refine ⟨fun text => ⟨textBudget + 1, capLoop_ends _ text _ _ (Nat.lt_succ_self _)⟩, ?_⟩
  by_cases hfits : jsonBytes (.obj (completedData result)) ≤ maxPublishDataLen
  · refine ⟨fun _ => .inl hfits, fun _ => ⟨completedData result, ?_, hfits, fun _ => rfl,
      fun hnot => absurd hfits hnot⟩⟩
    unfold capDataSize
    rw [if_pos hfits]
  · cases htext : Json.toText result with
    | none =>
        refine ⟨fun ⟨record, hrecord, _⟩ => ?_, fun h => h.elim (absurd · hfits) (by simp)⟩
        have hthrows : valueText result = .error () := by simp only [valueText, htext]
        unfold capDataSize at hrecord
        rw [if_neg hfits, hthrows] at hrecord
        exact absurd hrecord (by simp [Except.map])
    | some text =>
        refine ⟨fun _ => .inr rfl, fun _ => ?_⟩
        have hreads : valueText result = .ok text := by simp only [valueText, htext]
        have hbudget := (resultBudget_completed result).1
        refine ⟨[(js "status", .str (js "success")),
          (js "result", .str (capRounds textBudget text textBudget)),
          (js "_truncated", .bool true)], ?_, ?_, fun h => absurd h hfits, fun _ => ?_⟩
        · unfold capDataSize
          rw [if_neg hfits, hreads, hbudget, Int.toNat_natCast]
          simp only [Except.map, capped_completed]
        · have hnonneg : (0 : ℤ) ≤ textBudget := by omega
          have hexcess := capRounds_excess hnonneg text textBudget
          have hsize := (resultBudget_completed result).2
          rw [jsonBytes_capped]
          unfold excess at hexcess
          unfold maxPublishDataLen
          omega
        · obtain ⟨h1, h2, h3⟩ := names_ne
          obtain ⟨pre, hpre, hkept⟩ := capRounds_beginning textBudget text textBudget
          refine ⟨?_, ?_, text, _, htext, ?_, pre, hpre, hkept⟩
          · simp [Json.get]
          · simp [Json.get, h1, h2]
          · simp [Json.get, h3]

/-- A large result with a member named `toString`. -/
def unnameable (filler : JsString) : Json :=
  .obj [(js "toString", .bool true), (js "filler", .str filler)]

theorem unnameable_large {filler : JsString} (h : maxPublishDataLen < filler.length) :
    ¬ jsonBytes (.obj (completedData (unnameable filler))) ≤ maxPublishDataLen := by
  have hquote := Json.length_le_escaped filler
  have hbytes := length_le_byteLength (Json.stringify (.obj (completedData (unnameable filler))))
  simp only [completedData, unnameable, Json.stringify, Json.members, Json.moreMembers, Json.quote,
    List.length_cons, List.length_append, List.length_nil] at hbytes
  unfold jsonBytes
  simp only [completedData, unnameable, Json.stringify, Json.members, Json.moreMembers, Json.quote]
  omega

/-- A result over the cap that does not convert to a text has no record. -/
theorem unnameable_not_capped :
    capDataSize (completedData (unnameable (List.replicate 70000 (unit 'a'))))
      (valueText (unnameable (List.replicate 70000 (unit 'a')))) = .error () := by
  unfold capDataSize
  rw [if_neg (unnameable_large (by rw [List.length_replicate, maxPublishDataLen]; omega))]
  rfl

end Kaiban
