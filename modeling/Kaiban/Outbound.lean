/-
What an agent puts on the wire.

Outbound data is capped at 65,536 bytes of JSON.  A completion that is larger has its
result cut down, in rounds, until the JSON of what is left fits; a dead-letter record
that is larger leaves its inputs out.
-/
import Kaiban.Lib.Number
import Mathlib.Data.List.GetD

open JsString

namespace Kaiban

/-- `MAX_PUBLISH_DATA_LEN`. -/
def maxPublishDataLen : ℕ := 65536

/-- `MAX_DLQ_TEXT_BYTES`. -/
def maxDlqTextBytes : ℕ := 4096

/-- The members of an outbound message's `data`. -/
abbrev MessageData := List (JsString × Json)

/-- `{ ...a, ...b }`: a member of `b` takes the place of `a`'s. -/
def spread (a b : MessageData) : MessageData :=
  (a.map fun m => (m.1, (Json.get b m.1).getD m.2)) ++
    b.filter fun m => (Json.get a m.1).isNone

/-- A member of `{ ...a, ...b }` is `b`'s, or else `a`'s. -/
theorem get_spread (a b : MessageData) (k : JsString) :
    Json.get (spread a b) k = (Json.get b k).or (Json.get a k) := by
  unfold spread
  rw [Json.get_append]
  cases ha : Json.get a k with
  | none =>
      have h1 : Json.get (a.map fun m => (m.1, (Json.get b m.1).getD m.2)) k = none := by
        rw [Json.get_eq_none] at ha ⊢
        intro m hm
        obtain ⟨n, hn, rfl⟩ := List.mem_map.mp hm
        exact ha n hn
      have h2 : Json.get (b.filter fun m => (Json.get a m.1).isNone) k = Json.get b k := by
        unfold Json.get
        rw [← List.filter_reverse, List.find?_filter]
        congr 2
        funext m
        by_cases hm : m.1 = k
        · subst hm
          have hnone : List.find? (fun n => decide (n.1 = m.1)) a.reverse = none := by
            simpa [Json.get] using ha
          simp [hnone]
        · simp [hm]
      rw [h1, h2]
  | some v =>
      have h1 : Json.get (b.filter fun m => (Json.get a m.1).isNone) k = none := by
        rw [Json.get_eq_none]
        intro m hm hk
        subst hk
        simp [ha] at hm
      have h2 : Json.get (a.map fun m => (m.1, (Json.get b m.1).getD m.2)) k
          = some ((Json.get b k).getD v) := by
        unfold Json.get at ha ⊢
        rw [← List.map_reverse, List.find?_map]
        obtain ⟨m, hm, rfl⟩ := Option.map_eq_some_iff.mp ha
        have hk : m.1 = k := by simpa using List.find?_some hm
        show ((a.reverse.find? fun m => m.1 = k).map _).map _ = _
        rw [hm]
        simp [hk]
      rw [h1, h2]
      cases Json.get b k <;> simp

/-! ### Cutting a text to a number of bytes -/

/-- The loop of `truncateToBytes`: back up over bytes that continue a character. -/
def backUp (buf : List ℕ) : ℕ → ℕ
  | 0 => 0
  | n + 1 =>
      if isContinuation (buf.getD (n + 1) 0) = true then backUp buf n else n + 1

/-- `truncateToBytes(str, maxBytes)`. -/
def truncateToBytes (str : JsString) (maxBytes : ℕ) : JsString :=
  if (bytes str).length ≤ maxBytes then str
  else decode ((bytes str).take (backUp (bytes str) maxBytes))

/-- Backing up stops at the first byte of a character. -/
theorem backUp_eq {buf : List ℕ} {p n : ℕ} (hle : p ≤ n)
    (hcont : ∀ i, p < i → i ≤ n → isContinuation (buf.getD i 0) = true)
    (hstop : isContinuation (buf.getD p 0) = false) : backUp buf n = p := by
  induction n with
  | zero =>
      obtain rfl : p = 0 := by omega
      rfl
  | succ n ih =>
      unfold backUp
      rcases Nat.lt_or_eq_of_le hle with hlt | rfl
      · rw [if_pos (hcont (n + 1) hlt le_rfl)]
        exact ih (by omega) fun i h1 h2 => hcont i h1 (by omega)
      · rw [if_neg (by rw [hstop]; simp)]

/-- The bytes of the first code points of a text come first. -/
theorem bytes_split {str : JsString} {pre post : List ℕ} (h : codePoints str = pre ++ post) :
    bytes str
      = (pre.map replaced).flatMap utf8Encode ++ (post.map replaced).flatMap utf8Encode := by
  unfold bytes
  rw [h, List.flatMap_append, List.flatMap_map, List.flatMap_map]

theorem length_flatMap_replaced (cs : List ℕ) :
    ((cs.map replaced).flatMap utf8Encode).length = pointsSize cs := by
  rw [List.flatMap_map, List.length_flatMap]
  simp only [utf8Encode_length, utf8Size_replaced]
  rfl

/-- **The loop backs up to the end of the last character that fits.** -/
theorem backUp_bytes {str : JsString} {n : ℕ} (h : n < byteLength str) :
    backUp (bytes str) n = pointsSize (takeBytes n (codePoints str)) := by
  rw [byteLength_eq] at h
  obtain ⟨c, rest, hcs, hlt⟩ := takeBytes_cut h
  set pre := takeBytes n (codePoints str) with hpre
  have hle : pointsSize pre ≤ n := pointsSize_takeBytes_le n _
  have hlenpre := length_flatMap_replaced pre
  have hcbound : c < 0x110000 := codePoints_lt str c (by rw [hcs]; simp)
  obtain ⟨b, tail, henc, hb, htail⟩ := utf8Encode_shape (replaced_isScalar hcbound).1
  have hlenc : tail.length + 1 = utf8Size c := by
    rw [← utf8Size_replaced, ← utf8Encode_length, henc, List.length_cons]
  have hbytes : bytes str = (pre.map replaced).flatMap utf8Encode
      ++ (b :: tail ++ (rest.map replaced).flatMap utf8Encode) := by
    rw [bytes_split hcs, List.map_cons, List.flatMap_cons, henc]
  refine backUp_eq hle (fun i h1 h2 => ?_) ?_
  · rw [hbytes, List.getD_append_right _ _ _ _ (by omega), hlenpre]
    obtain ⟨j, hj⟩ : ∃ j, i - pointsSize pre = j + 1 := ⟨i - pointsSize pre - 1, by omega⟩
    rw [hj, List.cons_append, List.getD_cons_succ, List.getD_append _ _ _ _ (by omega),
      List.getD_eq_getElem _ _ (by omega : j < tail.length)]
    exact htail _ (List.getElem_mem _)
  · rw [hbytes, List.getD_append_right _ _ _ _ (by omega), hlenpre, Nat.sub_self]
    exact hb

/-- **A cut text is the longest run of its characters that fits.** -/
theorem truncateToBytes_eq {str : JsString} {n : ℕ} (h : n < byteLength str) :
    truncateToBytes str n = ofPoints ((takeBytes n (codePoints str)).map replaced) := by
  obtain ⟨post, hcs⟩ := takeBytes_initial n (codePoints str)
  have hscalar : ∀ d ∈ (takeBytes n (codePoints str)).map replaced, d < 0x110000 := by
    intro d hd
    obtain ⟨e, he, rfl⟩ := List.mem_map.mp hd
    have hmem : e ∈ codePoints str := (takeBytes_initial n (codePoints str)).subset he
    exact (replaced_isScalar (codePoints_lt str e hmem)).1
  unfold truncateToBytes
  rw [length_bytes, if_neg (not_le.mpr h), backUp_bytes h, bytes_split hcs.symm,
    List.take_left' (length_flatMap_replaced _), decode_flatMap hscalar]

theorem truncateToBytes_of_le {str : JsString} {n : ℕ} (h : byteLength str ≤ n) :
    truncateToBytes str n = str := by
  unfold truncateToBytes
  rw [length_bytes, if_pos h]

theorem byteLength_ofPoints {cs : List ℕ} (h : ∀ c ∈ cs, c < 0x110000) :
    byteLength (ofPoints (cs.map replaced)) = pointsSize cs := by
  have hscalar : ∀ c ∈ cs.map replaced, IsScalar c := by
    intro c hc
    obtain ⟨d, hd, rfl⟩ := List.mem_map.mp hc
    exact replaced_isScalar (h d hd)
  rw [byteLength_eq, codePoints_ofPoints hscalar, pointsSize_map_replaced]

theorem takeBytes_lt (n : ℕ) (s : JsString) : ∀ c ∈ takeBytes n (codePoints s), c < 0x110000 :=
  fun c hc => codePoints_lt s c ((takeBytes_initial n _).subset hc)

/-- A cut text fits. -/
theorem byteLength_truncateToBytes_le (str : JsString) (n : ℕ) :
    byteLength (truncateToBytes str n) ≤ n := by
  by_cases h : byteLength str ≤ n
  · rwa [truncateToBytes_of_le h]
  · rw [truncateToBytes_eq (not_le.mp h), byteLength_ofPoints (takeBytes_lt n str)]
    exact pointsSize_takeBytes_le n _

/-- `jsonBytes(value)`. -/
def jsonBytes (v : Json) : ℕ := byteLength (Json.stringify v)

/-! ### Capping a completion -/

/-- What the cut text's JSON takes over the budget; its two quotes are not counted. -/
def excess (budget : ℤ) (result : JsString) : ℤ := jsonBytes (.str result) - 2 - budget

/-- The loop of `capDataSize`: cut the text to the limit, and lower the limit by what
its JSON still takes over the budget. -/
def capRounds (budget : ℤ) (result : JsString) (rawLimit : ℕ) : JsString :=
  let cut := truncateToBytes result rawLimit
  if excess budget cut ≤ 0 ∨ rawLimit = 0 then cut
  else capRounds budget cut (byteLength cut - excess budget cut).toNat
termination_by rawLimit
decreasing_by
  rename_i h
  have hleft : ¬ (excess budget (truncateToBytes result rawLimit) ≤ 0 ∨ rawLimit = 0) := h
  have hle := byteLength_truncateToBytes_le result rawLimit
  omega

/-- `{ ...data, result: "", _truncated: true }`. -/
def cappedFields (data : MessageData) : MessageData :=
  spread data [(js "result", .str []), (js "_truncated", .bool true)]

/-- What the result may take, as JSON, besides the other fields. -/
def resultBudget (data : MessageData) : ℤ :=
  maxPublishDataLen - jsonBytes (.obj (cappedFields data))

/-- `capDataSize(data)`.  The text of the result is read only when the data is over the
cap, and reading it may throw. -/
def capDataSize {ε : Type} (data : MessageData) (resultText : Except ε JsString) :
    Except ε MessageData :=
  if jsonBytes (.obj data) ≤ maxPublishDataLen then .ok data
  else resultText.map fun result =>
    spread (cappedFields data)
      [(js "result", .str (capRounds (resultBudget data) result (resultBudget data).toNat))]

/-- The `data` of a completion. -/
def completedData (result : Json) : MessageData :=
  [(js "status", .str (js "success")), (js "result", result)]

/-! ### A dead-letter record -/

/-- The failure fields of a dead-letter record.  An empty reason is left out. -/
def failureFields (error : JsString) (reason : Option JsString) : MessageData :=
  [(js "status", .str (js "failed")), (js "error", .str (truncateToBytes error maxDlqTextBytes))]
    ++ match reason with
      | none => []
      | some [] => []
      | some (u :: rest) => [(js "reason", .str (truncateToBytes (u :: rest) maxDlqTextBytes))]

/-- The `data` `publishToDlq` publishes: the task's inputs under the failure fields, or
the failure fields alone when the inputs would push the record past the cap. -/
def deadLetterData (inputs : MessageData) (error : JsString) (reason : Option JsString) :
    MessageData :=
  let failure := failureFields error reason
  if jsonBytes (.obj (spread inputs failure)) ≤ maxPublishDataLen then spread inputs failure
  else spread failure [(js "_inputs_omitted", .bool true)]

/-- **A dead-letter record names its error, whatever the inputs are.** -/
theorem get_deadLetterData (inputs : MessageData) (error : JsString) (reason : Option JsString) :
    Json.get (deadLetterData inputs error reason) (js "error")
      = some (.str (truncateToBytes error maxDlqTextBytes)) := by
  have hfields : Json.get (failureFields error reason) (js "error")
      = some (.str (truncateToBytes error maxDlqTextBytes)) := by
    have hne : js "reason" ≠ js "error" := by decide
    unfold failureFields
    rw [Json.get_append]
    split <;> simp [Json.get, hne]
  have hmark : Json.get [(js "_inputs_omitted", Json.bool true)] (js "error") = none := by
    rw [Json.get_eq_none]
    simp only [List.mem_singleton, forall_eq]
    decide
  unfold deadLetterData
  extract_lets failure
  split
  · rw [get_spread, hfields, Option.some_or]
  · rw [get_spread, hmark, hfields, Option.none_or]

end Kaiban
