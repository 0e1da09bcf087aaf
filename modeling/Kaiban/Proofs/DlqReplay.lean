/-
Dead-letter records there and back.

A record takes the task's inputs with it if they fit, and its two free texts are cut so
short that the rest always fits: a byte of text takes at most six once escaped.  What a
replay strips off are the failure fields, so the inputs come back as they were.
-/
import Kaiban.DlqReplay
import Kaiban.Proofs.Actor.Reactions
import Kaiban.Proofs.Capping

open JsString

namespace Kaiban

/-! ### The size of the failure fields -/

theorem byteLength_cons {u : CodeUnit} (h : u.val < 0x80) (s : JsString) :
    byteLength (u :: s) = 1 + byteLength s := by
  have hhigh : isHigh u = false := by
    simp only [isHigh, Bool.and_eq_false_iff, decide_eq_false_iff_not]
    omega
  rw [byteLength_eq, byteLength_eq, codePoints_cons hhigh, pointsSize_cons]
  simp [utf8Size, h]

theorem byteLength_ascii {s : JsString} (h : ∀ u ∈ s, u.val < 0x80) : byteLength s = s.length := by
  induction s with
  | nil => rfl
  | cons u rest ih =>
      rw [byteLength_cons (h u (by simp)), ih fun v hv => h v (by simp [hv]), List.length_cons]
      omega

/-- An escaped code point takes at most six bytes for each of its own. -/
theorem escapeSize_le {c : ℕ} (hc : c < 0x110000) : escapeSize c ≤ 6 * utf8Size c := by
  have hpos := utf8Size_pos c
  have hletter : ∀ e : Char, e.toNat < 0x80 → byteLength [unit '\\', unit e] = 2 := by
    intro e he
    have hval : (unit e).val = e.toNat := Nat.mod_eq_of_lt (by omega)
    rw [byteLength_cons (by decide), byteLength_cons (by omega)]
    rfl
  unfold escapeSize Json.escape
  split_ifs with e22 e5C e08 e0C e0A e0D e09 hhex
  · rw [hletter _ (by decide)]
    omega
  · rw [hletter _ (by decide)]
    omega
  · rw [hletter _ (by decide)]
    omega
  · rw [hletter _ (by decide)]
    omega
  · rw [hletter _ (by decide)]
    omega
  · rw [hletter _ (by decide)]
    omega
  · rw [hletter _ (by decide)]
    omega
  · rw [byteLength_ascii (hexEscape_small c)]
    simp only [Json.hexEscape, List.length_cons, List.length_nil]
    omega
  · have hscalar : IsScalar c := ⟨hc, by simpa using fun h => hhex (.inr h)⟩
    have hpoints := codePoints_pointUnits hscalar []
    rw [List.append_nil] at hpoints
    rw [byteLength_eq, hpoints]
    simp only [codePoints, pointsSize_cons, pointsSize_nil]
    omega

theorem escapedSize_le {cs : List ℕ} (h : ∀ c ∈ cs, c < 0x110000) :
    escapedSize cs ≤ 6 * pointsSize cs := by
  induction cs with
  | nil => simp
  | cons c rest ih =>
      have hc := escapeSize_le (h c (by simp))
      have hrest := ih fun d hd => h d (by simp [hd])
      rw [pointsSize_cons, escapedSize_cons]
      omega

/-- A text that was cut for the record. -/
theorem escapedSize_cut (text : JsString) :
    escapedSize (codePoints (truncateToBytes text maxDlqTextBytes)) ≤ 24576 := by
  have hcut := byteLength_truncateToBytes_le text maxDlqTextBytes
  have hsize := escapedSize_le (codePoints_lt (truncateToBytes text maxDlqTextBytes))
  rw [← byteLength_eq] at hsize
  unfold maxDlqTextBytes at hcut hsize ⊢
  omega

/-- A member after the first, as JSON. -/
theorem byteLength_moreMembers (k s : JsString) (ms : List (JsString × Json)) :
    byteLength (Json.moreMembers ((k, .str s) :: ms))
      = 6 + escapedSize (codePoints k) + escapedSize (codePoints s)
        + byteLength (Json.moreMembers ms) := by
  rw [Json.moreMembers, Json.stringify, byteLength_cons (by decide), byteLength_quote,
    byteLength_cons (by decide), byteLength_quote]
  omega

/-- Data without a common name is put one after the other. -/
theorem spread_disjoint {a b : MessageData} (h : ∀ m ∈ a, ∀ n ∈ b, m.1 ≠ n.1) :
    spread a b = a ++ b := by
  have hleft : (a.map fun m => (m.1, (Json.get b m.1).getD m.2)) = a := by
    refine (List.map_congr_left fun m hm => ?_).trans (List.map_id a)
    rw [Json.get_eq_none.mpr fun n hn => (h m hm n hn).symm]
    rfl
  have hright : (b.filter fun n => (Json.get a n.1).isNone) = b := by
    rw [List.filter_eq_self]
    intro n hn
    rw [Json.get_eq_none.mpr fun m hm => h m hm n hn]
    rfl
  unfold spread
  rw [hleft, hright]

/-- The names of the failure fields. -/
theorem failureFields_names (error : JsString) (reason : Option JsString) :
    ∀ m ∈ failureFields error reason,
      m.1 = js "status" ∨ m.1 = js "error" ∨ m.1 = js "reason" := by
  intro m hm
  unfold failureFields at hm
  rcases List.mem_append.mp hm with hfixed | hreason
  · simp only [List.mem_cons, List.not_mem_nil, or_false] at hfixed
    rcases hfixed with rfl | rfl
    · exact .inl rfl
    · exact .inr (.inl rfl)
  · split at hreason
    · exact absurd hreason (by simp)
    · exact absurd hreason (by simp)
    · rw [List.mem_singleton.mp hreason]
      exact .inr (.inr rfl)

/-- The record of a task whose inputs do not fit. -/
theorem omitted_fields (error : JsString) (reason : Option JsString) :
    spread (failureFields error reason) [(js "_inputs_omitted", .bool true)]
      = failureFields error reason ++ [(js "_inputs_omitted", .bool true)] := by
  refine spread_disjoint fun m hm n hn => ?_
  rw [List.mem_singleton.mp hn]
  rcases failureFields_names error reason m hm with h | h | h <;> rw [h] <;> decide

/-- **The failure fields alone fit the cap**, whatever the texts are. -/
theorem jsonBytes_failure_le (error : JsString) (reason : Option JsString) :
    jsonBytes (.obj (spread (failureFields error reason) [(js "_inputs_omitted", .bool true)]))
      ≤ maxPublishDataLen := by
  have hclose : byteLength (Json.moreMembers [(js "_inputs_omitted", .bool true)]) = 24 := by
    decide +kernel
  have hopen : ∀ ms, byteLength (Json.stringify (.obj ((js "status", .str (js "failed")) :: ms)))
      = 18 + byteLength (Json.moreMembers ms) := by
    intro ms
    have hstatus : escapedSize (codePoints (js "status")) = 6 := by decide +kernel
    have hfailed : escapedSize (codePoints (js "failed")) = 6 := by decide +kernel
    rw [Json.stringify, Json.members, Json.stringify, byteLength_cons (by decide), byteLength_quote,
      byteLength_cons (by decide), byteLength_quote, hstatus, hfailed]
    omega
  have herrorName : escapedSize (codePoints (js "error")) = 5 := by decide +kernel
  have hreasonName : escapedSize (codePoints (js "reason")) = 6 := by decide +kernel
  have hcutError := escapedSize_cut error
  rw [omitted_fields]
  unfold jsonBytes failureFields maxPublishDataLen
  split
  · rw [List.append_nil, List.cons_append, List.cons_append, List.nil_append, hopen,
      byteLength_moreMembers, hclose, herrorName]
    omega
  · rw [List.append_nil, List.cons_append, List.cons_append, List.nil_append, hopen,
      byteLength_moreMembers, hclose, herrorName]
    omega
  · rename_i u rest
    have hcutReason := escapedSize_cut (u :: rest)
    rw [List.append_assoc, List.cons_append, List.cons_append, List.nil_append, List.cons_append,
      List.nil_append, hopen, byteLength_moreMembers, byteLength_moreMembers, hclose, herrorName,
      hreasonName]
    omega

/-- **Every dead-letter record fits the cap.** -/
theorem jsonBytes_deadLetterData_le (inputs : MessageData) (error : JsString)
    (reason : Option JsString) :
    jsonBytes (.obj (deadLetterData inputs error reason)) ≤ maxPublishDataLen := by
  unfold deadLetterData
  extract_lets failure
  split
  · assumption
  · exact jsonBytes_failure_le error reason

/-! ### What a replay makes of a record -/

/-- A failed send of an agent. -/
structure Failure where
  cfg : ActorConfig
  payload : Payload
  error : JsString
  reason : Option JsString

namespace Failure

/-- The record that is published for it, as it is read off the queue. -/
def record (f : Failure) : DlqRecord :=
  (Delivery.deadLetter f.cfg f.payload f.error f.reason).dlqRecord

/-- Names the inputs of a task must not have. -/
def reservedNames : List JsString := js "__proto__" :: failureEnvelopeFields

/-- The inputs are not empty and use no reserved name. -/
structure WellFormed (f : Failure) : Prop where
  inputs : f.payload.data ≠ []
  names : ∀ m ∈ f.payload.data, m.1 ∉ reservedNames

/-- The inputs and the failure fields fit the cap together. -/
def Fits (f : Failure) : Prop :=
  jsonBytes (.obj (spread f.payload.data (failureFields f.error f.reason))) ≤ maxPublishDataLen

/-- The error as the record has it. -/
def errorText (f : Failure) : JsString := truncateToBytes f.error maxDlqTextBytes

/-- The record is neither poison nor marked as lacking inputs. -/
def replayable (poison : JsString → Bool) (f : Failure) : Bool :=
  !poison f.errorText && !inputsOmitted f.record.data

/-- The message that replays the task. -/
def message (queueFor : JsString → JsString) (f : Failure) : ReplayMessage :=
  ⟨queueFor f.cfg.id, ⟨f.payload.taskId, f.cfg.id, f.payload.data, none⟩⟩

/-- Why the record is skipped. -/
def skipReason (poison : JsString → Bool) (f : Failure) : JsString × JsString :=
  (f.payload.taskId, if poison f.errorText then f.errorText else dlqInputsMissing)

/-- The inputs and the failure fields have no common name. -/
theorem record_inputs {f : Failure} (h : f.WellFormed) :
    spread f.payload.data (failureFields f.error f.reason)
      = f.payload.data ++ failureFields f.error f.reason := by
  refine spread_disjoint fun m hm n hn heq => ?_
  have hname := h.names m hm
  rw [heq] at hname
  rcases failureFields_names f.error f.reason n hn with hn | hn | hn <;>
    exact hname (by rw [hn]; decide)

/-- **What is stripped off a record leaves the inputs as they were.** -/
theorem restore_inputs {f : Failure} (h : f.WellFormed) :
    restoreOriginalData (f.payload.data ++ failureFields f.error f.reason) = f.payload.data := by
  unfold restoreOriginalData
  rw [List.filter_append]
  have hkeep : (f.payload.data.filter fun m => m.1 ∉ failureEnvelopeFields) = f.payload.data := by
    rw [List.filter_eq_self]
    intro m hm
    exact decide_eq_true fun hmem => h.names m hm (List.mem_cons_of_mem _ hmem)
  have hdrop : ((failureFields f.error f.reason).filter fun m => m.1 ∉ failureEnvelopeFields)
      = [] := by
    rw [List.filter_eq_nil_iff]
    intro m hm
    rcases failureFields_names f.error f.reason m hm with hn | hn | hn <;> rw [hn] <;> decide
  rw [hkeep, hdrop, List.append_nil]

/-- A record has its inputs if they fit, and is marked if they do not. -/
theorem record_cases {f : Failure} (h : f.WellFormed) :
    (f.Fits ∧ inputsOmitted f.record.data = false ∧ restoreOriginalData f.record.data
      = f.payload.data) ∨
      (¬ f.Fits ∧ inputsOmitted f.record.data = true) := by
  show (f.Fits ∧ inputsOmitted (deadLetterData f.payload.data f.error f.reason) = false ∧ _) ∨ _
  unfold deadLetterData
  extract_lets failure
  split
  · rename_i hfits
    refine .inl ⟨hfits, ?_, ?_⟩
    · have hnone : Json.get (spread f.payload.data failure) (js "_inputs_omitted") = none := by
        rw [record_inputs h, Json.get_eq_none]
        intro m hm
        rcases List.mem_append.mp hm with hinput | hfield
        · intro heq
          exact h.names m hinput (by rw [heq]; decide)
        · rcases failureFields_names f.error f.reason m hfield with hn | hn | hn <;>
            rw [hn] <;> decide
      unfold inputsOmitted
      rw [hnone]
    · show restoreOriginalData (deadLetterData f.payload.data f.error f.reason) = _
      unfold deadLetterData
      rw [if_pos hfits, record_inputs h, restore_inputs h]
  · rename_i hlarge
    refine .inr ⟨hlarge, ?_⟩
    show inputsOmitted (deadLetterData f.payload.data f.error f.reason) = true
    unfold deadLetterData
    rw [if_neg hlarge, omitted_fields]
    unfold inputsOmitted
    rw [Json.get_append]
    rfl

/-- The loop over the records of some failures. -/
theorem replayRecords_eq (poison : JsString → Bool) (queueFor : JsString → JsString)
    {fs : List Failure} (h : ∀ f ∈ fs, f.WellFormed) :
    ∀ (result : DlqReplayResult) (sent : List ReplayMessage),
      replayRecords poison queueFor (fs.map record) result sent
        = some (⟨result.replayed + (fs.filter (replayable poison)).length,
            result.skipped + (fs.filter fun f => !f.replayable poison).length,
            result.skippedReasons
              ++ (fs.filter fun f => !f.replayable poison).map (skipReason poison)⟩,
          sent ++ (fs.filter (replayable poison)).map (message queueFor)) := by
  induction fs with
  | nil => intro result sent; simp [replayRecords]
  | cons f rest ih =>
      intro result sent
      have hf := h f (by simp)
      have hrest := ih fun g hg => h g (by simp [hg])
      have herror : textOrEmpty (Json.get f.record.data (js "error")) = some f.errorText := by
        rw [show Json.get f.record.data (js "error") = some (.str f.errorText) from
          get_deadLetterData _ _ _]
        rfl
      have htask : f.record.taskId = f.payload.taskId := rfl
      rw [List.map_cons, replayRecords, herror]
      dsimp only
      by_cases hpoison : poison f.errorText = true
      · have hnot : f.replayable poison = false := by simp [replayable, hpoison]
        have hwhy : f.skipReason poison = (f.payload.taskId, f.errorText) := by
          simp [skipReason, hpoison]
        rw [if_pos hpoison, hrest, List.filter_cons_of_neg (by simp [hnot]),
          List.filter_cons_of_pos (by simp [hnot]), List.map_cons, hwhy, htask]
        simp [DlqReplayResult.skip, Nat.add_assoc, Nat.add_comm 1]
      · rw [if_neg hpoison]
        rcases record_cases hf with ⟨-, hkept, hrestored⟩ | ⟨-, hmarked⟩
        · have hyes : f.replayable poison = true := by simp [replayable, hpoison, hkept]
          have hmessage : (⟨queueFor f.record.agentId, { f.record with data := f.payload.data }⟩ :
              ReplayMessage) = f.message queueFor := rfl
          rw [if_neg (by rw [hrestored]; simp [hkept, hf.inputs]), hrest, hrestored, hmessage,
            List.filter_cons_of_pos hyes, List.filter_cons_of_neg (by simp [hyes]), List.map_cons]
          simp [Nat.add_assoc, Nat.add_comm 1]
        · have hnot : f.replayable poison = false := by simp [replayable, hmarked]
          have hwhy : f.skipReason poison = (f.payload.taskId, dlqInputsMissing) := by
            simp [skipReason, hpoison]
          rw [if_pos (.inl hmarked), hrest, List.filter_cons_of_neg (by simp [hnot]),
            List.filter_cons_of_pos (by simp [hnot]), List.map_cons, hwhy, htask]
          simp [DlqReplayResult.skip, Nat.add_assoc, Nat.add_comm 1]

end Failure

/-- What is claimed of the replay of some failures. -/
structure RoundTrip (poison : JsString → Bool) (queueFor : JsString → JsString)
    (fs : List Failure) (result : DlqReplayResult) (sent : List ReplayMessage) : Prop where
  /-- One message for each record that may be replayed, in order, with the task as it was. -/
  messages : sent = (fs.filter (Failure.replayable poison)).map (Failure.message queueFor)
  replayed : result.replayed = sent.length
  all : result.replayed + result.skipped = fs.length
  reasons : result.skippedReasons
    = (fs.filter fun f => !f.replayable poison).map (Failure.skipReason poison)
  skipped : result.skipped = result.skippedReasons.length

/-- **A dead-letter record fits the cap, says whether it has its inputs, and is replayed as
the task it was or not at all.** -/
theorem replay_round_trip (poison : JsString → Bool) (queueFor : JsString → JsString)
    {fs : List Failure} (h : ∀ f ∈ fs, f.WellFormed) :
    (∀ f ∈ fs, jsonBytes (.obj f.record.data) ≤ maxPublishDataLen ∧
      (inputsOmitted f.record.data = true ↔ ¬ f.Fits)) ∧
    ∃ result sent, replayDlq poison queueFor (fs.map Failure.record) = some (result, sent) ∧
      RoundTrip poison queueFor fs result sent := by
  refine ⟨fun f hf => ⟨jsonBytes_deadLetterData_le _ _ _, ?_⟩, _, _,
    Failure.replayRecords_eq poison queueFor h _ _, ?_, ?_, ?_, ?_, ?_⟩
  · rcases Failure.record_cases (h f hf) with ⟨hfits, hkept, -⟩ | ⟨hlarge, hmarked⟩
    · simp [hfits, hkept]
    · simp [hlarge, hmarked]
  · rw [List.nil_append]
  · simp
  · have hsplit := List.length_eq_length_filter_add (l := fs) (Failure.replayable poison)
    show 0 + _ + (0 + _) = _
    omega
  · exact List.nil_append _
  · simp

/-- An agent that failed twice: a provider error, and an open breaker. -/
def twoFailures : List Failure :=
  let cfg : ActorConfig := ⟨js "writer", js "9f86d081", false, false, false, false, 0, false⟩
  let task : Payload := ⟨js "task-1", js "writer", [(js "topic", .str (js "rain"))], .finite 0⟩
  [⟨cfg, task, js "LLM 503", none⟩, ⟨cfg, task, js "circuit_breaker_open", none⟩]

/-- One of two failures is replayed. -/
theorem replay_round_trip_two :
    ∃ result sent, replayDlq (fun r => r ∈ dlqPoisonReasons) defaultQueueFor
        (twoFailures.map Failure.record) = some (result, sent) ∧
      RoundTrip (fun r => r ∈ dlqPoisonReasons) defaultQueueFor twoFailures result sent := by
  refine (replay_round_trip (fun r => r ∈ dlqPoisonReasons) defaultQueueFor ?_).2
  intro f hf
  simp only [twoFailures, List.mem_cons, List.not_mem_nil, or_false] at hf
  rcases hf with rfl | rfl <;> exact ⟨by simp, by decide⟩

end Kaiban
