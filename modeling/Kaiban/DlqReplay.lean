/-
Replay of dead-letter records.

An operator hands over records of the failed queue, and those that are worth it go back to
the mailbox of their agent.
-/
import Kaiban.Actor
import Kaiban.Budget

open JsString

namespace Kaiban

/-- `DLQ_POISON_REASONS`. -/
def dlqPoisonReasons : List JsString :=
  ["blocked_by_semantic_firewall", "circuit_breaker_open", "budget_exceeded",
    "task_token_budget_exceeded"].map js

/-- `FAILURE_ENVELOPE_FIELDS`. -/
def failureEnvelopeFields : List JsString :=
  ["status", "error", "reason", "_truncated", "_inputs_omitted"].map js

/-- `DLQ_INPUTS_MISSING`. -/
def dlqInputsMissing : JsString := js "inputs_missing"

/-- `DlqRecord`, and a message that replays one. -/
structure DlqRecord where
  taskId : JsString
  agentId : JsString
  data : MessageData
  traceHeaders : Option (List (JsString × JsString))

structure ReplayMessage where
  queue : JsString
  payload : DlqRecord

/-- `DlqReplayResult`. -/
structure DlqReplayResult where
  replayed : ℕ
  skipped : ℕ
  skippedReasons : List (JsString × JsString)

/-- `defaultQueueFor(agentId)`. -/
def defaultQueueFor (agentId : JsString) : JsString := js "kaiban-agents-" ++ agentId

/-- `restoreOriginalData(data)`. -/
def restoreOriginalData (data : MessageData) : MessageData :=
  data.filter fun m => m.1 ∉ failureEnvelopeFields

/-- `payload.data["_inputs_omitted"] === true`. -/
def inputsOmitted (data : MessageData) : Bool :=
  match Json.get data (js "_inputs_omitted") with
  | some (.bool b) => b
  | _ => false

namespace DlqReplayResult

def skip (result : DlqReplayResult) (taskId reason : JsString) : DlqReplayResult :=
  { result with
    skipped := result.skipped + 1
    skippedReasons := result.skippedReasons ++ [(taskId, reason)] }

end DlqReplayResult

/-- The loop of `replayDlq(deps)`, with the messages it has published.  It is `none` when
the error of a record does not convert to a text. -/
def replayRecords (poison : JsString → Bool) (queueFor : JsString → JsString) :
    List DlqRecord → DlqReplayResult → List ReplayMessage →
    Option (DlqReplayResult × List ReplayMessage)
  | [], result, sent => some (result, sent)
  | record :: rest, result, sent =>
      match textOrEmpty (Json.get record.data (js "error")) with
      | none => none
      | some errorReason =>
          if poison errorReason then
            replayRecords poison queueFor rest (result.skip record.taskId errorReason) sent
          else
            let original := restoreOriginalData record.data
            if inputsOmitted record.data = true ∨ original = [] then
              replayRecords poison queueFor rest (result.skip record.taskId dlqInputsMissing) sent
            else
              replayRecords poison queueFor rest { result with replayed := result.replayed + 1 }
                (sent ++ [⟨queueFor record.agentId, { record with data := original }⟩])

/-- `replayDlq(deps)`. -/
def replayDlq (poison : JsString → Bool) (queueFor : JsString → JsString)
    (records : List DlqRecord) : Option (DlqReplayResult × List ReplayMessage) :=
  replayRecords poison queueFor records ⟨0, 0, []⟩ []

/-- A dead-letter record as it is read off the queue. -/
def Record.dlqRecord (r : Record) : DlqRecord := ⟨r.taskId, r.agentId, r.data, none⟩

end Kaiban
