/-
From a front door to the handler of a worker.

What a client asked for at either door is what the handler reads: the parameters hold what the
message says, what is accepted of them goes onto the mailbox member by member, and a payload
comes back off the topic as it was.  A message and a call that say the same make the same task.
-/
import Kaiban.Proofs.Mailbox

open JsString

namespace Kaiban

/-! ### What a message asks for -/

/-- The members of the metadata. -/
def UserMessage.meta (message : UserMessage) (name : String) : Option Json :=
  Json.get (message.metadata.getD []) (js name)

/-- What a message asks for under a name. -/
def UserMessage.asksFor (message : UserMessage) (k : JsString) : Option Json :=
  if k = js "instruction" then
    if instructionOf message = [] then none else some (.str (instructionOf message))
  else if k ∈ [js "agentId", js "expectedOutput", js "context", js "inputs"] then
    Json.get (message.metadata.getD []) k
  else none

theorem get_toList (name k : JsString) (v : Option Json) :
    Json.get ((v.map fun x => (name, x)).toList) k = if k = name then v else none := by
  cases v with
  | none =>
      split <;> rfl
  | some x =>
      unfold Json.get
      by_cases hk : k = name
      · simp [hk]
      · simp [hk, Ne.symm hk]

/-- The parameters of a message hold what it asks for. -/
theorem get_a2aParams (message : UserMessage) (k : JsString) :
    Json.get (a2aParams message) k = message.asksFor k := by
  have hinstruction : (if instructionOf message = [] then []
      else [(js "instruction", Json.str (instructionOf message))]) =
      (Option.map (fun x => (js "instruction", x)) (if instructionOf message = [] then none
        else some (Json.str (instructionOf message)))).toList := by
    split <;> rfl
  unfold a2aParams UserMessage.asksFor
  extract_lets metadata member instruction
  rw [show instruction = instructionOf message from rfl, hinstruction]
  simp only [member, Json.get_append, get_toList]
  by_cases hi : k = js "instruction"
  · rw [hi]
    simp +decide
  · by_cases hmem : k ∈ [js "agentId", js "expectedOutput", js "context", js "inputs"]
    · rw [if_neg hi, if_pos hmem]
      simp only [List.mem_cons, List.not_mem_nil, or_false] at hmem
      rcases hmem with rfl | rfl | rfl | rfl <;> simp +decide [metadata]
    · rw [if_neg hi, if_neg hmem]
      simp only [List.mem_cons, List.not_mem_nil, or_false, not_or] at hmem
      obtain ⟨hagent, hexpected, hcontext, hinputs⟩ := hmem
      rw [if_neg hagent, if_neg hexpected, if_neg hcontext, if_neg hinputs, if_neg hi]
      rfl

/-- A message and a call that say the same. -/
structure SaysSame (message : UserMessage) (args : DispatchTaskArgs) : Prop where
  agentId : message.meta "agentId" = some (.str args.agentId)
  instruction : instructionOf message = args.instruction ∧ args.instruction ≠ []
  expectedOutput : message.meta "expectedOutput" = args.expectedOutput.map .str
  context : message.meta "context" = none
  inputs : message.meta "inputs" = none

theorem SaysSame.params {message : UserMessage} {args : DispatchTaskArgs}
    (h : SaysSame message args) : a2aParams message = mcpParams args := by
  unfold a2aParams mcpParams
  extract_lets metadata member instruction
  have hinstruction : instruction = args.instruction := h.instruction.1
  have hmember (name : String) : member (js name) =
      ((message.meta name).map fun v => (js name, v)).toList := rfl
  rw [hmember, hmember, hmember, hmember, hinstruction, if_neg h.instruction.2, h.agentId,
    h.expectedOutput, h.context, h.inputs]
  cases args.expectedOutput <;> rfl

/-- **What a client asks for at a front door is what the handler of the agent reads**, and
nothing else.  A call of `dispatch_task` that says the same makes the same message. -/
theorem asked_is_read {message : UserMessage} {agentIds : List JsString} {p : ValidatedTaskInput}
    (h : validate message (some agentIds) = some (.ok p)) (taskId : JsString) (d : Decimal)
    (headers : TraceHeaders) :
    p.agentId ∈ agentIds ∧ jsonBytes (.obj p.toData) ≤ 65536 ∧
    (∃ call, eachMessage (some (sentValue ⟨taskId, p.agentId, p.toData, .finite d⟩ headers))
        = some call ∧ Delivered ⟨taskId, p.agentId, p.toData, .finite d⟩ headers call ∧
      ∀ k, Json.get call.payload.data k = if k = js "agentId" then none
        else (message.asksFor k).map fun v => Json.ordered (Json.printed v)) ∧
    ∀ args, SaysSame message args → dispatchTask args agentIds = .ok (p.agentId, p.toData) := by
  have haccepts := (validateTaskInput_ok_iff _ _ _).mp h
  have hsize : jsonBytes (.obj p.toData) ≤ jsonBytes (.obj (a2aParams message)) := by
    rw [haccepts.toData]
    exact jsonBytes_subperm (pickedMembers_subperm (by decide))
  refine ⟨haccepts.served _ rfl, hsize.trans haccepts.size, ?_, fun args hsame => ?_⟩
  · refine ⟨_, eachMessage_sent rfl, sentCall_delivered _ _, fun k => ?_⟩
    rw [(sentCall_delivered _ headers).data k, haccepts.toData, get_pickedMembers, get_a2aParams]
    by_cases hid : k = js "agentId"
    · rw [hid]
      rfl
    · rw [if_neg hid]
      by_cases hk : k ∈ fieldNames
      · rw [if_pos hk]
      · -- a name that is not a field's is not asked for
        have hnone : message.asksFor k = none := by
          simp only [fieldNames, List.mem_cons, List.not_mem_nil, or_false, not_or] at hk
          simp [UserMessage.asksFor, hk, hid]
        rw [if_neg hk, hnone]
  · unfold dispatchTask
    rw [← hsame.params, show validateTaskInput (a2aParams message) (some agentIds) = _ from h]
    dsimp only
    have hcontext : p.context = none := by
      have hget := haccepts.context.1
      rw [get_a2aParams, show message.asksFor (js "context") = none from hsame.context] at hget
      simpa using hget.symm
    have hinputs : p.inputs = none := by
      have hget := haccepts.inputs.1
      rw [get_a2aParams, show message.asksFor (js "inputs") = none from hsame.inputs] at hget
      simpa using hget.symm
    unfold ValidatedTaskInput.toData
    rw [hcontext, hinputs]
    simp [Option.map_map]
    rfl

/-- A message with its instruction as text, and a part that is no text. -/
def askedMessage : UserMessage :=
  ⟨some [(js "agentId", .str (js "w")), (js "priority", .bool true)], [.text (js "a"), .other]⟩

theorem asked_is_read_text :
    ∃ p, validate askedMessage (some [js "w"]) = some (.ok p) ∧
      dispatchTask ⟨js "w", js "a", none⟩ [js "w"] = .ok (js "w", p.toData) ∧
      ∃ call, eachMessage (some (sentValue ⟨js "t", p.agentId, p.toData, .finite 0⟩ []))
          = some call ∧ Json.get call.payload.data (js "priority") = none := by
  have htext : ∀ s ∈ some (js "a"), s.length ≤ 10000 := by
    intro s hs
    rw [← Option.some.inj hs]
    exact Nat.le_of_ble_eq_true rfl
  have hvalid : validate askedMessage (some [js "w"]) =
      some (.ok ⟨js "w", some (js "a"), none, none, none⟩) :=
    (validateTaskInput_ok_iff _ _ _).mpr
      ⟨by decide +kernel, rfl, ⟨by decide, by decide, List.all_eq_true.mp (by decide)⟩, by simp,
        ⟨rfl, htext⟩, ⟨rfl, by simp⟩, ⟨rfl, by simp⟩, ⟨rfl, by simp⟩⟩
  obtain ⟨-, -, ⟨call, hcall, -, hdata⟩, hsame⟩ := asked_is_read hvalid (js "t") 0 []
  exact ⟨_, hvalid, hsame ⟨js "w", js "a", none⟩ ⟨rfl, ⟨rfl, by decide⟩, rfl, rfl, rfl⟩, call,
    hcall, hdata (js "priority")⟩

end Kaiban
