/-
What comes in at the two front doors of the gateway.

An A2A message and a call of the MCP tool `dispatch_task` are made into one set of
parameters, which are checked field by field.  The first violation is the error, and only
what was checked goes on to the mailbox of an agent.

A value is JSON: a member that is `undefined` is not there.
-/
import Kaiban.A2aExecutor
import Kaiban.Lib.Number
import Kaiban.Outbound

open JsString

namespace Kaiban

/-! ### The caps -/

/-- `A2A_INPUT_CAPS`. -/
def maxAgentIdLen : ℕ := 64

def maxInstructionLen : ℕ := 10000

def maxExpectedOutputLen : ℕ := 10000

def maxContextLen : ℕ := 20000

def maxInputsKeys : ℕ := 64

def maxTotalParamsBytes : ℕ := 65536

/-- `A2AInputError`. -/
structure A2aInputError where
  code : ℤ
  message : JsString
  deriving DecidableEq

def invalidParam (message : JsString) : A2aInputError := ⟨-32602, message⟩

/-- The text of a number in a template. -/
def capText (n : ℕ) : JsString := NumberText.numberText (Decimal.ofInt n)

/-! ### The fields -/

/-- `validateOptionalString(value, field, maxLen)`. -/
def validateOptionalString (value : Option Json) (field : JsString) (maxLen : ℕ) :
    Except A2aInputError (Option JsString) :=
  match value with
  | none => .ok none
  | some (.str s) =>
      if maxLen < s.length then
        .error (invalidParam (field ++ js " too long: max " ++ capText maxLen ++ js " chars"))
      else .ok (some s)
  | some _ => .error (invalidParam (field ++ js " must be a string"))

/-- `validateInputs(value)`. -/
def validateInputs (value : Option Json) : Except A2aInputError (Option MessageData) :=
  match value with
  | none => .ok none
  | some (.obj ms) =>
      if maxInputsKeys < (ms.map Prod.fst).dedup.length then
        .error (invalidParam (js "inputs has too many keys: max " ++ capText maxInputsKeys))
      else .ok (some ms)
  | some _ => .error (invalidParam (js "inputs must be a plain object"))

/-- `checkTotalSize(params)`, whether it is within the cap. -/
def fitsTotalSize (params : MessageData) : Bool := jsonBytes (.obj params) ≤ maxTotalParamsBytes

def totalSizeError : A2aInputError :=
  invalidParam (js "params too large: max " ++ capText maxTotalParamsBytes ++ js " bytes")

/-- A unit of `AGENT_ID_PATTERN`. -/
def isAgentIdUnit (u : CodeUnit) : Bool :=
  (unit 'A' ≤ u && u ≤ unit 'Z') || (unit 'a' ≤ u && u ≤ unit 'z') ||
    NumberText.isDigit u || u = unit '_' || u = unit '-'

/-- An id of at most `MAX_AGENT_ID_LEN` units that `AGENT_ID_PATTERN` matches. -/
def isAgentId (agentId : JsString) : Bool :=
  agentId ≠ [] && agentId.length ≤ maxAgentIdLen && agentId.all isAgentIdUnit

/-- `String(raw ?? "")`, or none when it throws. -/
def agentIdText : Option Json → Option JsString
  | none | some .null => some []
  | some v => Json.toText v

/-- `validateAgentId(raw, allowed)`, of the text of `raw`. -/
def validateAgentId (agentId : JsString) (allowed : Option (List JsString)) :
    Except A2aInputError JsString :=
  if agentId = [] then .error (invalidParam (js "agentId is required"))
  else if !isAgentId agentId then
    .error (invalidParam (js "Invalid agentId: must be alphanumeric/hyphens, max " ++
      capText maxAgentIdLen ++ js " chars"))
  else if allowed.any fun ids => agentId ∉ ids then
    .error (invalidParam (js "Unknown agentId: not served by this gateway"))
  else .ok agentId

/-- `buildValidated(agentId, p)`. -/
def buildValidated (agentId : JsString) (p : MessageData) :
    Except A2aInputError ValidatedTaskInput := do
  let instruction ← validateOptionalString (Json.get p (js "instruction")) (js "instruction")
    maxInstructionLen
  let expectedOutput ← validateOptionalString (Json.get p (js "expectedOutput"))
    (js "expectedOutput") maxExpectedOutputLen
  let context ← validateOptionalString (Json.get p (js "context")) (js "context") maxContextLen
  let inputs ← validateInputs (Json.get p (js "inputs"))
  return ⟨agentId, instruction, expectedOutput, context, inputs⟩

/-- `validateTaskInput(params, allowedAgentIds)`, or none when it throws. -/
def validateTaskInput (params : MessageData) (allowed : Option (List JsString)) :
    Option (Except A2aInputError ValidatedTaskInput) :=
  if !fitsTotalSize params then some (.error totalSizeError)
  else (agentIdText (Json.get params (js "agentId"))).map fun agentId =>
    validateAgentId agentId allowed >>= fun agentId => buildValidated agentId params

/-! ### The A2A door -/

/-- A part of an A2A message. -/
inductive MessagePart where
  | text (t : JsString)
  | other

/-- The message of a request: its `metadata` and its `parts`. -/
structure UserMessage where
  metadata : Option MessageData
  parts : List MessagePart

/-- `textOf(message)`. -/
def textOf (message : UserMessage) : JsString :=
  let texts := message.parts.filterMap fun
    | .text t => some t
    | .other => none
  (texts.intersperse [unit '\n']).flatten

/-- The instruction: the one of the metadata if it is a text, or the text of the message. -/
def instructionOf (message : UserMessage) : JsString :=
  match Json.get (message.metadata.getD []) (js "instruction") with
  | some (.str s) => s
  | _ => textOf message

/-- The parameters `validate(ctx)` checks. -/
def a2aParams (message : UserMessage) : MessageData :=
  let metadata := message.metadata.getD []
  let member (name : JsString) : MessageData :=
    ((Json.get metadata name).map fun v => (name, v)).toList
  let instruction := instructionOf message
  member (js "agentId") ++
    (if instruction = [] then [] else [(js "instruction", .str instruction)]) ++
    member (js "expectedOutput") ++ member (js "context") ++ member (js "inputs")

/-- `validate(ctx)`. -/
def validate (message : UserMessage) (agentIds : Option (List JsString)) :
    Option (Except A2aInputError ValidatedTaskInput) :=
  validateTaskInput (a2aParams message) agentIds

/-! ### The MCP door -/

/-- The arguments of `dispatchTask`. -/
structure DispatchTaskArgs where
  agentId : JsString
  instruction : JsString
  expectedOutput : Option JsString

def mcpParams (args : DispatchTaskArgs) : MessageData :=
  [(js "agentId", .str args.agentId), (js "instruction", .str args.instruction)] ++
    (args.expectedOutput.map fun s => (js "expectedOutput", Json.str s)).toList

/-- `dispatchTask(args)`: the id of the agent and the data of the message to its mailbox, or
the message of the error it throws. -/
def dispatchTask (args : DispatchTaskArgs) (agentIds : List JsString) :
    Except JsString (JsString × MessageData) :=
  match validateTaskInput (mcpParams args) (some agentIds) with
  | none => .error []
  | some (.error e) => .error e.message
  | some (.ok p) =>
      .ok (p.agentId,
        (p.instruction.map fun s => (js "instruction", Json.str s)).toList ++
          (p.expectedOutput.map fun s => (js "expectedOutput", Json.str s)).toList)

end Kaiban
