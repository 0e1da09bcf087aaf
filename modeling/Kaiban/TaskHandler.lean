/-
The handler of a task: one KaibanJS team for each call, raced against the actor's signal.

A call gets its keys, builds a team of one agent with one task, and starts it.  A team that was
stopped never settles, so its start is raced against the signal, and what settles first is what
the call comes to.

What is outside comes with the events: what the token provider answers, how the team settles
and what it has logged by then, and when the signal aborts.  `toUpperCase` is a parameter.
-/
import Kaiban.Lib.LowerCase
import Kaiban.Lib.Steps
import Kaiban.Pricing

open JsString

namespace Kaiban

/-! ### Why a workflow failed -/

/-- The members an error may be nested under. -/
def nestedKeys : List JsString :=
  ["originalError", "rootError", "cause", "error", "details"].map js

/-- `toNonEmptyString(value)`. -/
def toNonEmptyString : Option Json → Option JsString
  | some (.str s) => if JsNumber.trim s = [] then none else some (JsNumber.trim s)
  | _ => none

/-- The search for a text: in what is nested first, and then in what a record says itself.  It
goes on while `left` is not zero, at the depth `depth`.  An `Error` is the record of its
members here, and an array is a record without any. -/
def extractMessage (own : ℕ → List (JsString × Json) → Option JsString) :
    ℕ → ℕ → Json → Option JsString
  | 0, _, _ => none
  | _ + 1, _, .str s => toNonEmptyString (some (.str s))
  | left + 1, depth, .obj ms =>
      (nestedKeys.findSome? fun key =>
        (Json.get ms key).bind (extractMessage own left (depth + 1))).or (own depth ms)
  | _ + 1, _, _ => none

/-- What a record says itself to `extractRootCauseMessage`. -/
def rootMessage (depth : ℕ) (ms : List (JsString × Json)) : Option JsString :=
  if 0 < depth then toNonEmptyString (Json.get ms (js "message")) else none

/-- `extractRootCauseMessage(value)`. -/
def extractRootCauseMessage (value : Option Json) : Option JsString :=
  value.bind (extractMessage rootMessage 5 0)

/-- What a record says itself to `extractNestedErrorMessageFromRecord`. -/
def nestedMessage (_depth : ℕ) (ms : List (JsString × Json)) : Option JsString :=
  ((toNonEmptyString (Json.get ms (js "message"))).or
    (toNonEmptyString (Json.get ms (js "blockReason")))).or
    (toNonEmptyString (Json.get ms (js "logDescription")))

/-- `extractNestedErrorMessage(value)`. -/
def extractNestedErrorMessage (value : Option Json) : Option JsString :=
  value.bind (extractMessage nestedMessage 5 0)

/-- `WorkflowLogLike`, with the error of its metadata. -/
structure WorkflowLog where
  logType : Option JsString
  agentStatus : Option JsString
  logDescription : Option Json
  error : Option Json

/-- `isRootCauseLog(log)`. -/
def isRootCauseLog (toUpperCase : JsString → JsString) (log : WorkflowLog) : Bool :=
  log.logType.getD [] = js "AgentStatusUpdate" ||
    toUpperCase (log.agentStatus.getD []) = js "THINKING_ERROR"

/-- `findWorkflowRootCauseMessage(workflowLogs)`. -/
def findWorkflowRootCauseMessage (toUpperCase : JsString → JsString)
    (workflowLogs : List WorkflowLog) : Option JsString :=
  workflowLogs.reverse.findSome? fun log =>
    if isRootCauseLog toUpperCase log then extractRootCauseMessage log.error else none

/-- The unit is the letter, in either case. -/
def sameLetter (u : CodeUnit) (c : CodeUnit) : Bool :=
  u = c || (unit 'a' ≤ c && c ≤ unit 'z' && u + 0x20 = c) ||
    (unit 'A' ≤ c && c ≤ unit 'Z' && u = c + 0x20)

/-- What follows the word, in any case, at the start of a text. -/
def afterWord : JsString → JsString → Option JsString
  | [], s => some s
  | _ :: _, [] => none
  | c :: word, u :: s => if sameLetter u c then afterWord word s else none

/-- A unit that `.` does not match. -/
def isLineEnd (u : CodeUnit) : Bool := u = 0x0A || u = 0x0D || u = 0x2028 || u = 0x2029

/-- What follows the first occurrence of the word in the rest of the line. -/
def afterWordInLine (word : JsString) : JsString → Option JsString
  | [] => afterWord word []
  | u :: s =>
      match afterWord word (u :: s) with
      | some rest => some rest
      | none => if isLineEnd u then none else afterWordInLine word s

/-- `description.replace(/^Workflow blocked:\s*/i, "")`. -/
def dropWorkflowBlocked (s : JsString) : JsString :=
  match afterWord (js "Workflow blocked:") s with
  | some rest => rest.dropWhile JsNumber.isWhite
  | none => s

/-- `description.replace(/^Task blocked:.*?Reason:\s*/i, "")`. -/
def dropTaskBlocked (s : JsString) : JsString :=
  match (afterWord (js "Task blocked:") s).bind (afterWordInLine (js "Reason:")) with
  | some rest => rest.dropWhile JsNumber.isWhite
  | none => s

/-- What `findWorkflowFallbackMessage` makes of one log. -/
def fallbackMessage (log : WorkflowLog) : Option JsString :=
  (extractNestedErrorMessage log.error).or
    ((toNonEmptyString log.logDescription).map fun description =>
      JsNumber.trim (dropTaskBlocked (dropWorkflowBlocked description)))

/-- `findWorkflowFallbackMessage(workflowLogs)`. -/
def findWorkflowFallbackMessage (workflowLogs : List WorkflowLog) : Option JsString :=
  workflowLogs.reverse.findSome? fallbackMessage

/-- `extractWorkflowFailureReason(team, result)`, of the logs of the team and of what it came
to. -/
def extractWorkflowFailureReason (toUpperCase : JsString → JsString)
    (workflowLogs : List WorkflowLog) (result : Option Json) : Option JsString :=
  (((findWorkflowRootCauseMessage toUpperCase workflowLogs).or
    (findWorkflowFallbackMessage workflowLogs)).or
    (extractNestedErrorMessage result)).or (toNonEmptyString result)

/-! ### A call of the handler -/

/-- `LLM_API_KEY_NAMES`. -/
def llmApiKeyNames : List JsString :=
  ["OPENAI_API_KEY", "OPENROUTER_API_KEY", "ANTHROPIC_API_KEY", "GOOGLE_API_KEY",
    "MISTRAL_API_KEY", "GROQ_API_KEY"].map js

/-- `llmConfig`, as far as the handler reads it. -/
structure LlmConfig where
  model : Option JsString
  apiBaseUrl : Option JsString
  apiKey : Option JsString

/-- What a call of the handler gets and what the handler was created with. -/
structure TaskHandlerCall where
  taskId : JsString
  llmConfig : Option LlmConfig
  /-- There is a token provider. -/
  tokenProvider : Bool
  /-- `process.env`. -/
  environment : JsString → Option JsString
  /-- There is a signal. -/
  signal : Bool

/-- The tokens of a team. -/
abbrev TokenEnv := List (JsString × JsString)

/-- A team that was built, with what its model is configured with. -/
structure BuiltTeam where
  env : TokenEnv
  llmConfig : Option LlmConfig

/-- `WorkflowResult`, with the tokens of its statistics. -/
structure WorkflowResult where
  status : Option JsString
  result : Option Json
  usage : Option (ℚ × ℚ)

structure KaibanHandlerResult where
  answer : JsString
  inputTokens : ℚ
  outputTokens : ℚ
  estimatedCost : Option ℚ

/-- What the handler throws. -/
inductive TaskHandlerError where
  /-- The signal's reason. -/
  | aborted (reason : JsString)
  /-- What the token provider or the start of the team failed with. -/
  | failed (message : JsString)
  /-- A `FailedAttemptError`, with its usage. -/
  | failedAttempt (message : JsString) (inputTokens outputTokens : ℚ) (estimatedCost : Option ℚ)

inductive HandlerPhase where
  /-- The token of the first of the keys that are left is awaited. -/
  | fetching (env : TokenEnv) (key : JsString) (rest : List JsString)
  /-- `buildEnv` has returned. -/
  | fetched (env : TokenEnv)
  | running
  /-- The race is over, by the signal or by the team. -/
  | raced (winner : Except TaskHandlerError WorkflowResult)
  | ended (outcome : Except TaskHandlerError KaibanHandlerResult)

inductive HandlerEvent where
  /-- `getToken` settles. -/
  | token (answer : Except JsString (Option JsString))
  /-- What was awaited has settled and the handler goes on, with what the team has logged. -/
  | continues (workflowLogs : List WorkflowLog)
  /-- `team.start` settles. -/
  | settles (result : Except JsString WorkflowResult)
  | abort (reason : JsString)

structure HandlerRun where
  phase : HandlerPhase
  /-- The signal is aborted. -/
  aborted : Option JsString
  /-- `onAbort` listens to the signal. -/
  listening : Bool
  /-- The teams that were started. -/
  teams : List BuiltTeam
  /-- How the start of the team has settled. -/
  settled : Option (Except JsString WorkflowResult)
  /-- The calls of `team.stop()`. -/
  stops : ℕ

/-- `if (val) env[key] = val`. -/
def addToken (env : TokenEnv) (key : JsString) (val : Option JsString) : TokenEnv :=
  match val with
  | none | some [] => env
  | some (u :: token) => env ++ [(key, u :: token)]

/-- `buildEnv()` without a token provider. -/
def processEnv (environment : JsString → Option JsString) : TokenEnv :=
  llmApiKeyNames.foldl (fun env key => addToken env key (environment key)) []

/-- `withProviderKey(agentConfig, env)`. -/
def withProviderKey (llmConfig : Option LlmConfig) (env : TokenEnv) : Option LlmConfig :=
  llmConfig.map fun llm =>
    let keyName := if llm.apiBaseUrl.any fun url => js "openrouter.ai" <:+: url then
      js "OPENROUTER_API_KEY" else js "OPENAI_API_KEY"
    match env.find? fun token => token.1 = keyName with
    | some token => { llm with apiKey := some token.2 }
    | none => llm

/-- `formatAnswer(result)`. -/
def formatAnswer : Option Json → JsString
  | none | some .null => []
  | some (.str s) => s
  | some v => Json.stringify v

/-- `isSuccessfulWorkflowStatus(status)`. -/
def isSuccessfulWorkflowStatus (toUpperCase : JsString → JsString) (status : Option JsString) :
    Bool :=
  let normalised := toUpperCase (status.getD [])
  normalised = [] ||
    ["COMPLETED", "DONE", "FINISHED", "SUCCESS", "SUCCEEDED", "STOPPED"].any fun word =>
      normalised = js word

/-- What the language and its tables give the handler. -/
structure HandlerTexts where
  tables : CaseTables
  toUpperCase : JsString → JsString

namespace TaskHandlerCall

/-- The model that is priced. -/
def pricedModel (c : TaskHandlerCall) : JsString :=
  (c.llmConfig.bind LlmConfig.model).getD (js "gpt-4o-mini")

/-- `toHandlerResult(result, model)`. -/
def toHandlerResult (c : TaskHandlerCall) (texts : HandlerTexts) (r : WorkflowResult) :
    KaibanHandlerResult :=
  let usage := r.usage.getD (0, 0)
  ⟨formatAnswer r.result, usage.1, usage.2,
    estimateCost texts.tables c.pricedModel usage.1 usage.2⟩

/-- What the handler makes of what won the race. -/
def finish (c : TaskHandlerCall) (texts : HandlerTexts) (workflowLogs : List WorkflowLog) :
    Except TaskHandlerError WorkflowResult → Except TaskHandlerError KaibanHandlerResult
  | .error e => .error e
  | .ok r =>
      let handlerResult := c.toHandlerResult texts r
      if isSuccessfulWorkflowStatus texts.toUpperCase r.status then .ok handlerResult
      else
        let failureReason := (extractWorkflowFailureReason texts.toUpperCase workflowLogs
          r.result).getD (js "unknown")
        .error (.failedAttempt (js "KaibanJS workflow " ++
          texts.tables.toLowerCase (r.status.getD (js "failed")) ++ js ": " ++ failureReason)
          handlerResult.inputTokens handlerResult.outputTokens handlerResult.estimatedCost)

/-- The team of a call. -/
def buildTeam (c : TaskHandlerCall) (env : TokenEnv) : BuiltTeam :=
  ⟨env, if c.tokenProvider then withProviderKey c.llmConfig env else c.llmConfig⟩

end TaskHandlerCall

namespace HandlerRun

/-- The call of the handler, up to its first wait.  The signal, if there is one, may have been
aborted before. -/
def call (c : TaskHandlerCall) (aborted : Option JsString) : HandlerRun :=
  match if c.signal then aborted else none with
  | some reason => ⟨.ended (.error (.aborted reason)), some reason, false, [], none, 0⟩
  | none =>
      let phase : HandlerPhase :=
        if c.tokenProvider && c.taskId ≠ [] then
          .fetching [] (js "OPENAI_API_KEY") llmApiKeyNames.tail
        else .fetched (processEnv c.environment)
      ⟨phase, none, false, [], none, 0⟩

/-- The handler goes on when the token of a key has come. -/
def fetch (s : HandlerRun) (env : TokenEnv) (key : JsString) (rest : List JsString) :
    Except JsString (Option JsString) → HandlerRun
  | .error message => { s with phase := .ended (.error (.failed message)) }
  | .ok val =>
      let env := addToken env key val
      { s with phase := match rest with
        | [] => .fetched env
        | key :: rest => .fetching env key rest }

/-- The team is built and started, unless the signal is aborted by then. -/
def startTeam (c : TaskHandlerCall) (s : HandlerRun) (env : TokenEnv) : HandlerRun :=
  match s.aborted with
  | some reason => { s with phase := .ended (.error (.aborted reason)) }
  | none =>
      { s with phase := .running, listening := c.signal, teams := s.teams ++ [c.buildTeam env] }

/-- The start of the team settles. -/
def settle (s : HandlerRun) (result : Except JsString WorkflowResult) : HandlerRun :=
  { s with
    settled := some result
    phase := match s.phase with
      | .running => .raced (result.mapError .failed)
      | phase => phase }

/-- The signal is aborted, and `onAbort` is called if it listens. -/
def abort (s : HandlerRun) (reason : JsString) : HandlerRun :=
  if s.listening then
    { s with
      aborted := some reason
      listening := false
      stops := s.stops + 1
      phase := match s.phase with
        | .running => .raced (.error (.aborted reason))
        | phase => phase }
  else { s with aborted := some reason }

def step (c : TaskHandlerCall) (texts : HandlerTexts) (s : HandlerRun) :
    HandlerEvent → Option HandlerRun
  | .token answer =>
      match s.phase with
      | .fetching env key rest => some (s.fetch env key rest answer)
      | _ => none
  | .continues workflowLogs =>
      match s.phase with
      | .fetched env => some (startTeam c s env)
      | .raced winner =>
          some { s with phase := .ended (c.finish texts workflowLogs winner), listening := false }
      | _ => none
  | .settles result =>
      if s.teams ≠ [] ∧ s.settled.isNone then some (s.settle result) else none
  | .abort reason =>
      if c.signal ∧ s.aborted.isNone then some (s.abort reason) else none

end HandlerRun

end Kaiban
