/-
One A2A task: an `execute` and the cancels that come with it.

`execute` waits four times (for the save of the submitted task, for the mailbox, for the
router, for the save of the ending) and a cancel once.  A save takes effect in the store
at some moment and its promise settles at a later one, and a cancel may come at any time
while the store holds no ending.

The router's promise settles at one moment and `execute` goes on at a later one.  An abort
rejects a wait that has not settled.
-/
import Kaiban.Lib.Json

open JsString

namespace Kaiban

/-- `TaskState`, with the states the executor uses. -/
inductive TaskState where
  | submitted
  | working
  | completed
  | failed
  | canceled
  | rejected
  deriving DecidableEq

/-- A terminal state. -/
def TaskState.terminal : TaskState → Bool
  | .submitted | .working => false
  | .completed | .failed | .canceled | .rejected => true

/-- `Task`, with the text of its message.  Timestamps and message ids are left out. -/
structure A2aTask where
  id : JsString
  contextId : JsString
  state : TaskState
  text : Option JsString

/-- `ValidatedTaskInput`. -/
structure ValidatedTaskInput where
  agentId : JsString
  instruction : Option JsString
  expectedOutput : Option JsString
  context : Option JsString
  inputs : Option (List (JsString × Json))

/-- `toData(params)`: every field but the agent's id. -/
def ValidatedTaskInput.toData (params : ValidatedTaskInput) : List (JsString × Json) :=
  let field (name : String) (value : Option Json) : List (JsString × Json) :=
    (value.map fun v => (js name, v)).toList
  field "instruction" (params.instruction.map .str) ++
    field "expectedOutput" (params.expectedOutput.map .str) ++
    field "context" (params.context.map .str) ++ field "inputs" (params.inputs.map .obj)

/-- A call of the event bus, or a message to an agent's mailbox. -/
inductive BusCall where
  | task (t : A2aTask)
  | statusUpdate (t : A2aTask) (final : Bool)
  | artifact (taskId contextId result : JsString)
  | finished
  | mailbox (channel taskId agentId : JsString) (data : List (JsString × Json))

/-- A status-update that is final. -/
def BusCall.isFinal : BusCall → Bool
  | .statusUpdate _ final => final
  | _ => false

/-- A status-update with a terminal state. -/
def BusCall.isTerminal : BusCall → Bool
  | .statusUpdate t _ => t.state.terminal
  | _ => false

inductive ExecutePhase where
  | idle
  /-- The submitted task is being saved; `stored` once the store holds it. -/
  | submitting (params : ValidatedTaskInput) (stored : Bool)
  | publishing
  /-- The wait is open, or has settled. -/
  | waiting (outcome : Option (Except Unit JsString))
  /-- A terminal task is being saved. -/
  | ending (t : A2aTask) (stored : Bool)
  | ended

inductive CancelPhase where
  | saving (t : A2aTask) (stored : Bool)
  | ended

structure Executor where
  phase : ExecutePhase
  /-- The `contextId` of `execute`. -/
  contextId : JsString
  /-- `abort.signal.aborted`. -/
  aborted : Bool
  cancels : ℕ → Option CancelPhase
  /-- What the store has held for the task, in turn. -/
  stored : List A2aTask
  -- history
  log : List BusCall

def Executor.init : Executor := ⟨.idle, [], false, fun _ => none, [], []⟩

/-- Whose save it is. -/
inductive Saver where
  | execute
  | cancel (c : ℕ)

inductive ExecutorEvent where
  /-- `execute(ctx)`, with what `validate(ctx)` gives, if it does not throw. -/
  | execute (contextId : JsString) (validation : Option (Except JsString ValidatedTaskInput))
  | cancel (c : ℕ)
  /-- A save takes effect. -/
  | stores (p : Saver)
  /-- The promise of a save resolves, or rejects. -/
  | saved (p : Saver)
  | saveFails (p : Saver)
  | mailboxTakes
  | mailboxFails
  | settles (outcome : Except Unit JsString)
  /-- `execute` goes on after the wait. -/
  | resumes

namespace Executor

variable (taskId : JsString)

def call (s : Executor) (cs : List BusCall) : Executor := { s with log := s.log ++ cs }

def setCancel (s : Executor) (c : ℕ) (phase : CancelPhase) : Executor :=
  { s with cancels := fun x => if x = c then some phase else s.cancels x }

/-- `this.inFlight.has(taskId)`.  A rejected task has no entry. -/
def inFlight (s : Executor) : Bool :=
  match s.phase with
  | .idle | .ended => false
  | .ending t _ => t.state ≠ .rejected
  | _ => true

/-- The start of `emitTerminal(...)` in `execute`. -/
def emitTerminal (s : Executor) (state : TaskState) (text : JsString) : Executor :=
  let t : A2aTask := ⟨taskId, s.contextId, state, some text⟩
  { s.call [.task t] with phase := .ending t false }

/-- The end of `emitTerminal(...)` and of `emitSuccess(...)`. -/
def finish (s : Executor) (t : A2aTask) : Executor := s.call [.statusUpdate t true, .finished]

/-- The `catch` of `execute`. -/
def caught (s : Executor) : Executor :=
  if s.aborted then { s with phase := .ended }
  else s.emitTerminal taskId .failed (js "Task execution failed")

/-- The start of `emitSuccess(...)`. -/
def emitSuccess (s : Executor) (result : JsString) : Executor :=
  let t : A2aTask := ⟨taskId, s.contextId, .completed, some result⟩
  { s.call [.artifact taskId s.contextId result, .task t] with phase := .ending t false }

/-- `execute(ctx)` up to its first wait. -/
def execute (s : Executor) (contextId : JsString)
    (validation : Option (Except JsString ValidatedTaskInput)) : Executor :=
  let s := { s with contextId := contextId }
  match validation with
  | none => { s with phase := .ended }
  | some (.error message) => s.emitTerminal taskId .rejected message
  | some (.ok params) =>
      { s.call [.task ⟨taskId, contextId, .submitted, none⟩] with
        phase := .submitting params false }

/-- `abort.abort()`: the wait rejects, unless it has settled. -/
def abort (s : Executor) : Executor :=
  { s with
    aborted := true
    phase := match s.phase with
      | .waiting none => .waiting (some (.error ()))
      | phase => phase }

/-- `cancelTask(taskId)` up to its wait. -/
def cancelTask (s : Executor) (c : ℕ) : Executor :=
  let t : A2aTask :=
    ⟨taskId, if s.inFlight then s.contextId else taskId, .canceled, some (js "Task canceled")⟩
  ((if s.inFlight then s.abort else s).call [.task t]).setCancel c (.saving t false)

/-- The task is not yet terminal in the store. -/
def cancelable (s : Executor) : Bool := s.stored.getLast?.all fun t => !t.state.terminal

/-- What follows the save of the submitted task. -/
def submitted (s : Executor) (params : ValidatedTaskInput) : Executor :=
  { s.call [.statusUpdate ⟨taskId, s.contextId, .working, none⟩ false,
      .mailbox (js "kaiban-agents-" ++ params.agentId) taskId params.agentId params.toData] with
    phase := .publishing }

def step (s : Executor) : ExecutorEvent → Option Executor
  | .execute contextId validation =>
      match s.phase with
      | .idle => some (s.execute taskId contextId validation)
      | _ => none
  | .cancel c =>
      match s.cancels c with
      | none => if s.cancelable then some (s.cancelTask taskId c) else none
      | some _ => none
  | .stores .execute =>
      match s.phase with
      | .submitting params false =>
          some { s with
            stored := s.stored ++ [⟨taskId, s.contextId, .submitted, none⟩]
            phase := .submitting params true }
      | .ending t false => some { s with stored := s.stored ++ [t], phase := .ending t true }
      | _ => none
  | .stores (.cancel c) =>
      match s.cancels c with
      | some (.saving t false) =>
          some ({ s with stored := s.stored ++ [t] }.setCancel c (.saving t true))
      | _ => none
  | .saved .execute =>
      match s.phase with
      | .submitting params true => some (s.submitted taskId params)
      | .ending t true => some { s.finish t with phase := .ended }
      | _ => none
  | .saved (.cancel c) =>
      match s.cancels c with
      | some (.saving t true) => some ((s.finish t).setCancel c .ended)
      | _ => none
  | .saveFails .execute =>
      match s.phase with
      | .submitting _ _ => some (s.caught taskId)
      | .ending t _ =>
          -- the save of the completed task is inside the `try`
          some (if t.state = .completed then s.caught taskId else { s with phase := .ended })
      | _ => none
  | .saveFails (.cancel c) =>
      match s.cancels c with
      | some (.saving _ _) => some (s.setCancel c .ended)
      | _ => none
  | .mailboxTakes =>
      match s.phase with
      | .publishing =>
          some { s with phase := .waiting (if s.aborted then some (.error ()) else none) }
      | _ => none
  | .mailboxFails =>
      match s.phase with
      | .publishing => some (s.caught taskId)
      | _ => none
  | .settles outcome =>
      match s.phase with
      | .waiting none => some { s with phase := .waiting (some outcome) }
      | _ => none
  | .resumes =>
      match s.phase with
      | .waiting (some (.ok result)) => some (s.emitSuccess taskId result)
      | .waiting (some (.error _)) => some (s.caught taskId)
      | _ => none

end Executor

end Kaiban
