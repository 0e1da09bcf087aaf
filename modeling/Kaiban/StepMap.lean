/-
What a workflow orchestrator is for when one caller at a time uses it: a finite map.

The map has, for each name, what was done under it first.  A later call of the name is given
that, and nothing is done or spent again.  A task that has answered one `runStep` answers any
other that dispatches it.  A restart is no operation of the map.

`Session` says what the orchestrator does in such a use: each call runs to its end before the
next one is made, and between two calls the process may be replaced by a new one on what the
store has kept.  The spend of a map is an exact sum, so numbers are exact here.
-/
import Kaiban.CheckpointStore
import Kaiban.Lib.Steps

open JsString

namespace Kaiban

attribute [local instance] Arithmetic.exact

/-- What was done under a name: a task that answered, or a producer that returned. -/
inductive DoneStep where
  | ran (taskId result : JsString)
  /-- A value of `none` is `undefined`. -/
  | memoized (value : Option Json)

namespace DoneStep

def isRan : DoneStep → Bool
  | .ran _ _ => true
  | .memoized _ => false

/-- The result of the task, if the step ran it. -/
def resultOf (taskId : JsString) : DoneStep → Option JsString
  | .ran id result => if id = taskId then some result else none
  | .memoized _ => none

/-- The text a value is kept as. -/
def jsonText (value : Option Json) : JsString := Json.stringify (value.getD .null)

/-- The step as a checkpoint has it. -/
def entry (name : JsString) : DoneStep → StepCheckpoint
  | .ran taskId result => ⟨taskId, some result⟩
  | .memoized value => ⟨js "memoize:" ++ name, some (jsonText value)⟩

end DoneStep

/-- What was done so far, and what it cost.  One task has one result. -/
structure StepMap where
  steps : OrderedMap JsString DoneStep
  spend : SpendTotals
  uniform : ∀ a ∈ steps.entries, ∀ b ∈ steps.entries, ∀ taskId r r',
    a.2.resultOf taskId = some r → b.2.resultOf taskId = some r' → r = r'

/-- A call, with what its dispatch and its task, or its producer, give when they are asked. -/
inductive StepRequest where
  | runStep (name taskId result : JsString)
  | memoize (name : JsString) (value : Option Json)

namespace StepRequest

def name : StepRequest → JsString
  | .runStep name _ _ => name
  | .memoize name _ => name

def kind : StepRequest → CallKind
  | .runStep _ _ _ => .runStep
  | .memoize _ _ => .memoize

end StepRequest

/-- What a call returns: a text, or a value. -/
inductive Answer where
  | text (result : JsString)
  | value (v : Option Json)

/-- What a call comes to. -/
structure StepOutcome where
  answer : Answer
  /-- Its dispatch or its producer was asked. -/
  begins : Bool
  /-- The answer of its task was waited for. -/
  waits : Bool
  /-- The result that was obtained, and paid for. -/
  obtained : Option (JsString ⊕ Option Json)

namespace DoneStep

/-- The first result of the name. -/
def first : DoneStep → Answer
  | .ran _ result => .text result
  | .memoized value => .value value

/-- The round trip of the first result through JSON, with `undefined` as `null`. -/
def jsonCopy : DoneStep → Answer
  | .ran _ result => .text result
  | .memoized value => .value (some (Json.printed (value.getD .null)))

end DoneStep

namespace StepMap

def empty : StepMap := ⟨.empty, 0, fun _ h => absurd h List.not_mem_nil⟩

/-- The result a task has given. -/
def resultOf (m : StepMap) (taskId : JsString) : Option JsString :=
  m.steps.entries.findSome? fun e => e.2.resultOf taskId

/-- The step is new, or its task has the result it had. -/
def Fits (m : StepMap) (d : DoneStep) : Prop :=
  ∀ taskId r, d.resultOf taskId = some r → ∀ r', m.resultOf taskId = some r' → r' = r

theorem resultOf_of_mem {m : StepMap} {e : JsString × DoneStep} (he : e ∈ m.steps.entries)
    {taskId r : JsString} (h : e.2.resultOf taskId = some r) : m.resultOf taskId = some r := by
  unfold resultOf
  cases hfind : m.steps.entries.findSome? fun e => e.2.resultOf taskId with
  | none => exact absurd (List.findSome?_eq_none_iff.mp hfind e he) (by simp [h])
  | some r' =>
      obtain ⟨b, hb, hr'⟩ := List.exists_of_findSome?_eq_some hfind
      rw [m.uniform e he b hb taskId r r' h hr']

/-- A step written under a name, and what it cost. -/
def add (m : StepMap) (name : JsString) (d : DoneStep) (cost : SpendTotals) (h : m.Fits d) :
    StepMap where
  steps := m.steps.set name d
  spend := m.spend + cost
  uniform := by
    intro a ha b hb taskId r r' hr hr'
    rcases OrderedMap.mem_set ha with rfl | ha
    · rcases OrderedMap.mem_set hb with rfl | hb
      · exact Option.some.inj (hr.symm.trans hr')
      · exact (h taskId r hr r' (resultOf_of_mem hb hr')).symm
    · rcases OrderedMap.mem_set hb with rfl | hb
      · exact h taskId r' hr' r (resultOf_of_mem ha hr)
      · exact m.uniform a ha b hb taskId r r' hr hr'

theorem fits_ran {m : StepMap} {taskId result : JsString}
    (h : ∀ r, m.resultOf taskId = some r → r = result) : m.Fits (.ran taskId result) := by
  intro id r hr r' hr'
  have hif : (if taskId = id then some result else none) = some r := hr
  split at hif
  · rename_i hid
    subst hid
    exact (h r' hr').trans (Option.some.inj hif)
  · exact absurd hif (by simp)

theorem fits_memoized (m : StepMap) (value : Option Json) : m.Fits (.memoized value) :=
  fun _ _ h => absurd h (by simp [DoneStep.resultOf])

/-- A call of a name: what is there after it, and what it comes to. -/
def perform (cost : JsString ⊕ Option Json → SpendTotals) (m : StepMap) :
    StepRequest → StepMap × StepOutcome
  | .runStep name taskId result =>
      match m.steps.get name with
      | some d => (m, ⟨d.first, false, false, none⟩)
      | none =>
          match h : m.resultOf taskId with
          | some r =>
              (m.add name (.ran taskId r) 0
                  (fits_ran fun r' hr' => Option.some.inj (hr'.symm.trans h)),
                ⟨.text r, true, false, none⟩)
          | none =>
              (m.add name (.ran taskId result) (cost (.inl result))
                  (fits_ran fun r' hr' => absurd (hr'.symm.trans h) (by simp)),
                ⟨.text result, true, true, some (.inl result)⟩)
  | .memoize name value =>
      match m.steps.get name with
      | some d => (m, ⟨d.jsonCopy, false, false, none⟩)
      | none =>
          (m.add name (.memoized value) (cost (.inr value)) (m.fits_memoized value),
            ⟨.value value, true, false, some (.inr value)⟩)

/-- The checkpoint that has the steps of the map. -/
def checkpoint (m : StepMap) : Checkpoint where
  entries := m.steps.entries.map fun e => (e.1, e.2.entry e.1)
  nodup := by
    rw [List.map_map]
    exact m.steps.nodup

/-- The step that is found for a task: the first one of a checkpoint that names it. -/
def firstWith (m : StepMap) (taskId : JsString) : Option DoneStep :=
  ((objectEntries m.steps).find? fun e => (e.2.entry e.1).taskId = taskId).map Prod.snd

/-- The call is of a name no object has of itself and that was done by calls of its kind, and
its task is not taken for a producer's. -/
def Plain (m : StepMap) : StepRequest → Prop
  | .runStep name taskId _ =>
      name ∉ inheritedNames ∧ (m.steps.get name).all DoneStep.isRan = true ∧
        (m.steps.get name = none → (m.firstWith taskId).all DoneStep.isRan = true)
  | .memoize name _ =>
      name ∉ inheritedNames ∧ (m.steps.get name).all (fun d => !d.isRan) = true

end StepMap

/-! ### Sequences of calls -/

inductive SessionOp where
  | request (r : StepRequest)
  | restart (budget : WorkflowBudget)

namespace StepMap

/-- What is there after some calls. -/
def after (cost : JsString ⊕ Option Json → SpendTotals) : StepMap → List SessionOp → StepMap
  | m, [] => m
  | m, .request r :: ops => after cost (m.perform cost r).1 ops
  | m, .restart _ :: ops => after cost m ops

end StepMap

/-! ### The orchestrator used so -/

/-- The call will not go on. -/
def CallPhase.Over {ν : Type} : CallPhase ν → Prop
  | .resolved _ => True
  | .answered _ => True
  | .rejected _ => True
  | _ => False

namespace StepRequest

/-- What may happen during the call: the caller gives what was asked for, and nothing
fails. -/
def Allows (r : StepRequest) : OrchestratorEvent (Option Json) → Prop
  | .dispatched _ given => ∃ name taskId result, r = .runStep name taskId result ∧
      given = .ok taskId
  | .waited _ given => ∃ name taskId result, r = .runStep name taskId result ∧
      given = .ok result
  | .produced _ given => ∃ name value, r = .memoize name value ∧ given = .ok value
  | .storeReads _ => True
  | .loadReturns _ => True
  | .loaded _ => True
  | .checked _ => True
  | .enters _ => True
  | .continues _ => True
  | .jobStarts => True
  | .jobLoaded => True
  | .storeActs => True
  | .jobReturns => True
  | .finishes _ => True
  | _ => False

/-- What a call that has resolved returns: `memoize` returns its value, or what it reads
from the text of its step. -/
def returned (r : StepRequest) (begins : Bool) (result : Option JsString) : Option Answer :=
  match r with
  | .runStep _ _ _ => result.map .text
  | .memoize _ value =>
      if begins then some (.value value)
      else (result.bind Json.parse).map fun v => .value (some v)

end StepRequest

/-- The answer of a task was waited for. -/
def OrchestratorEvent.isWaited {ν : Type} : OrchestratorEvent ν → Bool
  | .waited _ _ => true
  | _ => false

/-- A call that was made in `before` and has ended in `after`. -/
structure Performed where
  request : StepRequest
  before : Orchestrator (Option Json)
  events : List (OrchestratorEvent (Option Json))
  after : Orchestrator (Option Json)

namespace Performed

/-- The call came to what the map says. -/
structure Agrees (p : Performed) (o : StepOutcome) : Prop where
  answer : ∃ result, p.after.calls p.before.callCount
      = some ⟨p.request.kind, p.request.name, .resolved result⟩ ∧
    p.request.returned o.begins result = some o.answer
  begins : p.after.begun = p.before.begun ++ if o.begins then [p.before.callCount] else []
  waits : p.events.any OrchestratorEvent.isWaited = o.waits

end Performed

namespace Orchestrator

/-- The record in the store has the steps and the spend of the map. -/
def Keeps (m : StepMap) : Option Checkpoint → Prop
  | none => m.steps.entries = [] ∧ m.spend = 0
  | some record => objectEntries (record.erase spendEntry) = objectEntries m.checkpoint ∧
      parsePersistedSpend (spendText (some record)) = some ⟨m.spend, none⟩

/-- The instance has the steps and the spend of the map, if it has loaded anything. -/
def Shows (m : StepMap) (s : Orchestrator (Option Json)) : Prop :=
  s.loading = none ∧ s.totals = 0 ∨
    objectEntries s.steps = objectEntries m.checkpoint ∧ s.totals = m.spend.running

end Orchestrator

end Kaiban
