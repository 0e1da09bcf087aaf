/-
One call of `waitAll`, over a router that others use as well.

The call registers a wait for each position of its list, one after the other and before
anything else can happen.  Each wait has a continuation that puts an entry into the results
when its promise has settled, and the call goes on when all of these have run.
-/
import Kaiban.Router
import Kaiban.Lib.Steps

open JsString

namespace Kaiban

def WaitError.message : WaitError → JsString
  | .error m => m
  | .emergencyStop m => m

/-- An entry of what `waitAll` resolves with. -/
structure WaitEntry where
  taskId : JsString
  result : Option JsString
  error : Option JsString

/-- What a wait's continuation puts into the results. -/
def WaitEntry.ofSettlement (taskId : JsString) : Settlement → WaitEntry
  | .resolved result => ⟨taskId, some result, none⟩
  | .rejected err => ⟨taskId, none, some err.message⟩

/-- What a promise has settled with: the first call of its `resolve` or `reject`. -/
def Router.promise (s : Router) (w : ℕ) : Option Settlement :=
  (s.settlements.find? fun e => e.1 = w).map Prod.snd

/-- The arguments of `waitAll`, without the list. -/
structure WaitAllCall where
  /-- `timeoutMs / 1000`, as text. -/
  seconds : JsString
  label : JsString
  signal : Option ℕ

/-- A position of the list: its task id, the number of its wait, and what the calls of
`subscribe` made for it throw. -/
structure Position where
  taskId : JsString
  wait : ℕ
  thrown : Queue → Option JsString

/-- `taskId.slice(-8)`. -/
def lastEight (taskId : JsString) : JsString := taskId.drop (taskId.length - 8)

/-- The arguments of the `wait` of a position. -/
def WaitAllCall.waitOf (c : WaitAllCall) (p : Position) : Wait where
  taskId := p.taskId
  seconds := c.seconds
  label := c.label ++ js "[" ++ lastEight p.taskId ++ js "]"
  signal := c.signal

inductive WaitAllOutcome where
  | resolved (results : List WaitEntry)
  | rejected (err : WaitError)

structure WaitAll where
  router : Router
  /-- The positions whose continuation has not run. -/
  waiting : List Position
  results : List WaitEntry
  outcome : Option WaitAllOutcome

inductive WaitAllEvent where
  | router (e : RouterEvent)
  /-- The continuation of a wait runs. -/
  | collects (w : ℕ)
  /-- The call goes on after its `Promise.all`. -/
  | returns

namespace WaitAll

/-- The waits of a call. -/
def waits (c : WaitAllCall) (ps : List Position) : List RouterEvent :=
  ps.map fun p => .wait p.wait (c.waitOf p) p.thrown

/-- `waitAll(taskIds, timeoutMs, label, signal)`, up to its first `await`. -/
def start (c : WaitAllCall) (ps : List Position) (s : Router) : Option WaitAll :=
  (Steps.run Router.step s (waits c ps)).map fun router => ⟨router, ps, [], none⟩

/-- What the call ends with. -/
def finalOutcome (c : WaitAllCall) (s : WaitAll) : WaitAllOutcome :=
  match c.signal.bind s.router.aborted with
  | some reason => .rejected (abortError reason c.label)
  | none => .resolved s.results

def step (c : WaitAllCall) (s : WaitAll) : WaitAllEvent → Option WaitAll
  | .router e => (s.router.step e).map fun router => { s with router := router }
  | .collects w =>
      match s.waiting.find? (fun p => p.wait = w), s.router.promise w with
      | some p, some r =>
          some { s with
            waiting := s.waiting.filter fun q => q.wait ≠ w
            results := s.results ++ [.ofSettlement p.taskId r] }
      | _, _ => none
  | .returns =>
      if s.waiting.isEmpty ∧ s.outcome.isNone then
        some { s with outcome := some (s.finalOutcome c) }
      else none

end WaitAll

end Kaiban
