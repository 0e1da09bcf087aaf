/-
The graceful shutdown: an ordered list of steps that races a deadline.

A run is a list of events: the step that is running ends, or the deadline fires.  A step that
hangs has no event.  The object the caller is given is the one the steps write to.
-/
import Kaiban.Actor

open JsString

namespace Kaiban

/-- `GracefulShutdownResult`. -/
structure GracefulShutdownResult where
  completed : List JsString
  timedOut : Bool
  errors : List (JsString × JsString)
  deriving DecidableEq

/-- How the `run` of a step ends. -/
inductive StepEnd where
  | finished
  | threw (err : Thrown)

/-- What won the race of the steps and the deadline. -/
inductive RaceOutcome where
  | done
  | deadline
  /-- The steps were given up, with an error. -/
  | rejected
  deriving DecidableEq

/-- A call of `gracefulShutdown`.  Its steps are given by their names. -/
structure GracefulShutdown where
  running : Option JsString
  remaining : List JsString
  result : GracefulShutdownResult
  timer : Bool
  outcome : Option RaceOutcome
  -- history: the steps started, how they ended, and what there was when the call returned
  started : List JsString
  ends : List (JsString × StepEnd)
  returned : Option (GracefulShutdownResult × List JsString)

inductive ShutdownEvent where
  | ended (e : StepEnd)
  | deadline

/-- `toMessage(reason)`, or none when `String` throws. -/
def toMessage (reason : Thrown) : Option JsString := reason.text

namespace GracefulShutdownResult

def empty : GracefulShutdownResult := ⟨[], false, []⟩

/-- What the end of a step adds, or none when recording it throws. -/
def record (r : GracefulShutdownResult) (name : JsString) : StepEnd →
    Option GracefulShutdownResult
  | .finished => some { r with completed := r.completed ++ [name] }
  | .threw err =>
      (toMessage err).map fun message => { r with errors := r.errors ++ [(name, message)] }

end GracefulShutdownResult

namespace GracefulShutdown

/-- The call returns its result. -/
def settle (s : GracefulShutdown) (outcome : RaceOutcome) : GracefulShutdown :=
  { s with timer := false, outcome := some outcome, returned := some (s.result, s.started) }

/-- The loop goes on to the next step, or has come to its end. -/
def next (s : GracefulShutdown) : GracefulShutdown :=
  match s.remaining with
  | name :: rest =>
      { s with running := some name, remaining := rest, started := s.started ++ [name] }
  | [] =>
      let s := { s with running := none }
      if s.outcome = none then s.settle .done else s

/-- A call of `gracefulShutdown` with steps of these names. -/
def init (steps : List JsString) : GracefulShutdown :=
  next ⟨none, steps, .empty, true, none, [], [], none⟩

def step (s : GracefulShutdown) : ShutdownEvent → Option GracefulShutdown
  | .ended e =>
      match s.running with
      | none => none
      | some name =>
          let s := { s with ends := s.ends ++ [(name, e)] }
          match s.result.record name e with
          | some result => some { s with result := result }.next
          | none => some { s with
              running := none
              outcome := s.outcome.or (some .rejected) }
  | .deadline =>
      if s.timer then
        if s.outcome = none then
          some ({ s with result := { s.result with timedOut := true } }.settle .deadline)
        else some { s with timer := false }
      else none

end GracefulShutdown

end Kaiban
