/-
The stores a checkpoint is kept in.

Both keep a record the way a JSON text writes it.  The text names the steps in the order of
an object's properties, so a record that is read back has the names that are array indices
first.  A result that is `undefined` has no member.  A text that is no record of steps is
outside the model: nothing else writes these keys.
-/
import Kaiban.Orchestrator

open JsString

namespace Kaiban

/-- `Object.entries(cp)`: array indices come first, in their order. -/
def objectEntries {υ : Type} (cp : OrderedMap JsString υ) : List (JsString × υ) :=
  let indexed := cp.entries.filterMap fun e => (arrayIndex e.1).map fun n => (n, e)
  (indexed.mergeSort fun a b => a.1 ≤ b.1).map Prod.snd ++
    cp.entries.filter fun e => (arrayIndex e.1).isNone

namespace StepCheckpoint

/-- What `JSON.stringify` writes of a step. -/
def toJson (e : StepCheckpoint) : Json :=
  .obj ((js "taskId", .str e.taskId) ::
    match e.result with
    | none => []
    | some result => [(js "result", .str result)])

/-- A value that was read, taken as a step. -/
def ofJson : Json → Option StepCheckpoint
  | .obj ms =>
      match Json.get ms (js "taskId") with
      | some (.str taskId) =>
          some ⟨taskId, match Json.get ms (js "result") with
            | some (.str result) => some result
            | _ => none⟩
      | _ => none
  | _ => none

end StepCheckpoint

namespace Checkpoint

/-- `JSON.stringify(cp)`. -/
def text (cp : Checkpoint) : JsString :=
  Json.stringify (.obj ((objectEntries cp).map fun e => (e.1, e.2.toJson)))

/-- The steps of the members of an object. -/
def stepsOf : List (JsString × Json) → Option (List (JsString × StepCheckpoint))
  | [] => some []
  | (name, v) :: ms =>
      (StepCheckpoint.ofJson v).bind fun e => (stepsOf ms).map fun es => (name, e) :: es

/-- A value that was read, taken as a record. -/
def ofJson : Json → Option Checkpoint
  | .obj ms => (stepsOf ms).map OrderedMap.empty.setAll
  | _ => none

end Checkpoint

/-! ### What is kept and what is read -/

namespace InMemoryCheckpointStore

/-- `JSON.parse(JSON.stringify(cp))`. -/
def copy (cp : Checkpoint) : Option Checkpoint := (Json.parse cp.text).bind Checkpoint.ofJson

/-- What `save` puts into the map. -/
def save (cp : Checkpoint) : Option Checkpoint := copy cp

def load (kept : Option Checkpoint) : Option Checkpoint := kept.bind copy

end InMemoryCheckpointStore

namespace RedisCheckpointStore

/-- The text `save` sets the key to. -/
def save (cp : Checkpoint) : Option JsString := some cp.text

def load : Option JsString → Option Checkpoint
  | none => none
  | some [] => none
  | some raw => (Json.parse raw).bind Checkpoint.ofJson

end RedisCheckpointStore

inductive StoreKind where
  | inMemory
  | redis

/-- What the store gives for a record that was saved to it. -/
def StoreKind.reads : StoreKind → Checkpoint → Option Checkpoint
  | .inMemory, cp => InMemoryCheckpointStore.load (InMemoryCheckpointStore.save cp)
  | .redis, cp => RedisCheckpointStore.load (RedisCheckpointStore.save cp)

end Kaiban
