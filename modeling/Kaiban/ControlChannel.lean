/-
Redis, those who issue emergency stops, and a node that subscribes to them.

An issue is two steps in Redis: the script saves the command if it is later than what is
saved, and a publish reaches the connections that are subscribed then.  A node has two
connections.  The subscriber connection may drop and come back; each time it is ready the
client sends SUBSCRIBE again and a catch-up reads the saved key over the other connection.
Redis processes the two in either order, and a read may fail and be retried.

`start()` waits for SUBSCRIBE before it reads, and the actor starts only after that read.
-/
import Kaiban.Actor
import Kaiban.Control

open JsString

namespace Kaiban

/-- An `issueStopAll` whose save has run. -/
structure Issue where
  cmd : StopAllCommand
  published : Bool

inductive ReadPhase where
  /-- Redis has not processed the GET. -/
  | sent
  /-- The key held this; the reply is on its way. -/
  | replied (value : Option JsString)
  /-- It failed, and the catch-up waits to try again. -/
  | backoff

/-- A `replaySaved()` of `start()` or of a `catchUp()`. -/
structure SavedRead where
  forStart : Bool
  phase : ReadPhase

inductive NodePhase where
  | idle
  /-- `start()` waits for SUBSCRIBE. -/
  | subscribing
  /-- `start()` waits for its read of the saved key. -/
  | reading (k : ℕ)
  /-- `attachEmergencyStop` has returned. -/
  | attached
  /-- `actor.start()` was called. -/
  | running
  /-- `start()` has rejected. -/
  | failed
  deriving DecidableEq

structure ControlSystem where
  saved : Option JsString
  issues : ℕ → Option Issue
  issueCount : ℕ
  /-- The subscriber connection is up; `subscribed` is what Redis has for it. -/
  connected : Bool
  subscribed : Bool
  /-- The messages on their way to it. -/
  inbox : List JsString
  reads : ℕ → Option SavedRead
  readCount : ℕ
  phase : NodePhase
  actor : Actor
  -- history: the calls of `onStop`
  delivered : List StopAllCommand
  -- history: the commands whose save ran, and those whose save ran before `start()`
  saves : List StopAllCommand
  savesBefore : List StopAllCommand

def ControlSystem.init : ControlSystem where
  saved := none
  issues := fun _ => none
  issueCount := 0
  connected := false
  subscribed := false
  inbox := []
  reads := fun _ => none
  readCount := 0
  phase := .idle
  actor := .init
  delivered := []
  saves := []
  savesBefore := []

inductive ControlEvent where
  /-- The script of an `issueStopAll(cmd)` runs. -/
  | save (cmd : StopAllCommand)
  /-- Its PUBLISH runs, with an envelope of the time `ts`. -/
  | publish (i ts : ℕ)
  | start
  /-- The subscriber connection is up, again or for the first time. -/
  | ready
  /-- Redis processes SUBSCRIBE. -/
  | subscribes
  /-- `start()` hears that it is subscribed, or that it could not be. -/
  | confirmed
  | startFails
  | redisReads (k : ℕ)
  | readFails (k : ℕ)
  | retries (k : ℕ)
  | readReturns (k : ℕ)
  /-- The next message arrives. -/
  | message
  /-- The subscriber connection drops, with what was on its way. -/
  | drop
  | runs
  | actor (e : ActorEvent)

namespace ControlSystem

/-- `deliver(cmd)`, with the actor's `emergencyStop` behind it. -/
def deliver (s : ControlSystem) (cmd : StopAllCommand) : ControlSystem :=
  { s with
    actor := (s.actor.emergencyStop (Decimal.ofInt cmd.issuedAt)).1
    delivered := s.delivered ++ [cmd] }

/-- A delivery, if there is a command. -/
def deliverAny (s : ControlSystem) : Option StopAllCommand → ControlSystem
  | none => s
  | some cmd => s.deliver cmd

def setRead (s : ControlSystem) (k : ℕ) (r : Option SavedRead) : ControlSystem :=
  { s with reads := fun x => if x = k then r else s.reads x }

def newRead (s : ControlSystem) (forStart : Bool) : ControlSystem :=
  { s with
    reads := fun x => if x = s.readCount then some ⟨forStart, .sent⟩ else s.reads x
    readCount := s.readCount + 1 }

variable (sg : Signing) (lua : Lua)

/-- The script of `issueStopAll(cmd)`. -/
def save (s : ControlSystem) (cmd : StopAllCommand) : ControlSystem :=
  { s with
    saved := some (savedAfter sg lua s.saved cmd)
    saves := s.saves ++ [cmd]
    issues := fun x => if x = s.issueCount then some ⟨cmd, false⟩ else s.issues x
    issueCount := s.issueCount + 1 }

/-- The PUBLISH of the issue `i`. -/
def publish (s : ControlSystem) (i ts : ℕ) (cmd : StopAllCommand) : ControlSystem :=
  { s with
    issues := fun x => if x = i then some ⟨cmd, true⟩ else s.issues x
    inbox := if s.subscribed then s.inbox ++ [publishedStop sg ts cmd] else s.inbox }

/-- A read has failed: `start()` rejects, a catch-up waits to try again. -/
def readFailed (s : ControlSystem) (k : ℕ) (r : SavedRead) : ControlSystem :=
  if r.forStart then { s.setRead k none with phase := .failed }
  else s.setRead k (some { r with phase := .backoff })

/-- A read has returned: its command is delivered, and `start()` goes on. -/
def readReturned (s : ControlSystem) (k : ℕ) (r : SavedRead) (value : Option JsString) :
    ControlSystem :=
  let s := (s.setRead k none).deliverAny (readLastStop sg value)
  if r.forStart then { s with phase := .attached } else s

def step (cfg : ActorConfig) (s : ControlSystem) : ControlEvent → Option ControlSystem
  | .save cmd => some (s.save sg lua cmd)
  | .publish i ts =>
      match s.issues i with
      | some ⟨cmd, false⟩ => some (s.publish sg i ts cmd)
      | _ => none
  | .start =>
      if s.phase = .idle then some { s with phase := .subscribing, savesBefore := s.saves }
      else none
  | .ready =>
      if s.phase ≠ .idle ∧ s.connected = false then
        some ({ s with connected := true }.newRead false)
      else none
  | .subscribes =>
      if s.connected = true ∧ s.subscribed = false then some { s with subscribed := true } else none
  | .confirmed =>
      if s.phase = .subscribing ∧ s.subscribed = true then
        some ({ s with phase := .reading s.readCount }.newRead true)
      else none
  | .startFails => if s.phase = .subscribing then some { s with phase := .failed } else none
  | .redisReads k =>
      match s.reads k with
      | some ⟨forStart, .sent⟩ => some (s.setRead k (some ⟨forStart, .replied s.saved⟩))
      | _ => none
  | .readFails k =>
      match s.reads k with
      | some ⟨forStart, .sent⟩ => some (s.readFailed k ⟨forStart, .sent⟩)
      | _ => none
  | .retries k =>
      match s.reads k with
      | some ⟨forStart, .backoff⟩ => some (s.setRead k (some ⟨forStart, .sent⟩))
      | _ => none
  | .readReturns k =>
      match s.reads k with
      | some ⟨forStart, .replied value⟩ =>
          some (s.readReturned sg k ⟨forStart, .replied value⟩ value)
      | _ => none
  | .message =>
      match s.inbox with
      | [] => none
      | raw :: rest => some ({ s with inbox := rest }.deliverAny (commandOfMessage sg raw))
  | .drop =>
      if s.connected = true then
        some { s with connected := false, subscribed := false, inbox := [] }
      else none
  | .runs => if s.phase = .attached then some { s with phase := .running } else none
  | .actor e =>
      match s.phase, e with
      | .running, .emergencyStop _ => none
      | .running, e => (s.actor.step cfg e).map fun a => { s with actor := a }
      | _, _ => none

end ControlSystem

end Kaiban
