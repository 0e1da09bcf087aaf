/-
The MCP session handler.

A request to open a session first closes the sessions that are idle, then checks the limit, and
then connects a server and has the transport handle the request, in which the session is
registered.  Every await in between lets other requests run, so each is a phase of its own.

A session is known by the call that opened it, as `randomUUID` gives each its own id.  What
the transport and the server do is given from outside: when their promises settle and how,
when `onsessioninitialized` and `onsessionclosed` are called, and what the clock reads.
-/
import Mathlib.Data.Int.Notation
import Mathlib.Data.List.Count

namespace Kaiban

/-- `McpSessionLimits`, each with its default where it is not given. -/
structure McpSessionLimits where
  idleTimeoutMs : ℤ := 30 * 60000
  maxSessions : ℕ := 200

/-- Where a call of `openSession` is. -/
inductive OpenPhase where
  /-- It closes an idle session: its transport, or its server when `inner` is set. -/
  | closing (cutoff : ℤ) (rest : List ℕ) (inner : Bool)
  /-- `closeIdleSessions()` has returned. -/
  | swept
  | connecting
  | handling
  /-- The session was registered. -/
  | opened
  | ended
  deriving DecidableEq

/-- It has passed the check of the limit and may yet register a session. -/
def OpenPhase.mayRegister : OpenPhase → Bool
  | connecting => true
  | handling => true
  | _ => false

/-- `StreamableMcpHandler`. -/
structure McpHandler where
  clock : ℤ
  /-- The keys of the `sessions` map. -/
  sessions : List ℕ
  lastSeenAt : ℕ → ℤ
  opens : List OpenPhase
  -- history: the times of the requests of each session
  requests : ℕ → List ℤ

namespace McpHandler

def init (clock : ℤ) : McpHandler := ⟨clock, [], fun _ => 0, [], fun _ => []⟩

/-- `sessions.delete(id)`. -/
def delete (h : McpHandler) (id : ℕ) : McpHandler :=
  { h with sessions := h.sessions.filter fun x => x ≠ id }

/-- `lastSeenAt = Date.now()`. -/
def seen (h : McpHandler) (id : ℕ) : McpHandler :=
  { h with lastSeenAt := fun x => if x = id then h.clock else h.lastSeenAt x,
           requests := fun x => if x = id then h.requests x ++ [h.clock] else h.requests x }

/-- `sessions.set(id, …)` of the session a call opens. -/
def register (h : McpHandler) (id : ℕ) : McpHandler :=
  { h.seen id with sessions := if id ∈ h.sessions then h.sessions else h.sessions ++ [id] }

/-- The loop of `closeIdleSessions()`, up to the next session that is idle. -/
def closeIdle (cutoff : ℤ) : List ℕ → McpHandler → McpHandler × OpenPhase
  | [], h => (h, .swept)
  | id :: rest, h =>
      if cutoff ≤ h.lastSeenAt id then closeIdle cutoff rest h
      else (h.delete id, .closing cutoff rest false)

def setOpen (h : McpHandler) (c : ℕ) (phase : OpenPhase) : McpHandler :=
  { h with opens := h.opens.set c phase }

/-- What goes on: a promise an `openSession` awaits settles, or else. -/
inductive McpEvent where
  | tick (now : ℤ)
  /-- A `POST`, `GET` or `DELETE` with a session id. -/
  | request (id : ℕ)
  /-- A `POST` of an initialize request without a session id. -/
  | openSession
  | continues (c : ℕ) (ok : Bool)
  /-- The transport of the call's session calls `onsessioninitialized`. -/
  | initialized (c : ℕ)
  /-- The session's transport calls `onsessionclosed`. -/
  | closed (id : ℕ)
  /-- `close()` of the handler. -/
  | close

def step (limits : McpSessionLimits) (h : McpHandler) : McpEvent → Option McpHandler
  | .tick now => if h.clock ≤ now then some { h with clock := now } else none
  | .request id => some (if id ∈ h.sessions then h.seen id else h)
  | .openSession =>
      let swept := closeIdle (h.clock - limits.idleTimeoutMs) h.sessions h
      some { swept.1 with opens := swept.1.opens ++ [swept.2] }
  | .continues c ok =>
      match h.opens[c]? with
      | some (.closing cutoff rest inner) =>
          if ok && !inner then some (h.setOpen c (.closing cutoff rest true))
          else
            let swept := closeIdle cutoff rest h
            some (swept.1.setOpen c swept.2)
      | some .swept =>
          some (h.setOpen c
            (if limits.maxSessions ≤ h.sessions.length then .ended else .connecting))
      | some .connecting => some (h.setOpen c (if ok then .handling else .ended))
      | some .handling => some (h.setOpen c .ended)
      | some .opened => some (h.setOpen c .ended)
      | _ => none
  | .initialized c =>
      match h.opens[c]? with
      | some .handling => some ((h.register c).setOpen c .opened)
      | _ => none
  | .closed id => some (h.delete id)
  | .close => some { h with sessions := [] }

end McpHandler

end Kaiban
