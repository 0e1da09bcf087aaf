/-
The STOP ALL buttons of the boards, and the gateway they ask.

A request of a board reaches the gateway once or not at all, and its answer comes back once
or not at all; a gateway without the control plane takes none.  The answers of human
decisions come from elsewhere and may be anything.
-/
import Kaiban.BoardClient
import Kaiban.StopIngress

open JsString

namespace Kaiban

/-- What `handleStopAll` passes to the acknowledgement, as the board reads it. -/
def StopAnswer.reply (a : StopAnswer) : BoardReply :=
  match a.outcome with
  | .ok commandId _ _ => ⟨true, none, some commandId⟩
  | .refused refusal => ⟨false, some refusal.error, none⟩

/-- The call that `handleStopAll` makes for a request: the body is what the board sent. -/
def StopCall.asking (c : StopCall) (reason : Option JsString) : StopCall :=
  { c with body := some (.obj (BoardClient.stopAllData reason)) }

/-- An answer of the gateway, to request `request` of board `board`. -/
structure GivenAnswer where
  board : ℕ
  request : ℕ
  answer : StopAnswer

structure StopButton where
  boards : ℕ → BoardClient
  ingress : EmergencyStopIngress
  answers : List GivenAnswer

inductive StopButtonEvent where
  /-- A reaction of board `b`. -/
  | board (b : ℕ) (e : BoardClientEvent)
  /-- The gateway handles request `i` of board `b`. -/
  | handled (b i : ℕ) (c : StopCall)
  /-- Its answer is there. -/
  | answered (b i : ℕ)

namespace StopButton

def init : StopButton := ⟨fun _ => .init, .init, []⟩

/-- Request `i` of a board is a STOP ALL, with this reason. -/
def stopAsked (s : StopButton) (b i : ℕ) : Option (Option JsString) :=
  match (s.boards b).requests[i]? with
  | some ⟨.stopAll reason, _, _⟩ => some reason
  | _ => none

/-- The gateway's answer to a request. -/
def answerOf (s : StopButton) (b i : ℕ) : Option StopAnswer :=
  (s.answers.find? fun a => a.board = b ∧ a.request = i).map GivenAnswer.answer

/-- A reaction of a board. -/
def react (s : StopButton) (b : ℕ) (e : BoardClientEvent) : Option StopButton :=
  ((s.boards b).step e).map fun client =>
    { s with boards := fun x => if x = b then client else s.boards x }

/-- The event answers a STOP ALL. -/
def answersStop (s : StopButton) (b : ℕ) : BoardClientEvent → Bool
  | .replied i _ => (s.stopAsked b i).isSome
  | _ => false

def step (sg : Signing) (boardSecret : JsString) (s : StopButton) :
    StopButtonEvent → Option StopButton
  | .board b e => if s.answersStop b e then none else s.react b e
  | .handled b i c =>
      match s.stopAsked b i, s.answerOf b i with
      | some reason, none =>
          let (answer, ingress) := s.ingress.stopAll sg boardSecret (c.asking reason)
          some { s with ingress := ingress, answers := s.answers ++ [⟨b, i, answer⟩] }
      | _, _ => none
  | .answered b i => (s.answerOf b i).bind fun a => s.react b (.replied i (some a.reply))

end StopButton

end Kaiban
