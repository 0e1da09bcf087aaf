/-
What one step of the stop channel can do.

`Moved` names the ways a step can go, with what each finds in the state, and `moved` says
there are no others.
-/
import Kaiban.ControlChannel
import Kaiban.Lib.Steps

open JsString

namespace Kaiban.ControlSystem

variable {sg : Signing} {lua : Lua} {cfg : ActorConfig} {s s' : ControlSystem}

inductive Moved (sg : Signing) (lua : Lua) (cfg : ActorConfig) (s : ControlSystem) :
    ControlEvent → ControlSystem → Prop
  | saved (cmd : StopAllCommand) : Moved sg lua cfg s (.save cmd) (s.save sg lua cmd)
  | published (i ts : ℕ) (cmd : StopAllCommand) (hi : s.issues i = some ⟨cmd, false⟩) :
      Moved sg lua cfg s (.publish i ts) (s.publish sg i ts cmd)
  | started (hp : s.phase = .idle) :
      Moved sg lua cfg s .start { s with phase := .subscribing, savesBefore := s.saves }
  | becameReady (hp : s.phase ≠ .idle) (hc : s.connected = false) :
      Moved sg lua cfg s .ready ({ s with connected := true }.newRead false)
  | subscribed (hc : s.connected = true) :
      Moved sg lua cfg s .subscribes { s with subscribed := true }
  | confirmed (hp : s.phase = .subscribing) (hs : s.subscribed = true) :
      Moved sg lua cfg s .confirmed ({ s with phase := .reading s.readCount }.newRead true)
  | startFailed (hp : s.phase = .subscribing) :
      Moved sg lua cfg s .startFails { s with phase := .failed }
  | redisRead (k : ℕ) (forStart : Bool) (hk : s.reads k = some ⟨forStart, .sent⟩) :
      Moved sg lua cfg s (.redisReads k) (s.setRead k (some ⟨forStart, .replied s.saved⟩))
  | startReadFailed (k : ℕ) (hk : s.reads k = some ⟨true, .sent⟩) :
      Moved sg lua cfg s (.readFails k) { s.setRead k none with phase := .failed }
  | readFailed (k : ℕ) (hk : s.reads k = some ⟨false, .sent⟩) :
      Moved sg lua cfg s (.readFails k) (s.setRead k (some ⟨false, .backoff⟩))
  | retried (k : ℕ) (forStart : Bool) (hk : s.reads k = some ⟨forStart, .backoff⟩) :
      Moved sg lua cfg s (.retries k) (s.setRead k (some ⟨forStart, .sent⟩))
  | startReadReturned (k : ℕ) (value : Option JsString)
      (hk : s.reads k = some ⟨true, .replied value⟩) :
      Moved sg lua cfg s (.readReturns k)
        { (s.setRead k none).deliverAny (readLastStop sg value) with phase := .attached }
  | readReturned (k : ℕ) (value : Option JsString)
      (hk : s.reads k = some ⟨false, .replied value⟩) :
      Moved sg lua cfg s (.readReturns k) ((s.setRead k none).deliverAny (readLastStop sg value))
  | message (raw : JsString) (rest : List JsString) (hi : s.inbox = raw :: rest) :
      Moved sg lua cfg s .message ({ s with inbox := rest }.deliverAny (commandOfMessage sg raw))
  | dropped : Moved sg lua cfg s .drop
      { s with connected := false, subscribed := false, inbox := [] }
  | ran (hp : s.phase = .attached) : Moved sg lua cfg s .runs { s with phase := .running }
  | acted (e : ActorEvent) (a : Actor) (hp : s.phase = .running)
    (ha : s.actor.step cfg e = some a) :
      Moved sg lua cfg s (.actor e) { s with actor := a }

/-- **Every step is one of these.** -/
theorem moved {e : ControlEvent} (h : s.step sg lua cfg e = some s') : Moved sg lua cfg s e s' := by
  cases e with
  | save cmd =>
      obtain rfl := Option.some.inj h
      exact .saved cmd
  | publish i ts =>
      simp only [step] at h
      split at h
      · rename_i cmd hi
        obtain rfl := Option.some.inj h
        exact .published i ts cmd hi
      · exact absurd h (by simp)
  | start =>
      simp only [step, Option.ite_none_right_eq_some] at h
      obtain ⟨hp, h⟩ := h
      obtain rfl := Option.some.inj h
      exact .started hp
  | ready =>
      simp only [step, Option.ite_none_right_eq_some] at h
      obtain ⟨⟨hp, hc⟩, h⟩ := h
      obtain rfl := Option.some.inj h
      exact .becameReady hp hc
  | subscribes =>
      simp only [step, Option.ite_none_right_eq_some] at h
      obtain ⟨⟨hc, -⟩, h⟩ := h
      obtain rfl := Option.some.inj h
      exact .subscribed hc
  | confirmed =>
      simp only [step, Option.ite_none_right_eq_some] at h
      obtain ⟨⟨hp, hs⟩, h⟩ := h
      obtain rfl := Option.some.inj h
      exact .confirmed hp hs
  | startFails =>
      simp only [step, Option.ite_none_right_eq_some] at h
      obtain ⟨hp, h⟩ := h
      obtain rfl := Option.some.inj h
      exact .startFailed hp
  | redisReads k =>
      simp only [step] at h
      split at h
      · rename_i forStart hk
        obtain rfl := Option.some.inj h
        exact .redisRead k forStart hk
      · exact absurd h (by simp)
  | readFails k =>
      simp only [step] at h
      split at h
      · rename_i forStart hk
        obtain rfl := Option.some.inj h
        cases forStart with
        | true => exact .startReadFailed k hk
        | false => exact .readFailed k hk
      · exact absurd h (by simp)
  | retries k =>
      simp only [step] at h
      split at h
      · rename_i forStart hk
        obtain rfl := Option.some.inj h
        exact .retried k forStart hk
      · exact absurd h (by simp)
  | readReturns k =>
      simp only [step] at h
      split at h
      · rename_i forStart value hk
        obtain rfl := Option.some.inj h
        cases forStart with
        | true => exact .startReadReturned k value hk
        | false => exact .readReturned k value hk
      · exact absurd h (by simp)
  | message =>
      simp only [step] at h
      split at h
      · exact absurd h (by simp)
      · rename_i raw rest hi
        obtain rfl := Option.some.inj h
        exact .message raw rest hi
  | drop =>
      simp only [step, Option.ite_none_right_eq_some] at h
      obtain ⟨-, h⟩ := h
      obtain rfl := Option.some.inj h
      exact .dropped
  | runs =>
      simp only [step, Option.ite_none_right_eq_some] at h
      obtain ⟨hp, h⟩ := h
      obtain rfl := Option.some.inj h
      exact .ran hp
  | actor e =>
      simp only [step] at h
      split at h
      · exact absurd h (by simp)
      · rename_i e _ _ hp _
        obtain ⟨a, ha, rfl⟩ := Option.map_eq_some_iff.mp h
        exact .acted e a hp ha
      · exact absurd h (by simp)

/-! ### Deliveries -/

theorem deliverAny_frame (s : ControlSystem) (cmd : Option StopAllCommand) :
    ∃ actor delivered, s.deliverAny cmd = { s with actor := actor, delivered := delivered } := by
  cases cmd with
  | none => exact ⟨s.actor, s.delivered, rfl⟩
  | some cmd => exact ⟨_, _, rfl⟩

theorem deliverAny_delivered (s : ControlSystem) (cmd : Option StopAllCommand) :
    (s.deliverAny cmd).delivered = s.delivered ++ cmd.toList := by
  cases cmd with
  | none => exact (List.append_nil _).symm
  | some cmd => rfl

end Kaiban.ControlSystem
