/-
What an operator is told about the STOP ALL he asked for.

The alert beside the button is a register: a click, a connection, a timer and an answer write
it, and nothing else does.  What is behind an answer is read off the gateway's ingress, and a
request that has no answer yet has its timer running or was reported as not confirmed.
-/
import Kaiban.Lib.Register
import Kaiban.Proofs.BoardClient
import Kaiban.Proofs.StopIngress
import Kaiban.StopButton

open JsString

namespace Kaiban

/-! ### What is behind an answer -/

namespace EmergencyStopIngress

variable {sg : Signing} {boardSecret : JsString} {c : StopCall}

theorem stopAll_call (sg : Signing) (s : EmergencyStopIngress) :
    (s.stopAll sg boardSecret c).1.call = c := by
  cases h : authenticate boardSecret c with
  | error refusal =>
      unfold stopAll
      rw [h]
  | ok subject =>
      rw [(stopAll_ok sg s h).2]
      split <;> rfl

theorem fits_of_reasonOf {body : Option Json} {reason : Option JsString}
    (h : reasonOf body = some reason) : ReasonFits body := by
  intro v hv
  unfold reasonOf at h
  rw [hv] at h
  cases v with
  | str text =>
      refine ⟨text, rfl, ?_⟩
      dsimp only at h
      split at h
      · rename_i hempty
        rw [hempty]
        exact Nat.zero_le _
      · split at h
        · exact absurd h (by simp)
        · exact not_lt.mp ‹_›
  | _ => exact absurd h (by simp)

/-- What a confirmed call got from Redis and from the schema. -/
theorem issue_ok {subject id : JsString} {moment : ℕ} {saved : Bool}
    (h : (issue sg c subject).1 = .ok id moment saved) :
    ReasonFits c.body ∧ c.saved ≠ none ∧ c.published = true ∧ subject.length ≤ 200 ∧
      0 < c.moment ∧ c.moment ≤ 9007199254740991 := by
  unfold issue at h
  split at h
  · exact absurd h (by simp)
  rename_i reason hreason
  extract_lets cmd at h
  cases hissue : issueStopAll sg c cmd with
  | mk answer calls =>
      rw [hissue] at h
      cases answer with
      | none => exact absurd h (by simp)
      | some saved' =>
          unfold issueStopAll at hissue
          cases hparse : parseStopAllCommand (.obj cmd.members) with
          | none =>
              rw [hparse] at hissue
              exact absurd hissue (by simp)
          | some valid =>
              rw [hparse] at hissue
              dsimp only at hissue
              cases hsaved : c.saved with
              | none =>
                  rw [hsaved] at hissue
                  exact absurd hissue (by simp)
              | some _ =>
                  rw [hsaved] at hissue
                  dsimp only at hissue
                  by_cases hpublished : c.published = true
                  · exact ⟨fits_of_reasonOf hreason, Option.some_ne_none _, hpublished,
                      sizes_of_parse hparse⟩
                  · rw [if_neg hpublished] at hissue
                    exact absurd hissue (by simp)

/-- **A call is confirmed only if its stop is out.** -/
theorem goesOut_of_ok (s : EmergencyStopIngress) {id : JsString} {moment : ℕ} {saved : Bool}
    (h : (s.stopAll sg boardSecret c).1.outcome = .ok id moment saved) :
    GoesOut sg (s.stopAll sg boardSecret c).1 := by
  cases hauth : authenticate boardSecret c with
  | error refusal =>
      unfold stopAll at h
      rw [hauth] at h
      exact absurd h (by simp)
  | ok subject =>
      rw [(stopAll_ok sg s hauth).2] at h ⊢
      split at h
      · rename_i hallowed
        obtain ⟨hreason, hsaved, hpublished, hsubject, hmoment⟩ := issue_ok h
        rw [if_pos hallowed]
        refine (goesOut_iff (a := ⟨c, some subject, true, _, _⟩) hauth rfl hreason hsaved
          hpublished).mpr ⟨fun x hx => ?_, hmoment⟩
        rw [← Option.some.inj hx]
        exact hsubject
      · exact absurd h (by simp)

end EmergencyStopIngress

/-! ### One step of the boards and the gateway -/

namespace StopButton

variable {sg : Signing} {boardSecret : JsString} {s t : StopButton} {e : StopButtonEvent}

/-- The reaction of a board that an event is. -/
def reaction (s : StopButton) : StopButtonEvent → Option (ℕ × BoardClientEvent)
  | .board b f => some (b, f)
  | .handled _ _ _ => none
  | .answered b i => (s.answerOf b i).map fun a => (b, .replied i (some a.reply))

/-- The state after a reaction of one board. -/
def withBoard (s : StopButton) (b : ℕ) (client : BoardClient) : StopButton :=
  { s with boards := fun x => if x = b then client else s.boards x }

@[simp] theorem withBoard_self (s : StopButton) (b : ℕ) (client : BoardClient) :
    (s.withBoard b client).boards b = client := if_pos rfl

theorem withBoard_ne (s : StopButton) {b x : ℕ} (client : BoardClient) (h : x ≠ b) :
    (s.withBoard b client).boards x = s.boards x := if_neg h

/-- The gateway's answer to a call it handles. -/
def given (sg : Signing) (boardSecret : JsString) (s : StopButton) (c : StopCall)
    (reason : Option JsString) : StopAnswer :=
  (s.ingress.stopAll sg boardSecret (c.asking reason)).1

/-- A board reads an answer to a STOP ALL only if the gateway gave it. -/
def ReadsItsAnswer (s : StopButton) (b : ℕ) (f : BoardClientEvent) : Prop :=
  ∀ i reply, f = .replied i reply → (s.stopAsked b i).isSome →
    ∃ a, s.answerOf b i = some a ∧ reply = some a.reply

/-- **A step is a reaction of one board, or the gateway handles a request once.** -/
theorem step_cases (h : step sg boardSecret s e = some t) :
    (∃ b f client, s.reaction e = some (b, f) ∧ (s.boards b).step f = some client ∧
      s.ReadsItsAnswer b f ∧ t = s.withBoard b client) ∨
    ∃ b i c reason, e = .handled b i c ∧ s.stopAsked b i = some reason ∧ s.answerOf b i = none ∧
      t.boards = s.boards ∧ t.answers = s.answers ++ [⟨b, i, s.given sg boardSecret c reason⟩] := by
  cases e with
  | board b f =>
      simp only [step] at h
      split at h
      · exact absurd h (by simp)
      · rename_i hfree
        obtain ⟨client, hclient, rfl⟩ := Option.map_eq_some_iff.mp h
        refine .inl ⟨b, f, client, rfl, hclient, fun i reply hf hasked => ?_, rfl⟩
        subst hf
        exact absurd hasked hfree
  | handled b i c =>
      simp only [step] at h
      split at h
      · rename_i reason hasked hnone
        obtain rfl := Option.some.inj h
        exact .inr ⟨b, i, c, reason, rfl, hasked, hnone, rfl, rfl⟩
      · exact absurd h (by simp)
  | answered b i =>
      obtain ⟨a, ha, hreact⟩ := Option.bind_eq_some_iff.mp h
      obtain ⟨client, hclient, rfl⟩ := Option.map_eq_some_iff.mp hreact
      refine .inl ⟨b, _, client, by rw [reaction, ha]; rfl, hclient, fun j reply hf _ => ?_, rfl⟩
      obtain ⟨rfl, rfl⟩ := BoardClientEvent.replied.inj hf
      exact ⟨a, ha, rfl⟩

/-! ### The alert -/

/-- What an event writes to the alert of board `b`. -/
def alertWrite (b : ℕ) (s : StopButton) (e : StopButtonEvent) : Option (Option JsString) :=
  ((s.reaction e).filter fun r => r.1 = b).bind fun r => (s.boards b).alertWrite r.2

theorem alert_register (sg : Signing) (boardSecret : JsString) (b : ℕ) :
    Steps.Register (step sg boardSecret) (fun s => (s.boards b).controlError) (alertWrite b) := by
  intro s e t h
  dsimp only
  rcases step_cases h with ⟨x, f, client, hreaction, hclient, -, rfl⟩ |
    ⟨x, i, c, reason, rfl, -, -, hboards, -⟩
  · unfold alertWrite
    rw [hreaction]
    by_cases hx : x = b
    · subst hx
      rw [withBoard_self, Option.filter_some, if_pos (by simp)]
      exact BoardClient.alert_step hclient
    · rw [withBoard_ne s client (Ne.symm hx), Option.filter_some, if_neg (by simpa using hx)]
      rfl
  · rw [hboards]
    rfl

/-! ### The requests and their answers -/

theorem stopAsked_eq_some {b i : ℕ} {reason : Option JsString} :
    s.stopAsked b i = some reason ↔
      ∃ timer reply, (s.boards b).requests[i]? = some ⟨.stopAll reason, timer, reply⟩ := by
  unfold stopAsked
  split
  · rename_i found timer reply hr
    rw [hr]
    simp
  · rename_i hnot
    refine ⟨fun h => absurd h (by simp), fun ⟨timer, reply, hr⟩ => ?_⟩
    exact absurd hr (hnot reason timer reply)

/-- What holds of a request, given the gateway's answer to it. -/
structure RequestTold (a : Option StopAnswer) (r : SentRequest) : Prop where
  /-- Without an answer its timer runs, or was reported. -/
  watched : r.reply = none → r.timer ≠ .cleared
  /-- With one it cannot be reported as not confirmed any more. -/
  settled : r.reply ≠ none → r.timer ≠ .set
  /-- What a STOP ALL was answered is what the gateway answered. -/
  own : r.request.isStopAll = true → ∀ reply, r.reply = some reply →
    ∃ x, a = some x ∧ reply = some x.reply

/-- The books of the boards and the gateway. -/
structure Told (sg : Signing) (s : StopButton) : Prop where
  request : ∀ b i r, (s.boards b).requests[i]? = some r → RequestTold (s.answerOf b i) r
  /-- The gateway answers STOP ALL requests only, with the reason the board sent. -/
  asked : ∀ a ∈ s.answers, ∃ reason, s.stopAsked a.board a.request = some reason ∧
    a.answer.call.body = some (.obj (BoardClient.stopAllData reason))
  /-- It answers none of them twice. -/
  once : (s.answers.map fun a => (a.board, a.request)).Nodup
  /-- What it confirms is out. -/
  out : ∀ a ∈ s.answers, a.answer.reply.ok = true →
    EmergencyStopIngress.GoesOut sg a.answer

theorem told_init (sg : Signing) : Told sg init where
  request := fun _ _ _ h => absurd h (by simp [init, BoardClient.init])
  asked := fun _ h => absurd h (by simp [init])
  once := List.nodup_nil
  out := fun _ h => absurd h (by simp [init])

/-- A reaction leaves the reasons of the requests. -/
theorem stopAsked_withBoard {b x i : ℕ} {f : BoardClientEvent} {client : BoardClient}
    {reason : Option JsString} (h : (s.boards x).step f = some client)
    (hasked : s.stopAsked b i = some reason) :
    (s.withBoard x client).stopAsked b i = some reason := by
  obtain ⟨timer, reply, hr⟩ := stopAsked_eq_some.mp hasked
  rw [stopAsked_eq_some]
  by_cases hb : b = x
  · subst hb
    obtain ⟨⟨request, timer', reply'⟩, hr', hgoes⟩ := BoardClient.request_step h hr
    obtain rfl : request = .stopAll reason := hgoes.request
    exact ⟨timer', reply', by rw [withBoard_self]; exact hr'⟩
  · exact ⟨timer, reply, by rw [withBoard_ne s client hb]; exact hr⟩

/-- A request goes on in step with the gateway's answer. -/
theorem RequestTold.goes {b i : ℕ} {f : BoardClientEvent} {r r' : SentRequest}
    (h : RequestTold (s.answerOf b i) r) (hgoes : BoardClient.RequestGoes f i r r')
    (hr : (s.boards b).requests[i]? = some r) (hreads : s.ReadsItsAnswer b f) :
    RequestTold (s.answerOf b i) r' := by
  cases hgoes with
  | same => exact h
  | replied request timer reply hf =>
      refine ⟨fun hnone => absurd hnone (by simp), fun _ => ?_, fun hstop x hx => ?_⟩
      · by_cases hset : timer = .set
        · simp [hset]
        · simp [hset]
      · obtain rfl := Option.some.inj hx
        cases request with
        | decision taskId decision => exact absurd hstop (by simp [BoardRequest.isStopAll])
        | stopAll reason =>
            refine hreads i reply hf ?_
            rw [stopAsked_eq_some.mpr ⟨timer, none, hr⟩]
            rfl
  | timedOut request reply hf =>
      exact ⟨fun _ => by simp, fun _ => by simp, h.own⟩

/-- A new request has no answer. -/
theorem RequestTold.fresh (a : Option StopAnswer) (request : BoardRequest) :
    RequestTold a ⟨request, .set, none⟩ :=
  ⟨fun _ => by simp, fun h => absurd rfl h, fun _ _ h => absurd h (by simp)⟩

theorem Told.reacted {b : ℕ} {f : BoardClientEvent} {client : BoardClient} (h : Told sg s)
    (hclient : (s.boards b).step f = some client) (hreads : s.ReadsItsAnswer b f) :
    Told sg (s.withBoard b client) where
  request := by
    intro x i r' hr'
    by_cases hx : x = b
    · subst hx
      rw [withBoard_self] at hr'
      rcases BoardClient.request_origin hclient hr' with ⟨request, rfl⟩ | ⟨r, hr, hgoes⟩
      · exact .fresh _ request
      · exact (h.request x i r hr).goes hgoes hr hreads
    · rw [withBoard_ne s client hx] at hr'
      exact h.request x i r' hr'
  asked := by
    intro a ha
    obtain ⟨reason, hasked, hbody⟩ := h.asked a ha
    exact ⟨reason, stopAsked_withBoard hclient hasked, hbody⟩
  once := h.once
  out := h.out

/-- An answer that was given stays. -/
theorem answerOf_append {b i : ℕ} {x : StopAnswer} {a : GivenAnswer}
    (hanswers : t.answers = s.answers ++ [a]) (h : s.answerOf b i = some x) :
    t.answerOf b i = some x := by
  unfold answerOf at h ⊢
  obtain ⟨g, hg, hx⟩ := Option.map_eq_some_iff.mp h
  rw [hanswers, List.find?_append, hg, Option.some_or, Option.map_some, hx]

/-- A request without an answer is not among those that have one. -/
theorem not_answered {b i : ℕ} (h : s.answerOf b i = none) :
    (b, i) ∉ s.answers.map fun a => (a.board, a.request) := by
  intro hmem
  obtain ⟨a, ha, heq⟩ := List.mem_map.mp hmem
  obtain ⟨hb, hi⟩ := Prod.mk.inj heq
  have hfind := List.find?_eq_none.mp (Option.map_eq_none_iff.mp h) a ha
  exact hfind (by simp [hb, hi])

theorem given_call (c : StopCall) (reason : Option JsString) :
    (s.given sg boardSecret c reason).call = c.asking reason :=
  EmergencyStopIngress.stopAll_call sg s.ingress

theorem given_out {c : StopCall} {reason : Option JsString}
    (h : (s.given sg boardSecret c reason).reply.ok = true) :
    EmergencyStopIngress.GoesOut sg (s.given sg boardSecret c reason) := by
  cases houtcome : (s.given sg boardSecret c reason).outcome with
  | ok id moment saved => exact EmergencyStopIngress.goesOut_of_ok s.ingress houtcome
  | refused refusal =>
      unfold StopAnswer.reply at h
      rw [houtcome] at h
      exact absurd h (by simp)

theorem Told.handled {b i : ℕ} {c : StopCall} {reason : Option JsString} (h : Told sg s)
    (hasked : s.stopAsked b i = some reason) (hnone : s.answerOf b i = none)
    (hboards : t.boards = s.boards)
    (hanswers : t.answers = s.answers ++ [⟨b, i, s.given sg boardSecret c reason⟩]) :
    Told sg t where
  request := by
    intro x j r hr
    rw [hboards] at hr
    obtain ⟨hwatched, hsettled, hown⟩ := h.request x j r hr
    refine ⟨hwatched, hsettled, fun hstop reply hreply => ?_⟩
    obtain ⟨a, ha, heq⟩ := hown hstop reply hreply
    exact ⟨a, answerOf_append hanswers ha, heq⟩
  asked := by
    intro a ha
    have hsame : ∀ x j, t.stopAsked x j = s.stopAsked x j := by
      intro x j
      unfold stopAsked
      rw [hboards]
    rw [hanswers] at ha
    rw [hsame]
    rcases List.mem_append.mp ha with hold | hnew
    · exact h.asked a hold
    · obtain rfl := List.mem_singleton.mp hnew
      refine ⟨reason, hasked, ?_⟩
      rw [given_call]
      rfl
  once := by
    rw [hanswers, List.map_append, List.nodup_append]
    refine ⟨h.once, List.nodup_singleton _, fun x hx y hy hxy => ?_⟩
    obtain rfl := List.mem_singleton.mp hy
    obtain rfl : x = (b, i) := hxy
    exact not_answered hnone hx
  out := by
    intro a ha hok
    rw [hanswers] at ha
    rcases List.mem_append.mp ha with hold | hnew
    · exact h.out a hold hok
    · obtain rfl := List.mem_singleton.mp hnew
      exact given_out hok

theorem told_step (h : Told sg s) (hstep : step sg boardSecret s e = some t) : Told sg t := by
  rcases step_cases hstep with ⟨b, f, client, -, hclient, hreads, rfl⟩ |
    ⟨b, i, c, reason, -, hasked, hnone, hboards, hanswers⟩
  · exact h.reacted hclient hreads
  · exact h.handled hasked hnone hboards hanswers

/-- **An operator is told what the gateway did.**

Whatever the boards, the network and the gateway do, a STOP ALL is answered at most once and
with the gateway's own answer, a confirmed one is out, and one that is not answered is still
watched or was reported.  The alert beside the button is what was written to it last. -/
theorem stop_all_told (sg : Signing) (boardSecret : JsString) {events : List StopButtonEvent}
    (hrun : Steps.run (step sg boardSecret) init events = some t) :
    Told sg t ∧ ∀ b v, (t.boards b).controlError = v ↔
      Steps.WrittenLast (step sg boardSecret) (alertWrite b) init events v ∨
      (Steps.Unwritten (step sg boardSecret) (alertWrite b) init events ∧ none = v) := by
  refine ⟨?_, fun b v => (alert_register sg boardSecret b).eq_iff hrun⟩
  exact Steps.invariant (fun s e s' hs hstep => told_step hs hstep) (told_init sg) hrun

/-- Board 0 asks for a stop, its timer fires, and the answer comes late. -/
def lateConfirmation : List StopButtonEvent :=
  [.board 0 .connect, .board 0 (.sendStopAll none),
    .handled 0 0 (EmergencyStopIngress.callOf (js "operator")), .board 0 (.timedOut 0),
    .answered 0 0]

/-- A late confirmation takes the alert back, and its stop is out. -/
theorem stop_all_told_late : ∃ t,
    Steps.run (step fixedSigning (js "secret")) init lateConfirmation = some t ∧
    Told fixedSigning t ∧ (t.boards 0).controlError = none ∧
    ∀ a ∈ t.answers, EmergencyStopIngress.GoesOut fixedSigning a.answer := by
  have hlate : (Steps.run (step fixedSigning (js "secret")) init lateConfirmation).map (fun t =>
      ((t.boards 0).controlError, t.answers.map fun a => a.answer.reply.ok))
      = some (none, [true]) := by decide +kernel
  obtain ⟨t, hrun, hend⟩ := Option.map_eq_some_iff.mp hlate
  obtain ⟨halert, hok⟩ := Prod.mk.inj hend
  have htold := (stop_all_told fixedSigning (js "secret") hrun).1
  refine ⟨t, hrun, htold, halert, fun a ha => htold.out a ha ?_⟩
  have hmem : a.answer.reply.ok ∈ t.answers.map fun a => a.answer.reply.ok :=
    List.mem_map_of_mem ha
  rw [hok] at hmem
  exact List.mem_singleton.mp hmem

end StopButton

end Kaiban
