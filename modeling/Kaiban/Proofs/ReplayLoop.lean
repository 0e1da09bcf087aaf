/-
Tasks that fail and are replayed, over whole runs.

A dead letter has the inputs of its task under the failure fields, or says that it lacks
them.  Stripping the failure fields once or many times comes to the same, so a message on a
mailbox is a task some client sent or what stripping leaves of one, however often it failed
in between.  A delivery only ever adds calls, so the failure a replay goes back to stays in
sight.
-/
import Kaiban.ReplayLoop
import Kaiban.Proofs.Actor.StopOrder
import Kaiban.Proofs.DlqReplay

open JsString

namespace Kaiban

variable {cfg : ActorConfig} {sig : Signals}

/-! ### Stripping the failure fields -/

theorem get_failureFields {k : JsString} (hk : k ∉ failureEnvelopeFields) (error : JsString)
    (reason : Option JsString) : Json.get (failureFields error reason) k = none := by
  rw [Json.get_eq_none]
  intro m hm heq
  apply hk
  rcases failureFields_names error reason m hm with h | h | h <;> rw [← heq, h] <;> decide

/-- **Under the failure fields of a record lie the inputs.** -/
theorem restore_spread (data : MessageData) (error : JsString) (reason : Option JsString) :
    restoreOriginalData (spread data (failureFields error reason)) = restoreOriginalData data := by
  unfold restoreOriginalData spread
  rw [List.filter_append]
  have hfields : ((failureFields error reason).filter fun n => (Json.get data n.1).isNone).filter
      (fun m => decide (m.1 ∉ failureEnvelopeFields)) = [] := by
    rw [List.filter_eq_nil_iff]
    intro m hm
    have hname := failureFields_names error reason m (List.mem_filter.mp hm).1
    rcases hname with h | h | h <;> rw [h] <;> decide
  have hinputs : ∀ ms : MessageData,
      (ms.map fun m => (m.1, (Json.get (failureFields error reason) m.1).getD m.2)).filter
        (fun m => decide (m.1 ∉ failureEnvelopeFields))
      = ms.filter fun m => decide (m.1 ∉ failureEnvelopeFields) := by
    intro ms
    induction ms with
    | nil => rfl
    | cons m rest ih =>
        rw [List.map_cons]
        by_cases hname : m.1 ∈ failureEnvelopeFields
        · rw [List.filter_cons_of_neg (by simpa using hname),
            List.filter_cons_of_neg (by simpa using hname), ih]
        · rw [List.filter_cons_of_pos (by simpa using hname),
            List.filter_cons_of_pos (by simpa using hname), ih,
            get_failureFields hname, Option.getD_none]
  rw [hfields, hinputs, List.append_nil]

theorem restore_restore (data : MessageData) :
    restoreOriginalData (restoreOriginalData data) = restoreOriginalData data := by
  unfold restoreOriginalData
  rw [List.filter_filter]
  congr 1
  funext m
  rw [Bool.and_self]

/-- No failure field is the mark of a record without inputs. -/
theorem get_failureFields_mark (error : JsString) (reason : Option JsString) :
    Json.get (failureFields error reason) (js "_inputs_omitted") = none := by
  rw [Json.get_eq_none]
  intro m hm heq
  rcases failureFields_names error reason m hm with h | h | h <;>
    exact absurd (h.symm.trans heq) (by decide)

theorem inputsOmitted_spread (data : MessageData) (error : JsString) (reason : Option JsString) :
    inputsOmitted (spread data (failureFields error reason)) = inputsOmitted data := by
  unfold inputsOmitted
  rw [get_spread, get_failureFields_mark, Option.none_or]

/-! ### What a replay makes of any failure -/

namespace Failure

/-- The record is not poison, has its inputs, and these are not all failure fields. -/
def retried (poison : JsString → Bool) (f : Failure) : Bool :=
  !poison f.errorText && !inputsOmitted f.record.data &&
    !(restoreOriginalData f.payload.data).isEmpty

/-- The message that runs the task again. -/
def retry (f : Failure) : ReplayMessage :=
  ⟨defaultQueueFor f.cfg.id, f.payload.taskId, f.cfg.id, restoreOriginalData f.payload.data, none⟩

/-- A record has the inputs of its task, or is marked. -/
theorem record_restores (f : Failure) :
    (f.Fits ∧ restoreOriginalData f.record.data = restoreOriginalData f.payload.data ∧
      inputsOmitted f.record.data = inputsOmitted f.payload.data) ∨
    (¬ f.Fits ∧ inputsOmitted f.record.data = true) := by
  by_cases hfits : f.Fits
  · have hdata : f.record.data = spread f.payload.data (failureFields f.error f.reason) :=
      if_pos hfits
    rw [hdata]
    exact .inl ⟨hfits, restore_spread _ _ _, inputsOmitted_spread _ _ _⟩
  · have hdata : f.record.data
        = spread (failureFields f.error f.reason) [(js "_inputs_omitted", .bool true)] :=
      if_neg hfits
    rw [hdata, omitted_fields]
    refine .inr ⟨hfits, ?_⟩
    unfold inputsOmitted
    rw [Json.get_append, get_failureFields_mark]
    rfl

theorem retried_iff (poison : JsString → Bool) (f : Failure) : f.retried poison = true ↔
    poison f.errorText = false ∧ f.Fits ∧ inputsOmitted f.payload.data = false ∧
      restoreOriginalData f.payload.data ≠ [] := by
  unfold retried
  rcases f.record_restores with ⟨hfits, -, hmark⟩ | ⟨hlarge, hmark⟩
  · rw [hmark]
    simp [hfits, and_assoc]
  · rw [hmark]
    simp [hlarge]

/-- **The messages of a replay of any failures.** -/
theorem replayRecords_retry (poison : JsString → Bool) (fs : List Failure) :
    ∀ (result : DlqReplayResult) (sent : List ReplayMessage),
      ∃ result', replayRecords poison defaultQueueFor (fs.map record) result sent
        = some (result', sent ++ (fs.filter (retried poison)).map retry) := by
  induction fs with
  | nil => intro result sent; exact ⟨result, by simp [replayRecords]⟩
  | cons f rest ih =>
      intro result sent
      have herror : textOrEmpty (Json.get f.record.data (js "error")) = some f.errorText := by
        rw [show Json.get f.record.data (js "error") = some (.str f.errorText) from
          get_deadLetterData _ _ _]
        rfl
      rw [List.map_cons, replayRecords, herror]
      dsimp only
      by_cases hpoison : poison f.errorText = true
      · rw [if_pos hpoison, List.filter_cons_of_neg (by simp [retried, hpoison])]
        exact ih _ sent
      rw [if_neg hpoison]
      rcases f.record_restores with ⟨-, hrestored, hmark⟩ | ⟨-, hmark⟩
      · by_cases hskip : inputsOmitted f.payload.data = true ∨
          restoreOriginalData f.payload.data = []
        · rw [if_pos (by rwa [hrestored, hmark]), List.filter_cons_of_neg]
          · exact ih _ sent
          · rcases hskip with h | h <;> simp [retried, hmark, h]
        · have hyes : f.retried poison = true := by
            rw [not_or] at hskip
            simp [retried, hpoison, hmark, hskip]
          have hmessage : (⟨defaultQueueFor f.record.agentId,
              { f.record with data := restoreOriginalData f.record.data }⟩ : ReplayMessage)
              = f.retry := by
            rw [hrestored]
            rfl
          rw [if_neg (by rwa [hrestored, hmark]), hmessage, List.filter_cons_of_pos hyes,
            List.map_cons, List.append_cons sent f.retry (List.map retry _)]
          exact ih _ _
      · rw [if_pos (.inl hmark), List.filter_cons_of_neg (by simp [retried, hmark])]
        exact ih _ sent

end Failure

/-! ### What a delivery adds to its calls -/

/-- A later stage of a delivery: the calls it added publish no dead letter but its own. -/
structure Delivery.Grows (cfg : ActorConfig) (del del' : Delivery) : Prop where
  payload : del'.payload = del.payload
  calls : ∃ cs, del'.calls = del.calls ++ cs ∧ ∀ r ∈ deadLetters cs,
    ∃ error reason, r = Delivery.deadLetter cfg del.payload error reason

namespace Delivery.Grows

theorem same {del del' : Delivery} (hpayload : del'.payload = del.payload)
    (hcalls : del'.calls = del.calls) : Grows cfg del del' :=
  ⟨hpayload, [], by rw [hcalls, List.append_nil], by simp⟩

theorem trans {a b c : Delivery} (hab : Grows cfg a b) (hbc : Grows cfg b c) :
    Grows cfg a c := by
  obtain ⟨cs, hcs, hown⟩ := hab.calls
  obtain ⟨ds, hds, hown'⟩ := hbc.calls
  refine ⟨hbc.payload.trans hab.payload, cs ++ ds, by rw [hds, hcs, List.append_assoc], ?_⟩
  intro r hr
  rw [deadLetters_append] at hr
  rcases List.mem_append.mp hr with hr | hr
  · exact hown r hr
  · rw [← hab.payload]
    exact hown' r hr

theorem call (del : Delivery) {cs : List Call} (h : deadLetters cs = []) :
    Grows cfg del (del.call cs) :=
  ⟨rfl, cs, rfl, by rw [h]; simp⟩

theorem breaker (del : Delivery) {c : Call} (h : records [c] = []) :
    Grows cfg del (del.breaker cfg c) := by
  refine ⟨breaker_payload del c, _, breaker_calls del c, ?_⟩
  split
  · rw [deadLetters_eq_nil h]
    simp
  · simp

theorem publishToDlq (del : Delivery) (error : JsString) (reason : Option JsString)
    (ending : Ending) : Grows cfg del (del.publishToDlq cfg error reason ending) := by
  refine ⟨rfl, _, rfl, fun r hr => ⟨error, reason, ?_⟩⟩
  exact List.mem_singleton.mp (List.mem_filter.mp hr).1

theorem failNonRetryable (del : Delivery) (e : NonRetryableError) :
    Grows cfg del (del.failNonRetryable cfg e) := by
  unfold Delivery.failNonRetryable
  split
  · exact (breaker del rfl).trans (publishToDlq _ _ _ _)
  · exact publishToDlq _ _ _ _

theorem caught (del : Delivery) (k : ℕ) (err : Thrown) :
    Grows cfg del (del.caught cfg sig k err) := by
  rcases del.caught_cases k err with
    ⟨e, -, h⟩ | ⟨-, -, h⟩ | ⟨t, -, -, -, h⟩ | ⟨t, -, -, -, h⟩ <;> rw [h]
  · exact failNonRetryable del e
  · exact same rfl rfl
  · exact same rfl rfl
  · exact (breaker del rfl).trans (publishToDlq _ _ _ _)

theorem attemptEnded (del : Delivery) (k : ℕ) (out : Outcome) :
    Grows cfg del (del.attemptEnded cfg sig k out) := by
  have hended : Grows cfg del (del.call [.attemptEnded k out]) := call del rfl
  rcases del.attemptEnded_cases k out with
    ⟨e, -, h⟩ | ⟨v, e, -, -, h⟩ | ⟨v, data, -, -, h⟩ <;> rw [h]
  · exact hended.trans (caught _ k e)
  · exact (hended.trans (breaker _ rfl)).trans (caught _ k e)
  · refine (hended.trans (breaker _ rfl)).trans ((call _ ?_).trans (same rfl rfl))
    simp [deadLetters]

theorem startAttempt (del : Delivery) (k : ℕ) : Grows cfg del (del.startAttempt cfg sig k) := by
  rcases del.startAttempt_cases k with ⟨e, -, h⟩ | ⟨-, h⟩ <;> rw [h]
  · exact failNonRetryable del e
  · exact (call del rfl).trans (same rfl rfl)

theorem recorded (del : Delivery) (ending : Ending) :
    Grows cfg del (del.recorded cfg ending) := by
  rcases del.recorded_cases ending with h | h <;> rw [h]
  · exact (call del rfl).trans (same rfl rfl)
  · exact same rfl rfl

theorem processTask (sig : Signals) (p : Payload) (breakerOpen : Bool) :
    Grows cfg ⟨p, .ended .ignored, []⟩ (Kaiban.processTask cfg sig p breakerOpen) := by
  unfold Kaiban.processTask
  extract_lets del
  split_ifs
  · exact same rfl rfl
  · exact publishToDlq del _ _ _
  · exact publishToDlq del _ _ _
  · exact publishToDlq del _ _ _
  · exact same rfl rfl
  · exact same rfl rfl

end Delivery.Grows

open Delivery.Grows in
/-- **A reaction publishes no dead letter but the delivery's own.** -/
theorem Reaction.grows {del del' : Delivery} {a : Act} (h : Reaction cfg sig del a del') :
    del.Grows cfg del' := by
  cases h with
  | blockedByFirewall => exact publishToDlq _ _ _ _
  | blockedByGate => exact publishToDlq _ _ _ _
  | started k => exact startAttempt del k
  | raced k out => exact attemptEnded del k out
  | notCompleted k e => exact caught del k e
  | recorded ending => exact Delivery.Grows.recorded del ending
  | _ => exact same rfl rfl

/-- What comes late changes nothing. -/
theorem Reaction.of_ended {del del' : Delivery} {a : Act} {ending : Ending}
    (h : Reaction cfg sig del a del') (hs : del.stage = .ended ending) : del' = del := by
  cases h with
  | late => rfl
  | _ => simp_all

/-- The dead letters of a delivery are its own, and one for another agent has none. -/
structure Delivery.Own (cfg : ActorConfig) (del : Delivery) : Prop where
  letters : ∀ r ∈ deadLetters del.calls,
    ∃ error reason, r = Delivery.deadLetter cfg del.payload error reason
  taken : Addressed cfg del.payload ∨ (del.stage = .ended .ignored ∧ del.calls = [])

namespace Delivery.Own

theorem processTask (cfg : ActorConfig) (sig : Signals) (p : Payload) (breakerOpen : Bool) :
    (Kaiban.processTask cfg sig p breakerOpen).Own cfg := by
  have hgrows : Grows cfg ⟨p, .ended .ignored, []⟩ (Kaiban.processTask cfg sig p breakerOpen) :=
    .processTask sig p breakerOpen
  refine ⟨fun r hr => ?_, ?_⟩
  · obtain ⟨cs, hcs, hown⟩ := hgrows.calls
    rw [hcs, List.nil_append] at hr
    rw [hgrows.payload]
    exact hown r hr
  · rw [hgrows.payload]
    by_cases hid : p.agentId = cfg.id
    · exact .inl (.inl hid)
    by_cases hall : p.agentId = js "*"
    · exact .inl (.inr hall)
    refine .inr ?_
    unfold Kaiban.processTask
    rw [if_pos ⟨hid, hall⟩]
    exact ⟨rfl, rfl⟩

/-- Letters stay the delivery's own. -/
theorem letters_grow {del del' : Delivery} (h : del.Own cfg) (hg : del.Grows cfg del') :
    ∀ r ∈ deadLetters del'.calls, ∃ error reason, r = deadLetter cfg del'.payload error reason := by
  intro r hr
  obtain ⟨cs, hcs, hown⟩ := hg.calls
  rw [hcs, deadLetters_append] at hr
  rw [hg.payload]
  rcases List.mem_append.mp hr with hr | hr
  · exact h.letters r hr
  · exact hown r hr

theorem reaction {del del' : Delivery} {a : Act} (h : del.Own cfg)
    (hr : Reaction cfg sig del a del') : del'.Own cfg := by
  refine ⟨h.letters_grow hr.grows, ?_⟩
  rw [hr.payload]
  rcases h.taken with hmine | hignored
  · exact .inl hmine
  · rw [hr.of_ended hignored.1]
    exact .inr hignored

theorem abort {del : Delivery} (h : del.Own cfg) (err : NonRetryableError) :
    (del.abort err).Own cfg := by
  refine ⟨h.letters_grow (.same (abort_payload del err) (abort_calls del err)), ?_⟩
  rw [abort_payload, abort_calls]
  rcases del.abort_cases err with ⟨k, hs, -⟩ | ⟨-, hsame⟩
  · rcases h.taken with hmine | ⟨hstage, -⟩
    · exact .inl hmine
    · exact absurd (hstage.symm.trans hs) (by simp)
  · rw [hsame]
    exact h.taken

end Delivery.Own

/-! ### Steps of the loop -/

namespace ReplayLoop

variable {cfg : ℕ → ActorConfig} {s s' : ReplayLoop} {e : ReplayLoopEvent}

/-- A failure of a delivery: it left a dead letter for it. -/
structure Left (cfg : ℕ → ActorConfig) (s : ReplayLoop) (n d : ℕ) (del : Delivery)
    (f : Failure) : Prop where
  delivered : (s.agents n).deliveries d = some del
  config : f.cfg = cfg n
  payload : f.payload = del.payload
  letter : Delivery.deadLetter f.cfg f.payload f.error f.reason ∈ deadLetters del.calls

/-- A message of a step: some client's, or the operator's for a failed delivery. -/
inductive Posts (cfg : ℕ → ActorConfig) (s : ReplayLoop) : ReplayLoopEvent → Mail → Prop
  | dispatched (m : Mail) : Posts cfg s (.dispatch m) m
  | replayed {poison : JsString → Bool} {picked : List (ℕ × ℕ)} {now : Decimal} {n d : ℕ}
      {del : Delivery} {f : Failure} (hleft : Left cfg s n d del f)
      (hretried : f.retried poison = true) :
      Posts cfg s (.replay poison picked now) (f.retry.mail now)

/-- What a step makes of a delivery: nothing, a reaction, or what a stop makes of it. -/
def Goes (cfg : ActorConfig) (del del' : Delivery) : Prop :=
  del' = del ∨ (∃ sig a, Reaction cfg sig del a del') ∨ ∃ err, del' = del.abort err

theorem Goes.grows {cfg : ActorConfig} {del del' : Delivery} (h : Goes cfg del del') :
    del.Grows cfg del' := by
  rcases h with rfl | ⟨sig, a, hr⟩ | ⟨err, rfl⟩
  · exact .same rfl rfl
  · exact hr.grows
  · exact .same (del.abort_payload err) (del.abort_calls err)

theorem Goes.own {cfg : ActorConfig} {del del' : Delivery} (h : Goes cfg del del')
    (hown : del.Own cfg) : del'.Own cfg := by
  rcases h with rfl | ⟨sig, a, hr⟩ | ⟨err, rfl⟩
  · exact hown
  · exact hown.reaction hr
  · exact hown.abort err

/-- Every delivery's dead letters are its own. -/
def Owned (cfg : ℕ → ActorConfig) (s : ReplayLoop) : Prop :=
  ∀ n d del, (s.agents n).deliveries d = some del → del.Own (cfg n)

/-- A list whose entries all come from somewhere comes from there as a whole. -/
theorem exists_map_eq {α β : Type} {g : α → β} {P : α → Prop} {ys : List β}
    (h : ∀ y ∈ ys, ∃ x, y = g x ∧ P x) : ∃ xs : List α, ys = xs.map g ∧ ∀ x ∈ xs, P x := by
  induction ys with
  | nil => exact ⟨[], rfl, by simp⟩
  | cons y rest ih =>
      obtain ⟨xs, hxs, hmem⟩ := ih fun z hz => h z (List.mem_cons_of_mem y hz)
      obtain ⟨x, hx, hP⟩ := h y List.mem_cons_self
      refine ⟨x :: xs, by rw [hxs, hx, List.map_cons], fun z hz => ?_⟩
      rcases List.mem_cons.mp hz with rfl | hz
      · exact hP
      · exact hmem z hz

/-- Dead letters of a delivery, as failures. -/
theorem deadLetters_failures {n d : ℕ} {del : Delivery} (hown : Owned cfg s)
    (hdel : (s.agents n).deliveries d = some del) (rs : List Record)
    (hrs : ∀ r ∈ rs, r ∈ deadLetters del.calls) :
    ∃ fs : List Failure, rs.map Record.dlqRecord = fs.map Failure.record ∧
      ∀ f ∈ fs, Left cfg s n d del f := by
  refine exists_map_eq fun letter hletter => ?_
  obtain ⟨r, hr, rfl⟩ := List.mem_map.mp hletter
  obtain ⟨error, reason, rfl⟩ := (hown n d del hdel).letters r (hrs r hr)
  exact ⟨⟨cfg n, del.payload, error, reason⟩, rfl, hdel, rfl, rfl, hrs _ hr⟩

/-- The letters of the deliveries that are picked, as failures. -/
theorem letters_failures (hown : Owned cfg s) (picked : List (ℕ × ℕ)) :
    ∃ fs : List Failure, picked.flatMap s.letters = fs.map Failure.record ∧
      ∀ f ∈ fs, ∃ n d del, Left cfg s n d del f := by
  refine exists_map_eq fun letter hletter => ?_
  obtain ⟨⟨n, d⟩, -, hletter⟩ := List.mem_flatMap.mp hletter
  unfold letters at hletter
  cases hdel : (s.agents n).deliveries d with
  | none => simp [hdel] at hletter
  | some del =>
      rw [hdel, Option.elim_some] at hletter
      obtain ⟨fs, hfs, hleft⟩ := deadLetters_failures hown hdel _ fun r hr => hr
      rw [hfs] at hletter
      obtain ⟨f, hf, rfl⟩ := List.mem_map.mp hletter
      exact ⟨f, rfl, n, d, del, hleft f hf⟩

/-- The letters of one delivery, with a given failure of it among them. -/
theorem letters_of_left {n d : ℕ} {del : Delivery} {f : Failure} (hown : Owned cfg s)
    (hleft : Left cfg s n d del f) :
    ∃ fs : List Failure, [(n, d)].flatMap s.letters = fs.map Failure.record ∧ f ∈ fs := by
  obtain ⟨before, after, hsplit⟩ := List.append_of_mem hleft.letter
  obtain ⟨fs, hfs, -⟩ := deadLetters_failures hown hleft.delivered before fun r hr => by
    rw [hsplit]
    exact List.mem_append_left _ hr
  obtain ⟨gs, hgs, -⟩ := deadLetters_failures hown hleft.delivered after fun r hr => by
    rw [hsplit]
    exact List.mem_append_right _ (List.mem_cons_of_mem _ hr)
  refine ⟨fs ++ f :: gs, ?_, List.mem_append_right _ List.mem_cons_self⟩
  rw [List.flatMap_singleton, letters, hleft.delivered, Option.elim_some, hsplit, List.map_append,
    List.map_cons, List.map_append, List.map_cons, hfs, hgs]
  rfl

/-- **A replay goes through, and publishes the failures that are worth it.** -/
theorem replay_step {fs : List Failure} {picked : List (ℕ × ℕ)}
    (hfs : picked.flatMap s.letters = fs.map Failure.record) (poison : JsString → Bool)
    (now : Decimal) : s.step cfg (.replay poison picked now) = some { s with
      mail := s.mail ++ (fs.filter (Failure.retried poison)).map fun f => f.retry.mail now } := by
  obtain ⟨result, hresult⟩ := Failure.replayRecords_retry poison fs ⟨0, 0, []⟩ []
  simp only [step, replayDlq]
  rw [hfs, hresult, Option.map_some, List.nil_append, List.map_map]
  rfl

/-- What a step does to the mailboxes. -/
theorem step_mail (hown : Owned cfg s) (h : s.step cfg e = some s') :
    (∀ m ∈ s.mail, m ∈ s'.mail) ∧ ∀ m ∈ s'.mail, m ∈ s.mail ∨ Posts cfg s e m := by
  have hagent : ∀ n ae, s.agent cfg n ae = some s' →
      (∀ m ∈ s.mail, m ∈ s'.mail) ∧ ∀ m ∈ s'.mail, m ∈ s.mail ∨ Posts cfg s e m := by
    intro n ae hn
    obtain ⟨a, -, rfl⟩ := Option.map_eq_some_iff.mp hn
    exact ⟨fun m hm => hm, fun m hm => .inl hm⟩
  cases e with
  | dispatch m =>
      simp only [step] at h
      split at h
      · obtain rfl := Option.some.inj h
        refine ⟨fun x hx => List.mem_append_left _ hx, fun x hx => ?_⟩
        rcases List.mem_append.mp hx with hx | hx
        · exact .inl hx
        · rw [List.mem_singleton.mp hx]
          exact .inr (.dispatched m)
      · exact absurd h (by simp)
  | deliver n d i breakerOpen =>
      simp only [step] at h
      split at h
      · exact absurd h (by simp)
      · split at h
        · exact hagent n _ h
        · exact absurd h (by simp)
  | act n d a => exact hagent n _ h
  | emergencyStop n stoppedAt => exact hagent n _ h
  | stop n => exact hagent n _ h
  | replay poison picked now =>
      obtain ⟨fs, hfs, hleft⟩ := letters_failures hown picked
      obtain rfl := Option.some.inj ((replay_step hfs poison now).symm.trans h)
      refine ⟨fun x hx => List.mem_append_left _ hx, fun x hx => ?_⟩
      rcases List.mem_append.mp hx with hx | hx
      · exact .inl hx
      · obtain ⟨f, hf, rfl⟩ := List.mem_map.mp hx
        obtain ⟨hin, hretried⟩ := List.mem_filter.mp hf
        obtain ⟨n, d, del, hf⟩ := hleft f hin
        exact .inr (.replayed hf hretried)

/-- What a step does to a delivery: it goes on, or it is one of a message on the mailbox of
its agent. -/
def Moves (cfg : ℕ → ActorConfig) (s s' : ReplayLoop) (n d : ℕ) : Prop :=
  (∃ del del', (s.agents n).deliveries d = some del ∧
    (s'.agents n).deliveries d = some del' ∧ Goes (cfg n) del del') ∨
  ((s.agents n).deliveries d = none ∧ ∀ del', (s'.agents n).deliveries d = some del' →
    ∃ sig p breakerOpen, ⟨defaultQueueFor (cfg n).id, p⟩ ∈ s.mail ∧
      del' = processTask (cfg n) sig p breakerOpen)

theorem Moves.kept {n d : ℕ} (h : (s'.agents n).deliveries d = (s.agents n).deliveries d) :
    Moves cfg s s' n d := by
  unfold Moves
  rw [h]
  cases hdel : (s.agents n).deliveries d with
  | none => exact .inr ⟨rfl, by simp⟩
  | some del => exact .inl ⟨del, del, rfl, rfl, .inl rfl⟩

/-- A step of one agent leaves the others alone. -/
theorem Moves.agent {x : ℕ} {ae : ActorEvent} (h : s.agent cfg x ae = some s')
    (hmail : ∀ d p b, ae = .deliver d p b → ⟨defaultQueueFor (cfg x).id, p⟩ ∈ s.mail) (n d : ℕ) :
    Moves cfg s s' n d := by
  obtain ⟨a, ha, rfl⟩ := Option.map_eq_some_iff.mp h
  by_cases hn : n = x
  · subst hn
    have hself : (if n = n then a else s.agents n) = a := if_pos rfl
    rcases Actor.step_change ha d with hsame | ⟨p, b, rfl, hnone, hnew⟩ |
      ⟨act, del, del', -, hdel, hr, hdel'⟩ | ⟨err, del, -, hdel, hdel'⟩
    · apply Moves.kept
      dsimp only
      rw [hself, hsame]
    · refine .inr ⟨hnone, fun del' hdel' => ⟨(s.agents n).signals, p, b, hmail d p b rfl, ?_⟩⟩
      dsimp only at hdel'
      rw [hself, hnew] at hdel'
      exact (Option.some.inj hdel').symm
    · refine .inl ⟨del, del', hdel, ?_, .inr (.inl ⟨_, act, hr⟩)⟩
      dsimp only
      rw [hself, hdel']
    · refine .inl ⟨del, _, hdel, ?_, .inr (.inr ⟨err, rfl⟩)⟩
      dsimp only
      rw [hself, hdel']
  · apply Moves.kept
    dsimp only
    rw [if_neg hn]

theorem step_moves (h : s.step cfg e = some s') (n d : ℕ) : Moves cfg s s' n d := by
  cases e with
  | dispatch m =>
      simp only [step] at h
      split at h
      · obtain rfl := Option.some.inj h
        exact .kept rfl
      · exact absurd h (by simp)
  | deliver x y i breakerOpen =>
      simp only [step] at h
      split at h
      · exact absurd h (by simp)
      · rename_i m hm
        split at h
        · rename_i hqueue
          refine .agent h (fun z p b heq => ?_) n d
          obtain ⟨-, rfl, -⟩ := ActorEvent.deliver.inj heq
          rw [← hqueue]
          exact List.mem_of_getElem? hm
        · exact absurd h (by simp)
  | act x y a => exact .agent h (by simp) n d
  | emergencyStop x stoppedAt => exact .agent h (by simp) n d
  | stop x => exact .agent h (by simp) n d
  | replay poison picked now =>
      obtain ⟨r, -, rfl⟩ := Option.map_eq_some_iff.mp h
      exact .kept rfl

/-- A failure stays in sight. -/
theorem Left.step {n d : ℕ} {del : Delivery} {f : Failure} (hleft : Left cfg s n d del f)
    (h : s.step cfg e = some s') : ∃ del', Left cfg s' n d del' f := by
  rcases step_moves h n d with ⟨old, del', hold, hdel', hgoes⟩ | ⟨hnone, -⟩
  · obtain rfl := Option.some.inj (hold.symm.trans hleft.delivered)
    obtain ⟨cs, hcs, -⟩ := hgoes.grows.calls
    refine ⟨del', hdel', hleft.config, hleft.payload.trans hgoes.grows.payload.symm, ?_⟩
    rw [hcs, deadLetters_append]
    exact List.mem_append_left _ hleft.letter
  · rw [hleft.delivered] at hnone
    exact absurd hnone (by simp)

/-! ### Where the messages come from -/

/-- A message that runs a client's task `o` again, after a failure that is not poison. -/
structure Replayed (cfg : ℕ → ActorConfig) (poison : JsString → Bool) (s : ReplayLoop)
    (o m : Mail) : Prop where
  queue : m.queue = o.queue
  mailbox : m.queue = defaultQueueFor m.payload.agentId
  agentId : o.payload.agentId = m.payload.agentId ∨ o.payload.agentId = js "*"
  taskId : m.payload.taskId = o.payload.taskId
  data : m.payload.data = restoreOriginalData o.payload.data
  nonempty : m.payload.data ≠ []
  inputs : inputsOmitted o.payload.data = false
  cause : ∃ n d del f, Left cfg s n d del f ∧ (cfg n).id = m.payload.agentId ∧
    f.payload.taskId = m.payload.taskId ∧ restoreOriginalData f.payload.data = m.payload.data ∧
    poison f.errorText = false

theorem Replayed.step {poison : JsString → Bool} {o m : Mail} (hm : Replayed cfg poison s o m)
    (h : s.step cfg e = some s') : Replayed cfg poison s' o m := by
  obtain ⟨n, d, del, f, hleft, hrest⟩ := hm.cause
  obtain ⟨del', hleft'⟩ := hleft.step h
  exact { hm with cause := ⟨n, d, del', f, hleft', hrest⟩ }

/-- The invariant: `D` are the tasks of the clients. -/
structure Sound (cfg : ℕ → ActorConfig) (D : Mail → Prop) (poison : JsString → Bool)
    (s : ReplayLoop) : Prop where
  mail : ∀ m ∈ s.mail, ∃ o, D o ∧ (m = o ∨ Replayed cfg poison s o m)
  delivered : ∀ n d del, (s.agents n).deliveries d = some del →
    ⟨defaultQueueFor (cfg n).id, del.payload⟩ ∈ s.mail
  own : Owned cfg s

/-- The operator takes at least the reasons of `poison` for poison. -/
def Spares (poison : JsString → Bool) : ReplayLoopEvent → Prop
  | .replay reasons _ _ => ∀ r, poison r = true → reasons r = true
  | _ => True

theorem defaultQueueFor_inj {a b : JsString} (h : defaultQueueFor a = defaultQueueFor b) : a = b :=
  List.append_cancel_left h

/-- The message of a failed delivery goes back to a client's task. -/
theorem Sound.retry {D : Mail → Prop} {poison reasons : JsString → Bool} (hs : Sound cfg D poison s)
    (hreasons : ∀ r, poison r = true → reasons r = true) {n d : ℕ} {del : Delivery} {f : Failure}
    (hleft : Left cfg s n d del f) (hretried : f.retried reasons = true) (now : Decimal) :
    ∃ o, D o ∧ Replayed cfg poison s o (f.retry.mail now) := by
  obtain ⟨hpoison, -, hinputs, hnonempty⟩ := (f.retried_iff reasons).mp hretried
  have hid : (f.retry.mail now).payload.agentId = (cfg n).id := congrArg ActorConfig.id hleft.config
  have hqueue : (f.retry.mail now).queue = defaultQueueFor (cfg n).id :=
    congrArg defaultQueueFor hid
  have htaken : Addressed (cfg n) del.payload := by
    rcases (hs.own n d del hleft.delivered).taken with htaken | ⟨-, hcalls⟩
    · exact htaken
    · have hletter := hleft.letter
      rw [hcalls] at hletter
      exact absurd hletter (by simp)
  have hpermitted : poison f.errorText = false := by
    by_contra hbad
    rw [hreasons _ (by simpa using hbad)] at hpoison
    exact absurd hpoison (by simp)
  have hcause : ∃ n' d' del' f', Left cfg s n' d' del' f' ∧
      (cfg n').id = (f.retry.mail now).payload.agentId ∧
      f'.payload.taskId = f.payload.taskId ∧
      restoreOriginalData f'.payload.data = restoreOriginalData f.payload.data ∧
      poison f'.errorText = false :=
    ⟨n, d, del, f, hleft, hid.symm, rfl, rfl, hpermitted⟩
  obtain ⟨o, ho, hsource⟩ := hs.mail _ (hs.delivered n d del hleft.delivered)
  refine ⟨o, ho, ?_⟩
  rcases hsource with hsource | hsource
  · have hpayload : f.payload = o.payload := by rw [← hsource, hleft.payload]
    rw [← hleft.payload, hpayload] at htaken
    have htask : f.payload.taskId = o.payload.taskId := congrArg Payload.taskId hpayload
    refine ⟨?_, ?_, ?_, htask, ?_, hnonempty, ?_, hcause⟩
    · rw [hqueue, ← hsource]
    · rw [hqueue, hid]
    · rw [hid]
      exact htaken
    · rw [← hpayload]
      rfl
    · rw [← hpayload]
      exact hinputs
  · -- The delivery was one of a replay, for the same mailbox and thus for the same agent.
    have hsame : del.payload.agentId = (cfg n).id := (defaultQueueFor_inj hsource.mailbox).symm
    have hdata : restoreOriginalData f.payload.data = restoreOriginalData o.payload.data := by
      rw [hleft.payload, hsource.data, restore_restore]
    have htask : f.payload.taskId = o.payload.taskId := by rw [hleft.payload, hsource.taskId]
    refine ⟨?_, ?_, ?_, htask, hdata, hnonempty, hsource.inputs, hcause⟩
    · rw [hqueue]
      exact hsource.queue
    · rw [hqueue, hid]
    · rw [hid, ← hsame]
      exact hsource.agentId

theorem Sound.step {D : Mail → Prop} {poison : JsString → Bool} (hs : Sound cfg D poison s)
    (hsent : ∀ m, e = .dispatch m → D m) (hspares : Spares poison e)
    (h : s.step cfg e = some s') : Sound cfg D poison s' := by
  obtain ⟨hkept, hposts⟩ := step_mail hs.own h
  refine ⟨fun m hm => ?_, fun n d del' hdel' => ?_, fun n d del' hdel' => ?_⟩
  · rcases hposts m hm with hold | hnew
    · obtain ⟨o, ho, hsource⟩ := hs.mail m hold
      exact ⟨o, ho, hsource.imp id fun hr => hr.step h⟩
    · cases hnew with
      | dispatched => exact ⟨m, hsent m rfl, .inl rfl⟩
      | replayed hleft hretried =>
          obtain ⟨o, ho, hr⟩ := hs.retry hspares hleft hretried _
          exact ⟨o, ho, .inr (hr.step h)⟩
  · rcases step_moves h n d with ⟨del, del'', hdel, hdel'', hgoes⟩ | ⟨-, hnew⟩
    · obtain rfl := Option.some.inj (hdel''.symm.trans hdel')
      rw [hgoes.grows.payload]
      exact hkept _ (hs.delivered n d del hdel)
    · obtain ⟨sig, p, b, hmail, rfl⟩ := hnew del' hdel'
      rw [(Delivery.Grows.processTask sig p b).payload]
      exact hkept _ hmail
  · rcases step_moves h n d with ⟨del, del'', hdel, hdel'', hgoes⟩ | ⟨-, hnew⟩
    · obtain rfl := Option.some.inj (hdel''.symm.trans hdel')
      exact hgoes.own (hs.own n d del hdel)
    · obtain ⟨sig, p, b, -, rfl⟩ := hnew del' hdel'
      exact .processTask (cfg n) sig p b

theorem sound_init (D : Mail → Prop) (poison : JsString → Bool) : Sound cfg D poison init :=
  ⟨by simp [init], by simp [init, Actor.init], fun n d del h => absurd h
    (by simp [init, Actor.init])⟩

/-- **However often tasks fail and are replayed, a mailbox holds nothing but tasks that
clients sent and replays of them, and agents work on nothing else.** -/
theorem mail_origin (cfg : ℕ → ActorConfig) (poison : JsString → Bool) {es : List ReplayLoopEvent}
    {s : ReplayLoop} (hspares : ∀ e ∈ es, Spares poison e)
    (hrun : Steps.run (step cfg) init es = some s) :
    (∀ m ∈ s.mail, ∃ o, .dispatch o ∈ es ∧ (m = o ∨ Replayed cfg poison s o m)) ∧
    ∀ n d del, (s.agents n).deliveries d = some del →
      ⟨defaultQueueFor (cfg n).id, del.payload⟩ ∈ s.mail := by
  have hevents : Steps.Along (step cfg) (fun _ e => e ∈ es ∧ Spares poison e) init es :=
    Steps.along_of_mem es init fun e he => ⟨he, hspares e he⟩
  have hsound : Sound cfg (fun m => .dispatch m ∈ es) poison s := by
    refine Steps.run_invariant ?_ (sound_init _ _) hevents hrun
    intro a e b ha he hstep
    exact ha.step (fun m hm => hm ▸ he.1) he.2 hstep
  exact ⟨hsound.mail, hsound.delivered⟩

def earlyTask : Payload :=
  ⟨js "task-1", js "writer", [(js "topic", .str (js "rain"))], .finite (Decimal.ofInt 1)⟩

/-- An agent that is stopping misses a task, and another one runs its replay. -/
def missedTask : List ReplayLoopEvent :=
  [.stop 0, .dispatch ⟨js "kaiban-agents-writer", earlyTask⟩, .deliver 0 0 0 false,
    .replay (fun r => r ∈ dlqPoisonReasons) [(0, 0)] (Decimal.ofInt 9), .deliver 1 0 1 false,
    .act 1 0 .start]

def oneWriter : ℕ → ActorConfig :=
  fun _ => ⟨js "writer", js "9f86d081", false, false, false, false, 0, false⟩

theorem mail_origin_missed : ∃ s, Steps.run (step oneWriter) init missedTask = some s ∧
    ∀ m ∈ s.mail, ∃ o, .dispatch o ∈ missedTask ∧
      (m = o ∨ Replayed oneWriter (fun r => r ∈ dlqPoisonReasons) s o m) := by
  have hruns : (Steps.run (step oneWriter) init missedTask).isSome = true := by decide +kernel
  obtain ⟨s, hrun⟩ := Option.isSome_iff_exists.mp hruns
  refine ⟨s, hrun, (mail_origin oneWriter (fun r => r ∈ dlqPoisonReasons) ?_ hrun).1⟩
  intro e he
  simp only [missedTask, List.mem_cons, List.not_mem_nil, or_false] at he
  rcases he with rfl | rfl | rfl | rfl | rfl | rfl
  all_goals simp [Spares]

/-! ### Running a failed task again -/

/-- A failure that a replay does not skip. -/
structure Recoverable (poison : JsString → Bool) (f : Failure) : Prop where
  permitted : poison f.errorText = false
  fits : f.Fits
  inputs : inputsOmitted f.payload.data = false
  nonempty : restoreOriginalData f.payload.data ≠ []

/-- Agent `n` is not stopping, and its latest emergency stop was before `now`. -/
structure Listens (s : ReplayLoop) (n : ℕ) (now : Decimal) : Prop where
  stopping : (s.agents n).signals.stopping = false
  stopped : ∀ t, (s.agents n).signals.stoppedAt = some t → t < now

/-- A delivery of an agent, and what stops have left to it. -/
structure Holds (s : ReplayLoop) (n d : ℕ) (del : Delivery) (sig : Signals) : Prop where
  delivery : (s.agents n).deliveries d = some del
  signals : (s.agents n).signals = sig

/-- A reaction of a delivery, as a step of the loop. -/
theorem Holds.act {n d : ℕ} {del del' : Delivery} {sig : Signals} (h : Holds s n d del sig)
    {a : Act} (hstep : del.step (cfg n) sig a = some del') :
    ∃ t, s.step cfg (.act n d a) = some t ∧ Holds t n d del' sig := by
  have hactor : (s.agents n).step (cfg n) (.act d a) = some
      { (s.agents n).setDelivery d del' with
        inFlight := Actor.track d a del' (s.agents n).inFlight } := by
    simp only [Actor.step, h.delivery, h.signals, hstep, Option.map_some]
  refine ⟨_, by simp only [step, agent, hactor, Option.map_some]; rfl, ?_, ?_⟩
  · dsimp only
    rw [if_pos rfl]
    exact Actor.setDelivery_self _ d del'
  · dsimp only
    rw [if_pos rfl]
    exact h.signals

/-- The events of delivery `d` of agent `n`: that it comes, with the breaker closed, and what
happens to it. -/
def OfDelivery (n d : ℕ) (e : ReplayLoopEvent) : Prop :=
  (∃ i, e = .deliver n d i false) ∨ ∃ a, e = .act n d a

/-- The handler of delivery `d` can be reached with events of its own. -/
def CallsHandler (cfg : ℕ → ActorConfig) (s : ReplayLoop) (n d : ℕ) (p : Payload) : Prop :=
  ∃ fs t, (∀ e ∈ fs, OfDelivery n d e) ∧ Steps.run (step cfg) s fs = some t ∧
    (t.agents n).deliveries d = some ⟨p, .running 1 none, [.handler 1]⟩

theorem CallsHandler.of_step {n d : ℕ} {p : Payload} {t : ReplayLoop}
    (hstep : s.step cfg e = some t) (he : OfDelivery n d e) (h : CallsHandler cfg t n d p) :
    CallsHandler cfg s n d p := by
  obtain ⟨fs, u, hfs, hrun, hdel⟩ := h
  refine ⟨e :: fs, u, ?_, Steps.run_cons_some.mpr ⟨t, hstep, hrun⟩, hdel⟩
  intro x hx
  rcases List.mem_cons.mp hx with rfl | hx
  · exact he
  · exact hfs x hx

theorem Holds.starting {n d : ℕ} {p : Payload} {sig : Signals}
    (h : Holds s n d ⟨p, .starting 1, []⟩ sig) (hopen : interruption sig p = none) :
    CallsHandler cfg s n d p := by
  have hstart : Delivery.step (cfg n) sig ⟨p, .starting 1, []⟩ .start
      = some ⟨p, .running 1 none, [.handler 1]⟩ := by
    simp only [Delivery.step, Delivery.startAttempt, hopen]
    rfl
  obtain ⟨t, hstep, ht⟩ := h.act hstart
  exact .of_step hstep (.inr ⟨.start, rfl⟩) ⟨[], t, by simp, rfl, ht.delivery⟩

theorem Holds.gate {n d : ℕ} {p : Payload} {sig : Signals} (h : Holds s n d ⟨p, .gate, []⟩ sig)
    (hopen : interruption sig p = none) : CallsHandler cfg s n d p := by
  have hpass : Delivery.step (cfg n) sig ⟨p, .gate, []⟩ (.gate (.ok ⟨true, none⟩))
      = some ⟨p, .starting 1, []⟩ := rfl
  obtain ⟨t, hstep, ht⟩ := h.act hpass
  exact .of_step hstep (.inr ⟨_, rfl⟩) (ht.starting hopen)

theorem Holds.afterFirewall {n d : ℕ} {p : Payload} {sig : Signals} {stage : Stage}
    (h : Holds s n d (Delivery.afterFirewall (cfg n) ⟨p, stage, []⟩) sig)
    (hopen : interruption sig p = none) : CallsHandler cfg s n d p := by
  unfold Delivery.afterFirewall at h
  cases hgate : (cfg n).hasGate with
  | true =>
      rw [hgate, if_pos rfl] at h
      exact h.gate hopen
  | false =>
      rw [hgate, if_neg (by simp)] at h
      exact h.starting hopen

theorem Holds.firewall {n d : ℕ} {p : Payload} {sig : Signals}
    (h : Holds s n d ⟨p, .firewall, []⟩ sig) (hopen : interruption sig p = none) :
    CallsHandler cfg s n d p := by
  have hpass : Delivery.step (cfg n) sig ⟨p, .firewall, []⟩ (.firewall (.ok ⟨true, none⟩))
      = some (Delivery.afterFirewall (cfg n) ⟨p, .firewall, []⟩) := rfl
  obtain ⟨t, hstep, ht⟩ := h.act hpass
  exact .of_step hstep (.inr ⟨_, rfl⟩) (Holds.afterFirewall ht hopen)

/-- **A message for an agent that listens gets to its handler, if the guards let it pass.** -/
theorem Listens.takes {n d i : ℕ} {now : Decimal} (h : Listens s n now)
    (hnone : (s.agents n).deliveries d = none) {p : Payload} (hid : p.agentId = (cfg n).id)
    (hnow : p.timestamp = .finite now)
    (hmail : s.mail[i]? = some ⟨defaultQueueFor (cfg n).id, p⟩) : CallsHandler cfg s n d p := by
  have hsent : (s.agents n).signals.sentBeforeStop p = false := by
    unfold Signals.sentBeforeStop
    rw [hnow]
    cases hat : (s.agents n).signals.stoppedAt with
    | none => rfl
    | some t => exact decide_eq_false (not_le.mpr (h.stopped t hat))
  have hopen : interruption (s.agents n).signals p = none := by
    unfold interruption
    rw [hsent, h.stopping]
    rfl
  have hnew : processTask (cfg n) (s.agents n).signals p false
      = if (cfg n).hasFirewall then ⟨p, .firewall, []⟩
        else Delivery.afterFirewall (cfg n) ⟨p, .ended .ignored, []⟩ := by
    unfold processTask
    rw [hsent, h.stopping, Bool.and_false]
    simp [hid, Delivery.goto]
  obtain ⟨t, hstep, ht⟩ : ∃ t, s.step cfg (.deliver n d i false) = some t ∧
      Holds t n d (processTask (cfg n) (s.agents n).signals p false) (s.agents n).signals := by
    refine ⟨_, by simp only [step, hmail, agent, Actor.step, hnone, Option.map_some]; rfl, ?_, ?_⟩
    · dsimp only
      rw [if_pos rfl]
      exact Actor.setDelivery_self _ d _
    · dsimp only
      rw [if_pos rfl]
      rfl
  refine .of_step hstep (.inl ⟨i, rfl⟩) ?_
  rw [hnew] at ht
  cases hfirewall : (cfg n).hasFirewall with
  | true =>
      rw [hfirewall, if_pos rfl] at ht
      exact ht.firewall hopen
  | false =>
      rw [hfirewall, if_neg (by simp)] at ht
      exact Holds.afterFirewall ht hopen

/-- **A failed task is not lost**: once the operator replays it, every agent of its id that
listens can be brought to run it with the inputs it had. -/
theorem failed_task_runs_again {cfg : ℕ → ActorConfig} {es : List ReplayLoopEvent} {s : ReplayLoop}
    (hrun : Steps.run (step cfg) init es = some s) {n d : ℕ} {del : Delivery} {f : Failure}
    (hleft : Left cfg s n d del f) {poison : JsString → Bool} (hf : Recoverable poison f)
    {now : Decimal} {m d' : ℕ} (hid : (cfg m).id = (cfg n).id) (hlistens : Listens s m now)
    (hfresh : (s.agents m).deliveries d' = none) :
    ∃ t, s.step cfg (.replay poison [(n, d)] now) = some t ∧
      CallsHandler cfg t m d' ⟨f.payload.taskId, (cfg m).id, restoreOriginalData f.payload.data,
        .finite now⟩ := by
  have hown : Owned cfg s := by
    have hsound : Sound cfg (fun _ => True) (fun _ => false) s := by
      refine Steps.invariant ?_ (sound_init _ _) hrun
      intro a e b ha hstep
      refine ha.step (fun _ _ => trivial) ?_ hstep
      cases e <;> simp [Spares]
    exact hsound.own
  obtain ⟨fs, hfs, hmem⟩ := letters_of_left hown hleft
  refine ⟨_, replay_step hfs poison now, ?_⟩
  have hretried : f.retried poison = true :=
    (f.retried_iff poison).mpr ⟨hf.permitted, hf.fits, hf.inputs, hf.nonempty⟩
  have hcfg : f.cfg.id = (cfg m).id := (congrArg ActorConfig.id hleft.config).trans hid.symm
  have hmail : f.retry.mail now = ⟨defaultQueueFor (cfg m).id, f.payload.taskId, (cfg m).id,
      restoreOriginalData f.payload.data, .finite now⟩ := by
    rw [← hcfg]
    rfl
  have hsent := List.mem_map_of_mem (f := fun g => ReplayMessage.mail now g.retry)
    (List.mem_filter.mpr ⟨hmem, hretried⟩)
  obtain ⟨i, hi⟩ := List.getElem?_of_mem (List.mem_append_right s.mail hsent)
  rw [hmail] at hi
  exact Listens.takes (s := { s with mail := s.mail ++ _ })
    ⟨hlistens.stopping, hlistens.stopped⟩ hfresh rfl rfl hi

/-- A task that an agent turned away while it was stopping, run by another one. -/
theorem failed_task_runs_again_missed : ∃ s t,
    Steps.run (step oneWriter) init (missedTask.take 3) = some s ∧
    s.step oneWriter (.replay (fun r => r ∈ dlqPoisonReasons) [(0, 0)] (Decimal.ofInt 9)) = some t ∧
    CallsHandler oneWriter t 1 0 ⟨js "task-1", js "writer", [(js "topic", .str (js "rain"))],
      .finite (Decimal.ofInt 9)⟩ := by
  let missed : Failure := ⟨oneWriter 0, earlyTask, js "actor_stopped", some (js "Actor stopping")⟩
  let s := (Steps.run (step oneWriter) init (missedTask.take 3)).getD init
  have hrun : Steps.run (step oneWriter) init (missedTask.take 3) = some s := rfl
  have hletter : Delivery.deadLetter (oneWriter 0) earlyTask (js "actor_stopped")
      (some (js "Actor stopping")) ∈ deadLetters [.publish (Delivery.deadLetter (oneWriter 0)
        earlyTask (js "actor_stopped") (some (js "Actor stopping")))] :=
    List.mem_singleton.mpr rfl
  have hleft : Left oneWriter s 0 0 ⟨earlyTask, .recording .drained, [.publish
      (Delivery.deadLetter (oneWriter 0) earlyTask (js "actor_stopped")
        (some (js "Actor stopping")))]⟩ missed := ⟨rfl, rfl, rfl, hletter⟩
  have hfits : missed.Fits := by
    unfold Failure.Fits
    decide +kernel
  have hmissed : Recoverable (fun r => r ∈ dlqPoisonReasons) missed :=
    ⟨by decide +kernel, hfits, by decide +kernel, by decide +kernel⟩
  have hnever : (s.agents 1).signals.stoppedAt = none := rfl
  have hlistens : Listens s 1 (Decimal.ofInt 9) := ⟨rfl, by simp [hnever]⟩
  have hfresh : (s.agents 1).deliveries 0 = none := rfl
  obtain ⟨t, ht, hcalls⟩ := failed_task_runs_again (m := 1) hrun hleft hmissed rfl hlistens hfresh
  exact ⟨s, t, hrun, ht, hcalls⟩

end ReplayLoop

end Kaiban
