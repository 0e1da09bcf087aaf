/-
A wait for a human decision settles soundly, up to names every object has.

Every settling is one step of an unresolved wait, and the event of that step is its cause.
The map of the board's words is a plain object, so a word such as `constructor` finds a
property that is no decision, and the wait is resolved with it.  `Proper` excludes exactly
the messages with such a word.
-/
import Kaiban.Lib.Steps
import Kaiban.Hitl

open JsString

namespace Kaiban

variable {ρ : Type} {sg : Signing}

/-! ### What a board message says -/

/-- A verified message says the word of the task. -/
def Says (sg : Signing) (fresh : Freshness) (taskId word msg : JsString) : Prop :=
  ∃ ms, unwrapVerified sg fresh msg = some (.obj ms) ∧
    textMember ms (js "taskId") = some taskId ∧ textMember ms (js "decision") = some word

theorem boardFields_eq_some {v : Json} {taskId decision : JsString} :
    boardFields v = some (taskId, decision) ↔
      ∃ ms, v = .obj ms ∧ textMember ms (js "taskId") = some taskId ∧
        textMember ms (js "decision") = some decision := by
  constructor
  · intro h
    unfold boardFields at h
    split at h
    · rename_i ms
      split at h
      · rename_i id word hid hword
        obtain ⟨rfl, rfl⟩ := Prod.mk.inj (Option.some.inj h)
        exact ⟨ms, rfl, hid, hword⟩
      · exact absurd h (by simp)
    · exact absurd h (by simp)
  · rintro ⟨ms, rfl, hid, hword⟩
    simp only [boardFields, hid, hword]

/-- `finish` is called for a verified message of the task whose word the map has. -/
theorem handleBoardMessage_eq_some {fresh : Freshness} {taskId msg : JsString} {a : HitlAnswer} :
    handleBoardMessage sg fresh taskId msg = some a ↔
      ∃ word, Says sg fresh taskId word msg ∧ boardDecision word = some a := by
  constructor
  · intro h
    unfold handleBoardMessage at h
    split at h
    · exact absurd h (by simp)
    · rename_i id word hfields
      obtain ⟨v, hv, hfields⟩ := Option.bind_eq_some_iff.mp hfields
      obtain ⟨ms, rfl, hid, hword⟩ := boardFields_eq_some.mp hfields
      split at h
      · exact absurd h (by simp)
      · rename_i answer hanswer
        split at h
        · rename_i heq
          obtain rfl := Option.some.inj h
          exact ⟨word, ⟨ms, hv, heq ▸ hid, hword⟩, hanswer⟩
        · exact absurd h (by simp)
  · rintro ⟨word, ⟨ms, hv, hid, hword⟩, hanswer⟩
    have hfields : (unwrapVerified sg fresh msg).bind boardFields = some (taskId, word) := by
      rw [hv, Option.bind_some, boardFields_eq_some]
      exact ⟨ms, rfl, hid, hword⟩
    unfold handleBoardMessage
    rw [hfields]
    dsimp only
    rw [hanswer]
    exact if_pos rfl

/-- The map has the three words and the names every object has. -/
theorem boardDecision_cases {word : JsString} {a : HitlAnswer} (h : boardDecision word = some a) :
    (∃ d, a = .decision d ∧ word = HitlDecision.word d) ∨
      (a = .inherited word ∧ word ∈ inheritedNames) := by
  unfold boardDecision at h
  split at h
  · rename_i hword
    exact .inl ⟨.publish, (Option.some.inj h).symm, hword⟩
  · split at h
    · rename_i hword
      exact .inl ⟨.revise, (Option.some.inj h).symm, hword⟩
    · split at h
      · rename_i hword
        exact .inl ⟨.reject, (Option.some.inj h).symm, hword⟩
      · split at h
        · rename_i hword
          exact .inr ⟨(Option.some.inj h).symm, hword⟩
        · exact absurd h (by simp)

theorem boardDecision_inherited {word : JsString} (h : word ∈ inheritedNames) :
    boardDecision word = some (.inherited word) := by
  have hnone : ∀ d : HitlDecision, word ≠ d.word := by
    intro d heq
    rw [heq] at h
    cases d <;> exact absurd h (by decide)
  unfold boardDecision
  rw [if_neg (hnone .publish), if_neg (hnone .revise), if_neg (hnone .reject), if_pos h]

namespace HitlWait

variable {w w' : HitlWait ρ} {e : HitlEvent ρ}

/-! ### Steps -/

/-- The terminal's input has ended. -/
def Closed (w : HitlWait ρ) : Prop := ∃ rl, w.rl = some rl ∧ rl.closed = true

/-- The event is why a wait for the task settles so. -/
def Causes (sg : Signing) (taskId : JsString) : HitlSettlement ρ → HitlEvent ρ → Prop
  | .resolves a, .message raw now =>
      handleBoardMessage sg (some (now, maxClockSkewMs)) taskId raw = some a
  | .resolves a, .popped raw now =>
      handleBoardMessage sg (some (now, hitlListMaxAgeMs)) taskId raw = some a
  | .resolves a, .line answer => ∃ d, a = .decision d ∧ terminalDecision answer = some d
  | .rejects reason, .abort reason' => reason = reason'
  | _, _ => False

/-- What a step does. -/
inductive Move (sg : Signing) (w : HitlWait ρ) (e : HitlEvent ρ) (w' : HitlWait ρ) : Prop where
  | rests (hresolved : w'.resolved = w.resolved) (hsettled : w'.settlements = w.settlements)
      (hquestions : w'.questions = w.questions)
  | asks (hopen : ¬ w.Closed) (hwaits : w.resolved = false) (hresolved : w'.resolved = false)
      (hsettled : w'.settlements = w.settlements) (hquestions : w'.questions = w.questions + 1)
  | settles (settlement : HitlSettlement ρ) (hwaits : w.resolved = false)
      (hcause : Causes sg w.taskId settlement e) (hresolved : w'.resolved = true)
      (hsettled : w'.settlements = w.settlements ++ [settlement])
      (hquestions : w'.questions = w.questions)

/-- What a step keeps, and what it does. -/
structure Stepped (sg : Signing) (w : HitlWait ρ) (e : HitlEvent ρ) (w' : HitlWait ρ) : Prop where
  taskId : w'.taskId = w.taskId
  closed : w.Closed → w'.Closed
  signal : ∀ reason, w.signal = some (some reason) → w'.signal = some (some reason)
  move : Move sg w e w'

/-- The input is as it was, up to the callback of a question. -/
theorem closed_congr {f : Readline → Readline} (hrl : w'.rl = w.rl.map f)
    (hf : ∀ rl, (f rl).closed = rl.closed) : w'.Closed ↔ w.Closed := by
  unfold Closed
  rw [hrl]
  cases w.rl with
  | none => simp
  | some rl => simp [hf]

theorem settle_closed (settlement : HitlSettlement ρ) :
    (w.settle settlement).Closed ↔ w.Closed :=
  closed_congr (f := fun rl => { rl with pending := rl.pending && rl.closed }) rfl fun _ => rfl

theorem settle_stepped (hwaits : w.resolved = false) {settlement : HitlSettlement ρ}
    (hcause : Causes sg w.taskId settlement e) : Stepped sg w e (w.settle settlement) where
  taskId := rfl
  closed := (settle_closed settlement).mpr
  signal := fun _ h => h
  move := .settles settlement hwaits hcause rfl rfl rfl

theorem rests_stepped (w : HitlWait ρ) (e : HitlEvent ρ) : Stepped sg w e w :=
  ⟨rfl, id, fun _ h => h, .rests rfl rfl rfl⟩

/-- What the loop does afterwards changes only where it is. -/
theorem Stepped.poll (h : Stepped sg w e w') : Stepped sg w e w'.poll := by
  refine ⟨h.taskId, h.closed, h.signal, ?_⟩
  cases h.move with
  | rests hr hs hq => exact .rests hr hs hq
  | asks ho hw hr hs hq => exact .asks ho hw hr hs hq
  | settles settlement hw hc hr hs hq => exact .settles settlement hw hc hr hs hq

/-- A message is handled by a wait that is not resolved. -/
theorem board_stepped (hwaits : w.resolved = false) {answer : Option HitlAnswer}
    (hcause : ∀ a, answer = some a → Causes sg w.taskId (.resolves a) e) :
    Stepped sg w e (w.board answer) := by
  cases answer with
  | none => exact rests_stepped w e
  | some a =>
      have hfinish : w.board (some a) = w.settle (.resolves a) := by
        unfold board finish
        simp [hwaits]
      rw [hfinish]
      exact settle_stepped hwaits (hcause a rfl)

theorem ask_stepped (hwaits : w.resolved = false) : Stepped sg w e w.ask := by
  unfold ask
  cases hrl : w.rl with
  | none => exact rests_stepped w e
  | some rl =>
      dsimp only
      by_cases hclosed : rl.closed = true
      · rw [if_pos hclosed]
        exact rests_stepped w e
      · rw [if_neg hclosed]
        have hopen : ¬ w.Closed := by
          rintro ⟨rl', hrl', hclosed'⟩
          obtain rfl := Option.some.inj (hrl.symm.trans hrl')
          exact hclosed hclosed'
        exact ⟨rfl, fun h => absurd h hopen, fun _ h => h,
          .asks hopen hwaits hwaits rfl rfl⟩

/-- A line that answers a question. -/
theorem answered_stepped {answer : JsString} (he : e = .line answer) :
    Stepped sg w e (w.answered answer) := by
  subst he
  unfold answered
  split
  · exact rests_stepped w _
  · rename_i hgoes
    rw [Bool.or_eq_true, not_or, Bool.not_eq_true] at hgoes
    have hwaits := hgoes.1
    split
    · rename_i d hd
      have hfinish : w.finish (.decision d) = w.settle (.resolves (.decision d)) := by
        unfold finish
        simp [hwaits]
      rw [hfinish]
      exact settle_stepped hwaits ⟨d, rfl, hd⟩
    · exact ask_stepped hwaits

/-- The same for a wait that differs from the one before in what a step does not count. -/
theorem Stepped.of_same {m : HitlWait ρ} (h : Stepped sg m e w') (htask : m.taskId = w.taskId)
    (hclosed : w.Closed ↔ m.Closed) (hsignal : m.signal = w.signal)
    (hresolved : m.resolved = w.resolved) (hsettled : m.settlements = w.settlements)
    (hquestions : m.questions = w.questions) : Stepped sg w e w' := by
  refine ⟨h.taskId.trans htask, fun hw => h.closed (hclosed.mp hw), ?_, ?_⟩
  · rw [← hsignal]
    exact h.signal
  · cases h.move with
    | rests hr hs hq =>
        exact .rests (hr.trans hresolved) (hs.trans hsettled) (hq.trans hquestions)
    | asks ho hw hr hs hq =>
        refine .asks (fun hc => ho (hclosed.mp hc)) (hresolved ▸ hw) hr (hs.trans hsettled) ?_
        rw [hq, hquestions]
    | settles settlement hw hc hr hs hq =>
        refine .settles settlement (hresolved ▸ hw) (htask ▸ hc) hr ?_ (hq.trans hquestions)
        rw [hs, hsettled]

/-- **What a step of a wait does.** -/
theorem stepped (h : step sg w e = some w') : Stepped sg w e w' := by
  unfold step at h
  cases e with
  | message raw now =>
      dsimp only at h
      split at h
      · obtain rfl := Option.some.inj h
        exact rests_stepped w _
      · rename_i hwaits
        obtain rfl := Option.some.inj h
        exact board_stepped (Bool.not_eq_true _ ▸ hwaits) fun a ha => ha
  | popped raw now =>
      dsimp only at h
      split at h
      · split at h
        · obtain rfl := Option.some.inj h
          exact (rests_stepped w _).poll
        · rename_i hwaits
          obtain rfl := Option.some.inj h
          have hboard : Stepped sg w (.popped raw now) _ :=
            board_stepped (Bool.not_eq_true _ ▸ hwaits) fun a ha => ha
          exact hboard.poll
      · exact absurd h (by simp)
  | timedOut =>
      dsimp only at h
      split at h
      · obtain rfl := Option.some.inj h
        exact (rests_stepped w _).poll
      · exact absurd h (by simp)
  | brpopFailed =>
      dsimp only at h
      split at h
      · obtain rfl := Option.some.inj h
        exact ⟨rfl, id, fun _ hs => hs, .rests rfl rfl rfl⟩
      · exact absurd h (by simp)
  | retries =>
      dsimp only at h
      split at h
      · obtain rfl := Option.some.inj h
        exact (rests_stepped w _).poll
      · exact absurd h (by simp)
  | redisError =>
      obtain rfl := Option.some.inj h
      exact rests_stepped w _
  | line answer =>
      dsimp only at h
      split at h
      · exact absurd h (by simp)
      · rename_i rl hrl
        split at h
        · obtain rfl := Option.some.inj h
          refine (answered_stepped rfl).of_same rfl ?_ rfl rfl rfl rfl
          refine (closed_congr (f := fun r => { r with pending := false }) ?_ fun _ => rfl).symm
          rw [hrl, Option.map_some]
        · obtain rfl := Option.some.inj h
          exact rests_stepped w _
  | inputEnds =>
      dsimp only at h
      split at h
      · exact absurd h (by simp)
      · rename_i rl hrl
        split at h
        · exact absurd h (by simp)
        · obtain rfl := Option.some.inj h
          exact ⟨rfl, fun _ => ⟨_, rfl, rfl⟩, fun _ hs => hs, .rests rfl rfl rfl⟩
  | abort reason =>
      dsimp only at h
      split at h
      · rename_i hsignal
        obtain rfl := Option.some.inj h
        by_cases hwaits : w.resolved = true
        · rw [if_pos hwaits]
          exact ⟨rfl, id, fun _ hs => absurd (hsignal.symm.trans hs) (by simp),
            .rests rfl rfl rfl⟩
        · rw [if_neg hwaits]
          exact ⟨rfl, (settle_closed (w := { w with signal := some (some reason) }) _).mpr,
            fun _ hs => absurd (hsignal.symm.trans hs) (by simp),
            .settles (.rejects reason) (Bool.not_eq_true _ ▸ hwaits) rfl rfl rfl rfl⟩
      · exact absurd h (by simp)

theorem signal_of_abort {reason : ρ} (h : step sg w (.abort reason) = some w') :
    w'.signal = some (some reason) := by
  unfold step at h
  dsimp only at h
  split at h
  · obtain rfl := Option.some.inj h
    split <;> rfl
  · exact absurd h (by simp)

/-! ### Runs -/

/-- A wait is resolved when it has settled, which it does once. -/
structure Ok (w : HitlWait ρ) : Prop where
  resolved : w.resolved = true ↔ w.settlements ≠ []
  once : w.settlements.length ≤ 1

theorem Ok.settlements_nil (hw : w.Ok) (hwaits : w.resolved = false) : w.settlements = [] := by
  by_contra hne
  rw [hw.resolved.mpr hne] at hwaits
  exact absurd hwaits (by simp)

theorem Ok.step (hw : w.Ok) (h : HitlWait.step sg w e = some w') : w'.Ok := by
  cases (stepped h).move with
  | rests hr hs hq => exact ⟨by rw [hr, hs]; exact hw.resolved, by rw [hs]; exact hw.once⟩
  | asks ho hwaits hr hs hq =>
      rw [hw.settlements_nil hwaits] at hs
      exact ⟨by rw [hr, hs]; simp, by rw [hs]; simp⟩
  | settles settlement hwaits hc hr hs hq =>
      rw [hw.settlements_nil hwaits] at hs
      exact ⟨by rw [hr, hs]; simp, by rw [hs]; simp⟩

theorem ask_settlements (w : HitlWait ρ) :
    w.ask.resolved = w.resolved ∧ w.ask.settlements = w.settlements := by
  unfold ask
  split
  · exact ⟨rfl, rfl⟩
  · split
    · exact ⟨rfl, rfl⟩
    · exact ⟨rfl, rfl⟩

theorem start_ok (opts : HitlOptions ρ) : (start opts).Ok := by
  unfold start
  split
  · exact ⟨by simp, by simp⟩
  · refine ⟨?_, ?_⟩
    · rw [(ask_settlements _).1, (ask_settlements _).2]
      simp
    · rw [(ask_settlements _).2]
      simp

theorem start_taskId (opts : HitlOptions ρ) : (start opts).taskId = opts.taskId := by
  unfold start
  split
  · rfl
  · unfold ask
    cases opts.rl with
    | none => rfl
    | some closed => cases closed <;> rfl

/-- What a run keeps. -/
structure Kept (s t : HitlWait ρ) : Prop where
  taskId : t.taskId = s.taskId
  signal : ∀ reason, s.signal = some (some reason) → t.signal = some (some reason)
  settled : s.resolved = true →
    t.resolved = true ∧ t.settlements = s.settlements ∧ t.questions = s.questions
  closed : s.Closed → t.Closed ∧ t.questions = s.questions

theorem Kept.trans {a b c : HitlWait ρ} (hab : Kept a b) (hbc : Kept b c) : Kept a c := by
  refine ⟨hbc.taskId.trans hab.taskId, fun r hr => hbc.signal r (hab.signal r hr), ?_, ?_⟩
  · intro hr
    obtain ⟨hr', hs, hq⟩ := hab.settled hr
    obtain ⟨hr'', hs', hq'⟩ := hbc.settled hr'
    exact ⟨hr'', hs'.trans hs, hq'.trans hq⟩
  · intro hc
    obtain ⟨hc', hq⟩ := hab.closed hc
    obtain ⟨hc'', hq'⟩ := hbc.closed hc'
    exact ⟨hc'', hq'.trans hq⟩

theorem step_kept (h : step sg w e = some w') : Kept w w' := by
  have hstep := stepped h
  refine ⟨hstep.taskId, hstep.signal, fun hresolved => ?_, fun hclosed => ?_⟩
  · have hno : w.resolved ≠ false := by simp [hresolved]
    cases hstep.move with
    | rests hr hs hq => exact ⟨hr.trans hresolved, hs, hq⟩
    | asks ho hwaits hr hs hq => exact absurd hwaits hno
    | settles settlement hwaits hc hr hs hq => exact absurd hwaits hno
  · refine ⟨hstep.closed hclosed, ?_⟩
    cases hstep.move with
    | rests hr hs hq => exact hq
    | asks ho hwaits hr hs hq => exact absurd hclosed ho
    | settles settlement hwaits hc hr hs hq => exact hq

theorem run_kept {es : List (HitlEvent ρ)} (h : Steps.run (step sg) w es = some w') :
    Kept w w' :=
  Steps.run_relation (P := fun _ => True) (R := Kept)
    (fun _ => ⟨rfl, fun _ hr => hr, fun hr => ⟨hr, rfl, rfl⟩, fun hc => ⟨hc, rfl⟩⟩)
    (fun _ _ _ => .trans) (fun _ _ _ _ _ => trivial) (fun _ _ _ _ h => step_kept h) trivial h

/-- The wait settles so at one step of the run, of which the event is the cause. -/
def SettledAt (sg : Signing) (s : HitlWait ρ) (es : List (HitlEvent ρ))
    (settlement : HitlSettlement ρ) (e : HitlEvent ρ) : Prop :=
  ∃ before after m m', es = before ++ e :: after ∧ Steps.run (step sg) s before = some m ∧
    step sg m e = some m' ∧ m.settlements = [] ∧ m'.settlements = [settlement]

/-- **A wait that settles does so at a step, for a cause.** -/
theorem settledAt {settlement : HitlSettlement ρ} {t : HitlWait ρ} :
    ∀ {es : List (HitlEvent ρ)} {s : HitlWait ρ}, s.Ok → Steps.run (step sg) s es = some t →
      s.settlements = [] → settlement ∈ t.settlements →
      ∃ e, Causes sg s.taskId settlement e ∧ SettledAt sg s es settlement e := by
  intro es
  induction es with
  | nil =>
      intro s hs hrun hnil hmem
      obtain rfl : s = t := by simpa using hrun
      rw [hnil] at hmem
      exact absurd hmem (by simp)
  | cons e rest ih =>
      intro s hs hrun hnil hmem
      obtain ⟨m, hm, hrest⟩ := Steps.run_cons_some.mp hrun
      have later : m.settlements = [] →
          ∃ e', Causes sg s.taskId settlement e' ∧ SettledAt sg s (e :: rest) settlement e' := by
        intro hmnil
        obtain ⟨e', hcause, before, after, n, n', hes, hbefore, hn, hnnil, hnew⟩ :=
          ih (hs.step hm) hrest hmnil hmem
        refine ⟨e', (stepped hm).taskId ▸ hcause, e :: before, after, n, n', ?_, ?_, hn, hnnil,
          hnew⟩
        · rw [hes, List.cons_append]
        · exact Steps.run_cons_some.mpr ⟨m, hm, hbefore⟩
      cases (stepped hm).move with
      | rests hr hset hq => exact later (hset.trans hnil)
      | asks ho hwaits hr hset hq => exact later (hset.trans hnil)
      | settles settlement' hwaits hcause hr hset hq =>
          rw [hnil, List.nil_append] at hset
          have hfinal := ((run_kept hrest).settled hr).2.1
          rw [hfinal, hset] at hmem
          obtain rfl := List.mem_singleton.mp hmem
          exact ⟨e, hcause, [], rest, s, m, rfl, rfl, hm, hnil, hset⟩

/-! ### Sound settling -/

/-- A verified board message says the word of the task. -/
def Hears (sg : Signing) (taskId word : JsString) : HitlEvent ρ → Prop
  | .message raw now => Says sg (some (now, maxClockSkewMs)) taskId word raw
  | .popped raw now => Says sg (some (now, hitlListMaxAgeMs)) taskId word raw
  | _ => False

/-- The number a decision has in the terminal's question. -/
def digit : HitlDecision → JsString
  | .publish => js "1"
  | .revise => js "2"
  | .reject => js "3"

/-- The event tells a wait for the task the decision. -/
def Tells (sg : Signing) (taskId : JsString) (d : HitlDecision) (e : HitlEvent ρ) : Prop :=
  Hears sg taskId d.word e ∨ ∃ answer, e = .line answer ∧ JsNumber.trim answer = digit d

theorem terminalDecision_digit {answer : JsString} {d : HitlDecision}
    (h : terminalDecision answer = some d) : JsNumber.trim answer = digit d := by
  unfold terminalDecision at h
  dsimp only at h
  split at h
  · rename_i ha
    obtain rfl := Option.some.inj h
    exact ha
  · split at h
    · rename_i ha
      obtain rfl := Option.some.inj h
      exact ha
    · split at h
      · rename_i ha
        obtain rfl := Option.some.inj h
        exact ha
      · exact absurd h (by simp)

/-- The cause of an answer is a board message that says its word, or a line with its number. -/
theorem causes_resolves {taskId : JsString} {a : HitlAnswer}
    (h : Causes sg taskId (.resolves a) e) :
    (∃ d, a = .decision d ∧ Tells sg taskId d e) ∨
      ∃ word ∈ inheritedNames, a = .inherited word ∧ Hears sg taskId word e := by
  have board : ∀ fresh raw, handleBoardMessage sg fresh taskId raw = some a →
      (∃ d, a = .decision d ∧ Says sg fresh taskId d.word raw) ∨
        ∃ word ∈ inheritedNames, a = .inherited word ∧ Says sg fresh taskId word raw := by
    intro fresh raw hraw
    obtain ⟨word, hsays, hword⟩ := handleBoardMessage_eq_some.mp hraw
    rcases boardDecision_cases hword with ⟨d, ha, rfl⟩ | ⟨ha, hinherited⟩
    · exact .inl ⟨d, ha, hsays⟩
    · exact .inr ⟨word, hinherited, ha, hsays⟩
  cases e with
  | message raw now =>
      rcases board _ raw h with ⟨d, ha, hsays⟩ | hinherited
      · exact .inl ⟨d, ha, .inl hsays⟩
      · exact .inr hinherited
  | popped raw now =>
      rcases board _ raw h with ⟨d, ha, hsays⟩ | hinherited
      · exact .inl ⟨d, ha, .inl hsays⟩
      · exact .inr hinherited
  | line answer =>
      obtain ⟨d, ha, hd⟩ := h
      exact .inl ⟨d, ha, .inr ⟨answer, rfl, terminalDecision_digit hd⟩⟩
  | timedOut => exact h.elim
  | brpopFailed => exact h.elim
  | retries => exact h.elim
  | redisError => exact h.elim
  | inputEnds => exact h.elim
  | abort reason => exact h.elim

/-- **What settling soundly means**, for a call and what has happened since. -/
structure SettlesSoundly (sg : Signing) (opts : HitlOptions ρ) (es : List (HitlEvent ρ))
    (w : HitlWait ρ) : Prop where
  once : w.settlements.length ≤ 1
  resolves : ∀ a, .resolves a ∈ w.settlements →
    ∃ d e, a = .decision d ∧ Tells sg opts.taskId d e ∧
      SettledAt sg (start opts) es (.resolves a) e
  rejects : ∀ reason, .rejects reason ∈ w.settlements →
    w.signal = some (some reason) ∧
      (opts.signal = some (some reason) ∨
        SettledAt sg (start opts) es (.rejects reason) (.abort reason))
  quiet : ∀ before after m, es = before ++ after →
    Steps.run (step sg) (start opts) before = some m → (m.settlements ≠ [] ∨ m.Closed) →
    w.questions = m.questions

/-- No message that the unresolved wait takes for its own has the name of a property that
every object has as its word. -/
def Proper (sg : Signing) (w : HitlWait ρ) (e : HitlEvent ρ) : Prop :=
  w.resolved = false → ∀ word ∈ inheritedNames, ¬ Hears sg w.taskId word e

/-- A message with such a word settles the wait. -/
theorem hears_settles {word : JsString} (hwaits : w.resolved = false)
    (hword : word ∈ inheritedNames) (hears : Hears sg w.taskId word e) (h : step sg w e = some w') :
    w'.resolved = true ∧
      w'.settlements = w.settlements ++ [.resolves (.inherited word)] := by
  have handled : ∀ fresh raw, Says sg fresh w.taskId word raw →
      handleBoardMessage sg fresh w.taskId raw = some (.inherited word) :=
    fun fresh raw hsays =>
      handleBoardMessage_eq_some.mpr ⟨word, hsays, boardDecision_inherited hword⟩
  cases e with
  | message raw now =>
      have hraw := handled _ raw hears
      simp only [step, hwaits, hraw, board, finish] at h
      obtain rfl := Option.some.inj h
      exact ⟨rfl, rfl⟩
  | popped raw now =>
      have hraw := handled _ raw hears
      simp only [step, hwaits, hraw, board, finish] at h
      split at h
      · obtain rfl := Option.some.inj h
        exact ⟨rfl, rfl⟩
      · exact absurd h (by simp)
  | line answer => exact hears.elim
  | timedOut => exact hears.elim
  | brpopFailed => exact hears.elim
  | retries => exact hears.elim
  | redisError => exact hears.elim
  | inputEnds => exact hears.elim
  | abort reason => exact hears.elim

/-- A call whose signal is aborted already has settled; another has not. -/
theorem start_settlements (opts : HitlOptions ρ) :
    (start opts).settlements = [] ∨
      ∃ reason, opts.signal = some (some reason) ∧ (start opts).resolved = true ∧
        (start opts).settlements = [.rejects reason] ∧
        (start opts).signal = some (some reason) := by
  unfold start
  split
  · rename_i reason hsignal
    exact .inr ⟨reason, hsignal, rfl, rfl, hsignal⟩
  · exact .inl (ask_settlements _).2

variable {opts : HitlOptions ρ} {es : List (HitlEvent ρ)}

theorem resolves_soundly (hproper : Steps.Along (step sg) (Proper sg) (start opts) es)
    (h : Steps.run (step sg) (start opts) es = some w) {a : HitlAnswer}
    (hmem : .resolves a ∈ w.settlements) :
    ∃ d e, a = .decision d ∧ Tells sg opts.taskId d e ∧
      SettledAt sg (start opts) es (.resolves a) e := by
  rcases start_settlements opts with hnil | ⟨reason, -, hresolved, hset, -⟩
  · obtain ⟨e, hcause, hat⟩ := settledAt (start_ok opts) h hnil hmem
    rw [start_taskId] at hcause
    rcases causes_resolves hcause with ⟨d, ha, htells⟩ | ⟨word, hword, -, hears⟩
    · exact ⟨d, e, ha, htells, hat⟩
    · obtain ⟨before, after, m, m', rfl, hbefore, -, hmnil, -⟩ := hat
      have hok : m.Ok := Steps.invariant (fun _ _ _ hs => Ok.step hs) (start_ok opts) hbefore
      have hwaits : m.resolved = false := by
        by_contra hresolved
        exact hok.resolved.mp (by simpa using hresolved) hmnil
      have htask : m.taskId = opts.taskId := (run_kept hbefore).taskId.trans (start_taskId opts)
      exact absurd (htask ▸ hears) (hproper.at_split hbefore hwaits word hword)
  · rw [((run_kept h).settled hresolved).2.1, hset] at hmem
    exact absurd hmem (by simp)

theorem rejects_soundly (h : Steps.run (step sg) (start opts) es = some w) {reason : ρ}
    (hmem : .rejects reason ∈ w.settlements) :
    w.signal = some (some reason) ∧
      (opts.signal = some (some reason) ∨
        SettledAt sg (start opts) es (.rejects reason) (.abort reason)) := by
  rcases start_settlements opts with hnil | ⟨reason', hsignal, hresolved, hset, hkept⟩
  · obtain ⟨e, hcause, hat⟩ := settledAt (start_ok opts) h hnil hmem
    obtain rfl : e = .abort reason := by
      cases e with
      | abort reason' => rw [show reason = reason' from hcause]
      | message raw now => exact hcause.elim
      | popped raw now => exact hcause.elim
      | timedOut => exact hcause.elim
      | brpopFailed => exact hcause.elim
      | retries => exact hcause.elim
      | redisError => exact hcause.elim
      | line answer => exact hcause.elim
      | inputEnds => exact hcause.elim
    refine ⟨?_, .inr hat⟩
    obtain ⟨before, after, m, m', rfl, hbefore, hm, -, -⟩ := hat
    obtain ⟨n, hn, hrest⟩ := Steps.run_append_some.mp h
    obtain rfl := Option.some.inj (hbefore.symm.trans hn)
    obtain ⟨n', hn', hafter⟩ := Steps.run_cons_some.mp hrest
    obtain rfl := Option.some.inj (hm.symm.trans hn')
    exact (run_kept hafter).signal reason (signal_of_abort hm)
  · rw [((run_kept h).settled hresolved).2.1, hset] at hmem
    obtain rfl : reason = reason' := by simpa using hmem
    exact ⟨(run_kept h).signal reason hkept, .inl hsignal⟩

/-- **A wait settles soundly just when no message it takes has an inherited name for its
word.** -/
theorem settles_soundly_iff (h : Steps.run (step sg) (start opts) es = some w) :
    SettlesSoundly sg opts es w ↔ Steps.Along (step sg) (Proper sg) (start opts) es := by
  have hinv : ∀ {bs : List (HitlEvent ρ)} {m : HitlWait ρ},
      Steps.run (step sg) (start opts) bs = some m → m.Ok := fun hrun =>
    Steps.invariant (fun _ _ _ hs => Ok.step hs) (start_ok opts) hrun
  constructor
  · intro hsound
    refine Steps.along_of_split fun before e after m hes hbefore hwaits word hword hears => ?_
    rw [hes] at h
    obtain ⟨n, hn, hrest⟩ := Steps.run_append_some.mp h
    obtain rfl := Option.some.inj (hbefore.symm.trans hn)
    obtain ⟨m', hm, hafter⟩ := Steps.run_cons_some.mp hrest
    obtain ⟨hresolved, hset⟩ := hears_settles hwaits hword hears hm
    have hfinal := ((run_kept hafter).settled hresolved).2.1
    have hmem : .resolves (.inherited word) ∈ w.settlements := by
      rw [hfinal, hset]
      simp
    obtain ⟨d, -, hd, -⟩ := hsound.resolves _ hmem
    exact absurd hd (by simp)
  · intro hproper
    refine ⟨(hinv h).once, fun a => resolves_soundly hproper h, fun reason => rejects_soundly h, ?_⟩
    intro before after m hes hbefore hended
    rw [hes] at h
    obtain ⟨n, hn, hafter⟩ := Steps.run_append_some.mp h
    obtain rfl := Option.some.inj (hbefore.symm.trans hn)
    rcases hended with hsettled | hclosed
    · exact ((run_kept hafter).settled ((hinv hbefore).resolved.mpr hsettled)).2.2
    · exact ((run_kept hafter).closed hclosed).2

/-! ### One message -/

theorem length_unsigned (_ _ : JsString) : (List.replicate 32 (0 : Byte)).length = 32 :=
  List.length_replicate

/-- A channel without a secret. -/
def unsignedChannel : Signing where
  secret := []
  hmac := fun _ _ => List.replicate 32 0
  hmac_length := length_unsigned

/-- A wait of the board alone, for the task `t`. -/
def boardOnly : HitlOptions ℕ := ⟨js "t", none, none⟩

/-- A message of the board for that task. -/
def decisionText (word : JsString) : JsString :=
  js "\x7b\"taskId\":\"t\",\"decision\":\"" ++ word ++ js "\"\x7d"

def decides (word : JsString) : HitlEvent ℕ := .message (decisionText word) 0

def afterMessage (word : JsString) : HitlWait ℕ :=
  (start boardOnly).board (handleBoardMessage unsignedChannel (some (0, maxClockSkewMs))
    (start boardOnly).taskId (decisionText word))

theorem run_decides (word : JsString) :
    Steps.run (step unsignedChannel) (start boardOnly) [decides word]
      = some (afterMessage word) := by
  have hstep : step unsignedChannel (start boardOnly) (decides word)
      = some (afterMessage word) := by
    unfold step decides
    dsimp only
    rw [if_neg (by decide), afterMessage]
  rw [Steps.run_cons, hstep, Option.bind_some, Steps.run_nil]

/-- The wait is resolved with what the map has for the word. -/
theorem afterMessage_settlements {word : JsString} {a : HitlAnswer}
    (h : handleBoardMessage unsignedChannel (some (0, maxClockSkewMs)) (js "t") (decisionText word)
      = some a) : (afterMessage word).settlements = [.resolves a] := by
  have htask : (start boardOnly).taskId = js "t" := start_taskId boardOnly
  unfold afterMessage
  rw [htask, h]
  rfl

theorem settles_soundly_published :
    SettlesSoundly unsignedChannel boardOnly [decides (js "PUBLISH")]
      (afterMessage (js "PUBLISH")) ∧
    (afterMessage (js "PUBLISH")).settlements = [.resolves (.decision .publish)] := by
  refine ⟨(settles_soundly_iff (run_decides _)).mpr ⟨?_, fun _ _ => trivial⟩,
    afterMessage_settlements (by decide +kernel)⟩
  rintro - word hword ⟨ms, hms, -, hsaid⟩
  have hfields : (unwrapVerified unsignedChannel (some (0, maxClockSkewMs))
      (decisionText (js "PUBLISH"))).bind boardFields = some (js "t", js "PUBLISH") := by
    decide +kernel
  rw [hms, Option.bind_some] at hfields
  obtain ⟨ms', hobj, -, hpublish⟩ := boardFields_eq_some.mp hfields
  obtain rfl := Json.obj.inj hobj
  obtain rfl := Option.some.inj (hsaid.symm.trans hpublish)
  exact absurd hword (by decide)

theorem inherited_word_resolves :
    ¬ ∀ (sg : Signing) (opts : HitlOptions ℕ) (es : List (HitlEvent ℕ)) (w : HitlWait ℕ),
      Steps.run (step sg) (start opts) es = some w → SettlesSoundly sg opts es w := by
  intro h
  have hsound := h unsignedChannel boardOnly _ _ (run_decides (js "constructor"))
  have hset : (afterMessage (js "constructor")).settlements
      = [.resolves (.inherited (js "constructor"))] := afterMessage_settlements (by decide +kernel)
  obtain ⟨d, -, hd, -⟩ := hsound.resolves (.inherited (js "constructor")) (by rw [hset]; simp)
  exact absurd hd (by simp)

end HitlWait

end Kaiban
