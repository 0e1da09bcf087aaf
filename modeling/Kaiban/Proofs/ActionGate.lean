/-
The action gate hears every validator and lets the most severe verdict decide.

What the gate makes of its validators is read off a list that says what each of them
answered when they were asked one after another.  The one thing that breaks the gate is a
validator that throws a value which has no text: the gate asks for its text.
-/
import Kaiban.AuditedGate
import Kaiban.Lib.StableSort
import Kaiban.Proofs.AuditLog

open JsString

namespace Kaiban

variable {σ : Type}

/-! ### The verdicts -/

/-- What each validator answers when they are asked in order, each once. -/
def gateAnswers (ctx : GateContext) : List (GateValidator σ) → σ →
    List (Except Thrown GateVerdict)
  | [], _ => []
  | v :: rest, st => (v.check ctx st).1 :: gateAnswers ctx rest (v.check ctx st).2

/-- The state once each validator was asked, in order. -/
def allAsked (ctx : GateContext) (validators : List (GateValidator σ)) (st : σ) : σ :=
  validators.foldl (fun st v => (v.check ctx st).2) st

/-- The verdict an answer counts as: one that fails blocks. -/
def countedVerdict (v : GateValidator σ) : Except Thrown GateVerdict → GateVerdict
  | .ok verdict => verdict
  | .error e => ⟨.block, js "validator error: " ++ e.text.getD [], v.name⟩

/-- The verdicts of the validators, in their order. -/
def countedVerdicts (ctx : GateContext) (validators : List (GateValidator σ)) (st : σ) :
    List GateVerdict :=
  List.zipWith countedVerdict validators (gateAnswers ctx validators st)

/-- What every validator that fails throws has a text. -/
def FailuresHaveText (ctx : GateContext) (validators : List (GateValidator σ)) (st : σ) : Prop :=
  ∀ e, Except.error e ∈ gateAnswers ctx validators st → e.text ≠ none

theorem runValidators_texts {ctx : GateContext} {validators : List (GateValidator σ)} {st : σ}
    (h : FailuresHaveText ctx validators st) :
    runValidators ctx validators st
      = (.ok (countedVerdicts ctx validators st), allAsked ctx validators st) := by
  induction validators generalizing st with
  | nil => rfl
  | cons v rest ih =>
      have hrest := @ih (v.check ctx st).2 fun e he => h e (List.mem_cons_of_mem _ he)
      have hfirst : runValidator v ctx st
          = (.ok (countedVerdict v (v.check ctx st).1), (v.check ctx st).2) := by
        have hv := fun e he => h e (List.mem_cons.mpr (.inl he))
        unfold runValidator
        rcases hcheck : v.check ctx st with ⟨answer, after⟩
        cases answer with
        | ok verdict => rfl
        | error e =>
            rw [hcheck] at hv
            obtain ⟨reason, hreason⟩ := Option.ne_none_iff_exists'.mp (hv e rfl)
            simp only [countedVerdict, hreason, Option.getD_some]
      unfold runValidators
      rw [hfirst]
      dsimp only
      rw [hrest]
      rfl

theorem runValidators_textless {ctx : GateContext} {validators : List (GateValidator σ)} {st : σ}
    (h : ¬ FailuresHaveText ctx validators st) :
    ∃ e st', runValidators ctx validators st = (.error e, st') := by
  induction validators generalizing st with
  | nil => exact absurd (fun e he => absurd he (by simp [gateAnswers])) h
  | cons v rest ih =>
      unfold runValidators runValidator
      rcases hcheck : v.check ctx st with ⟨answer, after⟩
      have hlater (hanswer : ∀ e, answer = .error e → e.text ≠ none) :
          ¬ FailuresHaveText ctx rest after := by
        intro hrest
        refine h fun e he => ?_
        rw [gateAnswers, hcheck] at he
        rcases List.mem_cons.mp he with heq | he
        · exact hanswer e heq.symm
        · exact hrest e he
      cases answer with
      | ok verdict =>
          obtain ⟨e, st', hrun⟩ := ih (hlater fun _ h => absurd h (by simp))
          exact ⟨e, st', by simp only [hrun]⟩
      | error e =>
          cases htext : e.text with
          | none => exact ⟨noTextError, after, by simp only [htext]⟩
          | some reason =>
              have htexts : ∀ e', Except.error e = (.error e' : Except Thrown GateVerdict) →
                  e'.text ≠ none := by
                intro e' heq
                rw [← Except.error.inj heq, htext]
                exact Option.some_ne_none reason
              obtain ⟨e', st', hrun⟩ := ih (hlater htexts)
              exact ⟨e', st', by simp only [htext, hrun]⟩

/-! ### The decision -/

/-- What a decision over some verdicts has to be. -/
structure Aggregates (verdicts : List GateVerdict) (d : GateDecision) : Prop where
  /-- The action is as severe as each verdict's, and one of them. -/
  severe : ∀ v ∈ verdicts, v.action.severity ≤ d.action.severity
  attained : (verdicts = [] ∧ d.action = .allow) ∨ ∃ v ∈ verdicts, v.action = d.action
  /-- The first verdict listed is the earliest with the action. -/
  first : d.verdicts.head? = verdicts.find? fun v => v.action = d.action
  listed : d.verdicts.Perm verdicts
  descending : d.verdicts.Pairwise fun v w => w.action.severity ≤ v.action.severity
  /-- Verdicts of one severity are listed in the validators' order. -/
  stable : ∀ a, d.verdicts.filter (fun v => v.action = a) = verdicts.filter fun v => v.action = a

/-- **The most severe verdict decides.** -/
theorem decideGate_aggregates (ctx : GateContext) (verdicts : List GateVerdict) :
    Aggregates verdicts (decideGate ctx verdicts) := by
  have hstable : ∀ a, (orderBySeverity verdicts).filter (fun v => v.action = a)
      = verdicts.filter fun v => v.action = a := by
    intro a
    refine StableSort.filter_byKey _ verdicts fun v w hv hw => ?_
    rw [of_decide_eq_true hv, of_decide_eq_true hw]
  have hperm : (orderBySeverity verdicts).Perm verdicts := StableSort.byKey_perm _ verdicts
  have hfirst (v) (hv : (orderBySeverity verdicts).head? = some v) :
      (decideGate ctx verdicts).action = v.action := by
    unfold decideGate
    cases hordered : orderBySeverity verdicts with
    | nil =>
        rw [hordered] at hv
        exact absurd hv (by simp)
    | cons w rest =>
        rw [hordered] at hv
        rw [← Option.some.inj hv]
  cases hhead : (orderBySeverity verdicts).head? with
  | none =>
      have hnil : orderBySeverity verdicts = [] := List.head?_eq_none_iff.mp hhead
      have hverdicts : verdicts = [] := by
        rw [hnil] at hperm
        exact hperm.nil_eq.symm
      subst hverdicts
      exact ⟨by simp, .inl ⟨rfl, rfl⟩, rfl, hperm, .nil, hstable⟩
  | some v =>
      have haction := hfirst v hhead
      have hmem : v ∈ verdicts := hperm.mem_iff.mp (List.mem_of_head? hhead)
      refine ⟨fun w hw => ?_, .inr ⟨v, hmem, haction.symm⟩, ?_, hperm,
        StableSort.byKey_pairwise _ verdicts, hstable⟩
      · rw [haction]
        exact StableSort.le_of_head? (fun v : GateVerdict => v.action.severity) hhead hw
      · rw [haction, ← List.head?_filter, ← hstable, List.head?_filter]
        show (orderBySeverity verdicts).head? = _
        cases hordered : orderBySeverity verdicts with
        | nil =>
            rw [hordered] at hhead
            exact absurd hhead (by simp)
        | cons w rest =>
            rw [hordered] at hhead
            obtain rfl := Option.some.inj hhead
            rw [List.find?_cons_of_pos (by simp), List.head?_cons]

theorem GateAction.passes_iff (a : GateAction) :
    a.passes = true ↔ a.severity ≤ GateAction.degrade.severity := by
  cases a <;> decide

/-- A decision passes exactly when every verdict does. -/
theorem Aggregates.passes_iff {verdicts : List GateVerdict} {d : GateDecision}
    (h : Aggregates verdicts d) :
    d.action.passes = true ↔ ∀ v ∈ verdicts, v.action.passes = true := by
  simp only [GateAction.passes_iff]
  constructor
  · intro hd v hv
    exact (h.severe v hv).trans hd
  · intro hall
    rcases h.attained with ⟨-, hallow⟩ | ⟨v, hv, haction⟩
    · rw [hallow]
      decide
    · rw [← haction]
      exact hall v hv

/-! ### The gate as a whole -/

/-- Every validator was asked once and in order, their verdicts made the decision, and the
decision is one record of a log that still verifies. -/
structure Evaluated (sha : Sha256) (validators : List (GateValidator σ)) (ctx : GateContext)
    (timestamp : JsString) (st : σ) (log : AuditLog) (d : GateDecision) : Prop where
  answered : (auditedGate sha true validators ctx timestamp st log).1
    = (.ok d, allAsked ctx validators st)
  context : d.context = ctx
  aggregates : Aggregates (countedVerdicts ctx validators st) d
  recorded : ∃ record : AuditRecord, record.decision = d.toJson ∧ record.timestamp = timestamp ∧
    (auditedGate sha true validators ctx timestamp st log).2 = log ++ [record]
  verifies : log.verify sha = .valid →
    (auditedGate sha true validators ctx timestamp st log).2.verify sha = .valid

theorem auditedGate_texts {ctx : GateContext} {validators : List (GateValidator σ)} {st : σ}
    (h : FailuresHaveText ctx validators st) (sha : Sha256) (timestamp : JsString)
    (log : AuditLog) : auditedGate sha true validators ctx timestamp st log
      = ((.ok (decideGate ctx (countedVerdicts ctx validators st)), allAsked ctx validators st),
        log.append sha (decideGate ctx (countedVerdicts ctx validators st)).toJson timestamp) := by
  unfold auditedGate evaluateGate
  rw [if_pos rfl, runValidators_texts h]
  rfl

/-- Every validator answered, and with `allow` or `degrade`. -/
def AllPass (ctx : GateContext) (validators : List (GateValidator σ)) (st : σ) : Prop :=
  ∀ answer ∈ gateAnswers ctx validators st,
    ∃ verdict, answer = .ok verdict ∧ (verdict.action = .allow ∨ verdict.action = .degrade)

theorem AllPass.texts {ctx : GateContext} {validators : List (GateValidator σ)} {st : σ}
    (h : AllPass ctx validators st) : FailuresHaveText ctx validators st := by
  intro e he
  obtain ⟨verdict, heq, -⟩ := h _ he
  exact absurd heq (by simp)

theorem passes_iff_allow_or_degrade (a : GateAction) :
    a.passes = true ↔ a = .allow ∨ a = .degrade := by
  cases a <;> decide

theorem allPass_iff (ctx : GateContext) (validators : List (GateValidator σ)) (st : σ) :
    AllPass ctx validators st ↔
      ∀ v ∈ countedVerdicts ctx validators st, v.action.passes = true := by
  unfold AllPass countedVerdicts
  induction validators generalizing st with
  | nil => simp [gateAnswers]
  | cons v rest ih =>
      rw [gateAnswers, List.zipWith_cons_cons, List.forall_mem_cons, List.forall_mem_cons, ih]
      refine and_congr_left fun _ => ?_
      cases (v.check ctx st).1 with
      | ok verdict =>
          rw [countedVerdict, passes_iff_allow_or_degrade]
          simp
      | error e => simp [countedVerdict, GateAction.passes]

/-- The guard of an agent lets a payload pass. -/
def GuardAdmits (opts : AdmissionGateOptions) (validators : List (GateValidator σ)) (p : Payload)
    (st : σ) : Prop :=
  ∃ verdict st', admissionGate opts true validators none p st = (.ok verdict, st') ∧
    verdict.allowed = true

theorem admits_iff (opts : AdmissionGateOptions) (validators : List (GateValidator σ))
    (p : Payload) (st : σ) :
    GuardAdmits opts validators p st ↔ AllPass (gateContext opts p) validators st := by
  have hallowed (d : GateDecision) : (admissionVerdict d).allowed = d.action.passes := by
    unfold admissionVerdict
    cases d.action.passes <;> rfl
  unfold GuardAdmits admissionGate evaluateGate
  rw [if_pos rfl]
  by_cases htexts : FailuresHaveText (gateContext opts p) validators st
  · rw [runValidators_texts htexts, allPass_iff,
      ← (decideGate_aggregates (gateContext opts p) _).passes_iff, ← hallowed]
    constructor
    · rintro ⟨verdict, st', hanswer, hverdict⟩
      obtain ⟨hok, -⟩ := Prod.mk.inj hanswer
      rwa [← Except.ok.inj hok] at hverdict
    · intro hverdict
      exact ⟨_, _, rfl, hverdict⟩
  · obtain ⟨e, st', hrun⟩ := runValidators_textless htexts
    rw [hrun]
    constructor
    · rintro ⟨verdict, st'', hanswer, -⟩
      exact absurd (Prod.mk.inj hanswer).1 (by simp)
    · intro hpass
      exact absurd hpass.texts htexts

/-- **The gate aggregates its validators.**  Unless a validator throws a value that has no
text, the most severe verdict decides and is recorded; and the guard of an agent admits
exactly what every validator allows or degrades. -/
theorem auditedGate_evaluated (sha : Sha256) (validators : List (GateValidator σ)) (st : σ) :
    (∀ ctx timestamp log, (∃ d, Evaluated sha validators ctx timestamp st log d) ↔
      FailuresHaveText ctx validators st) ∧
    ∀ opts p, GuardAdmits opts validators p st ↔ AllPass (gateContext opts p) validators st := by
  refine ⟨fun ctx timestamp log => ⟨?_, fun htexts => ?_⟩,
    fun opts p => admits_iff opts validators p st⟩
  · rintro ⟨d, h⟩
    by_contra htexts
    obtain ⟨e, st', hrun⟩ := runValidators_textless htexts
    have hanswered := h.answered
    unfold auditedGate evaluateGate at hanswered
    rw [if_pos rfl, hrun] at hanswered
    exact absurd (Prod.mk.inj hanswered).1 (by simp)
  · have hgate := auditedGate_texts htexts sha timestamp log
    refine ⟨_, ?_, rfl, decideGate_aggregates ctx _, ?_, ?_⟩
    · rw [hgate]
    · rw [hgate]
      exact ⟨_, rfl, rfl, rfl⟩
    · intro hvalid
      rw [hgate]
      exact (AuditLog.verifyFrom_valid_iff 0 [] _).mpr
        (AuditLog.append_linked ((AuditLog.verifyFrom_valid_iff 0 [] _).mp hvalid) _ _)

/-- A validator that throws an object without a text, and a context for it. -/
def throwsTextless : GateValidator Unit := ⟨js "boom", fun _ st => (.error (.other none), st)⟩

def sampleContext : GateContext := ⟨.toolCall, js "agent", none, [], none⟩

/-- The gate rejects, and nothing is recorded. -/
theorem textless_not_evaluated :
    ¬ ∃ d, Evaluated AuditLog.sampleSha [throwsTextless] sampleContext (js "t") () [] d := by
  rintro ⟨d, h⟩
  have hrejects : (auditedGate AuditLog.sampleSha true [throwsTextless] sampleContext (js "t") ()
      []).1 = (.error noTextError, ()) := rfl
  exact absurd (hrejects.symm.trans h.answered) (by simp)

end Kaiban
