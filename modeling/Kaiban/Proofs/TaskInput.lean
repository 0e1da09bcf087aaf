/-
What the front doors let in.

The parameters are judged by a list of checks, each of which looks at one field and names it
in its message.  They are made in turn and the first that fails is the answer, so the input
is taken when every check passes, and then it is what the fields hold.

What goes on to the mailbox are members of what was checked under their own names, so it is
no larger, and the same checks would pass it again.
-/
import Kaiban.TaskInput
import Kaiban.Proofs.JsonBytes

open JsString

namespace Kaiban

/-! ### Checks made in turn -/

structure InputCheck where
  passes : Bool
  message : JsString

/-- What comes of a value after some checks: the message of the first that fails, or the
value. -/
def judged {α : Type} (checks : List InputCheck) (x : α) : Except A2aInputError α :=
  match checks.find? fun c => !c.passes with
  | some c => .error (invalidParam c.message)
  | none => .ok x

section Judged

variable {α β : Type} {c : InputCheck} {checks : List InputCheck} {x y : α}

theorem judged_nil (x : α) : judged [] x = .ok x := rfl

theorem judged_pass (hc : c.passes = true) : judged (c :: checks) x = judged checks x := by
  unfold judged
  rw [List.find?_cons_of_neg (by simp [hc])]

theorem judged_fail (hc : c.passes = false) :
    judged (c :: checks) x = .error (invalidParam c.message) := by
  unfold judged
  rw [List.find?_cons_of_pos (by simp [hc])]

/-- Checks of one value go on with the checks of the next. -/
theorem judged_bind (f : α → Except A2aInputError β) {more : List InputCheck} {z : β}
    (hf : f x = judged more z) : (judged checks x >>= f) = judged (checks ++ more) z := by
  induction checks with
  | nil => exact hf
  | cons c rest ih =>
      cases hc : c.passes with
      | false =>
          rw [judged_fail hc, List.cons_append, judged_fail hc]
          rfl
      | true => rw [judged_pass hc, List.cons_append, judged_pass hc, ih]

theorem judged_ok_iff : judged checks x = .ok y ↔ (∀ c ∈ checks, c.passes = true) ∧ y = x := by
  induction checks with
  | nil =>
      rw [judged_nil, Except.ok.injEq]
      exact ⟨fun h => ⟨by simp, h.symm⟩, fun h => h.2.symm⟩
  | cons c rest ih =>
      cases hc : c.passes with
      | false =>
          rw [judged_fail hc]
          simp [hc]
      | true =>
          rw [judged_pass hc, ih]
          simp [hc]

/-- The check is the first that fails. -/
def FirstFailing (checks : List InputCheck) (c : InputCheck) : Prop :=
  ∃ before after, checks = before ++ c :: after ∧ (∀ b ∈ before, b.passes = true) ∧
    c.passes = false

theorem judged_error_iff (e : A2aInputError) :
    judged checks x = .error e ↔
      ∃ c, FirstFailing checks c ∧ e = ⟨-32602, c.message⟩ := by
  unfold judged
  constructor
  · intro h
    split at h
    · next c hfind =>
        obtain ⟨hfails, before, after, hchecks, hbefore⟩ :=
          List.find?_eq_some_iff_append.mp hfind
        refine ⟨c, ⟨before, after, hchecks, fun b hb => ?_, ?_⟩, (Except.error.inj h).symm⟩
        · simpa using hbefore b hb
        · simpa using hfails
    · exact absurd h (by simp)
  · rintro ⟨c, ⟨before, after, hchecks, hbefore, hfails⟩, rfl⟩
    have hfind : checks.find? (fun c => !c.passes) = some c := by
      refine List.find?_eq_some_iff_append.mpr ⟨by simp [hfails], before, after, hchecks, ?_⟩
      intro b hb
      simp [hbefore b hb]
    rw [hfind]
    rfl

end Judged

/-! ### The checks of the input -/

/-- A field that is a text, or not there. -/
def isOptionalText : Option Json → Bool
  | none | some (.str _) => true
  | some _ => false

/-- The text of a field. -/
def heldText : Option Json → Option JsString
  | some (.str s) => some s
  | _ => none

def textChecks (value : Option Json) (field : JsString) (maxLen : ℕ) : List InputCheck :=
  [⟨isOptionalText value, field ++ js " must be a string"⟩,
    ⟨(heldText value).all fun s => s.length ≤ maxLen,
      field ++ js " too long: max " ++ capText maxLen ++ js " chars"⟩]

/-- A field that is a plain object, or not there. -/
def isOptionalObject : Option Json → Bool
  | none | some (.obj _) => true
  | some _ => false

/-- The members of a field. -/
def heldObject : Option Json → Option MessageData
  | some (.obj ms) => some ms
  | _ => none

def inputsChecks (value : Option Json) : List InputCheck :=
  [⟨isOptionalObject value, js "inputs must be a plain object"⟩,
    ⟨(heldObject value).all fun ms => (ms.map Prod.fst).dedup.length ≤ maxInputsKeys,
      js "inputs has too many keys: max " ++ capText maxInputsKeys⟩]

def agentIdChecks (agentId : JsString) (allowed : Option (List JsString)) : List InputCheck :=
  [⟨agentId ≠ [], js "agentId is required"⟩,
    ⟨isAgentId agentId, js "Invalid agentId: must be alphanumeric/hyphens, max " ++
      capText maxAgentIdLen ++ js " chars"⟩,
    ⟨allowed.all fun ids => agentId ∈ ids, js "Unknown agentId: not served by this gateway"⟩]

/-- The checks of the fields after the agent's id. -/
def fieldChecks (params : MessageData) : List InputCheck :=
  textChecks (Json.get params (js "instruction")) (js "instruction") maxInstructionLen ++
    (textChecks (Json.get params (js "expectedOutput")) (js "expectedOutput")
        maxExpectedOutputLen ++
      (textChecks (Json.get params (js "context")) (js "context") maxContextLen ++
        inputsChecks (Json.get params (js "inputs"))))

/-- Every check of the input, in turn. -/
def inputChecks (params : MessageData) (allowed : Option (List JsString)) : List InputCheck :=
  ⟨fitsTotalSize params, totalSizeError.message⟩ ::
    (agentIdChecks ((agentIdText (Json.get params (js "agentId"))).getD []) allowed ++
      fieldChecks params)

/-- What the fields hold. -/
def heldInput (params : MessageData) (agentId : JsString) : ValidatedTaskInput :=
  ⟨agentId, heldText (Json.get params (js "instruction")),
    heldText (Json.get params (js "expectedOutput")), heldText (Json.get params (js "context")),
    heldObject (Json.get params (js "inputs"))⟩

theorem validateOptionalString_judged (value : Option Json) (field : JsString) (maxLen : ℕ) :
    validateOptionalString value field maxLen =
      judged (textChecks value field maxLen) (heldText value) := by
  unfold textChecks
  cases value with
  | none => rfl
  | some v =>
      cases v with
      | str s =>
          rw [judged_pass rfl]
          show (if maxLen < s.length then _ else _) = _
          by_cases hlong : maxLen < s.length
          · rw [if_pos hlong, judged_fail (by simpa [heldText] using hlong)]
          · rw [if_neg hlong, judged_pass (by simpa [heldText] using hlong)]
            rfl
      | _ => rfl

theorem validateInputs_judged (value : Option Json) :
    validateInputs value = judged (inputsChecks value) (heldObject value) := by
  unfold inputsChecks
  cases value with
  | none => rfl
  | some v =>
      cases v with
      | obj ms =>
          rw [judged_pass rfl]
          show (if maxInputsKeys < (ms.map Prod.fst).dedup.length then _ else _) = _
          by_cases hmany : maxInputsKeys < (ms.map Prod.fst).dedup.length
          · rw [if_pos hmany, judged_fail (by simpa [heldObject] using hmany)]
          · rw [if_neg hmany, judged_pass (by simpa [heldObject] using hmany)]
            rfl
      | _ => rfl

theorem validateAgentId_judged (agentId : JsString) (allowed : Option (List JsString)) :
    validateAgentId agentId allowed = judged (agentIdChecks agentId allowed) agentId := by
  unfold validateAgentId agentIdChecks
  split
  · next hempty => rw [judged_fail (by simpa using hempty)]
  · next hne =>
      rw [judged_pass (by simpa using hne)]
      split
      · next hshape => rw [judged_fail (by simpa using hshape)]
      · next hshape =>
          rw [judged_pass (by simpa using hshape)]
          cases allowed with
          | none => rfl
          | some ids =>
              by_cases hserved : agentId ∈ ids
              · rw [if_neg (by simpa using hserved), judged_pass (by simpa using hserved)]
                rfl
              · rw [if_pos (by simpa using hserved), judged_fail (by simpa using hserved)]

theorem buildValidated_judged (agentId : JsString) (params : MessageData) :
    buildValidated agentId params = judged (fieldChecks params) (heldInput params agentId) := by
  unfold buildValidated fieldChecks
  rw [validateOptionalString_judged]
  apply judged_bind
  rw [validateOptionalString_judged]
  apply judged_bind
  rw [validateOptionalString_judged]
  apply judged_bind
  rw [validateInputs_judged, ← List.append_nil (inputsChecks _)]
  apply judged_bind
  rfl

/-- The validation is the checks in turn, unless the id of the agent has no text. -/
theorem validateTaskInput_judged (params : MessageData) (allowed : Option (List JsString)) :
    validateTaskInput params allowed =
      if fitsTotalSize params = true ∧ agentIdText (Json.get params (js "agentId")) = none then none
      else some (judged (inputChecks params allowed)
        (heldInput params ((agentIdText (Json.get params (js "agentId"))).getD []))) := by
  unfold validateTaskInput inputChecks
  cases hfits : fitsTotalSize params with
  | false =>
      rw [if_pos (by rfl), if_neg (by simp), judged_fail rfl]
      rfl
  | true =>
      rw [if_neg (by simp), judged_pass rfl]
      cases hid : agentIdText (Json.get params (js "agentId")) with
      | none =>
          rw [if_pos (by simp)]
          rfl
      | some agentId =>
          rw [if_neg (by simp), Option.map_some, Option.getD_some, validateAgentId_judged]
          exact congrArg some (judged_bind _ (buildValidated_judged agentId params))

/-! ### What is accepted -/

/-- A text field is not there, or it is a text within its cap. -/
def HoldsText (params : MessageData) (name : String) (maxLen : ℕ) (held : Option JsString) :
    Prop :=
  Json.get params (js name) = held.map .str ∧ ∀ s ∈ held, s.length ≤ maxLen

/-- The parameters are well formed and hold the input. -/
structure Accepts (params : MessageData) (allowed : Option (List JsString))
    (p : ValidatedTaskInput) : Prop where
  size : jsonBytes (.obj params) ≤ 65536
  agent : agentIdText (Json.get params (js "agentId")) = some p.agentId
  shape : p.agentId ≠ [] ∧ p.agentId.length ≤ 64 ∧ ∀ u ∈ p.agentId, isAgentIdUnit u = true
  served : ∀ ids, allowed = some ids → p.agentId ∈ ids
  instruction : HoldsText params "instruction" 10000 p.instruction
  expectedOutput : HoldsText params "expectedOutput" 10000 p.expectedOutput
  context : HoldsText params "context" 20000 p.context
  inputs : Json.get params (js "inputs") = p.inputs.map .obj ∧
    ∀ ms ∈ p.inputs, (ms.map Prod.fst).dedup.length ≤ 64

theorem textChecks_pass {value : Option Json} {field : JsString} {maxLen : ℕ} :
    (∀ c ∈ textChecks value field maxLen, c.passes = true) ↔
      value = (heldText value).map .str ∧ ∀ s ∈ heldText value, s.length ≤ maxLen := by
  unfold textChecks
  cases value with
  | none => simp [isOptionalText, heldText]
  | some v => cases v <;> simp [isOptionalText, heldText]

theorem inputsChecks_pass {value : Option Json} :
    (∀ c ∈ inputsChecks value, c.passes = true) ↔
      value = (heldObject value).map .obj ∧
        ∀ ms ∈ heldObject value, (ms.map Prod.fst).dedup.length ≤ maxInputsKeys := by
  unfold inputsChecks
  cases value with
  | none => simp [isOptionalObject, heldObject]
  | some v => cases v <;> simp [isOptionalObject, heldObject]

theorem agentIdChecks_pass {agentId : JsString} {allowed : Option (List JsString)} :
    (∀ c ∈ agentIdChecks agentId allowed, c.passes = true) ↔
      (agentId ≠ [] ∧ agentId.length ≤ 64 ∧ ∀ u ∈ agentId, isAgentIdUnit u = true) ∧
        ∀ ids, allowed = some ids → agentId ∈ ids := by
  unfold agentIdChecks isAgentId maxAgentIdLen
  cases allowed with
  | none =>
      simp
      tauto
  | some ids =>
      simp
      tauto

theorem heldText_map {held : Option JsString} : heldText (held.map .str) = held := by
  cases held <;> rfl

theorem heldObject_map {held : Option MessageData} : heldObject (held.map .obj) = held := by
  cases held <;> rfl

theorem HoldsText.heldText {params : MessageData} {name : String} {maxLen : ℕ}
    {held : Option JsString} (h : HoldsText params name maxLen held) :
    Kaiban.heldText (Json.get params (js name)) = held := by
  rw [h.1, heldText_map]

/-- Every check passes, and the input is what the fields hold. -/
theorem accepts_iff_checks (params : MessageData) (allowed : Option (List JsString))
    (p : ValidatedTaskInput) :
    Accepts params allowed p ↔
      agentIdText (Json.get params (js "agentId")) = some p.agentId ∧
        (∀ c ∈ inputChecks params allowed, c.passes = true) ∧ p = heldInput params p.agentId := by
  unfold inputChecks fieldChecks
  simp only [List.forall_mem_cons, List.forall_mem_append, agentIdChecks_pass, textChecks_pass,
    inputsChecks_pass]
  constructor
  · intro h
    refine ⟨h.agent, ⟨decide_eq_true h.size, ?_, ?_, ?_, ?_, ?_⟩, ?_⟩
    · rw [h.agent]
      exact ⟨h.shape, h.served⟩
    · rw [h.instruction.heldText]
      exact h.instruction
    · rw [h.expectedOutput.heldText]
      exact h.expectedOutput
    · rw [h.context.heldText]
      exact h.context
    · rw [h.inputs.1, heldObject_map]
      exact ⟨rfl, h.inputs.2⟩
    · unfold heldInput
      rw [h.instruction.heldText, h.expectedOutput.heldText, h.context.heldText, h.inputs.1,
        heldObject_map]
  · rintro ⟨hagent, ⟨hsize, ⟨hshape, hserved⟩, hinstruction, hexpected, hcontext, hinputs⟩, hp⟩
    rw [hagent, Option.getD_some] at hshape hserved
    rw [hp]
    exact ⟨of_decide_eq_true hsize, hagent, hshape, hserved, hinstruction, hexpected,
      hcontext, hinputs⟩

/-- **Exactly the well-formed parameters are accepted**, as what they hold. -/
theorem validateTaskInput_ok_iff (params : MessageData) (allowed : Option (List JsString))
    (p : ValidatedTaskInput) :
    validateTaskInput params allowed = some (.ok p) ↔ Accepts params allowed p := by
  rw [accepts_iff_checks, validateTaskInput_judged]
  cases hid : agentIdText (Json.get params (js "agentId")) with
  | none =>
      refine iff_of_false ?_ (by simp)
      intro h
      split at h
      · exact absurd h (by simp)
      · next hsize =>
          -- an input that is too large fails the first check
          have hlarge : fitsTotalSize params = false := by simpa using hsize
          have hok := judged_ok_iff.mp (Option.some.inj h)
          exact absurd (hok.1 _ List.mem_cons_self) (by simp [hlarge])
  | some agentId =>
      rw [if_neg (by simp), Option.some.injEq, judged_ok_iff, Option.getD_some, Option.some.injEq]
      constructor
      · rintro ⟨hchecks, rfl⟩
        exact ⟨rfl, hchecks, rfl⟩
      · rintro ⟨rfl, hchecks, hp⟩
        exact ⟨hchecks, hp⟩

/-! ### What goes on to the mailbox -/

/-- The members of some names. -/
def pickedMembers (params : MessageData) (names : List JsString) : MessageData :=
  names.flatMap fun k => ((Json.get params k).map fun v => (k, v)).toList

theorem mem_of_get {params : MessageData} {k : JsString} {v : Json}
    (h : Json.get params k = some v) : (k, v) ∈ params := by
  unfold Json.get at h
  obtain ⟨m, hm, rfl⟩ := Option.map_eq_some_iff.mp h
  have hname : m.1 = k := by simpa using List.find?_some hm
  rw [← hname]
  exact List.mem_reverse.mp (List.mem_of_find?_eq_some hm)

theorem mem_pickedMembers {params : MessageData} {names : List JsString} {m : JsString × Json} :
    m ∈ pickedMembers params names ↔ m.1 ∈ names ∧ Json.get params m.1 = some m.2 := by
  unfold pickedMembers
  rw [List.mem_flatMap]
  constructor
  · rintro ⟨k, hk, hm⟩
    obtain ⟨v, hv, rfl⟩ := Option.map_eq_some_iff.mp (Option.mem_toList.mp hm)
    exact ⟨hk, hv⟩
  · rintro ⟨hname, hget⟩
    refine ⟨m.1, hname, ?_⟩
    rw [hget]
    simp

/-- Members that are picked by name are among the members, each once. -/
theorem pickedMembers_subperm {params : MessageData} {names : List JsString}
    (h : names.Nodup) : (pickedMembers params names).Subperm params := by
  refine List.subperm_of_subset ?_ fun m hm => mem_of_get (mem_pickedMembers.mp hm).2
  unfold pickedMembers
  refine List.nodup_flatMap.mpr ⟨fun k _ => ?_, ?_⟩
  · cases Json.get params k <;> simp
  · refine h.imp fun hne m hm hm' => ?_
    obtain ⟨v, -, rfl⟩ := Option.map_eq_some_iff.mp (Option.mem_toList.mp hm)
    obtain ⟨v', -, heq⟩ := Option.map_eq_some_iff.mp (Option.mem_toList.mp hm')
    exact hne (congrArg Prod.fst heq).symm

/-- The names of the fields. -/
def fieldNames : List JsString :=
  [js "instruction", js "expectedOutput", js "context", js "inputs"]

/-- The data of the message are members of what was checked. -/
theorem Accepts.toData {params : MessageData} {allowed : Option (List JsString)}
    {p : ValidatedTaskInput} (h : Accepts params allowed p) :
    p.toData = pickedMembers params fieldNames := by
  unfold ValidatedTaskInput.toData pickedMembers fieldNames
  simp only [List.flatMap_cons, List.flatMap_nil, List.append_nil, h.instruction.1,
    h.expectedOutput.1, h.context.1, h.inputs.1, List.append_assoc]

/-- The accepted input as parameters again. -/
def ValidatedTaskInput.toParams (p : ValidatedTaskInput) : MessageData :=
  (js "agentId", .str p.agentId) :: p.toData

theorem get_pickedMembers (params : MessageData) (names : List JsString) (k : JsString) :
    Json.get (pickedMembers params names) k = if k ∈ names then Json.get params k else none := by
  have hkeys : ∀ m ∈ pickedMembers params names, Json.get params m.1 = some m.2 :=
    fun m hm => (mem_pickedMembers.mp hm).2
  cases hget : Json.get (pickedMembers params names) k with
  | none =>
      split
      · next hname =>
          cases hparam : Json.get params k with
          | none => rfl
          | some v =>
              have hmem : (k, v) ∈ pickedMembers params names :=
                mem_pickedMembers.mpr ⟨hname, hparam⟩
              exact absurd rfl (Json.get_eq_none.mp hget (k, v) hmem)
      · rfl
  | some v =>
      obtain ⟨hname, hparam⟩ := mem_pickedMembers.mp (mem_of_get hget)
      rw [if_pos hname, hparam]

/-- What was accepted with the id of an agent as a text is members of the parameters. -/
theorem Accepts.toParams {params : MessageData} {allowed : Option (List JsString)}
    {p : ValidatedTaskInput} {agentId : JsString} (h : Accepts params allowed p)
    (hid : Json.get params (js "agentId") = some (.str agentId)) :
    p.toParams = pickedMembers params (js "agentId" :: fieldNames) := by
  have hsame : agentId = p.agentId := by
    have hagent := h.agent
    rw [hid] at hagent
    exact Option.some.inj hagent
  unfold ValidatedTaskInput.toParams
  rw [h.toData, pickedMembers, pickedMembers, List.flatMap_cons, hid, hsame]
  rfl

/-- What was accepted is accepted again. -/
theorem Accepts.again {params : MessageData} {allowed : Option (List JsString)}
    {p : ValidatedTaskInput} {agentId : JsString} (h : Accepts params allowed p)
    (hid : Json.get params (js "agentId") = some (.str agentId)) :
    Accepts p.toParams allowed p := by
  have hget (k : JsString) (hk : k ∈ js "agentId" :: fieldNames) :
      Json.get p.toParams k = Json.get params k := by
    rw [h.toParams hid, get_pickedMembers, if_pos hk]
  have hsize : jsonBytes (.obj p.toParams) ≤ jsonBytes (.obj params) := by
    rw [h.toParams hid]
    exact jsonBytes_subperm (pickedMembers_subperm (by decide))
  refine ⟨hsize.trans h.size, ?_, h.shape, h.served, ?_, ?_, ?_, ?_⟩
  · rw [hget _ (by simp)]
    exact h.agent
  · exact ⟨(hget _ (by decide)).trans h.instruction.1, h.instruction.2⟩
  · exact ⟨(hget _ (by decide)).trans h.expectedOutput.1, h.expectedOutput.2⟩
  · exact ⟨(hget _ (by decide)).trans h.context.1, h.context.2⟩
  · exact ⟨(hget _ (by decide)).trans h.inputs.1, h.inputs.2⟩

/-- **The first violation is the answer, exactly well-formed parameters are taken, and what
goes on to the mailbox fits the cap.**  What was taken would be taken again. -/
theorem input_checked (params : MessageData) (allowed : Option (List JsString)) :
    (validateTaskInput params allowed = none ↔
      jsonBytes (.obj params) ≤ 65536 ∧ agentIdText (Json.get params (js "agentId")) = none) ∧
    (∀ e, validateTaskInput params allowed = some (.error e) ↔
      (jsonBytes (.obj params) ≤ 65536 → agentIdText (Json.get params (js "agentId")) ≠ none) ∧
        ∃ c, FirstFailing (inputChecks params allowed) c ∧ e = ⟨-32602, c.message⟩) ∧
    (∀ p, validateTaskInput params allowed = some (.ok p) ↔ Accepts params allowed p) ∧
    ∀ p, validateTaskInput params allowed = some (.ok p) →
      jsonBytes (.obj p.toData) ≤ 65536 ∧
        ∀ agentId, Json.get params (js "agentId") = some (.str agentId) →
          validateTaskInput p.toParams allowed = some (.ok p) := by
  have hfits : fitsTotalSize params = true ↔ jsonBytes (.obj params) ≤ 65536 := decide_eq_true_iff
  refine ⟨?_, fun e => ?_, validateTaskInput_ok_iff params allowed, fun p hp => ?_⟩
  · rw [validateTaskInput_judged, ← hfits]
    split
    · next hboth => exact iff_of_true rfl hboth
    · next hnot => exact iff_of_false (by simp) hnot
  · rw [validateTaskInput_judged, ← hfits, ← judged_error_iff]
    split
    · next hboth => exact iff_of_false (by simp) fun h => h.1 hboth.1 hboth.2
    · next hnot =>
        rw [Option.some.injEq]
        exact ⟨fun h => ⟨fun hsize hid => hnot ⟨hsize, hid⟩, h⟩, fun h => h.2⟩
  · have haccepts := (validateTaskInput_ok_iff params allowed p).mp hp
    have hsize : jsonBytes (.obj p.toData) ≤ jsonBytes (.obj params) := by
      rw [haccepts.toData]
      exact jsonBytes_subperm (pickedMembers_subperm (by decide))
    refine ⟨hsize.trans haccepts.size, fun agentId hid => ?_⟩
    exact (validateTaskInput_ok_iff _ _ _).mpr (haccepts.again hid)

end Kaiban
