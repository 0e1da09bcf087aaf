/-
What a stop from the command line comes to.

The arguments have a grammar, and the command takes exactly what it spells, the last value of
each flag.  It exits with zero exactly when it was asked for its usage or the stop was saved and
published, and whatever it hands to Redis is read back by every node with the same secret as the
stop that was asked for.
-/
import Kaiban.Proofs.StopIngress
import Kaiban.StopAllCli

open JsString

namespace Kaiban

/-! ### The grammar -/

/-- What an argument sets. -/
inductive StopSetting where
  | help
  | flag (name value : JsString)
  deriving DecidableEq

def StopAllArgs.apply (args : StopAllArgs) : StopSetting → StopAllArgs
  | .help => { args with help := true }
  | .flag name value => args.set name value

/-- The flags that take a value. -/
def IsStopFlag (name : JsString) : Prop := name = js "--reason" ∨ name = js "--by"

/-- The arguments spell these settings, in order. -/
inductive Spells : List JsString → List StopSetting → Prop
  | nil : Spells [] []
  | help {arg : JsString} {argv : List JsString} {settings : List StopSetting}
      (harg : arg = js "--help" ∨ arg = js "-h") (h : Spells argv settings) :
      Spells (arg :: argv) (.help :: settings)
  | apart {name value : JsString} {argv : List JsString} {settings : List StopSetting}
      (hname : IsStopFlag name) (hvalue : value ≠ []) (h : Spells argv settings) :
      Spells (name :: value :: argv) (.flag name value :: settings)
  | inline {name value : JsString} {argv : List JsString} {settings : List StopSetting}
      (hname : IsStopFlag name) (hvalue : value ≠ []) (h : Spells argv settings) :
      Spells ((name ++ unit '=' :: value) :: argv) (.flag name value :: settings)

/-! ### One argument -/

theorem splitFlag_none {arg : JsString} (h : (splitFlag arg).2 = none) :
    (splitFlag arg).1 = arg := by
  unfold splitFlag at h ⊢
  split
  · rfl
  · next hrest => rw [hrest] at h; exact absurd h (by simp)

theorem splitFlag_some {arg value : JsString} (h : (splitFlag arg).2 = some value) :
    arg = (splitFlag arg).1 ++ unit '=' :: value := by
  unfold splitFlag at h ⊢
  cases hrest : arg.dropWhile fun u => u ≠ unit '=' with
  | nil => rw [hrest] at h; exact absurd h (by simp)
  | cons u inline =>
      rw [hrest] at h
      obtain rfl := Option.some.inj h
      have hhead := List.head?_dropWhile_not (fun u => decide (u ≠ unit '=')) arg
      rw [hrest] at hhead
      have hu : u = unit '=' := by simpa using hhead
      have hsplit : arg = (arg.takeWhile fun u => u ≠ unit '=') ++
          arg.dropWhile fun u => u ≠ unit '=' :=
        List.takeWhile_append_dropWhile.symm
      rw [hrest, hu] at hsplit
      exact hsplit

theorem splitFlag_inline {name : JsString} (h : unit '=' ∉ name) (value : JsString) :
    splitFlag (name ++ unit '=' :: value) = (name, some value) := by
  have hall : ∀ u ∈ name, (fun u => decide (u ≠ unit '=')) u = true := by
    intro u hu
    simpa using fun heq : u = unit '=' => h (heq ▸ hu)
  unfold splitFlag
  rw [List.dropWhile_append_of_pos hall, List.dropWhile_cons_of_neg (by simp),
    List.takeWhile_append_of_pos hall, List.takeWhile_cons_of_neg (by simp), List.append_nil]

theorem IsStopFlag.plain {name : JsString} (h : IsStopFlag name) : unit '=' ∉ name := by
  rcases h with rfl | rfl <;> decide

theorem IsStopFlag.split {name : JsString} (h : IsStopFlag name) :
    splitFlag name = (name, none) := by
  rcases h with rfl | rfl <;> decide

theorem IsStopFlag.not_help {name : JsString} (h : IsStopFlag name) :
    ¬ (name = js "--help" ∨ name = js "-h") := by
  rcases h with rfl | rfl <;> decide

theorem inline_not_help (name value : JsString) :
    ¬ (name ++ unit '=' :: value = js "--help" ∨ name ++ unit '=' :: value = js "-h") := by
  have hmem : unit '=' ∈ name ++ unit '=' :: value := by simp
  rintro (heq | heq)
  · rw [heq] at hmem
    exact absurd hmem (by decide)
  · rw [heq] at hmem
    exact absurd hmem (by decide)

theorem not_unknown {name : JsString} (h : IsStopFlag name) :
    ¬ (name ≠ js "--reason" ∧ name ≠ js "--by") := by
  rintro ⟨hreason, hby⟩
  exact h.elim hreason hby

theorem isStopFlag_of_known {name : JsString}
    (h : ¬ (name ≠ js "--reason" ∧ name ≠ js "--by")) : IsStopFlag name := by
  rw [not_and_or, not_ne_iff, not_ne_iff] at h
  exact h

/-! ### All arguments -/

/-- What is spelt is parsed. -/
theorem Spells.parses {argv : List JsString} {settings : List StopSetting}
    (h : Spells argv settings) (args : StopAllArgs) :
    parseArgs args argv = .ok (settings.foldl StopAllArgs.apply args) := by
  induction h generalizing args with
  | nil => rfl
  | help harg h ih =>
      rw [parseArgs, if_pos harg]
      exact ih _
  | @apart name value argv settings hname hvalue h ih =>
      obtain ⟨u, value, rfl⟩ := List.exists_cons_of_ne_nil hvalue
      rw [parseArgs, if_neg hname.not_help]
      dsimp only
      rw [hname.split, if_neg (not_unknown hname)]
      exact ih _
  | @inline name value argv settings hname hvalue h ih =>
      obtain ⟨u, value, rfl⟩ := List.exists_cons_of_ne_nil hvalue
      rw [parseArgs, if_neg (inline_not_help name _)]
      dsimp only
      rw [splitFlag_inline hname.plain, if_neg (not_unknown hname)]
      exact ih _

/-- What is parsed was spelt. -/
theorem spells_of_parse {argv : List JsString} {args parsed : StopAllArgs}
    (h : parseArgs args argv = .ok parsed) :
    ∃ settings, Spells argv settings ∧ parsed = settings.foldl StopAllArgs.apply args := by
  fun_induction parseArgs args argv with
  | case1 args => exact ⟨[], .nil, (Except.ok.inj h).symm⟩
  | case2 args arg rest harg ih =>
      obtain ⟨settings, hspells, rfl⟩ := ih h
      exact ⟨.help :: settings, .help harg hspells, rfl⟩
  | case3 | case4 | case5 | case6 => exact absurd h (by simp)
  | case7 args arg harg flag hflag u value rest hsplit ih =>
      obtain ⟨settings, hspells, rfl⟩ := ih h
      refine ⟨.flag flag (u :: value) :: settings, ?_, rfl⟩
      rw [splitFlag_some hsplit]
      exact .inline (isStopFlag_of_known hflag) (by simp) hspells
  | case8 args arg harg flag hflag u value rest hsplit ih =>
      obtain ⟨settings, hspells, rfl⟩ := ih h
      refine ⟨.flag flag (u :: value) :: settings, ?_, rfl⟩
      have hspells : Spells (flag :: (u :: value) :: rest) (.flag flag (u :: value) :: settings) :=
        .apart (isStopFlag_of_known hflag) (by simp) hspells
      rw [show flag = arg from splitFlag_none hsplit] at hspells ⊢
      exact hspells

/-- **The arguments that are taken are those of the grammar, with the settings they spell.** -/
theorem parseStopAllArgs_iff {user : Option JsString} {argv : List JsString}
    {args : StopAllArgs} :
    parseStopAllArgs user argv = .ok args ↔ ∃ settings, Spells argv settings ∧
      args = settings.foldl StopAllArgs.apply ⟨defaultIssuer user, none, false⟩ := by
  constructor
  · exact spells_of_parse
  · rintro ⟨settings, hspells, rfl⟩
    exact hspells.parses _

/-! ### The stop -/

/-- The issuer and the reason are not empty. -/
def Stated (args : StopAllArgs) : Prop := args.issuer ≠ [] ∧ ∀ r ∈ args.reason, r ≠ []

theorem stated_default (user : Option JsString) : Stated ⟨defaultIssuer user, none, false⟩ := by
  refine ⟨?_, by simp⟩
  unfold defaultIssuer
  split
  · decide
  · decide
  · simp

theorem Spells.stated {argv : List JsString} {settings : List StopSetting}
    (h : Spells argv settings) {args : StopAllArgs} (hargs : Stated args) :
    Stated (settings.foldl StopAllArgs.apply args) := by
  have hset {name value : JsString} {args : StopAllArgs} (hvalue : value ≠ [])
      (hargs : Stated args) : Stated (args.set name value) := by
    unfold StopAllArgs.set
    split
    · refine ⟨hargs.1, fun r hr => ?_⟩
      obtain rfl := Option.some.inj hr
      exact hvalue
    · exact ⟨hvalue, hargs.2⟩
  induction h generalizing args with
  | nil => exact hargs
  | help harg h ih => exact ih hargs
  | apart hname hvalue h ih => exact ih (hset hvalue hargs)
  | inline hname hvalue h ih => exact ih (hset hvalue hargs)

/-- What the schema asks of a stop. -/
structure StopArgsFit (args : StopAllArgs) (now : ℕ) : Prop where
  issuer : args.issuer.length ≤ 200
  reason : ∀ r ∈ args.reason, r.length ≤ 500
  now : 0 < now ∧ now ≤ 9007199254740991

/-- The command is the stop that the arguments ask for. -/
structure AsksFor (r : StopAllRun) (args : StopAllArgs) (cmd : StopAllCommand) : Prop where
  commandId : cmd.commandId = r.commandId
  issuedBy : cmd.issuedBy = args.issuer
  issuedAt : cmd.issuedAt = r.now
  reason : cmd.reason = args.reason

/-- What is handed to Redis is read back as the command, by whoever has the secret. -/
def ReadBack (sg : Signing) (cmd : StopAllCommand) : RedisCall → Prop
  | .save moment value => moment = NumberText.numberText (Decimal.ofInt cmd.issuedAt) ∧
      openSavedStopCommand sg value = some cmd
  | .publish channel message => channel = controlChannel ∧
      commandOfMessage sg message = some cmd

/-- The stop that is built of the arguments. -/
def newStop (r : StopAllRun) (args : StopAllArgs) : NewStopCommand :=
  createStopAllCommand r.commandId args.issuer args.reason r.now

theorem newStop_reason {r : StopAllRun} {args : StopAllArgs} (h : Stated args) :
    (newStop r args).reason = args.reason := by
  show args.reason.filter _ = args.reason
  cases hreason : args.reason with
  | none => rfl
  | some reason => exact if_pos (by simpa using h.2 reason hreason)

/-- **The schema takes the stop exactly when it fits, and takes it as what was asked for.** -/
theorem parse_newStop_iff {r : StopAllRun} {args : StopAllArgs} (h : Stated args) :
    (StopArgsFit args r.now ↔
      ∃ cmd, parseStopAllCommand (.obj (newStop r args).members) = some cmd) ∧
    ∀ cmd, parseStopAllCommand (.obj (newStop r args).members) = some cmd →
      AsksFor r args cmd ∧ cmd.members = (newStop r args).members := by
  have hbuilds (hfit : StopArgsFit args r.now) :
      ∃ cmd, parseStopAllCommand (.obj (newStop r args).members) = some cmd ∧
        AsksFor r args cmd ∧ cmd.members = (newStop r args).members := by
    let cmd : StopAllCommand := ⟨r.commandId, args.issuer, r.now, args.reason,
      by rw [r.commandId_size]; decide, ⟨List.length_pos_iff.mpr h.1, hfit.issuer⟩, hfit.now,
      hfit.reason⟩
    have hmembers : cmd.members = (newStop r args).members := by
      unfold StopAllCommand.members NewStopCommand.members reasonMembers
      rw [newStop_reason h]
      cases hreason : args.reason <;> simp [cmd, hreason, newStop, createStopAllCommand]
    refine ⟨cmd, ?_, ⟨rfl, rfl, rfl, rfl⟩, hmembers⟩
    rw [← hmembers]
    exact parseStopAllCommand_members cmd
  have hfits {cmd : StopAllCommand}
      (hcmd : parseStopAllCommand (.obj (newStop r args).members) = some cmd) :
      StopArgsFit args r.now := by
    obtain ⟨hissuer, hnow⟩ := EmergencyStopIngress.sizes_of_parse hcmd
    refine ⟨hissuer, fun reason hreason => ?_, hnow⟩
    have hread := (readAs_of_parse hcmd).reason
    have hmember : optionalMember (newStop r args).members (js "reason") = some args.reason := by
      unfold NewStopCommand.members reasonMembers
      rw [newStop_reason h]
      cases args.reason <;> rfl
    rw [hmember] at hread
    exact cmd.reason_size reason (Option.some.inj hread ▸ hreason)
  refine ⟨⟨fun hfit => ?_, fun hcmd => ?_⟩, fun cmd hcmd => ?_⟩
  · obtain ⟨cmd, hcmd, -⟩ := hbuilds hfit
    exact ⟨cmd, hcmd⟩
  · obtain ⟨cmd, hcmd⟩ := hcmd
    exact hfits hcmd
  · obtain ⟨cmd', hcmd', hasks, hmembers⟩ := hbuilds (hfits hcmd)
    obtain rfl := Option.some.inj (hcmd'.symm.trans hcmd)
    exact ⟨hasks, hmembers⟩

/-- What Redis is handed is the command, and it is issued when Redis takes it. -/
theorem issueStopAll_newStop (sg : Signing) (r : StopAllRun) {args : StopAllArgs}
    (h : Stated args) :
    ((issueStopAll sg r.call (newStop r args)).1.isSome = true ↔
      StopArgsFit args r.now ∧ r.saved ≠ none ∧ r.published = true) ∧
    ∀ x ∈ (issueStopAll sg r.call (newStop r args)).2,
      ∃ cmd, AsksFor r args cmd ∧ ReadBack sg cmd x := by
  obtain ⟨hiff, hread⟩ := parse_newStop_iff (r := r) h
  unfold issueStopAll
  cases hparse : parseStopAllCommand (.obj (newStop r args).members) with
  | none =>
      refine ⟨iff_of_false (by simp) fun hall => ?_, by simp⟩
      obtain ⟨cmd, hcmd⟩ := hiff.mp hall.1
      exact absurd (hparse.symm.trans hcmd) (by simp)
  | some cmd =>
      have hfit : StopArgsFit args r.now := hiff.mpr ⟨cmd, hparse⟩
      obtain ⟨hasks, hmembers⟩ := hread cmd hparse
      have hsave : ReadBack sg cmd (.save (NumberText.numberText
          (Decimal.ofInt (newStop r args).issuedAt)) (sealStopCommand sg cmd)) :=
        ⟨by rw [hasks.issuedAt]; rfl, openSavedStopCommand_seal cmd⟩
      have hpublish : ReadBack sg cmd (.publish controlChannel
          (wrapSigned sg r.signedAt (.obj (newStop r args).members))) := by
        refine ⟨rfl, ?_⟩
        rw [← hmembers]
        exact commandOfMessage_published r.signedAt cmd
      have hsaved : r.call.saved = r.saved := rfl
      have hpublished : r.call.published = r.published := rfl
      dsimp only
      cases hs : r.saved with
      | none =>
          rw [hsaved, hs]
          refine ⟨by simp, fun x hx => ⟨cmd, hasks, ?_⟩⟩
          rw [List.mem_singleton.mp hx]
          exact hsave
      | some saved =>
          rw [hsaved, hs, hpublished]
          dsimp only
          have hboth : ∀ x ∈ [RedisCall.save (NumberText.numberText
              (Decimal.ofInt (newStop r args).issuedAt)) (sealStopCommand sg cmd),
              .publish controlChannel (wrapSigned sg r.call.signedAt
                (.obj (newStop r args).members))], ReadBack sg cmd x := by
            intro x hx
            rcases List.mem_cons.mp hx with rfl | hx
            · exact hsave
            · rw [List.mem_singleton.mp hx]
              exact hpublish
          split
          · next hyes => exact ⟨by simp [hfit, hyes], fun x hx => ⟨cmd, hasks, hboth x hx⟩⟩
          · next hno => exact ⟨by simp [hno], fun x hx => ⟨cmd, hasks, hboth x hx⟩⟩

/-- **The command line has a grammar, and the command exits with zero exactly when it was asked for
its usage or Redis took the stop it was asked for; what it hands to Redis is that stop to every
node with the secret.** -/
theorem stop_all_issued (sg : Signing) (r : StopAllRun) :
    (∀ args, parseStopAllArgs r.user r.argv = .ok args ↔ ∃ settings, Spells r.argv settings ∧
      args = settings.foldl StopAllArgs.apply ⟨defaultIssuer r.user, none, false⟩) ∧
    ((runStopAll sg r).code = 0 ↔ ∃ args, parseStopAllArgs r.user r.argv = .ok args ∧
      (args.help = true ∨ StopArgsFit args r.now ∧ r.saved ≠ none ∧ r.published = true)) ∧
    ∀ x ∈ (runStopAll sg r).sent, ∃ args cmd, parseStopAllArgs r.user r.argv = .ok args ∧
      args.help = false ∧ AsksFor r args cmd ∧ ReadBack sg cmd x := by
  refine ⟨fun args => parseStopAllArgs_iff, ?_⟩
  unfold runStopAll
  cases hparse : parseStopAllArgs r.user r.argv with
  | error message => exact ⟨iff_of_false (by simp) (by simp), by simp⟩
  | ok args =>
      obtain ⟨settings, hspells, hargs⟩ := parseStopAllArgs_iff.mp hparse
      have hstated : Stated args := hargs ▸ hspells.stated (stated_default r.user)
      obtain ⟨hissued, hread⟩ := issueStopAll_newStop sg r hstated
      cases hhelp : args.help with
      | true =>
          dsimp only
          rw [if_pos hhelp]
          exact ⟨iff_of_true rfl ⟨args, rfl, .inl hhelp⟩, by simp⟩
      | false =>
          dsimp only
          rw [if_neg (by simp [hhelp])]
          have hsame : createStopAllCommand r.commandId args.issuer args.reason r.now
              = newStop r args := rfl
          rw [hsame]
          have hone : (∃ a, (.ok args : Except JsString StopAllArgs) = .ok a ∧ (a.help = true ∨
              StopArgsFit a r.now ∧ r.saved ≠ none ∧ r.published = true)) ↔
              StopArgsFit args r.now ∧ r.saved ≠ none ∧ r.published = true := by
            constructor
            · rintro ⟨a, ha, hor⟩
              obtain rfl := Except.ok.inj ha
              exact hor.resolve_left (by simp [hhelp])
            · intro hall
              exact ⟨args, rfl, .inr hall⟩
          rw [hone, ← hissued]
          rcases hresult : issueStopAll sg r.call (newStop r args) with ⟨saved, sent⟩
          rw [hresult] at hread
          cases saved with
          | none =>
              refine ⟨by simp, fun x hx => ?_⟩
              obtain ⟨cmd, hcmd⟩ := hread x hx
              exact ⟨args, cmd, rfl, hhelp, hcmd⟩
          | some saved =>
              refine ⟨by simp, fun x hx => ?_⟩
              obtain ⟨cmd, hcmd⟩ := hread x hx
              exact ⟨args, cmd, rfl, hhelp, hcmd⟩

example : parseStopAllArgs none (["--by=a=b", "--reason", "--help", "--by", "oncall"].map js)
    = .ok ⟨js "oncall", some (js "--help"), false⟩ := by decide +kernel

end Kaiban
