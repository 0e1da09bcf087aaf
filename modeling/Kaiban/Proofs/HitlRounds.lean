/-
A decision of the board is used once, if no copy of a used one is left when a wait begins.

Both paths hand the wait the same message, and the faster one ends the wait; the other copy
stays in the list, or is still to be published.  While a wait is open, `Spent` says of each
decision used before that nothing of it can reach the wait.  Only the beginning of a wait
can break it, which is what `Clean` excludes.
-/
import Kaiban.HitlRounds
import Kaiban.Proofs.Hitl
import Kaiban.Proofs.Control.Saved

open JsString

namespace Kaiban

variable {ρ : Type} {sg : Signing}

/-! ### The message of a decision -/

/-- What verifies at some time verifies whatever its age. -/
theorem unwrapVerified_ageless {fresh : Freshness} {raw : JsString} {payload : Json}
    (h : unwrapVerified sg fresh raw = some payload) :
    unwrapVerified sg none raw = some payload := by
  unfold unwrapVerified at h ⊢
  by_cases hsecret : sg.secret = []
  · rw [if_pos hsecret] at h ⊢
    exact h
  · rw [if_neg hsecret] at h ⊢
    split at h
    · rename_i v sig ts hread
      split at h
      · exact absurd h (by simp)
      · rw [if_neg (by simp [stale])]
        exact h
    · exact absurd h (by simp)

/-- The message of a decision says no task but its own. -/
theorem says_msg {fresh : Freshness} {taskId word : JsString} {f : HitlForward}
    (h : Says sg fresh taskId word (f.msg sg)) : f.taskId = taskId := by
  obtain ⟨ms, hms, htask, -⟩ := h
  have hread := unwrapVerified_ageless hms
  unfold HitlForward.msg at hread
  rw [unwrapVerified_wrapSigned rfl rfl] at hread
  obtain rfl := Json.obj.inj (Option.some.inj hread)
  exact Option.some.inj htask

namespace HitlRounds

variable {s s' : HitlRounds ρ}

/-! ### What a hand-over does -/

/-- The message resolves the wait. -/
theorem handed_cases {i : ℕ} {event : JsString → HitlEvent ρ}
    (hboard : ∀ raw settlement taskId, HitlWait.Causes sg taskId settlement (event raw) →
      ∃ fresh word, Says sg fresh taskId word raw)
    (h : handed sg s i event = some s') :
    ∃ w w' f, s.wait = some w ∧ s.forwards[i]? = some f ∧ w'.taskId = w.taskId ∧
      (w.resolved = true → w'.resolved = true) ∧
      ((s' = { s with wait := some w' }) ∨
        (w.resolved = false ∧ w'.resolved = true ∧ f.taskId = w.taskId ∧
          s' = { s with wait := some w', uses := s.uses ++ [(s.rounds, i)] })) := by
  unfold handed at h
  split at h
  · rename_i w f hw hf
    obtain ⟨w', hstep, rfl⟩ := Option.map_eq_some_iff.mp h
    have hkept := HitlWait.step_kept hstep
    refine ⟨w, w', f, hw, hf, hkept.taskId, fun hr => (hkept.settled hr).1, ?_⟩
    cases (HitlWait.stepped hstep).move with
    | rests hr hs hq =>
        refine .inl ?_
        rw [hr]
        simp
    | asks ho hwaits hr hs hq =>
        refine .inl ?_
        rw [hr]
        simp
    | settles settlement hwaits hcause hr hs hq =>
        obtain ⟨fresh, word, hsays⟩ := hboard _ _ _ hcause
        refine .inr ⟨hwaits, hr, says_msg hsays, ?_⟩
        rw [hwaits, hr]
        rfl
  · exact absurd h (by simp)

/-! ### Used decisions -/

/-- Nothing of a decision can reach a wait for the task. -/
structure Spent (s : HitlRounds ρ) (taskId : JsString) (i : ℕ) (f : HitlForward) : Prop where
  published : f.stage = .ended
  list : i ∉ s.lists taskId
  inbox : i ∉ s.inbox
  reply : s.reply ≠ some i

/-- A wait begins when the list of its task has no copy of a decision that ended a wait for
the task before, and none of these is still to be published. -/
def Clean (s : HitlRounds ρ) : HitlRoundsEvent ρ → Prop
  | .begins opts => ∀ u ∈ s.uses, ∀ f ∈ s.forwards[u.2]?, f.taskId = opts.taskId →
      f.stage = .ended ∧ u.2 ∉ s.lists opts.taskId
  | _ => True

instance decidableClean (s : HitlRounds ρ) : ∀ e, Decidable (Clean s e)
  | .begins opts => inferInstanceAs (Decidable (∀ u ∈ s.uses, ∀ f ∈ s.forwards[u.2]?,
      f.taskId = opts.taskId → f.stage = .ended ∧ u.2 ∉ s.lists opts.taskId))
  | .forward .. => .isTrue trivial
  | .command _ => .isTrue trivial
  | .fails _ => .isTrue trivial
  | .forgotten .. => .isTrue trivial
  | .subscribed => .isTrue trivial
  | .brpop => .isTrue trivial
  | .message _ => .isTrue trivial
  | .popped _ => .isTrue trivial
  | .waits _ => .isTrue trivial

/-- Used decisions of the task of the open wait are spent. -/
def AllSpent (s : HitlRounds ρ) (taskId : JsString) : Prop :=
  ∀ u ∈ s.uses, ∀ f, s.forwards[u.2]? = some f → f.taskId = taskId → Spent s taskId u.2 f

/-- Each decision was used once, and while a wait is open no used one can reach it. -/
structure Tidy (s : HitlRounds ρ) : Prop where
  once : (s.uses.map Prod.snd).Nodup
  submitted : ∀ u ∈ s.uses, u.2 < s.forwards.length
  spent : ∀ w, s.wait = some w → w.resolved = false → AllSpent s w.taskId

theorem init_tidy : (init ρ).Tidy := ⟨by simp [init], by simp [init], by simp [init]⟩

/-- A step that neither uses a decision nor changes the wait. -/
theorem Tidy.of_same (hs : s.Tidy) (hwait : s'.wait = s.wait) (huses : s'.uses = s.uses)
    (hlength : s.forwards.length ≤ s'.forwards.length)
    (hspent : ∀ taskId, AllSpent s taskId → AllSpent s' taskId) : s'.Tidy := by
  refine ⟨by rw [huses]; exact hs.once, ?_, ?_⟩
  · rw [huses]
    exact fun u hu => Nat.lt_of_lt_of_le (hs.submitted u hu) hlength
  · rw [hwait]
    exact fun w hw hopen => hspent w.taskId (hs.spent w hw hopen)

/-- A call that goes on keeps its task. -/
theorem setStage_get {i j : ℕ} {stage : ForwardStage} {f' : HitlForward}
    (h : (s.setStage i stage).forwards[j]? = some f') :
    ∃ f, s.forwards[j]? = some f ∧ f.taskId = f'.taskId ∧
      (f'.stage = f.stage ∨ (j = i ∧ f'.stage = stage)) := by
  unfold setStage at h
  dsimp only at h
  rw [List.getElem?_modify] at h
  obtain ⟨f, hf, hmap⟩ := Option.map_eq_some_iff.mp h
  refine ⟨f, hf, ?_⟩
  by_cases hij : i = j
  · rw [if_pos hij] at hmap
    obtain rfl := hmap
    exact ⟨rfl, .inr ⟨hij.symm, rfl⟩⟩
  · rw [if_neg hij] at hmap
    obtain rfl := hmap
    exact ⟨rfl, .inl rfl⟩

theorem setStage_length (s : HitlRounds ρ) (i : ℕ) (stage : ForwardStage) :
    (s.setStage i stage).forwards.length = s.forwards.length := by simp [setStage]

/-! ### Steps -/

theorem forward_tidy (hs : s.Tidy) (taskId decision : JsString) (signedAt : ℕ) :
    Tidy { s with forwards := s.forwards ++ [⟨taskId, decision, signedAt, .push⟩] } := by
  refine hs.of_same rfl rfl (by simp) fun T hT u hu f hf ht => ?_
  dsimp only at hf
  rw [List.getElem?_append_left (hs.submitted u hu)] at hf
  have hspent := hT u hu f hf ht
  exact ⟨hspent.published, hspent.list, hspent.inbox, hspent.reply⟩

/-- A call goes on to a stage: no other decision is pushed or published. -/
theorem Tidy.goes_on (hs : s.Tidy) {i : ℕ} {f : HitlForward} {stage : ForwardStage}
    (hf : s.forwards[i]? = some f)
    (hstage : f.stage ≠ .ended ∨ stage = .ended ∧ s'.inbox = s.inbox ∧ s'.lists = s.lists)
    (hforwards : s'.forwards = (s.setStage i stage).forwards) (hwait : s'.wait = s.wait)
    (huses : s'.uses = s.uses) (hreply : s'.reply = s.reply)
    (hlists : ∀ j T, j ≠ i → j ∈ s'.lists T → j ∈ s.lists T)
    (hinbox : ∀ j, j ≠ i → j ∈ s'.inbox → j ∈ s.inbox) : s'.Tidy := by
  have hlength : s.forwards.length ≤ s'.forwards.length := by
    rw [hforwards, setStage_length]
  refine hs.of_same hwait huses hlength fun T hT u hu g' hg' ht => ?_
  rw [huses] at hu
  rw [hforwards] at hg'
  obtain ⟨g, hg, htask, hnext⟩ := setStage_get hg'
  have hspent := hT u hu g hg (htask.trans ht)
  rcases hstage with hopen | ⟨hended, hsameInbox, hsameLists⟩
  · have hother : u.2 ≠ i := by
      rintro heq
      rw [heq] at hg
      obtain rfl := Option.some.inj (hf.symm.trans hg)
      exact hopen hspent.published
    refine ⟨?_, fun hmem => hspent.list (hlists _ _ hother hmem),
      fun hmem => hspent.inbox (hinbox _ hother hmem), hreply ▸ hspent.reply⟩
    rcases hnext with hsame | ⟨heq, -⟩
    · exact hsame.trans hspent.published
    · exact absurd heq hother
  · refine ⟨?_, hsameLists ▸ hspent.list, hsameInbox ▸ hspent.inbox, hreply ▸ hspent.reply⟩
    rcases hnext with hsame | ⟨-, hnow⟩
    · exact hsame.trans hspent.published
    · exact hnow.trans hended

theorem command_tidy (hs : s.Tidy) {i : ℕ} {f : HitlForward} (hf : s.forwards[i]? = some f)
    (h : s.command i f = some s') : s'.Tidy := by
  unfold command at h
  split at h
  · rename_i hstage
    obtain rfl := Option.some.inj h
    refine hs.goes_on hf (.inl (by simp [hstage])) rfl rfl rfl rfl (fun j T hj hmem => ?_)
      fun _ _ hmem => hmem
    unfold setList setStage at hmem
    dsimp only at hmem
    split at hmem
    · rename_i hT
      rw [hT]
      exact (List.mem_cons.mp hmem).resolve_left hj
    · exact hmem
  · rename_i hstage
    obtain rfl := Option.some.inj h
    exact hs.goes_on hf (.inl (by simp [hstage])) rfl rfl rfl rfl (fun _ _ _ hmem => hmem)
      fun _ _ hmem => hmem
  · rename_i hstage
    obtain rfl := Option.some.inj h
    refine hs.goes_on hf (.inl (by simp [hstage])) rfl rfl rfl rfl (fun _ _ _ hmem => hmem)
      fun j hj hmem => ?_
    dsimp only at hmem
    split at hmem
    · exact (List.mem_append.mp hmem).resolve_right (by simp [hj])
    · exact hmem
  · exact absurd h (by simp)

theorem fails_tidy (hs : s.Tidy) {i : ℕ} {f : HitlForward} (hf : s.forwards[i]? = some f) :
    (s.setStage i .ended).Tidy :=
  hs.goes_on hf (.inr ⟨rfl, rfl, rfl⟩) rfl rfl rfl rfl (fun _ _ _ hmem => hmem)
    fun _ _ hmem => hmem

theorem forgotten_tidy (hs : s.Tidy) (taskId : JsString) (left : ℕ) :
    (s.setList taskId ((s.lists taskId).take left)).Tidy := by
  refine hs.of_same rfl rfl (Nat.le_refl _) fun T hT u hu f hf ht => ?_
  have hspent := hT u hu f hf ht
  refine ⟨hspent.published, fun hmem => hspent.list ?_, hspent.inbox, hspent.reply⟩
  unfold setList at hmem
  dsimp only at hmem
  split at hmem
  · rename_i heq
    rw [heq]
    exact List.mem_of_mem_take hmem
  · exact hmem

/-- A wait that begins finds nothing of a used decision. -/
theorem begins_tidy (hs : s.Tidy) (opts : HitlOptions ρ) (hclean : Clean s (.begins opts)) :
    Tidy { s with wait := some (HitlWait.start opts), subscribed := false, inbox := [],
                  reply := none, rounds := s.rounds + 1 } := by
  refine ⟨hs.once, hs.submitted, fun w hw _ u hu f hf ht => ?_⟩
  obtain rfl := Option.some.inj hw
  have htask := ht.trans (HitlWait.start_taskId opts)
  obtain ⟨hpublished, hlist⟩ := hclean u hu f hf htask
  exact ⟨hpublished, (HitlWait.start_taskId opts).symm ▸ hlist, by simp, by simp⟩

/-- What is popped is taken from the list. -/
theorem brpop_tidy (hs : s.Tidy) {w : HitlWait ρ} {i : ℕ} (hw : s.wait = some w)
    (hlast : (s.lists w.taskId).getLast? = some i) :
    Tidy { s.setList w.taskId (s.lists w.taskId).dropLast with reply := some i } := by
  refine ⟨hs.once, hs.submitted, fun v hv hopen u hu f hf ht => ?_⟩
  obtain rfl := Option.some.inj (hw.symm.trans hv)
  have hspent := hs.spent w hw hopen u hu f hf ht
  refine ⟨hspent.published, fun hmem => hspent.list ?_, hspent.inbox, ?_⟩
  · unfold setList at hmem
    dsimp only at hmem
    rw [if_pos rfl] at hmem
    exact List.mem_of_mem_dropLast hmem
  · intro hreply
    obtain rfl := Option.some.inj hreply
    exact hspent.list (List.mem_of_getLast? hlast)

/-- A decision whose message resolves the open wait had not been used. -/
theorem handed_tidy (hs : s.Tidy) {i : ℕ} {event : JsString → HitlEvent ρ}
    (hboard : ∀ raw settlement taskId, HitlWait.Causes sg taskId settlement (event raw) →
      ∃ fresh word, Says sg fresh taskId word raw)
    (hunused : ∀ w f, s.wait = some w → w.resolved = false → s.forwards[i]? = some f →
      f.taskId = w.taskId → ∀ u ∈ s.uses, u.2 ≠ i)
    (h : handed sg s i event = some s') : s'.Tidy := by
  obtain ⟨w, w', f, hw, hf, htask, hstays, hwhat⟩ := handed_cases hboard h
  rcases hwhat with rfl | ⟨hwaits, hresolved, hown, rfl⟩
  · refine ⟨hs.once, hs.submitted, fun v hv hopen u hu g hg ht => ?_⟩
    obtain rfl := Option.some.inj hv
    have hwas : w.resolved = false := by
      by_contra hdone
      exact absurd (hstays (by simpa using hdone)) (by simp [hopen])
    have hspent := hs.spent w hw hwas u hu g hg (ht.trans htask)
    exact ⟨hspent.published, htask ▸ hspent.list, hspent.inbox, hspent.reply⟩
  · have hnew := hunused w f hw hwaits hf hown
    refine ⟨?_, fun u hu => ?_, fun v hv hopen => ?_⟩
    · rw [List.map_append, List.map_singleton]
      refine List.nodup_append.mpr ⟨hs.once, List.nodup_singleton i, ?_⟩
      intro j hj k hk
      obtain ⟨u, hu, rfl⟩ := List.mem_map.mp hj
      rw [List.mem_singleton.mp hk]
      exact hnew u hu
    · rcases List.mem_append.mp hu with hu | hu
      · exact hs.submitted u hu
      · rw [List.mem_singleton.mp hu]
        exact (List.getElem?_eq_some_iff.mp hf).1
    · obtain rfl := Option.some.inj hv
      exact absurd hresolved (by simp [hopen])

/-- What the two paths carry is a message of the board. -/
theorem says_of_message {raw taskId : JsString} {now : ℕ} {settlement : HitlSettlement ρ}
    (h : HitlWait.Causes sg taskId settlement (.message raw now)) :
    ∃ fresh word, Says sg fresh taskId word raw := by
  cases settlement with
  | resolves a =>
      obtain ⟨word, hsays, -⟩ := handleBoardMessage_eq_some.mp h
      exact ⟨_, word, hsays⟩
  | rejects reason => exact h.elim

theorem says_of_popped {raw taskId : JsString} {now : ℕ} {settlement : HitlSettlement ρ}
    (h : HitlWait.Causes sg taskId settlement (.popped raw now)) :
    ∃ fresh word, Says sg fresh taskId word raw := by
  cases settlement with
  | resolves a =>
      obtain ⟨word, hsays, -⟩ := handleBoardMessage_eq_some.mp h
      exact ⟨_, word, hsays⟩
  | rejects reason => exact h.elim

theorem message_tidy (hs : s.Tidy) {i now : ℕ} {rest : List ℕ} (hinbox : s.inbox = i :: rest)
    (h : handed sg { s with inbox := rest } i (fun raw => .message raw now) = some s') :
    s'.Tidy := by
  have hrest : Tidy { s with inbox := rest } := by
    refine hs.of_same rfl rfl (Nat.le_refl _) fun T hT u hu f hf ht => ?_
    have hspent := hT u hu f hf ht
    refine ⟨hspent.published, hspent.list, fun hmem => hspent.inbox ?_, hspent.reply⟩
    rw [hinbox]
    exact List.mem_cons_of_mem i hmem
  refine handed_tidy hrest (fun _ _ _ => says_of_message) ?_ h
  rintro w f hw hwaits hf hown u hu rfl
  refine (hs.spent w hw hwaits u hu f hf hown).inbox ?_
  rw [hinbox]
  exact List.mem_cons_self

theorem popped_tidy (hs : s.Tidy) {i now : ℕ} (hreply : s.reply = some i)
    (h : handed sg { s with reply := none } i (fun raw => .popped raw now) = some s') :
    s'.Tidy := by
  have hrest : Tidy { s with reply := none } := by
    refine hs.of_same rfl rfl (Nat.le_refl _) fun T hT u hu f hf ht => ?_
    have hspent := hT u hu f hf ht
    exact ⟨hspent.published, hspent.list, hspent.inbox, by simp⟩
  refine handed_tidy hrest (fun _ _ _ => says_of_popped) ?_ h
  rintro w f hw hwaits hf hown u hu rfl
  exact (hs.spent w hw hwaits u hu f hf hown).reply hreply

/-- What happens to the wait otherwise leaves the task and does not open it again. -/
theorem waits_tidy (hs : s.Tidy) {w w' : HitlWait ρ} {e : HitlEvent ρ} (hw : s.wait = some w)
    (h : w.step sg e = some w') : Tidy { s with wait := some w' } := by
  have hkept := HitlWait.step_kept h
  refine ⟨hs.once, hs.submitted, fun v hv hopen u hu f hf ht => ?_⟩
  obtain rfl := Option.some.inj hv
  have hwas : w.resolved = false := by
    by_contra hdone
    exact absurd (hkept.settled (by simpa using hdone)).1 (by simp [hopen])
  have hspent := hs.spent w hw hwas u hu f hf (ht.trans hkept.taskId)
  exact ⟨hspent.published, hkept.taskId ▸ hspent.list, hspent.inbox, hspent.reply⟩

theorem step_tidy {e : HitlRoundsEvent ρ} (hs : s.Tidy) (hclean : Clean s e)
    (h : step sg s e = some s') : s'.Tidy := by
  unfold step at h
  cases e with
  | forward taskId decision signedAt =>
      obtain rfl := Option.some.inj h
      exact forward_tidy hs taskId decision signedAt
  | command i =>
      dsimp only at h
      split at h
      · exact absurd h (by simp)
      · rename_i f hf
        exact command_tidy hs hf h
  | fails i =>
      dsimp only at h
      split at h
      · exact absurd h (by simp)
      · rename_i f hf
        obtain rfl := Option.some.inj h
        exact fails_tidy hs hf
  | forgotten taskId left =>
      obtain rfl := Option.some.inj h
      exact forgotten_tidy hs taskId left
  | begins opts =>
      dsimp only at h
      split at h
      · obtain rfl := Option.some.inj h
        exact begins_tidy hs opts hclean
      · exact absurd h (by simp)
  | subscribed =>
      obtain rfl := Option.some.inj h
      refine hs.of_same rfl rfl (Nat.le_refl _) fun T hT u hu f hf ht => ?_
      have hspent := hT u hu f hf ht
      exact ⟨hspent.published, hspent.list, hspent.inbox, hspent.reply⟩
  | brpop =>
      dsimp only at h
      split at h
      · rename_i w hw hreply
        split at h
        · split at h
          · exact absurd h (by simp)
          · rename_i i hlast
            obtain rfl := Option.some.inj h
            exact brpop_tidy hs hw hlast
        · exact absurd h (by simp)
      · exact absurd h (by simp)
  | message now =>
      dsimp only at h
      split at h
      · exact absurd h (by simp)
      · rename_i i rest hinbox
        exact message_tidy hs hinbox h
  | popped now =>
      dsimp only at h
      split at h
      · exact absurd h (by simp)
      · rename_i i hreply
        exact popped_tidy hs hreply h
  | waits e =>
      dsimp only at h
      split at h
      · exact absurd h (by simp)
      · split at h
        · exact absurd h (by simp)
        · rename_i w hw
          obtain ⟨w', hstep, rfl⟩ := Option.map_eq_some_iff.mp h
          exact waits_tidy hs hw hstep

/-! ### Used once -/

/-- **Each decision resolves one wait at most**, in a run whose waits begin with nothing left
of the decisions used before. -/
theorem decision_used_once {es : List (HitlRoundsEvent ρ)} {t : HitlRounds ρ}
    (hclean : Steps.Along (step sg) Clean (init ρ) es)
    (hrun : Steps.run (step sg) (init ρ) es = some t) : (t.uses.map Prod.snd).Nodup :=
  (Steps.run_invariant (fun _ _ _ => step_tidy) init_tidy hclean hrun).once

/-- A poll fails, and the board decides while the loop pauses: the message ends the wait. -/
def firstRound : List (HitlRoundsEvent ℕ) :=
  [.begins HitlWait.boardOnly, .subscribed, .waits .brpopFailed,
    .forward (js "t") (js "PUBLISH") 0, .command 0, .command 0, .command 0, .message 0]

/-- The second round begins and polls the list. -/
def secondRound : List (HitlRoundsEvent ℕ) :=
  [.begins HitlWait.boardOnly, .brpop, .popped 0]

theorem decision_used_once_expired :
    ((Steps.run (step HitlWait.unsignedChannel) (init ℕ)
        (firstRound ++ [.forgotten (js "t") 0, .begins HitlWait.boardOnly])).map uses
      = some [(1, 0)]) ∧
    ∀ t, Steps.run (step HitlWait.unsignedChannel) (init ℕ)
        (firstRound ++ [.forgotten (js "t") 0, .begins HitlWait.boardOnly]) = some t →
      (t.uses.map Prod.snd).Nodup :=
  ⟨by decide +kernel, fun _ => decision_used_once (by decide +kernel)⟩

theorem leftover_used_again :
    ¬ ∀ (sg : Signing) (es : List (HitlRoundsEvent ℕ)) (t : HitlRounds ℕ),
      Steps.run (step sg) (init ℕ) es = some t → (t.uses.map Prod.snd).Nodup := by
  intro h
  have huses : (Steps.run (step HitlWait.unsignedChannel) (init ℕ)
      (firstRound ++ secondRound)).map uses = some [(1, 0), (2, 0)] := by decide +kernel
  obtain ⟨t, hrun, ht⟩ := Option.map_eq_some_iff.mp huses
  have hnodup := h HitlWait.unsignedChannel _ t hrun
  rw [ht] at hnodup
  exact absurd hnodup (by decide)

end HitlRounds

end Kaiban
