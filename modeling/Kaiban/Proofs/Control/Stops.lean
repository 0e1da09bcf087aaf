/-
No stop is missed.

The saved value is always the latest of the commands that were saved, as long as Redis's
Lua can read the texts of each.  A command is `Covered` while the node still has to get it
or one at least as late: it was delivered, a message brings it, a read is still to come or
brings it, or the start has not read yet.  Every step keeps a command covered, so all that
matters is that it is covered when it is published.  During a start this is so because the
read comes after SUBSCRIBE.  On a reconnect it need not be.
-/
import Kaiban.Proofs.Actor.EmergencyStop
import Kaiban.Proofs.Control.Saved
import Kaiban.Proofs.Control.Transitions

open JsString

namespace Kaiban

variable {sg : Signing} {lua : Lua} {cfg : ActorConfig}

/-- The texts of a command have no lone surrogates. -/
structure StopAllCommand.UnicodeTexts (cmd : StopAllCommand) : Prop where
  commandId : Unicode cmd.commandId
  issuedBy : Unicode cmd.issuedBy
  reason : ∀ r ∈ cmd.reason, Unicode r

/-! ### The script and a sealed command -/

theorem unicode_of_small {s : JsString} (h : ∀ u ∈ s, u.val < 0xD800) : Unicode s := by
  induction s with
  | nil =>
      intro c hc
      exact absurd hc (by simp [codePoints])
  | cons u rest ih =>
      have hu : u.val < 0xD800 := h u (by simp)
      have hhigh : isHigh u = false := by simp [isHigh]; omega
      intro c hc
      rw [codePoints_cons hhigh] at hc
      rcases List.mem_cons.mp hc with rfl | hrest
      · simp [isSurrogate]
        omega
      · exact ih (fun v hv => h v (by simp [hv])) c hrest

theorem hexText_small (bs : List Byte) : ∀ u ∈ hexText bs, u.val < 0xD800 := by
  have hunit : ∀ d < 16, (Json.hexUnit d).val < 0xD800 := by decide
  intro u hu
  obtain ⟨b, -, hb⟩ := List.mem_flatMap.mp hu
  simp only [List.mem_cons, List.not_mem_nil, or_false] at hb
  rcases hb with rfl | rfl
  · exact hunit _ (by omega)
  · exact hunit _ (by omega)

theorem plain_members {cmd : StopAllCommand} (h : cmd.UnicodeTexts) :
    ∀ m ∈ cmd.members, Unicode m.1 ∧ Plain m.2 := by
  have hmoment : Plain (.num (JsNumber.ofInt cmd.issuedAt)) :=
    ⟨cmd.issuedAt, cmd.issuedAt_safe.2, rfl⟩
  intro m hm
  unfold StopAllCommand.members at hm
  rcases List.mem_append.mp hm with hfixed | hreason
  · simp only [List.mem_cons, List.not_mem_nil, or_false] at hfixed
    rcases hfixed with rfl | rfl | rfl | rfl
    · exact ⟨unicode_of_small (js_small rfl), h.commandId⟩
    · exact ⟨unicode_of_small (js_small rfl),
        unicode_of_small (js_small rfl)⟩
    · exact ⟨unicode_of_small (js_small rfl), h.issuedBy⟩
    · exact ⟨unicode_of_small (js_small rfl), hmoment⟩
  · cases hr : cmd.reason with
    | none =>
        rw [hr] at hreason
        exact absurd hreason (by simp)
    | some r =>
        rw [hr] at hreason
        obtain rfl : m = (js "reason", .str r) := by simpa using hreason
        exact ⟨unicode_of_small (js_small rfl), h.reason r hr⟩

/-- **The script reads the moment of a sealed command.** -/
theorem savedMoment_seal {cmd : StopAllCommand} (h : cmd.UnicodeTexts) :
    savedMoment lua (sealStopCommand sg cmd) = some (JsNumber.ofInt cmd.issuedAt) := by
  have hplain : ∀ m ∈ sealedMembers sg cmd, Unicode m.1 ∧ Plain m.2 := by
    intro m hm
    unfold sealedMembers at hm
    rcases List.mem_append.mp hm with hmem | hsig
    · exact plain_members h m hmem
    · obtain rfl := List.mem_singleton.mp hsig
      exact ⟨unicode_of_small (js_small rfl), unicode_of_small (hexText_small _)⟩
  have hmember : Json.get cmd.members (js "issuedAt")
      = some (.num (JsNumber.ofInt cmd.issuedAt)) := by
    unfold StopAllCommand.members
    cases cmd.reason <;> rfl
  have hsealed : Json.get (sealedMembers sg cmd) (js "issuedAt")
      = some (.num (JsNumber.ofInt cmd.issuedAt)) := by
    unfold sealedMembers
    rw [Json.get_append, hmember]
    rfl
  have hread : ∀ ms, (∀ m ∈ ms, Unicode m.1 ∧ Plain m.2) →
      Json.get ms (js "issuedAt") = some (.num (JsNumber.ofInt cmd.issuedAt)) →
      savedMoment lua (Json.stringify (.obj ms)) = some (JsNumber.ofInt cmd.issuedAt) := by
    intro ms hms hget
    obtain ⟨ms', hdecode, hsame⟩ := lua.decode_plain ms hms
    unfold savedMoment
    rw [hdecode]
    dsimp only
    rw [hsame, hget]
  unfold sealStopCommand
  by_cases hsecret : sg.secret = []
  · rw [if_pos hsecret]
    exact hread _ (plain_members h) hmember
  · rw [if_neg hsecret]
    exact hread _ hplain hsealed

/-- What is saved after a command, over a sealed one. -/
theorem savedAfter_seal {c : StopAllCommand} (hc : c.UnicodeTexts) (cmd : StopAllCommand) :
    (c.issuedAt < cmd.issuedAt ∧
      savedAfter sg lua (some (sealStopCommand sg c)) cmd = sealStopCommand sg cmd) ∨
    (cmd.issuedAt ≤ c.issuedAt ∧
      savedAfter sg lua (some (sealStopCommand sg c)) cmd = sealStopCommand sg c) := by
  have hkeeps :
    keeps lua (sealStopCommand sg c) (NumberText.numberText (Decimal.ofInt cmd.issuedAt))
      = atLeast (JsNumber.ofInt c.issuedAt) (JsNumber.ofInt cmd.issuedAt) := by
    unfold keeps
    rw [savedMoment_seal hc, lua.toNumber_numberText _ cmd.issuedAt_safe.2]
  unfold savedAfter saveIfLater
  dsimp only
  rw [hkeeps]
  by_cases hle : cmd.issuedAt ≤ c.issuedAt
  · rw [if_pos (atLeast_ofInt.mpr hle)]
    exact .inr ⟨hle, rfl⟩
  · rw [if_neg fun h => hle (atLeast_ofInt.mp h)]
    exact .inl ⟨not_le.mp hle, rfl⟩

namespace ControlSystem

variable {s s' : ControlSystem}

/-! ### The saved value -/

/-- The saved value is the latest of the commands whose save ran. -/
def Latest (sg : Signing) (saved : Option JsString) (saves : List StopAllCommand) : Prop :=
  (saves = [] ∧ saved = none) ∨
    ∃ c ∈ saves, saved = some (sealStopCommand sg c) ∧ ∀ d ∈ saves, d.issuedAt ≤ c.issuedAt

theorem Latest.save {saved : Option JsString} {saves : List StopAllCommand}
    (h : Latest sg saved saves) (hsaves : ∀ c ∈ saves, c.UnicodeTexts) (cmd : StopAllCommand) :
    Latest sg (some (savedAfter sg lua saved cmd)) (saves ++ [cmd]) := by
  rcases h with ⟨rfl, rfl⟩ | ⟨c, hc, rfl, hmax⟩
  · exact .inr ⟨cmd, by simp, rfl, by simp⟩
  · rcases savedAfter_seal (hsaves c hc) cmd with ⟨hlt, hsaved⟩ | ⟨hle, hsaved⟩ <;> rw [hsaved]
    · refine .inr ⟨cmd, by simp, rfl, fun d hd => ?_⟩
      rcases List.mem_append.mp hd with hold | hnew
      · exact le_of_lt (lt_of_le_of_lt (hmax d hold) hlt)
      · rw [List.mem_singleton.mp hnew]
    · refine .inr ⟨c, by simp [hc], rfl, fun d hd => ?_⟩
      rcases List.mem_append.mp hd with hold | hnew
      · exact hmax d hold
      · rw [List.mem_singleton.mp hnew]
        exact hle

/-- A read of the saved value brings a command at least as late as any that was saved. -/
theorem Latest.read {saved : Option JsString} {saves : List StopAllCommand}
    (h : Latest sg saved saves) {c : StopAllCommand} (hc : c ∈ saves) :
    ∃ d, readLastStop sg saved = some d ∧ c.issuedAt ≤ d.issuedAt := by
  rcases h with ⟨rfl, -⟩ | ⟨d, -, rfl, hmax⟩
  · exact absurd hc (by simp)
  · exact ⟨d, openSavedStopCommand_seal d, hmax c hc⟩

/-! ### The books -/

/-- What holds in every state, when the texts of every saved command are Unicode. -/
structure Books (sg : Signing) (s : ControlSystem) : Prop where
  latest : Latest sg s.saved s.saves
  texts : ∀ c ∈ s.saves, c.UnicodeTexts
  issued : ∀ i issue, s.issues i = some issue → issue.cmd ∈ s.saves
  listed : ∀ c ∈ s.saves, ∃ i issue, s.issues i = some issue ∧ issue.cmd = c
  issuesNew : ∀ i, s.issueCount ≤ i → s.issues i = none
  before : ∀ c ∈ s.savesBefore, c ∈ s.saves
  readsNew : ∀ k, s.readCount ≤ k → s.reads k = none
  reading : ∀ k r, s.reads k = some r → r.forStart = true → s.phase = .reading k

theorem books_init : Books sg init where
  latest := .inl ⟨rfl, rfl⟩
  texts := by simp [init]
  issued := by simp [init]
  listed := by simp [init]
  issuesNew := by simp [init]
  before := by simp [init]
  readsNew := by simp [init]
  reading := by simp [init]

/-- A saved command has texts the script can read. -/
def Legible : ControlEvent → Prop
  | .save cmd => cmd.UnicodeTexts
  | _ => True

theorem Books.deliverAny (h : Books sg s) (cmd : Option StopAllCommand) :
    Books sg (s.deliverAny cmd) := by
  obtain ⟨actor, delivered, hs⟩ := s.deliverAny_frame cmd
  rw [hs]
  exact ⟨h.latest, h.texts, h.issued, h.listed, h.issuesNew, h.before, h.readsNew, h.reading⟩

/-- A change of one read keeps the books, when it is no other read of a start. -/
theorem Books.setRead (h : Books sg s) {k : ℕ} {old : SavedRead} (hk : s.reads k = some old)
    {r : Option SavedRead} (hr : ∀ x, r = some x → x.forStart = old.forStart) :
    Books sg (s.setRead k r) where
  latest := h.latest
  texts := h.texts
  issued := h.issued
  listed := h.listed
  issuesNew := h.issuesNew
  before := h.before
  readsNew x hx := by
    have hne : x ≠ k := by
      intro hxk
      rw [hxk] at hx
      rw [h.readsNew k hx] at hk
      exact absurd hk (by simp)
    show (if x = k then r else s.reads x) = none
    rw [if_neg hne]
    exact h.readsNew x hx
  reading x y hy hstart := by
    have hy' : (if x = k then r else s.reads x) = some y := hy
    by_cases hxk : x = k
    · rw [if_pos hxk] at hy'
      rw [hr y hy'] at hstart
      rw [hxk]
      exact h.reading k old hk hstart
    · rw [if_neg hxk] at hy'
      exact h.reading x y hy' hstart

/-- The books do not depend on the phase when no read belongs to a start. -/
theorem Books.setPhase (h : Books sg s) (phase : NodePhase)
    (hnone : ∀ k r, s.reads k = some r → r.forStart = false) :
    Books sg { s with phase := phase } where
  latest := h.latest
  texts := h.texts
  issued := h.issued
  listed := h.listed
  issuesNew := h.issuesNew
  before := h.before
  readsNew := h.readsNew
  reading k r hk hstart := by
    rw [hnone k r hk] at hstart
    exact absurd hstart (by simp)

theorem Books.noStart (h : Books sg s) (hp : ∀ k, s.phase ≠ .reading k) :
    ∀ k r, s.reads k = some r → r.forStart = false := by
  intro k r hk
  cases hstart : r.forStart with
  | false => rfl
  | true => exact absurd (h.reading k r hk hstart) (hp k)

/-- Once the read of a start is gone, no read belongs to a start. -/
theorem Books.noStart_erase (h : Books sg s) {k : ℕ} {r : SavedRead} (hk : s.reads k = some r)
    (hr : r.forStart = true) : ∀ x y, (s.setRead k none).reads x = some y → y.forStart = false := by
  intro x y hy
  have hy' : (if x = k then none else s.reads x) = some y := hy
  by_cases hxk : x = k
  · rw [if_pos hxk] at hy'
    exact absurd hy' (by simp)
  · rw [if_neg hxk] at hy'
    cases hstart : y.forStart with
    | false => rfl
    | true =>
        have hx := h.reading x y hy' hstart
        rw [h.reading k r hk hr] at hx
        exact absurd (NodePhase.reading.inj hx).symm hxk

theorem Books.newRead (h : Books sg s) {forStart : Bool}
    (hstart : forStart = true → s.phase = .reading s.readCount) :
      Books sg (s.newRead forStart) where
  latest := h.latest
  texts := h.texts
  issued := h.issued
  listed := h.listed
  issuesNew := h.issuesNew
  before := h.before
  readsNew x hx := by
    have hx' : s.readCount + 1 ≤ x := hx
    show (if x = s.readCount then _ else s.reads x) = none
    rw [if_neg (by omega)]
    exact h.readsNew x (by omega)
  reading x y hy hr := by
    have hy' : (if x = s.readCount then some ⟨forStart, .sent⟩ else s.reads x) = some y := hy
    by_cases hx : x = s.readCount
    · rw [if_pos hx] at hy'
      obtain rfl := Option.some.inj hy'
      rw [hx]
      exact hstart hr
    · rw [if_neg hx] at hy'
      exact h.reading x y hy' hr

/-- **Every step keeps the books.** -/
theorem books_step {e : ControlEvent} (h : Books sg s) (he : Legible e)
    (hstep : s.step sg lua cfg e = some s') : Books sg s' := by
  cases moved hstep with
  | saved cmd =>
      refine ⟨h.latest.save h.texts cmd, ?_, ?_, ?_, ?_, ?_, h.readsNew, h.reading⟩
      · intro c hc
        rcases List.mem_append.mp hc with hold | hnew
        · exact h.texts c hold
        · rw [List.mem_singleton.mp hnew]
          exact he
      · intro i issue hi
        have hi' : (if i = s.issueCount then some ⟨cmd, false⟩ else s.issues i) = some issue := hi
        by_cases hnew : i = s.issueCount
        · rw [if_pos hnew] at hi'
          obtain rfl := Option.some.inj hi'
          exact List.mem_append_right _ (by simp)
        · rw [if_neg hnew] at hi'
          exact List.mem_append_left _ (h.issued i issue hi')
      · intro c hc
        rcases List.mem_append.mp hc with hold | hnew
        · obtain ⟨i, issue, hi, hcmd⟩ := h.listed c hold
          refine ⟨i, issue, ?_, hcmd⟩
          have hne : i ≠ s.issueCount := by
            intro heq
            rw [h.issuesNew i (by omega)] at hi
            exact absurd hi (by simp)
          show (if i = s.issueCount then _ else s.issues i) = some issue
          rw [if_neg hne]
          exact hi
        · refine ⟨s.issueCount, ⟨cmd, false⟩, if_pos rfl, (List.mem_singleton.mp hnew).symm⟩
      · intro i hi
        have hi' : s.issueCount + 1 ≤ i := hi
        show (if i = s.issueCount then _ else s.issues i) = none
        rw [if_neg (by omega)]
        exact h.issuesNew i (by omega)
      · intro c hc
        exact List.mem_append_left _ (h.before c hc)
  | published i ts cmd hi =>
      refine ⟨h.latest, h.texts, ?_, ?_, ?_, h.before, h.readsNew, h.reading⟩
      · intro x issue hx
        have hx' : (if x = i then some ⟨cmd, true⟩ else s.issues x) = some issue := hx
        by_cases hxi : x = i
        · rw [if_pos hxi] at hx'
          obtain rfl := Option.some.inj hx'
          exact h.issued i ⟨cmd, false⟩ hi
        · rw [if_neg hxi] at hx'
          exact h.issued x issue hx'
      · intro c hc
        obtain ⟨x, issue, hx, hcmd⟩ := h.listed c hc
        by_cases hxi : x = i
        · subst hxi
          obtain rfl : ⟨cmd, false⟩ = issue := Option.some.inj (hi.symm.trans hx)
          exact ⟨x, ⟨cmd, true⟩, if_pos rfl, hcmd⟩
        · exact ⟨x, issue, (if_neg hxi).trans hx, hcmd⟩
      · intro x hx
        have hne : x ≠ i := by
          intro hxi
          rw [hxi] at hx
          rw [h.issuesNew i hx] at hi
          exact absurd hi (by simp)
        exact (if_neg hne).trans (h.issuesNew x hx)
  | started hp =>
      have hnone := h.noStart (by simp [hp])
      exact ⟨h.latest, h.texts, h.issued, h.listed, h.issuesNew, fun c hc => hc, h.readsNew,
        (h.setPhase .subscribing hnone).reading⟩
  | becameReady hp hc =>
      refine Books.newRead (s := { s with connected := true }) ?_ (by simp)
      exact ⟨h.latest, h.texts, h.issued, h.listed, h.issuesNew, h.before, h.readsNew, h.reading⟩
  | subscribed hc =>
      exact ⟨h.latest, h.texts, h.issued, h.listed, h.issuesNew, h.before, h.readsNew, h.reading⟩
  | confirmed hp hs =>
      have hnone := h.noStart (by simp [hp])
      exact (h.setPhase (.reading s.readCount) hnone).newRead fun _ => rfl
  | startFailed hp => exact h.setPhase .failed (h.noStart (by simp [hp]))
  | redisRead k forStart hk => exact h.setRead hk (by simp)
  | startReadFailed k hk =>
      exact (h.setRead hk (by simp)).setPhase .failed (h.noStart_erase hk rfl)
  | readFailed k hk => exact h.setRead hk (by simp)
  | retried k forStart hk => exact h.setRead hk (by simp)
  | startReadReturned k value hk =>
      refine ((h.setRead hk (by simp)).deliverAny _).setPhase .attached ?_
      obtain ⟨actor, delivered, hs⟩ := (s.setRead k none).deliverAny_frame (readLastStop sg value)
      rw [hs]
      exact h.noStart_erase hk rfl
  | readReturned k value hk => exact (h.setRead hk (by simp)).deliverAny _
  | message raw rest hi =>
      refine Books.deliverAny (s := { s with inbox := rest }) ?_ _
      exact ⟨h.latest, h.texts, h.issued, h.listed, h.issuesNew, h.before, h.readsNew, h.reading⟩
  | dropped =>
      exact ⟨h.latest, h.texts, h.issued, h.listed, h.issuesNew, h.before, h.readsNew, h.reading⟩
  | ran hp => exact h.setPhase .running (h.noStart (by simp [hp]))
  | acted e a hp ha =>
      exact ⟨h.latest, h.texts, h.issued, h.listed, h.issuesNew, h.before, h.readsNew, h.reading⟩

/-! ### Covered commands -/

/-- A read in this phase will deliver a command of the moment `n` or later, once one is
saved. -/
def Brings (sg : Signing) (n : ℕ) : ReadPhase → Prop
  | .sent => True
  | .backoff => True
  | .replied value => ∃ c, readLastStop sg value = some c ∧ n ≤ c.issuedAt

/-- Why a command of the moment `n` need not be missed.  Catch-ups, and a connection that
is down and will catch up, count only with `catchUps`. -/
inductive Cover (sg : Signing) (catchUps : Bool) (delivered : List StopAllCommand)
    (inbox : List JsString) (reads : ℕ → Option SavedRead) (connected : Bool)
    (phase : NodePhase) (n : ℕ) : Prop
  | delivered (c : StopAllCommand) (hc : c ∈ delivered) (hn : n ≤ c.issuedAt)
  | message (raw : JsString) (hraw : raw ∈ inbox) (c : StopAllCommand)
      (hc : commandOfMessage sg raw = some c) (hn : n ≤ c.issuedAt)
  | read (k : ℕ) (r : SavedRead) (hk : reads k = some r)
      (hcounts : catchUps = true ∨ r.forStart = true) (hr : Brings sg n r.phase)
  /-- The read of the start is still to come, or there will be none. -/
  | early (hp : phase = .idle ∨ phase = .subscribing ∨ phase = .failed)
  | down (hcounts : catchUps = true) (hc : connected = false)

def Covered (sg : Signing) (catchUps : Bool) (s : ControlSystem) (n : ℕ) : Prop :=
  Cover sg catchUps s.delivered s.inbox s.reads s.connected s.phase n

variable {all : Bool} {n : ℕ}

/-- What is delivered stays delivered, and what was on its way may be delivered. -/
theorem Covered.deliverAny (h : Covered sg all s n) (cmd : Option StopAllCommand) :
    Covered sg all (s.deliverAny cmd) n := by
  obtain ⟨actor, delivered, hs⟩ := s.deliverAny_frame cmd
  have hlist := s.deliverAny_delivered cmd
  rw [hs] at hlist ⊢
  cases h with
  | delivered c hc hn =>
      refine .delivered c ?_ hn
      rw [hlist]
      exact List.mem_append_left _ hc
  | message raw hraw c hc hn => exact .message raw hraw c hc hn
  | read k r hk hcounts hr => exact .read k r hk hcounts hr
  | early hp => exact .early hp
  | down hcounts hc => exact .down hcounts hc

theorem covered_of_delivered {c : StopAllCommand} {cmd : Option StopAllCommand} (hc : cmd = some c)
    (hn : n ≤ c.issuedAt) : Covered sg all (s.deliverAny cmd) n := by
  refine .delivered c ?_ hn
  rw [deliverAny_delivered, hc]
  exact List.mem_append_right _ (by simp)

/-- A change of one read keeps a command covered, when the new phase brings what the old
one brought. -/
theorem Covered.setRead (h : Covered sg all s n) {k : ℕ} {old new : SavedRead}
    (hk : s.reads k = some old) (hstart : new.forStart = old.forStart)
    (hbrings : Brings sg n old.phase → Brings sg n new.phase) :
    Covered sg all (s.setRead k (some new)) n := by
  cases h with
  | delivered c hc hn => exact .delivered c hc hn
  | message raw hraw c hc hn => exact .message raw hraw c hc hn
  | read x r hx hcounts hr =>
      by_cases hxk : x = k
      · subst hxk
        obtain rfl : old = r := Option.some.inj (hk.symm.trans hx)
        exact .read x new (if_pos rfl) (by rw [hstart]; exact hcounts) (hbrings hr)
      · exact .read x r ((if_neg hxk).trans hx) hcounts hr
  | early hp => exact .early hp
  | down hcounts hc => exact .down hcounts hc

/-- A read that returns delivers what it brings. -/
theorem Covered.readReturned (h : Covered sg all s n) {k : ℕ} {forStart : Bool}
    {value : Option JsString} (hk : s.reads k = some ⟨forStart, .replied value⟩) :
    Covered sg all ((s.setRead k none).deliverAny (readLastStop sg value)) n := by
  have hkeep : Covered sg all (s.setRead k none) n →
      Covered sg all ((s.setRead k none).deliverAny (readLastStop sg value)) n :=
    fun h => h.deliverAny _
  cases h with
  | delivered c hc hn => exact hkeep (.delivered c hc hn)
  | message raw hraw c hc hn => exact hkeep (.message raw hraw c hc hn)
  | read x r hx hcounts hr =>
      by_cases hxk : x = k
      · subst hxk
        obtain rfl : ⟨forStart, .replied value⟩ = r := Option.some.inj (hk.symm.trans hx)
        obtain ⟨c, hc, hn⟩ := hr
        exact covered_of_delivered hc hn
      · exact hkeep (.read x r ((if_neg hxk).trans hx) hcounts hr)
  | early hp => exact hkeep (.early hp)
  | down hcounts hc => exact hkeep (.down hcounts hc)

/-- The phase matters only to a start that has not read yet. -/
theorem Covered.setPhase (h : Covered sg all s n) {phase : NodePhase}
    (hlate : s.phase ≠ .idle ∧ s.phase ≠ .subscribing ∧ s.phase ≠ .failed) :
    Covered sg all { s with phase := phase } n := by
  cases h with
  | delivered c hc hn => exact .delivered c hc hn
  | message raw hraw c hc hn => exact .message raw hraw c hc hn
  | read k r hk hcounts hr => exact .read k r hk hcounts hr
  | early hp =>
      rcases hp with hp | hp | hp
      · exact absurd hp hlate.1
      · exact absurd hp hlate.2.1
      · exact absurd hp hlate.2.2
  | down hcounts hc => exact .down hcounts hc

/-- A message that arrives is delivered. -/
theorem Covered.arrived (h : Covered sg all s n) {raw : JsString} {rest : List JsString}
    (hi : s.inbox = raw :: rest) :
    Covered sg all ({ s with inbox := rest }.deliverAny (commandOfMessage sg raw)) n := by
  have hkeep : Covered sg all { s with inbox := rest } n →
      Covered sg all ({ s with inbox := rest }.deliverAny (commandOfMessage sg raw)) n :=
    fun h => h.deliverAny _
  cases h with
  | delivered c hc hn => exact hkeep (.delivered c hc hn)
  | message x hx c hc hn =>
      rw [hi] at hx
      rcases List.mem_cons.mp hx with rfl | hrest
      · exact covered_of_delivered hc hn
      · exact hkeep (.message x hrest c hc hn)
  | read k r hk hcounts hr => exact hkeep (.read k r hk hcounts hr)
  | early hp => exact hkeep (.early hp)
  | down hcounts hc => exact hkeep (.down hcounts hc)

/-- A connection that is up again catches up. -/
theorem Covered.ready (h : Covered sg all s n) (hb : Books sg s) :
    Covered sg all ({ s with connected := true }.newRead false) n := by
  cases h with
  | delivered c hc hn => exact .delivered c hc hn
  | message raw hraw c hc hn => exact .message raw hraw c hc hn
  | read k r hk hcounts hr =>
      have hne : k ≠ s.readCount := by
        intro heq
        rw [hb.readsNew k (by omega)] at hk
        exact absurd hk (by simp)
      exact .read k r ((if_neg hne).trans hk) hcounts hr
  | early hp => exact .early hp
  | down hcounts hc => exact .read s.readCount ⟨false, .sent⟩ (if_pos rfl) (.inl hcounts) trivial

/-- **A saved command that is covered stays covered.**  A drop counts only where the
catch-up after it does. -/
theorem covered_step {e : ControlEvent} (hb : Books sg s) {c : StopAllCommand} (hc : c ∈ s.saves)
    (h : Covered sg all s c.issuedAt) (he : all = true ∨ e ≠ .drop)
    (hstep : s.step sg lua cfg e = some s') : Covered sg all s' c.issuedAt := by
  cases moved hstep with
  | saved cmd => exact h
  | published i ts cmd hi =>
      cases h with
      | delivered d hd hn => exact .delivered d hd hn
      | message raw hraw d hd hn =>
          refine .message raw ?_ d hd hn
          show raw ∈ if s.subscribed = true then s.inbox ++ [publishedStop sg ts cmd] else s.inbox
          split
          · exact List.mem_append_left _ hraw
          · exact hraw
      | read k r hk hcounts hr => exact .read k r hk hcounts hr
      | early hp => exact .early hp
      | down hcounts hc => exact .down hcounts hc
  | started hp => exact .early (.inr (.inl rfl))
  | becameReady hp hconn => exact h.ready hb
  | subscribed hconn => exact h
  | confirmed hp hs => exact .read s.readCount ⟨true, .sent⟩ (if_pos rfl) (.inr rfl) trivial
  | startFailed hp => exact .early (.inr (.inr rfl))
  | redisRead k forStart hk => exact h.setRead hk rfl fun _ => hb.latest.read hc
  | startReadFailed k hk => exact .early (.inr (.inr rfl))
  | readFailed k hk => exact h.setRead hk rfl fun _ => trivial
  | retried k forStart hk => exact h.setRead hk rfl fun _ => trivial
  | startReadReturned k value hk =>
      refine (h.readReturned hk).setPhase ?_
      obtain ⟨actor, delivered, hs⟩ := (s.setRead k none).deliverAny_frame (readLastStop sg value)
      rw [hs]
      have hphase : s.phase = .reading k := hb.reading k _ hk rfl
      show s.phase ≠ _ ∧ s.phase ≠ _ ∧ s.phase ≠ _
      simp [hphase]
  | readReturned k value hk => exact h.readReturned hk
  | message raw rest hi => exact h.arrived hi
  | dropped =>
      rcases he with hall | hne
      · exact .down hall rfl
      · exact absurd rfl hne
  | ran hp => exact h.setPhase (by simp [hp])
  | acted e a hp ha => exact h

/-! ### The actor -/

/-- No task that was sent at or before one of these stops has run. -/
def RanLater (stops : List StopAllCommand) (a : Actor) : Prop :=
  ∀ d del, a.deliveries d = some del → 0 < a.invocations d →
    ∀ c ∈ stops, ¬ SentBy (Decimal.ofInt c.issuedAt) del.payload

theorem RanLater.step {stops : List StopAllCommand} {a a' : Actor} {e : ActorEvent}
    (h : RanLater stops a)
    (hstops : ∀ c ∈ stops, StoppedSince (Decimal.ofInt c.issuedAt) a.signals)
    (hstep : a.step cfg e = some a') : RanLater stops a' := by
  intro d del hd hinv c hc
  by_cases hmore : a.invocations d < a'.invocations d
  · obtain ⟨del', hd', hsent⟩ := Actor.no_attempt_after (hstops c hc) hstep hmore
    obtain rfl : del = del' := Option.some.inj (hd.symm.trans hd')
    exact hsent
  · have hbefore : 0 < a.invocations d := by omega
    cases hold : a.deliveries d with
    | none =>
        unfold Actor.invocations at hbefore
        rw [hold] at hbefore
        exact absurd hbefore (by simp)
    | some old =>
        obtain ⟨del', hd', hpayload⟩ := Actor.payload_step hstep hold
        obtain rfl : del = del' := Option.some.inj (hd.symm.trans hd')
        rw [hpayload]
        exact h d old hold hbefore c hc

theorem ranLater_of_quiet {stops : List StopAllCommand} {a : Actor}
    (h : ∀ d, a.deliveries d = none) : RanLater stops a := by
  intro d del hd
  rw [h d] at hd
  exact absurd hd (by simp)

/-- An emergency stop applies, or a later one was applied before. -/
theorem stoppedSince_emergencyStop (a : Actor) (t : Decimal) :
    StoppedSince t (a.emergencyStop t).1.signals := by
  by_cases happlied : (a.emergencyStop t).2.applied = true
  · exact Actor.stoppedSince_applied happlied
  · unfold Actor.emergencyStop at happlied ⊢
    split
    · rename_i hany
      cases hat : a.signals.stoppedAt with
      | none =>
          rw [hat] at hany
          exact absurd hany (by simp)
      | some u =>
          rw [hat] at hany
          exact ⟨u, hat, by simpa using hany⟩
    · rename_i hany
      rw [if_neg hany] at happlied
      exact absurd rfl happlied

/-- What holds of the node and its actor in every state. -/
structure Node (sg : Signing) (s : ControlSystem) : Prop where
  stopped : ∀ c ∈ s.delivered, StoppedSince (Decimal.ofInt c.issuedAt) s.actor.signals
  replies : ∀ k value, s.reads k = some ⟨true, .replied value⟩ → ∀ c ∈ s.savesBefore,
    ∃ d, readLastStop sg value = some d ∧ c.issuedAt ≤ d.issuedAt
  attached : s.phase = .attached ∨ s.phase = .running → ∀ c ∈ s.savesBefore,
    ∃ d ∈ s.delivered, c.issuedAt ≤ d.issuedAt
  quiet : s.phase ≠ .running → ∀ d, s.actor.deliveries d = none
  ran : RanLater s.savesBefore s.actor

theorem node_init : Node sg init where
  stopped := by simp [init]
  replies := by simp [init]
  attached := by simp [init]
  quiet := fun _ _ => rfl
  ran := ranLater_of_quiet fun _ => rfl

theorem stoppedSince_mono {t u : Decimal} {sig : Signals} (h : StoppedSince u sig) (htu : t ≤ u) :
    StoppedSince t sig := by
  obtain ⟨v, hv, huv⟩ := h
  exact ⟨v, hv, le_trans htu huv⟩

theorem ofInt_mono {m n : ℕ} (h : m ≤ n) : Decimal.ofInt m ≤ Decimal.ofInt n := by
  show ((Decimal.ofInt m : ℚ) ≤ (Decimal.ofInt n : ℚ))
  rw [Decimal.coe_ofInt, Decimal.coe_ofInt]
  exact_mod_cast h

/-- Once attached, the actor was stopped at every moment that was saved before the start. -/
theorem Node.stoppedBefore (h : Node sg s) (hp : s.phase = .attached ∨ s.phase = .running) :
    ∀ c ∈ s.savesBefore, StoppedSince (Decimal.ofInt c.issuedAt) s.actor.signals := by
  intro c hc
  obtain ⟨d, hd, hle⟩ := h.attached hp c hc
  exact stoppedSince_mono (h.stopped d hd) (ofInt_mono hle)

theorem emergencyStop_quiet {a : Actor} (h : ∀ d, a.deliveries d = none) (t : Decimal) :
    ∀ d, (a.emergencyStop t).1.deliveries d = none := by
  intro d
  unfold Actor.emergencyStop
  split
  · exact h d
  · simp [h d]

/-- A delivery keeps what holds of the node. -/
theorem Node.deliverAny (cfg : ActorConfig) (h : Node sg s) (cmd : Option StopAllCommand) :
    Node sg (s.deliverAny cmd) := by
  cases cmd with
  | none => exact h
  | some cmd =>
      have hstep : s.actor.step cfg (.emergencyStop (Decimal.ofInt cmd.issuedAt))
          = some (s.deliver cmd).actor := rfl
      refine ⟨?_, h.replies, ?_, ?_, ?_⟩
      · intro c hc
        rcases List.mem_append.mp hc with hold | hnew
        · exact Actor.stoppedSince_step (h.stopped c hold) hstep
        · rw [List.mem_singleton.mp hnew]
          exact stoppedSince_emergencyStop _ _
      · intro hp c hc
        obtain ⟨d, hd, hle⟩ := h.attached hp c hc
        exact ⟨d, List.mem_append_left _ hd, hle⟩
      · intro hp
        exact emergencyStop_quiet (h.quiet hp) _
      · by_cases hp : s.phase = .running
        · exact h.ran.step (h.stoppedBefore (.inr hp)) hstep
        · exact ranLater_of_quiet (emergencyStop_quiet (h.quiet hp) _)

/-- A read that is set to no reply leaves the replies of the others. -/
theorem Node.replies_setRead (h : Node sg s) {k : ℕ} {r : Option SavedRead}
    (hr : ∀ value, r ≠ some ⟨true, .replied value⟩) :
    ∀ x value, (s.setRead k r).reads x = some ⟨true, .replied value⟩ → ∀ c ∈ s.savesBefore,
      ∃ d, readLastStop sg value = some d ∧ c.issuedAt ≤ d.issuedAt := by
  intro x value hx
  have hx' : (if x = k then r else s.reads x) = some ⟨true, .replied value⟩ := hx
  by_cases hxk : x = k
  · rw [if_pos hxk] at hx'
    exact absurd hx' (hr value)
  · rw [if_neg hxk] at hx'
    exact h.replies x value hx'

/-- **Every step keeps what holds of the node.** -/
theorem node_step {e : ControlEvent} (hb : Books sg s) (h : Node sg s)
    (hstep : s.step sg lua cfg e = some s') : Node sg s' := by
  cases moved hstep with
  | saved cmd => exact ⟨h.stopped, h.replies, h.attached, h.quiet, h.ran⟩
  | published i ts cmd hi => exact ⟨h.stopped, h.replies, h.attached, h.quiet, h.ran⟩
  | started hp =>
      have hquiet := h.quiet (by simp [hp])
      refine ⟨h.stopped, fun k value hk => ?_, fun hlate => ?_, fun _ => hquiet,
        ranLater_of_quiet hquiet⟩
      · have hphase := hb.reading k _ hk rfl
        rw [hp] at hphase
        exact absurd hphase (by simp)
      · rcases hlate with hlate | hlate <;> exact absurd hlate (by simp)
  | becameReady hp hc =>
      refine ⟨h.stopped, fun k value hk => ?_, h.attached, h.quiet, h.ran⟩
      have hk' : (if k = s.readCount then some ⟨false, .sent⟩ else s.reads k)
          = some ⟨true, .replied value⟩ := hk
      by_cases hnew : k = s.readCount
      · rw [if_pos hnew] at hk'
        exact absurd hk' (by simp)
      · rw [if_neg hnew] at hk'
        exact h.replies k value hk'
  | subscribed hc => exact ⟨h.stopped, h.replies, h.attached, h.quiet, h.ran⟩
  | confirmed hp hs =>
      refine ⟨h.stopped, fun k value hk => ?_, fun hlate => ?_, fun _ => h.quiet (by simp [hp]),
        h.ran⟩
      · have hk' : (if k = s.readCount then some ⟨true, .sent⟩ else s.reads k)
            = some ⟨true, .replied value⟩ := hk
        by_cases hnew : k = s.readCount
        · rw [if_pos hnew] at hk'
          exact absurd hk' (by simp)
        · rw [if_neg hnew] at hk'
          exact h.replies k value hk'
      · rcases hlate with hlate | hlate <;> exact absurd hlate (by simp [newRead])
  | startFailed hp =>
      refine ⟨h.stopped, h.replies, fun hlate => ?_, fun _ => h.quiet (by simp [hp]), h.ran⟩
      rcases hlate with hlate | hlate <;> exact absurd hlate (by simp)
  | redisRead k forStart hk =>
      refine ⟨h.stopped, fun x value hx c hc => ?_, h.attached, h.quiet, h.ran⟩
      have hx' : (if x = k then some ⟨forStart, .replied s.saved⟩ else s.reads x)
          = some ⟨true, .replied value⟩ := hx
      by_cases hxk : x = k
      · rw [if_pos hxk] at hx'
        simp only [Option.some.injEq, SavedRead.mk.injEq, ReadPhase.replied.injEq] at hx'
        rw [← hx'.2]
        exact hb.latest.read (hb.before c hc)
      · rw [if_neg hxk] at hx'
        exact h.replies x value hx' c hc
  | startReadFailed k hk =>
      have hphase : s.phase = .reading k := hb.reading k _ hk rfl
      refine ⟨h.stopped, ?_, fun hlate => ?_, fun _ => h.quiet (by simp [hphase]), h.ran⟩
      · intro x value hx
        have hstart := hb.noStart_erase hk rfl x _ hx
        exact absurd hstart (by simp)
      · rcases hlate with hlate | hlate <;> exact absurd hlate (by simp)
  | readFailed k hk => exact ⟨h.stopped, h.replies_setRead (by simp), h.attached, h.quiet, h.ran⟩
  | retried k forStart hk =>
      exact ⟨h.stopped, h.replies_setRead (by simp), h.attached, h.quiet, h.ran⟩
  | startReadReturned k value hk =>
      have hphase : s.phase = .reading k := hb.reading k _ hk rfl
      have herased : Node sg (s.setRead k none) :=
        ⟨h.stopped, h.replies_setRead (by simp), h.attached, h.quiet, h.ran⟩
      have hdelivered := herased.deliverAny cfg (readLastStop sg value)
      have hlist := (s.setRead k none).deliverAny_delivered (readLastStop sg value)
      obtain ⟨actor, delivered, hs⟩ := (s.setRead k none).deliverAny_frame (readLastStop sg value)
      rw [hs] at hdelivered hlist ⊢
      refine ⟨hdelivered.stopped, hdelivered.replies, fun _ c hc => ?_, fun _ => ?_,
        hdelivered.ran⟩
      · obtain ⟨d, hd, hle⟩ := h.replies k value hk c hc
        refine ⟨d, ?_, hle⟩
        rw [hd] at hlist
        show d ∈ delivered
        rw [show delivered = (s.setRead k none).delivered ++ (some d).toList from hlist]
        exact List.mem_append_right _ (by simp)
      · refine hdelivered.quiet ?_
        show s.phase ≠ .running
        simp [hphase]
  | readReturned k value hk =>
      have herased : Node sg (s.setRead k none) :=
        ⟨h.stopped, h.replies_setRead (by simp), h.attached, h.quiet, h.ran⟩
      exact herased.deliverAny cfg _
  | message raw rest hi =>
      have hrest : Node sg { s with inbox := rest } :=
        ⟨h.stopped, h.replies, h.attached, h.quiet, h.ran⟩
      exact hrest.deliverAny cfg _
  | dropped => exact ⟨h.stopped, h.replies, h.attached, h.quiet, h.ran⟩
  | ran hp =>
      exact ⟨h.stopped, h.replies, fun _ => h.attached (.inl hp), fun hne => absurd rfl hne, h.ran⟩
  | acted e a hp ha =>
      refine ⟨fun c hc => Actor.stoppedSince_step (h.stopped c hc) ha, h.replies, h.attached,
        fun hne => absurd hp hne, ?_⟩
      exact h.ran.step (h.stoppedBefore (.inr hp)) ha

/-! ### Published commands -/

/-- Every published command is covered. -/
def PublishedCovered (sg : Signing) (all : Bool) (s : ControlSystem) : Prop :=
  ∀ i issue, s.issues i = some issue → issue.published = true →
    Covered sg all s issue.cmd.issuedAt

/-- A command that is published reaches the node, or is covered already. -/
def Caught (sg : Signing) (all : Bool) (s : ControlSystem) : ControlEvent → Prop
  | .publish i _ => ∀ cmd, s.issues i = some ⟨cmd, false⟩ →
      s.subscribed = true ∨ Covered sg all s cmd.issuedAt
  | _ => True

theorem publishedCovered_step {e : ControlEvent} (hb : Books sg s)
    (h : PublishedCovered sg all s) (he : all = true ∨ e ≠ .drop) (hcaught : Caught sg all s e)
    (hstep : s.step sg lua cfg e = some s') : PublishedCovered sg all s' := by
  have hkeep : ∀ i issue, s.issues i = some issue → issue.published = true →
      Covered sg all s' issue.cmd.issuedAt := fun i issue hi hpub =>
    covered_step hb (hb.issued i issue hi) (h i issue hi hpub) he hstep
  cases moved hstep with
  | saved cmd =>
      intro i issue hi hpub
      have hi' : (if i = s.issueCount then some ⟨cmd, false⟩ else s.issues i) = some issue := hi
      by_cases hnew : i = s.issueCount
      · rw [if_pos hnew] at hi'
        obtain rfl := Option.some.inj hi'
        exact absurd hpub (by simp)
      · rw [if_neg hnew] at hi'
        exact hkeep i issue hi' hpub
  | published i ts cmd hi =>
      intro x issue hx hpub
      have hx' : (if x = i then some ⟨cmd, true⟩ else s.issues x) = some issue := hx
      by_cases hxi : x = i
      · rw [if_pos hxi] at hx'
        obtain rfl := Option.some.inj hx'
        rcases hcaught cmd hi with hsub | hcov
        · refine .message (publishedStop sg ts cmd) ?_ cmd (commandOfMessage_published ts cmd)
            (le_refl _)
          show _ ∈ if s.subscribed = true then s.inbox ++ [publishedStop sg ts cmd] else s.inbox
          rw [if_pos hsub]
          exact List.mem_append_right _ (by simp)
        · exact covered_step hb (hb.issued i ⟨cmd, false⟩ hi) hcov he hstep
      · rw [if_neg hxi] at hx'
        exact hkeep x issue hx' hpub
  | startReadReturned k value hk =>
      obtain ⟨actor, delivered, hs⟩ := (s.setRead k none).deliverAny_frame (readLastStop sg value)
      rw [hs] at hkeep ⊢
      exact hkeep
  | readReturned k value hk =>
      obtain ⟨actor, delivered, hs⟩ := (s.setRead k none).deliverAny_frame (readLastStop sg value)
      rw [hs] at hkeep ⊢
      exact hkeep
  | message raw rest hi =>
      obtain ⟨actor, delivered, hs⟩ :=
        deliverAny_frame { s with inbox := rest } (commandOfMessage sg raw)
      rw [hs] at hkeep ⊢
      exact hkeep
  | _ => exact hkeep

end ControlSystem

end Kaiban
