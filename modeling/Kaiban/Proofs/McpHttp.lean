/-
The sessions of the MCP handler, over every interleaving of its requests.

A call of `openSession` that has passed the limit may register a session later, so what is
bounded is the sessions together with these calls.  That holds as long as no call passes the
limit while others that have passed it take up the free places.

A session is closed as idle in one step with the look at its last request, so however the
loop is interrupted, the session had none since the cutoff.
-/
import Kaiban.McpHttp
import Kaiban.Lib.Steps
import Mathlib.Algebra.Order.Group.Int

namespace Kaiban

namespace McpHandler

variable {limits : McpSessionLimits} {h h' : McpHandler}

/-- The calls that have passed the limit and have not registered a session. -/
def pending (h : McpHandler) : ℕ := h.opens.countP OpenPhase.mayRegister

/-- A call that passes the limit finds a free place for itself beside the calls that have
passed it before. -/
def HasRoom (limits : McpSessionLimits) (h : McpHandler) : McpEvent → Prop
  | .continues c _ => h.opens[c]? = some .swept → h.sessions.length < limits.maxSessions →
      h.sessions.length + h.pending < limits.maxSessions
  | _ => True

instance : ∀ e : McpEvent, Decidable (HasRoom limits h e)
  | .continues c _ => inferInstanceAs (Decidable (h.opens[c]? = some .swept →
      h.sessions.length < limits.maxSessions →
      h.sessions.length + h.pending < limits.maxSessions))
  | .tick _ => .isTrue trivial
  | .request _ => .isTrue trivial
  | .openSession => .isTrue trivial
  | .initialized _ => .isTrue trivial
  | .closed _ => .isTrue trivial
  | .close => .isTrue trivial

/-- The cutoff of the closing that goes on in a step. -/
def cutoffOf (limits : McpSessionLimits) (h : McpHandler) : McpEvent → Option ℤ
  | .openSession => some (h.clock - limits.idleTimeoutMs)
  | .continues c _ =>
      match h.opens[c]? with
      | some (.closing cutoff _ _) => some cutoff
      | _ => none
  | _ => none

/-! ### One step -/

/-- What a closing does to the sessions: it meets no idle one, or closes the first. -/
theorem closeIdle_cases (cutoff : ℤ) (ids : List ℕ) (h : McpHandler) :
    closeIdle cutoff ids h = (h, .swept) ∨
      ∃ id rest, h.lastSeenAt id < cutoff ∧
        closeIdle cutoff ids h = (h.delete id, .closing cutoff rest false) := by
  induction ids with
  | nil => exact .inl rfl
  | cons id rest ih =>
      unfold closeIdle
      by_cases hseen : cutoff ≤ h.lastSeenAt id
      · rw [if_pos hseen]
        exact ih
      · rw [if_neg hseen]
        exact .inr ⟨id, rest, Int.not_le.mp hseen, rfl⟩

/-- What becomes of a call of `openSession` when a promise it awaits settles. -/
inductive Turn (limits : McpSessionLimits) (h : McpHandler) (c : ℕ) : McpHandler → Prop where
  | server (cutoff : ℤ) (rest : List ℕ) (hc : h.opens[c]? = some (.closing cutoff rest false)) :
      Turn limits h c (h.setOpen c (.closing cutoff rest true))
  | sweeps (cutoff : ℤ) (rest : List ℕ) (inner : Bool)
      (hc : h.opens[c]? = some (.closing cutoff rest inner)) :
      Turn limits h c
        ((closeIdle cutoff rest h).1.setOpen c (closeIdle cutoff rest h).2)
  | admitted (hc : h.opens[c]? = some .swept) (hroom : h.sessions.length < limits.maxSessions) :
      Turn limits h c (h.setOpen c .connecting)
  | connected (hc : h.opens[c]? = some .connecting) : Turn limits h c (h.setOpen c .handling)
  | ends : Turn limits h c (h.setOpen c .ended)

theorem continues_turn {c : ℕ} {ok : Bool}
    (hstep : step limits h (.continues c ok) = some h') : Turn limits h c h' := by
  unfold step at hstep
  dsimp only at hstep
  split at hstep
  · rename_i cutoff rest inner hc
    split at hstep
    · rename_i hgo
      obtain rfl := Option.some.inj hstep
      obtain rfl : inner = false := by
        cases inner with
        | false => rfl
        | true => exact absurd hgo (by simp)
      exact .server cutoff rest hc
    · obtain rfl := Option.some.inj hstep
      exact .sweeps cutoff rest inner hc
  · rename_i hc
    obtain rfl := Option.some.inj hstep
    by_cases hfull : limits.maxSessions ≤ h.sessions.length
    · rw [if_pos hfull]
      exact .ends
    · rw [if_neg hfull]
      exact .admitted hc (Nat.not_le.mp hfull)
  · rename_i hc
    obtain rfl := Option.some.inj hstep
    cases ok with
    | true => exact .connected hc
    | false => exact .ends
  · obtain rfl := Option.some.inj hstep
    exact .ends
  · obtain rfl := Option.some.inj hstep
    exact .ends
  · exact absurd hstep (by simp)

/-! ### The bound -/

/-- The sessions and the calls that may yet register one are within the limit. -/
def Within (limits : McpSessionLimits) (h : McpHandler) : Prop :=
  h.sessions.length + h.pending ≤ limits.maxSessions

theorem length_delete_le (h : McpHandler) (id : ℕ) :
    (h.delete id).sessions.length ≤ h.sessions.length := List.length_filter_le ..

/-- A call that changes its phase. -/
theorem pending_setOpen {c : ℕ} {phase : OpenPhase} (hc : h.opens[c]? = some phase)
    (next : OpenPhase) :
    (h.setOpen c next).pending + (if phase.mayRegister = true then 1 else 0)
      = h.pending + (if next.mayRegister = true then 1 else 0) := by
  obtain ⟨hlt, hget⟩ := List.getElem?_eq_some_iff.mp hc
  unfold pending setOpen
  dsimp only
  rw [List.countP_set hlt, hget]
  by_cases hp : phase.mayRegister = true
  · have hpos : 0 < h.opens.countP OpenPhase.mayRegister := by
      rw [List.countP_pos_iff]
      exact ⟨phase, List.mem_of_getElem? hc, hp⟩
    rw [if_pos hp]
    omega
  · rw [if_neg hp]
    omega

/-- A call that goes to a phase in which it registers no session. -/
theorem pending_setOpen_le (h : McpHandler) (c : ℕ) {next : OpenPhase}
    (hnext : next.mayRegister = false) : (h.setOpen c next).pending ≤ h.pending := by
  cases hc : h.opens[c]? with
  | none =>
      have hout : h.opens.length ≤ c := List.getElem?_eq_none_iff.mp hc
      unfold pending setOpen
      dsimp only
      rw [List.set_eq_of_length_le hout]
  | some phase =>
      have hpending := pending_setOpen hc next
      rw [hnext] at hpending
      simp only [Bool.false_eq_true, if_false] at hpending
      omega

/-- A closing leaves no more sessions and no more calls that may register one. -/
theorem Within.closeIdle (hw : Within limits h) (cutoff : ℤ) (ids : List ℕ) :
    Within limits (closeIdle cutoff ids h).1 ∧
      (McpHandler.closeIdle cutoff ids h).2.mayRegister = false := by
  rcases closeIdle_cases cutoff ids h with heq | ⟨id, rest, -, heq⟩
  · rw [heq]
    exact ⟨hw, rfl⟩
  · rw [heq]
    refine ⟨?_, rfl⟩
    have hle := length_delete_le h id
    have hsame : (h.delete id).pending = h.pending := rfl
    unfold Within at hw ⊢
    dsimp only
    omega

/-- A call that goes to a phase in which it registers no session. -/
theorem Within.setOpen (hw : Within limits h) (c : ℕ) {next : OpenPhase}
    (hnext : next.mayRegister = false) : Within limits (h.setOpen c next) := by
  have hle := pending_setOpen_le h c hnext
  have hsame : (h.setOpen c next).sessions = h.sessions := rfl
  unfold Within at hw ⊢
  rw [hsame]
  omega

theorem Within.step {e : McpEvent} (hw : Within limits h) (hroom : HasRoom limits h e)
    (hstep : McpHandler.step limits h e = some h') : Within limits h' := by
  cases e with
  | tick now =>
      unfold McpHandler.step at hstep
      dsimp only at hstep
      split at hstep
      · obtain rfl := Option.some.inj hstep
        exact hw
      · exact absurd hstep (by simp)
  | request id =>
      obtain rfl := Option.some.inj hstep
      by_cases hmem : id ∈ h.sessions
      · rw [if_pos hmem]
        exact hw
      · rw [if_neg hmem]
        exact hw
  | openSession =>
      obtain rfl := Option.some.inj hstep
      obtain ⟨hswept, hphase⟩ := hw.closeIdle (h.clock - limits.idleTimeoutMs) h.sessions
      unfold Within pending at hswept ⊢
      dsimp only
      rw [List.countP_append, List.countP_singleton, hphase]
      exact hswept
  | continues c ok =>
      cases continues_turn hstep with
      | server cutoff rest hc => exact hw.setOpen c rfl
      | sweeps cutoff rest inner hc =>
          obtain ⟨hswept, hphase⟩ := hw.closeIdle cutoff rest
          exact hswept.setOpen c hphase
      | admitted hc hfree =>
          have hplace := hroom hc hfree
          have hpending := pending_setOpen hc .connecting
          have hsame : (h.setOpen c .connecting).sessions = h.sessions := rfl
          simp only [OpenPhase.mayRegister, Bool.false_eq_true, if_false, if_true] at hpending
          unfold Within
          rw [hsame]
          omega
      | connected hc =>
          have hpending := pending_setOpen hc .handling
          have hsame : (h.setOpen c .handling).sessions = h.sessions := rfl
          simp only [OpenPhase.mayRegister, if_true] at hpending
          unfold Within at hw ⊢
          rw [hsame]
          omega
      | ends => exact hw.setOpen c rfl
  | initialized c =>
      unfold McpHandler.step at hstep
      dsimp only at hstep
      split at hstep
      · rename_i hc
        obtain rfl := Option.some.inj hstep
        have hc' : (h.register c).opens[c]? = some .handling := hc
        have hpending := pending_setOpen hc' .opened
        have hold : (h.register c).pending = h.pending := rfl
        simp only [OpenPhase.mayRegister, Bool.false_eq_true, if_false, if_true] at hpending
        have hlen : ((h.register c).setOpen c .opened).sessions.length ≤ h.sessions.length + 1 := by
          show (if c ∈ h.sessions then h.sessions else h.sessions ++ [c]).length ≤ _
          split
          · omega
          · simp
        unfold Within at hw ⊢
        omega
      · exact absurd hstep (by simp)
  | closed id =>
      obtain rfl := Option.some.inj hstep
      have hle := length_delete_le h id
      have hsame : (h.delete id).pending = h.pending := rfl
      unfold Within at hw ⊢
      omega
  | close =>
      obtain rfl := Option.some.inj hstep
      unfold Within pending at hw ⊢
      simp only [List.length_nil]
      omega

/-! ### The times -/

/-- The last request of a session is its latest, and no cutoff is too late. -/
structure Timely (limits : McpSessionLimits) (h : McpHandler) : Prop where
  latest : ∀ id, ∀ r ∈ h.requests id, r ≤ h.lastSeenAt id ∧ r ≤ h.clock
  seen : ∀ id ∈ h.sessions, h.lastSeenAt id ∈ h.requests id
  cutoffs : ∀ (c : ℕ) cutoff rest inner, h.opens[c]? = some (.closing cutoff rest inner) →
    cutoff + limits.idleTimeoutMs ≤ h.clock

/-- A step that sees no session leaves the sessions and the clock as they were, or fewer. -/
theorem Timely.keeps (ht : Timely limits h) (hclock : h'.clock = h.clock)
    (hseen : h'.lastSeenAt = h.lastSeenAt) (hrequests : h'.requests = h.requests)
    (hfewer : ∀ id ∈ h'.sessions, id ∈ h.sessions)
    (hopens : ∀ (c : ℕ) cutoff rest inner, h'.opens[c]? = some (.closing cutoff rest inner) →
      cutoff + limits.idleTimeoutMs ≤ h.clock) : Timely limits h' where
  latest := by
    rw [hclock, hseen, hrequests]
    exact ht.latest
  seen id hid := by
    rw [hseen, hrequests]
    exact ht.seen id (hfewer id hid)
  cutoffs c cutoff rest inner hc := by
    rw [hclock]
    exact hopens c cutoff rest inner hc

/-- A request for a session. -/
theorem Timely.used (ht : Timely limits h) (id : ℕ) {sessions : List ℕ}
    (hsessions : ∀ x ∈ sessions, x = id ∨ x ∈ h.sessions) :
    Timely limits { h.seen id with sessions := sessions } where
  latest x r hr := by
    by_cases hx : x = id
    · have hmem : r ∈ (if x = id then h.requests x ++ [h.clock] else h.requests x) := hr
      rw [if_pos hx] at hmem
      have hlast : (h.seen id).lastSeenAt x = h.clock := if_pos hx
      show r ≤ (h.seen id).lastSeenAt x ∧ r ≤ h.clock
      rw [hlast]
      rcases List.mem_append.mp hmem with hold | hnew
      · exact ⟨(ht.latest x r hold).2, (ht.latest x r hold).2⟩
      · rw [List.mem_singleton.mp hnew]
        exact ⟨le_rfl, le_rfl⟩
    · have hmem : r ∈ (if x = id then h.requests x ++ [h.clock] else h.requests x) := hr
      rw [if_neg hx] at hmem
      have hlast : (h.seen id).lastSeenAt x = h.lastSeenAt x := if_neg hx
      show r ≤ (h.seen id).lastSeenAt x ∧ r ≤ h.clock
      rw [hlast]
      exact ht.latest x r hmem
  seen x hx := by
    show (if x = id then h.clock else h.lastSeenAt x)
      ∈ (if x = id then h.requests x ++ [h.clock] else h.requests x)
    by_cases hid : x = id
    · rw [if_pos hid, if_pos hid]
      exact List.mem_append_right _ (List.mem_singleton_self _)
    · rw [if_neg hid, if_neg hid]
      exact ht.seen x ((hsessions x hx).resolve_left hid)
  cutoffs := ht.cutoffs

theorem setOpen_closing {c : ℕ} {next : OpenPhase} {d : ℕ} {phase : OpenPhase}
    (hd : (h.setOpen c next).opens[d]? = some phase) :
    phase = next ∨ h.opens[d]? = some phase := by
  unfold setOpen at hd
  rw [List.getElem?_set] at hd
  by_cases hcd : c = d
  · rw [if_pos hcd] at hd
    by_cases hlt : c < h.opens.length
    · rw [if_pos hlt] at hd
      exact .inl (Option.some.inj hd).symm
    · rw [if_neg hlt] at hd
      exact absurd hd (by simp)
  · rw [if_neg hcd] at hd
    exact .inr hd

/-- A call that changes its phase and, if it goes on closing, keeps a cutoff that is due. -/
theorem Timely.setOpen (ht : Timely limits h) (c : ℕ) {next : OpenPhase}
    (hnext : ∀ cutoff rest inner, next = .closing cutoff rest inner →
      cutoff + limits.idleTimeoutMs ≤ h.clock) : Timely limits (h.setOpen c next) := by
  refine ht.keeps rfl rfl rfl (fun _ hid => hid) fun d cutoff rest inner hd => ?_
  rcases setOpen_closing hd with heq | hold
  · exact hnext cutoff rest inner heq.symm
  · exact ht.cutoffs d cutoff rest inner hold

theorem Timely.closeIdle (ht : Timely limits h) {cutoff : ℤ}
    (hcutoff : cutoff + limits.idleTimeoutMs ≤ h.clock) (ids : List ℕ) :
    Timely limits (closeIdle cutoff ids h).1 ∧
      (McpHandler.closeIdle cutoff ids h).1.clock = h.clock ∧
      ∀ due rest inner, (McpHandler.closeIdle cutoff ids h).2 = .closing due rest inner →
        due + limits.idleTimeoutMs ≤ h.clock := by
  rcases closeIdle_cases cutoff ids h with heq | ⟨id, left, -, heq⟩
  · rw [heq]
    exact ⟨ht, rfl, fun _ _ _ hphase => absurd hphase (by simp)⟩
  · rw [heq]
    refine ⟨ht.keeps rfl rfl rfl (fun x hx => (List.mem_filter.mp hx).1) ht.cutoffs, rfl, ?_⟩
    intro due rest inner hphase
    obtain ⟨rfl, -, -⟩ := OpenPhase.closing.inj hphase
    exact hcutoff

theorem Timely.step {e : McpEvent} (ht : Timely limits h)
    (hstep : McpHandler.step limits h e = some h') :
    Timely limits h' := by
  cases e with
  | tick now =>
      unfold McpHandler.step at hstep
      dsimp only at hstep
      split at hstep
      · rename_i hle
        obtain rfl := Option.some.inj hstep
        refine ⟨fun id r hr => ⟨(ht.latest id r hr).1, ?_⟩, ht.seen,
          fun c cutoff rest inner hc => ?_⟩
        · exact (ht.latest id r hr).2.trans hle
        · exact (ht.cutoffs c cutoff rest inner hc).trans hle
      · exact absurd hstep (by simp)
  | request id =>
      obtain rfl := Option.some.inj hstep
      by_cases hmem : id ∈ h.sessions
      · rw [if_pos hmem]
        exact ht.used id fun x hx => .inr hx
      · rw [if_neg hmem]
        exact ht
  | openSession =>
      obtain rfl := Option.some.inj hstep
      have hcutoff : h.clock - limits.idleTimeoutMs + limits.idleTimeoutMs ≤ h.clock := by omega
      obtain ⟨hswept, hclock, hphase⟩ := ht.closeIdle hcutoff h.sessions
      refine hswept.keeps rfl rfl rfl (fun _ hid => hid) fun c cutoff rest inner hc => ?_
      rw [hclock]
      rw [List.getElem?_append] at hc
      split at hc
      · rw [← hclock]
        exact hswept.cutoffs c cutoff rest inner hc
      · have hlast := List.mem_of_getElem? hc
        exact hphase cutoff rest inner (List.mem_singleton.mp hlast).symm
  | continues c ok =>
      cases continues_turn hstep with
      | server cutoff rest hc =>
          refine ht.setOpen c fun due rest' inner hphase => ?_
          obtain ⟨rfl, -, -⟩ := OpenPhase.closing.inj hphase
          exact ht.cutoffs c _ _ _ hc
      | sweeps cutoff rest inner hc =>
          obtain ⟨hswept, hclock, hphase⟩ := ht.closeIdle (ht.cutoffs c _ _ _ hc) rest
          refine hswept.setOpen c fun due rest' inner' heq => ?_
          rw [hclock]
          exact hphase due rest' inner' heq
      | admitted hc hfree => exact ht.setOpen c fun _ _ _ hphase => absurd hphase (by simp)
      | connected hc => exact ht.setOpen c fun _ _ _ hphase => absurd hphase (by simp)
      | ends => exact ht.setOpen c fun _ _ _ hphase => absurd hphase (by simp)
  | initialized c =>
      unfold McpHandler.step at hstep
      dsimp only at hstep
      split at hstep
      · obtain rfl := Option.some.inj hstep
        have hregistered : Timely limits (h.register c) := by
          refine ht.used c fun x hx => ?_
          split at hx
          · exact .inr hx
          · rcases List.mem_append.mp hx with hold | hnew
            · exact .inr hold
            · exact .inl (List.mem_singleton.mp hnew)
        exact hregistered.setOpen c fun _ _ _ hphase => absurd hphase (by simp)
      · exact absurd hstep (by simp)
  | closed id =>
      obtain rfl := Option.some.inj hstep
      exact ht.keeps rfl rfl rfl (fun x hx => (List.mem_filter.mp hx).1) ht.cutoffs
  | close =>
      obtain rfl := Option.some.inj hstep
      exact ht.keeps rfl rfl rfl (fun x hx => absurd hx (by simp)) ht.cutoffs

/-! ### How a session goes -/

/-- The closing of a step leaves a session only if it had no request since the cutoff. -/
theorem closeIdle_removes {cutoff : ℤ} {ids : List ℕ} {id : ℕ} (hid : id ∈ h.sessions)
    (hgone : id ∉ (closeIdle cutoff ids h).1.sessions) : h.lastSeenAt id < cutoff := by
  rcases closeIdle_cases cutoff ids h with heq | ⟨x, rest, hidle, heq⟩
  · rw [heq] at hgone
    exact absurd hid hgone
  · rw [heq] at hgone
    have hx : id = x := by
      by_contra hne
      exact hgone (List.mem_filter.mpr ⟨hid, by simpa using hne⟩)
    rwa [hx]

/-- Why a session goes in a step: by its own close, by that of the handler, or as idle, with
no request since the cutoff and none for the idle timeout. -/
def Goes (limits : McpSessionLimits) (h : McpHandler) (id : ℕ) (e : McpEvent) : Prop :=
  e = .closed id ∨ e = .close ∨
    ∃ cutoff, h.cutoffOf limits e = some cutoff ∧
      (∀ r ∈ h.requests id, r < cutoff) ∧ ∀ r ∈ h.requests id, r + limits.idleTimeoutMs < h.clock

theorem Timely.goes {e : McpEvent} (ht : Timely limits h)
    (hstep : McpHandler.step limits h e = some h')
    {id : ℕ} (hid : id ∈ h.sessions) (hgone : id ∉ h'.sessions) : Goes limits h id e := by
  -- What is closed as idle had its last request before a cutoff that is due.
  have hidle : ∀ cutoff, cutoff + limits.idleTimeoutMs ≤ h.clock → h.lastSeenAt id < cutoff →
      (∀ r ∈ h.requests id, r < cutoff) ∧
        ∀ r ∈ h.requests id, r + limits.idleTimeoutMs < h.clock := by
    intro cutoff hcutoff hlast
    refine ⟨fun r hr => ?_, fun r hr => ?_⟩
    · exact (ht.latest id r hr).1.trans_lt hlast
    · have hle := (ht.latest id r hr).1
      omega
  cases e with
  | tick now =>
      unfold McpHandler.step at hstep
      dsimp only at hstep
      split at hstep
      · obtain rfl := Option.some.inj hstep
        exact absurd hid hgone
      · exact absurd hstep (by simp)
  | request x =>
      obtain rfl := Option.some.inj hstep
      by_cases hmem : x ∈ h.sessions
      · rw [if_pos hmem] at hgone
        exact absurd hid hgone
      · rw [if_neg hmem] at hgone
        exact absurd hid hgone
  | openSession =>
      obtain rfl := Option.some.inj hstep
      exact .inr (.inr ⟨_, rfl, hidle _ (by omega) (closeIdle_removes hid hgone)⟩)
  | continues c ok =>
      cases continues_turn hstep with
      | server cutoff rest hc => exact absurd hid hgone
      | sweeps cutoff rest inner hc =>
          have hcutoff : h.cutoffOf limits (.continues c ok) = some cutoff := by
            simp only [cutoffOf, hc]
          exact .inr (.inr ⟨cutoff, hcutoff,
            hidle cutoff (ht.cutoffs c _ _ _ hc) (closeIdle_removes hid hgone)⟩)
      | admitted hc hfree => exact absurd hid hgone
      | connected hc => exact absurd hid hgone
      | ends => exact absurd hid hgone
  | initialized c =>
      unfold McpHandler.step at hstep
      dsimp only at hstep
      split at hstep
      · obtain rfl := Option.some.inj hstep
        refine absurd ?_ hgone
        show id ∈ (if c ∈ h.sessions then h.sessions else h.sessions ++ [c])
        split
        · exact hid
        · exact List.mem_append_left _ hid
      · exact absurd hstep (by simp)
  | closed x =>
      obtain rfl := Option.some.inj hstep
      have hx : id = x := by
        by_contra hne
        exact hgone (List.mem_filter.mpr ⟨hid, by simpa using hne⟩)
      rw [hx]
      exact .inl rfl
  | close => exact .inr (.inl rfl)

/-! ### Every run -/

/-- What holds of the sessions in a state. -/
structure SessionRules (limits : McpSessionLimits) (h : McpHandler) : Prop where
  bounded : h.sessions.length ≤ limits.maxSessions
  /-- A session that is there has had a request, its opening at least. -/
  used : ∀ id ∈ h.sessions, h.requests id ≠ []
  removed : ∀ e h' id, step limits h e = some h' → id ∈ h.sessions → id ∉ h'.sessions →
    Goes limits h id e

/-- **The sessions are bounded, and go only when they may**, in every state of a run in which
each call that passes the limit finds room for itself and for those that passed it before. -/
theorem sessions_bounded {clock : ℤ} {es : List McpEvent}
    (hroom : Steps.Along (step limits) (HasRoom limits) (init clock) es)
    (hrun : Steps.run (step limits) (init clock) es = some h) : SessionRules limits h := by
  have hall : Within limits h ∧ Timely limits h := by
    refine Steps.run_invariant (C := HasRoom limits)
      (P := fun h => Within limits h ∧ Timely limits h) ?_ ⟨?_, ?_⟩ hroom hrun
    · intro h e h' hinv hplace hstep
      exact ⟨hinv.1.step hplace hstep, hinv.2.step hstep⟩
    · exact Nat.zero_le _
    · exact ⟨fun _ r hr => absurd hr (by simp [init]), fun _ hid => absurd hid (by simp [init]),
        fun _ _ _ _ hc => absurd hc (by simp [init])⟩
  obtain ⟨hwithin, ht⟩ := hall
  refine ⟨?_, fun id hid hnil => ?_, fun e h' id hstep hid hgone => ht.goes hstep hid hgone⟩
  · unfold Within at hwithin
    omega
  · have hseen := ht.seen id hid
    rw [hnil] at hseen
    exact absurd hseen (by simp)

/-! ### Two clients -/

/-- Room for one session. -/
def oneSession : McpSessionLimits := ⟨1000, 1⟩

/-- A client opens a session, is idle, and another opens one in its place. -/
def inTurn : List McpEvent :=
  [.openSession, .continues 0 true, .continues 0 true, .initialized 0, .continues 0 true,
    .tick 5000, .openSession, .continues 1 true, .continues 1 true, .continues 1 true,
    .continues 1 true, .initialized 1]

theorem sessions_bounded_inTurn :
    ∃ h, Steps.run (step oneSession) (init 0) inTurn = some h ∧ SessionRules oneSession h := by
  have hroom : Steps.Along (step oneSession) (HasRoom oneSession) (init 0) inTurn := by decide
  exact ⟨_, rfl, sessions_bounded hroom rfl⟩

/-- Two clients open a session at once. -/
def atOnce : List McpEvent :=
  [.openSession, .openSession, .continues 0 true, .continues 1 true, .continues 0 true,
    .continues 1 true, .initialized 0, .initialized 1]

/-- Both pass the limit of one session before either is registered. -/
theorem sessions_exceed_limit :
    ((Steps.run (step oneSession) (init 0) atOnce).map fun h => h.sessions.length) = some 2 ∧
    oneSession.maxSessions = 1 := by
  decide

end McpHandler

end Kaiban
