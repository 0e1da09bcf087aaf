/-
Runs of an event-driven machine.

A machine is given by a partial step function: `step s e` is `some s'` when the
event `e` can happen in the state `s`, and `none` when it cannot.  A run is a list
of events, each of which can happen when its turn comes, so "every interleaving"
is "every list of events with a run".

Three ways of carrying a fact along a run are needed, and each is proved once.

  * An invariant, which every step keeps.
  * An invariant that is kept only by steps meeting a condition: `Along` says that
    every step of a run meets it, in the state the step is taken from.
  * A reflexive and transitive relation between the two ends of a run.
-/
import Mathlib.Order.Basic

namespace Steps

variable {σ ε : Type}

/-- The state a list of events leads to, if every one of them can happen. -/
def run (step : σ → ε → Option σ) : σ → List ε → Option σ
  | s, [] => some s
  | s, e :: es => (step s e).bind fun s' => run step s' es

/-- Every step of the run meets `C` in the state it is taken from. -/
def Along (step : σ → ε → Option σ) (C : σ → ε → Prop) : σ → List ε → Prop
  | _, [] => True
  | s, e :: es => C s e ∧ ∀ s', step s e = some s' → Along step C s' es

/-- The states some run leads to. -/
def Reachable (step : σ → ε → Option σ) (s t : σ) : Prop :=
  ∃ es, run step s es = some t

variable {step : σ → ε → Option σ}

@[simp] theorem run_nil (s : σ) : run step s [] = some s := rfl

theorem run_cons (s : σ) (e : ε) (es : List ε) :
    run step s (e :: es) = (step s e).bind fun s' => run step s' es := rfl

/-- A run that begins with `e` is a step and the run of what follows. -/
theorem run_cons_some {s t : σ} {e : ε} {es : List ε} :
    run step s (e :: es) = some t ↔ ∃ m, step s e = some m ∧ run step m es = some t := by
  rw [run_cons, Option.bind_eq_some_iff]

/-- Runs compose. -/
theorem run_append (s : σ) (es fs : List ε) :
    run step s (es ++ fs) = (run step s es).bind fun s' => run step s' fs := by
  induction es generalizing s with
  | nil => rfl
  | cons e rest ih =>
      rw [List.cons_append, run_cons, run_cons]
      cases step s e with
      | none => rfl
      | some m => exact ih m

theorem run_append_some {s t : σ} {es fs : List ε} :
    run step s (es ++ fs) = some t ↔ ∃ m, run step s es = some m ∧ run step m fs = some t := by
  rw [run_append, Option.bind_eq_some_iff]

@[simp] theorem along_nil (C : σ → ε → Prop) (s : σ) : Along step C s [] := trivial

/-- A condition every event meets in every state holds along every run. -/
theorem along_of_forall {C : σ → ε → Prop} (h : ∀ s e, C s e) :
    ∀ (es : List ε) (s : σ), Along step C s es := by
  intro es
  induction es with
  | nil => intro s; trivial
  | cons e rest ih => intro s; exact ⟨h s e, fun s' _ => ih s'⟩

/-- A condition on the events alone holds along a run of such events. -/
theorem along_of_mem {D : ε → Prop} :
    ∀ (es : List ε) (s : σ), (∀ e ∈ es, D e) → Along step (fun _ e => D e) s es := by
  intro es
  induction es with
  | nil => intro s _; trivial
  | cons e rest ih =>
      intro s h
      exact ⟨h e (by simp), fun s' _ => ih s' fun x hx => h x (by simp [hx])⟩

instance decidableAlong {C : σ → ε → Prop} [∀ s e, Decidable (C s e)] :
    ∀ (s : σ) (es : List ε), Decidable (Along step C s es)
  | _, [] => .isTrue trivial
  | s, e :: es =>
      match h : step s e with
      | none => decidable_of_iff (C s e)
          ⟨fun hc => ⟨hc, fun s' hs => absurd (h.symm.trans hs) (by simp)⟩, And.left⟩
      | some m =>
          have := decidableAlong (C := C) m es
          decidable_of_iff (C s e ∧ Along step C m es)
            ⟨fun hc => ⟨hc.1, fun s' hs => Option.some.inj (h.symm.trans hs) ▸ hc.2⟩,
              fun hc => ⟨hc.1, hc.2 m h⟩⟩

/-- Every step of a run that meets a condition all along meets it. -/
theorem Along.at_split {C : σ → ε → Prop} {e : ε} {after : List ε} :
    ∀ {before : List ε} {s m : σ}, Along step C s (before ++ e :: after) →
      run step s before = some m → C m e := by
  intro before
  induction before with
  | nil =>
      intro s m hc hrun
      obtain rfl : s = m := by simpa using hrun
      exact hc.1
  | cons f rest ih =>
      intro s m hc hrun
      obtain ⟨n, hn, hrest⟩ := run_cons_some.mp hrun
      exact ih (hc.2 n hn) hrest

theorem along_of_split {C : σ → ε → Prop} :
    ∀ {es : List ε} {s : σ}, (∀ before e after m, es = before ++ e :: after →
      run step s before = some m → C m e) → Along step C s es := by
  intro es
  induction es with
  | nil => intro s _; trivial
  | cons e rest ih =>
      intro s h
      refine ⟨h [] e rest s rfl rfl, fun n hn => ih fun before f after m hes hrun => ?_⟩
      refine h (e :: before) f after m (by rw [hes, List.cons_append]) ?_
      exact run_cons_some.mpr ⟨n, hn, hrun⟩

theorem along_append {C : σ → ε → Prop} :
    ∀ {es fs : List ε} {s : σ}, Along step C s es →
      (∀ t, run step s es = some t → Along step C t fs) → Along step C s (es ++ fs) := by
  intro es
  induction es with
  | nil => intro fs s _ h; exact h s rfl
  | cons e rest ih =>
      intro fs s hc h
      refine ⟨hc.1, fun m hm => ih (hc.2 m hm) fun t ht => h t ?_⟩
      exact run_cons_some.mpr ⟨m, hm, ht⟩

theorem Along.and {C D : σ → ε → Prop} :
    ∀ {es : List ε} {s : σ}, Along step C s es → Along step D s es →
      Along step (fun s e => C s e ∧ D s e) s es := by
  intro es
  induction es with
  | nil => intro s _ _; trivial
  | cons e rest ih =>
      intro s hc hd
      exact ⟨⟨hc.1, hd.1⟩, fun s' hs => ih (hc.2 s' hs) (hd.2 s' hs)⟩

theorem Along.mono {C D : σ → ε → Prop} (h : ∀ s e, C s e → D s e) :
    ∀ {es : List ε} {s : σ}, Along step C s es → Along step D s es := by
  intro es
  induction es with
  | nil => intro s _; trivial
  | cons e rest ih => intro s hc; exact ⟨h s e hc.1, fun s' hs => ih (hc.2 s' hs)⟩

/-- **An invariant kept by every step that meets `C` holds at the end of a run that
meets `C` all along.** -/
theorem run_invariant {C : σ → ε → Prop} {P : σ → Prop}
    (hstep : ∀ s e s', P s → C s e → step s e = some s' → P s') :
    ∀ {es : List ε} {s t : σ}, P s → Along step C s es → run step s es = some t → P t := by
  intro es
  induction es with
  | nil =>
      intro s t hs _ hrun
      obtain rfl : s = t := by simpa using hrun
      exact hs
  | cons e rest ih =>
      intro s t hs hc hrun
      obtain ⟨m, hm, hrest⟩ := run_cons_some.mp hrun
      exact ih (hstep s e m hs hc.1 hm) (hc.2 m hm) hrest

/-- **An invariant kept by every step holds of every state a run leads to.** -/
theorem invariant {P : σ → Prop} (hstep : ∀ s e s', P s → step s e = some s' → P s')
    {es : List ε} {s t : σ} (hs : P s) (hrun : run step s es = some t) : P t :=
  run_invariant (C := fun _ _ => True) (fun s e s' hp _ h => hstep s e s' hp h) hs
    (along_of_forall (fun _ _ => trivial) es s) hrun

/-- What an invariant gives of a step is met along every run that keeps it. -/
theorem along_of_invariant {C Q : σ → ε → Prop} {D : ε → Prop} {P : σ → Prop}
    (hstep : ∀ s e s', P s → D e → C s e → step s e = some s' → P s')
    (hgives : ∀ s e, P s → C s e → Q s e) :
    ∀ {es : List ε} {s : σ}, P s → (∀ e ∈ es, D e) → Along step C s es → Along step Q s es := by
  intro es
  induction es with
  | nil => intro s _ _ _; trivial
  | cons e rest ih =>
      intro s hs hd hc
      refine ⟨hgives s e hs hc.1, fun m hm => ?_⟩
      exact ih (hstep s e m hs (hd e List.mem_cons_self) hc.1 hm)
        (fun f hf => hd f (List.mem_cons_of_mem e hf)) (hc.2 m hm)

theorem Reachable.refl (s : σ) : Reachable step s s := ⟨[], rfl⟩

/-- What is reached leads on. -/
theorem Reachable.tail {s t u : σ} {e : ε} (h : Reachable step s t) (hstep : step t e = some u) :
    Reachable step s u := by
  obtain ⟨es, hrun⟩ := h
  refine ⟨es ++ [e], run_append_some.mpr ⟨t, hrun, ?_⟩⟩
  exact run_cons_some.mpr ⟨u, hstep, rfl⟩

/-- **A run is spoilt just when a step of it does not meet the condition**, if a step spoils
a state just when it does not meet it, and nothing mends one. -/
theorem run_spoilt_iff {C : σ → ε → Prop} {D : ε → Prop} {P B : σ → Prop}
    (hinv : ∀ s e s', P s → D e → step s e = some s' → P s')
    (hstep : ∀ s e s', P s → D e → step s e = some s' → (B s' ↔ B s ∨ ¬ C s e)) :
    ∀ {es : List ε} {s t : σ}, P s → (∀ e ∈ es, D e) → run step s es = some t →
      (B t ↔ B s ∨ ¬ Along step C s es) := by
  intro es
  induction es with
  | nil =>
      intro s t _ _ hrun
      obtain rfl : s = t := by simpa using hrun
      simp
  | cons e rest ih =>
      intro s t hs hd hrun
      obtain ⟨m, hm, hrest⟩ := run_cons_some.mp hrun
      have he : D e := hd e List.mem_cons_self
      have halong : Along step C s (e :: rest) ↔ C s e ∧ Along step C m rest := by
        refine ⟨fun h => ⟨h.1, h.2 m hm⟩, fun h => ⟨h.1, fun m' hm' => ?_⟩⟩
        obtain rfl := Option.some.inj (hm.symm.trans hm')
        exact h.2
      rw [ih (hinv s e m hs he hm) (fun f hf => hd f (List.mem_cons_of_mem e hf)) hrest,
        hstep s e m hs he hm, halong, not_and_or, or_assoc]

/-- A relation every step keeps, in the states where `P` holds, relates the two ends
of a run. -/
theorem run_relation {P : σ → Prop} {R : σ → σ → Prop} (hrefl : ∀ s, R s s)
    (htrans : ∀ a b c, R a b → R b c → R a c)
    (hinv : ∀ s e s', P s → step s e = some s' → P s')
    (hstep : ∀ s e s', P s → step s e = some s' → R s s') :
    ∀ {es : List ε} {s t : σ}, P s → run step s es = some t → R s t := by
  intro es
  induction es with
  | nil =>
      intro s t _ hrun
      obtain rfl : s = t := by simpa using hrun
      exact hrefl s
  | cons e rest ih =>
      intro s t hs hrun
      obtain ⟨m, hm, hrest⟩ := run_cons_some.mp hrun
      exact htrans s m t (hstep s e m hs hm) (ih (hinv s e m hs hm) hrest)

end Steps
