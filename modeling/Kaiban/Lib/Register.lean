/-
Registers: parts of a state that some events write and the others leave alone.

At the end of a run a register holds what the last event that wrote to it wrote, and what it
held at the beginning if no event did.
-/
import Kaiban.Lib.Steps

namespace Steps

variable {σ ε ρ : Type} {step : σ → ε → Option σ} {reg : σ → ρ} {W : σ → ε → Option ρ}

/-- An event writes to `reg` what `W` says, and leaves it alone if that is nothing. -/
def Register (step : σ → ε → Option σ) (reg : σ → ρ) (W : σ → ε → Option ρ) : Prop :=
  ∀ s e s', step s e = some s' → reg s' = (W s e).getD (reg s)

/-- No event of the run writes. -/
def Unwritten (step : σ → ε → Option σ) (W : σ → ε → Option ρ) : σ → List ε → Prop :=
  Along step fun s e => W s e = none

/-- The last event of the run that writes, writes `v`. -/
def WrittenLast (step : σ → ε → Option σ) (W : σ → ε → Option ρ) (s : σ) (es : List ε) (v : ρ) :
    Prop :=
  ∃ before e after m n, es = before ++ e :: after ∧ run step s before = some m ∧ W m e = some v ∧
    step m e = some n ∧ Unwritten step W n after

theorem WrittenLast.cons {s m : σ} {e : ε} {es : List ε} {v : ρ} (h : WrittenLast step W m es v)
    (hstep : step s e = some m) : WrittenLast step W s (e :: es) v := by
  obtain ⟨before, f, after, k, n, rfl, hrun, hwrite, hf, hafter⟩ := h
  exact ⟨e :: before, f, after, k, n, rfl, run_cons_some.mpr ⟨m, hstep, hrun⟩, hwrite, hf, hafter⟩

theorem Register.unwritten (h : Register step reg W) :
    ∀ {es : List ε} {s t : σ}, Unwritten step W s es → run step s es = some t → reg t = reg s := by
  intro es
  induction es with
  | nil =>
      intro s t _ hrun
      obtain rfl : s = t := by simpa using hrun
      rfl
  | cons e rest ih =>
      intro s t hnone hrun
      obtain ⟨m, hm, hrest⟩ := run_cons_some.mp hrun
      rw [ih (hnone.2 m hm) hrest, h s e m hm, hnone.1, Option.getD_none]

theorem Register.last_write (h : Register step reg W) :
    ∀ {es : List ε} {s t : σ}, run step s es = some t →
      WrittenLast step W s es (reg t) ∨ (Unwritten step W s es ∧ reg t = reg s) := by
  intro es
  induction es with
  | nil =>
      intro s t hrun
      obtain rfl : s = t := by simpa using hrun
      exact .inr ⟨along_nil _ _, rfl⟩
  | cons e rest ih =>
      intro s t hrun
      obtain ⟨m, hm, hrest⟩ := run_cons_some.mp hrun
      rcases ih hrest with hlast | ⟨hnone, hsame⟩
      · exact .inl (hlast.cons hm)
      · cases hwrite : W s e with
        | some v =>
            have hv : reg t = v := by rw [hsame, h s e m hm, hwrite, Option.getD_some]
            rw [hv]
            exact .inl ⟨[], e, rest, s, m, rfl, rfl, hwrite, hm, hnone⟩
        | none =>
            refine .inr ⟨⟨hwrite, fun n hn => ?_⟩, ?_⟩
            · rw [← Option.some.inj (hm.symm.trans hn)]
              exact hnone
            · rw [hsame, h s e m hm, hwrite, Option.getD_none]

/-- **A register holds what was written last.** -/
theorem Register.eq_iff (h : Register step reg W) {es : List ε} {s t : σ} {v : ρ}
    (hrun : run step s es = some t) :
    reg t = v ↔ WrittenLast step W s es v ∨ (Unwritten step W s es ∧ reg s = v) := by
  constructor
  · rintro rfl
    rcases h.last_write hrun with hlast | ⟨hnone, hsame⟩
    · exact .inl hlast
    · exact .inr ⟨hnone, hsame.symm⟩
  · rintro (⟨before, e, after, m, n, rfl, hbefore, hwrite, he, hafter⟩ | ⟨hnone, hsame⟩)
    · obtain ⟨k, hk, hrest⟩ := run_append_some.mp hrun
      obtain rfl := Option.some.inj (hbefore.symm.trans hk)
      obtain ⟨n', hn', hend⟩ := run_cons_some.mp hrest
      obtain rfl := Option.some.inj (he.symm.trans hn')
      rw [h.unwritten hafter hend, h _ e _ he, hwrite, Option.getD_some]
    · rw [h.unwritten hnone hrun, hsame]

end Steps
