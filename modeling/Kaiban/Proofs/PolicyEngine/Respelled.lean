/-
A string lowered inside a JSON text.

The text escapes some code points and lowers the rest as the string would, with one
exception: the letter an escape ends with stands before what follows it, so a sigma that
begins a word after a line break ends one in the text.  `Respelled` is how a lowered string
and what the text has of it differ.
-/
import Kaiban.PolicyEngine
import Kaiban.Proofs.JsonBytes

open JsString

namespace Kaiban

variable (T : CaseTables)

/-! ### Escapes -/

/-- A code point that JSON writes as an escape which does not contain it. -/
def Hides (c : ℕ) : Prop := c < 0x20 ∨ isSurrogate c = true

/-- The quote and the backslash, which JSON writes behind a backslash. -/
def Marks (c : ℕ) : Prop := c = 0x22 ∨ c = 0x5C

instance (c : ℕ) : Decidable (Marks c) := inferInstanceAs (Decidable (_ ∨ _))

/-- The code points of an escape. -/
def escapePoints (c : ℕ) : List ℕ := codePoints (Json.escape c)

theorem escapePoints_mark {c : ℕ} (h : Marks c) : escapePoints c = [0x5C, c] := by
  rcases h with rfl | rfl <;> decide

theorem escape_plain {c : ℕ} (hhides : ¬ Hides c) (hmarks : ¬ Marks c) :
    Json.escape c = pointUnits c := by
  unfold Hides at hhides
  unfold Marks at hmarks
  rw [not_or] at hhides hmarks
  unfold Json.escape
  rw [if_neg hmarks.1, if_neg hmarks.2, if_neg (by omega), if_neg (by omega), if_neg (by omega),
    if_neg (by omega), if_neg (by omega), if_neg (by rw [not_or]; exact hhides)]

theorem escapePoints_plain {c : ℕ} (hc : c < 0x110000) (hhides : ¬ Hides c)
    (hmarks : ¬ Marks c) : escapePoints c = [c] := by
  unfold escapePoints
  rw [escape_plain hhides hmarks]
  have hscalar : IsScalar c := ⟨hc, Bool.eq_false_iff.mpr (not_or.mp hhides).2⟩
  simpa [codePoints] using codePoints_pointUnits hscalar []

/-- An escape of a hidden code point begins with a backslash and is ASCII in lower case. -/
theorem escape_hides {c : ℕ} (h : Hides c) :
    ∃ s : JsString, Json.escape c = unit '\\' :: s ∧
      ∀ u ∈ s, 0x30 ≤ u.val ∧ u.val < 0x80 ∧ ¬ (0x41 ≤ u.val ∧ u.val ≤ 0x5A) := by
  have hsur : c < 0x20 ∨ 0xD800 ≤ c ∧ c < 0xE000 := by
    simpa [Hides, isSurrogate] using h
  have hletter (k : Char) (hk : (0x61 ≤ (unit k).val ∧ (unit k).val < 0x80)) :
      ∃ s : JsString, [unit '\\', unit k] = unit '\\' :: s ∧
        ∀ u ∈ s, 0x30 ≤ u.val ∧ u.val < 0x80 ∧ ¬ (0x41 ≤ u.val ∧ u.val ≤ 0x5A) := by
    refine ⟨[unit k], rfl, fun u hu => ?_⟩
    obtain rfl := List.mem_singleton.mp hu
    omega
  have hhex (d : ℕ) (hd : d < 0x10) : 0x30 ≤ (Json.hexUnit d).val ∧
      (Json.hexUnit d).val < 0x80 ∧
      ¬ (0x41 ≤ (Json.hexUnit d).val ∧ (Json.hexUnit d).val ≤ 0x5A) := by
    have hall : ∀ d < 0x10, 0x30 ≤ (Json.hexUnit d).val ∧ (Json.hexUnit d).val < 0x80 ∧
        ¬ (0x41 ≤ (Json.hexUnit d).val ∧ (Json.hexUnit d).val ≤ 0x5A) := by decide
    exact hall d hd
  unfold Json.escape
  rw [if_neg (by omega), if_neg (by omega)]
  split
  · exact hletter 'b' (by decide)
  · split
    · exact hletter 'f' (by decide)
    · split
      · exact hletter 'n' (by decide)
      · split
        · exact hletter 'r' (by decide)
        · split
          · exact hletter 't' (by decide)
          · rw [if_pos (show c < 0x20 ∨ isSurrogate c = true from h)]
            refine ⟨_, rfl, fun u hu => ?_⟩
            simp only [List.mem_cons, List.not_mem_nil, or_false] at hu
            rcases hu with rfl | rfl | rfl | rfl | rfl
            · decide
            · exact hhex _ (Nat.mod_lt _ (by decide))
            · exact hhex _ (Nat.mod_lt _ (by decide))
            · exact hhex _ (Nat.mod_lt _ (by decide))
            · exact hhex _ (Nat.mod_lt _ (by decide))

/-- What an escape is made of: ASCII in lower case, after a backslash. -/
theorem escapePoints_escape {c : ℕ} (h : Hides c ∨ Marks c) :
    ∃ cs, escapePoints c = 0x5C :: cs ∧
      ∀ d ∈ cs, 0x20 ≤ d ∧ d < 0x80 ∧ ¬ (0x41 ≤ d ∧ d ≤ 0x5A) := by
  rcases h with h | h
  · obtain ⟨s, hs, hunits⟩ := escape_hides h
    refine ⟨s.map Fin.val, ?_, ?_⟩
    · have hsmall : ∀ u ∈ s, u.val < 0xD800 := fun u hu => by
        have := hunits u hu
        omega
      have hpoints := codePoints_small (s := unit '\\' :: s) (fun u hu => by
        rcases List.mem_cons.mp hu with rfl | hu
        · decide
        · exact hsmall u hu) []
      rw [List.append_nil] at hpoints
      unfold escapePoints
      rw [hs, hpoints]
      simp [codePoints, unit]
    · intro d hd
      obtain ⟨u, hu, rfl⟩ := List.mem_map.mp hd
      have := hunits u hu
      omega
  · refine ⟨[c], escapePoints_mark h, fun d hd => ?_⟩
    obtain rfl := List.mem_singleton.mp hd
    unfold Marks at h
    omega

theorem escapePoints_lowered {c : ℕ} (h : Hides c ∨ Marks c) :
    ∀ d ∈ escapePoints c, T.Lowered d := by
  obtain ⟨cs, hcs, hascii⟩ := escapePoints_escape h
  rw [hcs]
  intro d hd
  rcases List.mem_cons.mp hd with rfl | hd
  · exact T.lowered_ascii (by decide) (by decide)
  · exact T.lowered_ascii (hascii d hd).2.1 (hascii d hd).2.2

/-- Neither a hidden code point nor a mark is cased or ignored. -/
theorem uncased_of_escape {c : ℕ} (h : Hides c ∨ Marks c) :
    T.cased c = false ∧ T.ignorable c = false := by
  have hascii (hc : c < 0x80) (hletter : ¬ (0x41 ≤ c ∧ c ≤ 0x5A) ∧ ¬ (0x61 ≤ c ∧ c ≤ 0x7A))
      (hmark : c ∉ [0x27, 0x2E, 0x3A, 0x5E, 0x60]) :
      T.cased c = false ∧ T.ignorable c = false := by
    rw [T.cased_ascii c hc, T.ignorable_ascii c hc]
    refine ⟨?_, decide_eq_false hmark⟩
    simp only [Bool.or_eq_false_iff, Bool.and_eq_false_iff, decide_eq_false_iff_not]
    omega
  rcases h with (h | h) | h
  · refine hascii (by omega) (by omega) ?_
    simp only [List.mem_cons, List.not_mem_nil, or_false]
    omega
  · exact T.surrogate_plain c h
  · rcases h with rfl | rfl <;> exact hascii (by decide) (by decide) (by decide)

theorem reachesCased_escape {c : ℕ} (h : Hides c ∨ Marks c) (cs : List ℕ) :
    T.reachesCased (c :: cs) = false := by
  obtain ⟨hcased, hignorable⟩ := uncased_of_escape T h
  rw [CaseTables.reachesCased, hcased, hignorable]
  rfl

/-- Escaping what follows does not matter to what stands before it. -/
theorem reachesCased_escaped {cs after : List ℕ} (hcs : ∀ c ∈ cs, c < 0x110000)
    (hafter : T.reachesCased after = false) :
    T.reachesCased (cs.flatMap escapePoints ++ after) = T.reachesCased cs := by
  induction cs with
  | nil => exact hafter
  | cons c cs ih =>
      have hrest := ih fun d hd => hcs d (List.mem_cons_of_mem c hd)
      rw [List.flatMap_cons]
      by_cases hescape : Hides c ∨ Marks c
      · obtain ⟨ds, hds, -⟩ := escapePoints_escape hescape
        rw [hds, reachesCased_escape T hescape, List.cons_append, List.cons_append]
        exact reachesCased_escape T (.inr (.inr rfl)) _
      · rw [not_or] at hescape
        rw [escapePoints_plain (hcs c List.mem_cons_self) hescape.1 hescape.2,
          List.singleton_append, List.cons_append, CaseTables.reachesCased,
          CaseTables.reachesCased, hrest]

/-! ### How a string and its text differ -/

/-- Reading backwards, a hidden code point is reached past ignorable ones. -/
def BehindHidden (before : List ℕ) : Prop :=
  ∃ xs c rest, before = xs ++ c :: rest ∧ Hides c ∧
    ∀ x ∈ xs, T.ignorable x = true ∧ T.cased x = false

/-- The first list is a lowered string after some code points, read backwards; the second
differs from it in sigmas that the text takes for final ones. -/
inductive Respelled : List ℕ → List ℕ → List ℕ → Prop where
  | nil (before : List ℕ) : Respelled before [] []
  | same {before cs ds : List ℕ} (c : ℕ) (h : Respelled (c :: before) cs ds) :
      Respelled before (c :: cs) (c :: ds)
  | final {before cs ds : List ℕ} (hbefore : BehindHidden T before)
      (hafter : T.reachesCased cs = false) (h : Respelled (smallSigma :: before) cs ds) :
      Respelled before (smallSigma :: cs) (finalSigma :: ds)

theorem Respelled.append_same {before cs ds : List ℕ} (es : List ℕ)
    (h : Respelled T (es.reverse ++ before) cs ds) :
    Respelled T before (es ++ cs) (es ++ ds) := by
  induction es generalizing before with
  | nil => exact h
  | cons e es ih =>
      refine .same e (ih ?_)
      simpa using h

/-- What reaches no cased code point reaches none once it is lowered. -/
theorem reachesCased_lowered {before cs : List ℕ} (h : T.reachesCased cs = false) :
    T.reachesCased (T.lowerPoints before [] cs) = false := by
  induction cs generalizing before with
  | nil => rfl
  | cons c cs ih =>
      rw [CaseTables.reachesCased, Bool.or_eq_false_iff, Bool.and_eq_false_iff] at h
      obtain ⟨hcased, hrest⟩ := h
      rw [CaseTables.lowerPoints, T.lowerPoint_of_lowered (T.lower_uncased c hcased),
        List.singleton_append, CaseTables.reachesCased, hcased]
      rcases hrest with hignorable | hrest
      · rw [hignorable]
        rfl
      · rw [ih hrest, Bool.and_false]
        rfl

/-- Nothing a code point is lowered to is escaped, unless it is escaped itself. -/
theorem lower_plain {c d : ℕ} (hc : c < 0x110000) (hhides : ¬ Hides c) (hmarks : ¬ Marks c)
    (hd : d ∈ T.lower c) : d < 0x110000 ∧ ¬ Hides d ∧ ¬ Marks d := by
  have hscalar : IsScalar c := ⟨hc, Bool.eq_false_iff.mpr (not_or.mp hhides).2⟩
  obtain ⟨hlt, hsur⟩ := T.lower_scalar c hscalar d hd
  have hplain (hlow : 0x20 ≤ d) (h22 : d ≠ 0x22) (h5C : d ≠ 0x5C) :
      d < 0x110000 ∧ ¬ Hides d ∧ ¬ Marks d := by
    refine ⟨hlt, ?_, ?_⟩
    · rintro (h | h)
      · omega
      · exact absurd (hsur.symm.trans h) (by decide)
    · rintro (h | h) <;> omega
  by_cases hascii : c < 0x80
  · rw [T.lower_ascii c hascii, List.mem_singleton] at hd
    unfold Hides at hhides
    unfold Marks at hmarks
    split at hd <;> exact hplain (by omega) (by omega) (by omega)
  · have hwide := T.lower_wide c (by omega) d hd
    exact hplain (by omega) (by omega) (by omega)

theorem flatMap_escapePoints_plain {cs : List ℕ}
    (h : ∀ c ∈ cs, c < 0x110000 ∧ ¬ Hides c ∧ ¬ Marks c) : cs.flatMap escapePoints = cs := by
  induction cs with
  | nil => rfl
  | cons c cs ih =>
      obtain ⟨hlt, hhides, hmarks⟩ := h c List.mem_cons_self
      rw [List.flatMap_cons, escapePoints_plain hlt hhides hmarks,
        ih fun d hd => h d (List.mem_cons_of_mem c hd), List.singleton_append]

theorem escapePoints_sigma {c : ℕ} (h : c = smallSigma ∨ c = finalSigma ∨ c = capitalSigma) :
    escapePoints c = [c] := by
  rcases h with rfl | rfl | rfl <;> decide

/-- The contexts of a place in a string and of its place in the text: the text sees a cased
code point where the string does, and elsewhere only in an escape. -/
structure Contexts (before inText lowered : List ℕ) : Prop where
  cased : T.reachesCased before = true → T.reachesCased inText = true
  hidden : T.reachesCased before = false → T.reachesCased inText = true → BehindHidden T lowered

theorem Contexts.escape {before inText lowered : List ℕ} {c : ℕ} (h : Hides c ∨ Marks c) :
    Contexts T (c :: before) ((escapePoints c).reverse ++ inText) (c :: lowered) := by
  constructor
  · intro hcased
    rw [reachesCased_escape T h] at hcased
    exact absurd hcased (by decide)
  · intro _ htext
    rcases h with h | h
    · exact ⟨[], c, lowered, rfl, h, by simp⟩
    · rw [escapePoints_mark h, List.reverse_cons, List.reverse_singleton, List.singleton_append,
        List.cons_append, reachesCased_escape T (.inr h)] at htext
      exact absurd htext (by decide)

theorem Contexts.plain {before inText lowered : List ℕ} (h : Contexts T before inText lowered)
    (c : ℕ) : Contexts T (c :: before) (c :: inText) ((T.lower c).reverse ++ lowered) := by
  constructor
  · simp only [CaseTables.reachesCased, Bool.or_eq_true, Bool.and_eq_true]
    exact Or.imp_right fun hreach => ⟨hreach.1, h.cased hreach.2⟩
  · intro hbefore htext
    rw [CaseTables.reachesCased, Bool.or_eq_false_iff] at hbefore
    obtain ⟨hcased, hrest⟩ := hbefore
    rw [CaseTables.reachesCased, hcased, Bool.false_or, Bool.and_eq_true] at htext
    rw [htext.1, Bool.true_and] at hrest
    obtain ⟨xs, d, rest, rfl, hd, hxs⟩ := h.hidden hrest htext.2
    rw [T.lower_uncased c hcased]
    refine ⟨c :: xs, d, rest, rfl, hd, fun x hx => ?_⟩
    rcases List.mem_cons.mp hx with rfl | hx
    · exact ⟨htext.1, hcased⟩
    · exact hxs x hx

/-- **What a text has of a string is the string lowered, respelled and escaped.** -/
theorem lowered_escaped {cs before inText lowered after : List ℕ}
    (hcs : ∀ c ∈ cs, c < 0x110000) (h : Contexts T before inText lowered)
    (hafter : T.reachesCased after = false) :
    ∃ ds, Respelled T lowered (T.lowerPoints before [] cs) ds ∧
      T.lowerPoints inText after (cs.flatMap escapePoints) = ds.flatMap escapePoints := by
  induction cs generalizing before inText lowered with
  | nil => exact ⟨[], .nil _, rfl⟩
  | cons c cs ih =>
      have hrest := fun d hd => hcs d (List.mem_cons_of_mem c hd)
      rw [CaseTables.lowerPoints, List.flatMap_cons, CaseTables.lowerPoints_append,
        List.append_nil]
      by_cases hescape : Hides c ∨ Marks c
      · obtain ⟨ds, hds, htext⟩ := ih hrest (.escape T hescape)
        refine ⟨c :: ds, ?_, ?_⟩
        · rw [T.lowerPoint_of_lowered (T.lower_uncased c (uncased_of_escape T hescape).1)]
          exact .same c hds
        · rw [T.lowerPoints_of_lowered (escapePoints_lowered T hescape), htext, List.flatMap_cons]
      · rw [not_or] at hescape
        rw [escapePoints_plain (hcs c List.mem_cons_self) hescape.1 hescape.2]
        by_cases hsigma : c = capitalSigma
        · subst hsigma
          -- Both are cased from here on, and only a sigma behind an escape differs.
          have hcased (before : List ℕ) : T.reachesCased (capitalSigma :: before) = true := by
            rw [CaseTables.reachesCased, T.cased_capitalSigma, Bool.true_or]
          have hcontexts (l : List ℕ) :
              Contexts T (capitalSigma :: before) ([capitalSigma].reverse ++ inText) l :=
            ⟨fun _ => hcased inText, fun hnot _ => absurd (hcased before) (by simp [hnot])⟩
          have hfollows := reachesCased_escaped T hrest hafter
          unfold CaseTables.lowerPoint
          rw [if_pos rfl, CaseTables.lowerPoints, CaseTables.lowerPoints, CaseTables.lowerPoint,
            if_pos rfl, List.nil_append, hfollows, List.append_nil]
          cases hcs' : T.reachesCased cs with
          | true =>
              obtain ⟨ds, hds, htext⟩ := ih hrest (hcontexts (smallSigma :: lowered))
              refine ⟨smallSigma :: ds, ?_, ?_⟩
              · simpa using .same smallSigma hds
              · rw [htext, List.flatMap_cons, escapePoints_sigma (.inl rfl)]
                simp
          | false =>
              cases htextual : T.reachesCased inText with
              | false =>
                  have hbefore : T.reachesCased before = false := by
                    by_contra hreach
                    exact absurd (h.cased (Bool.not_eq_false _ ▸ hreach)) (by simp [htextual])
                  obtain ⟨ds, hds, htext⟩ := ih hrest (hcontexts (smallSigma :: lowered))
                  refine ⟨smallSigma :: ds, ?_, ?_⟩
                  · rw [hbefore]
                    exact .same smallSigma hds
                  · rw [htext, List.flatMap_cons, escapePoints_sigma (.inl rfl)]
                    rfl
              | true =>
                  cases hbefore : T.reachesCased before with
                  | true =>
                      obtain ⟨ds, hds, htext⟩ := ih hrest (hcontexts (finalSigma :: lowered))
                      refine ⟨finalSigma :: ds, .same finalSigma hds, ?_⟩
                      rw [htext, List.flatMap_cons, escapePoints_sigma (.inr (.inl rfl))]
                      rfl
                  | false =>
                      obtain ⟨ds, hds, htext⟩ := ih hrest (hcontexts (smallSigma :: lowered))
                      refine ⟨finalSigma :: ds, ?_, ?_⟩
                      · exact .final (h.hidden hbefore htextual) (reachesCased_lowered T hcs') hds
                      · rw [htext, List.flatMap_cons, escapePoints_sigma (.inr (.inl rfl))]
                        rfl
        · obtain ⟨ds, hds, htext⟩ := ih hrest (h.plain T c)
          refine ⟨T.lower c ++ ds, ?_, ?_⟩
          · rw [CaseTables.lowerPoint, if_neg hsigma]
            exact .append_same T (T.lower c) hds
          · rw [List.reverse_singleton, List.singleton_append, htext, CaseTables.lowerPoints,
              CaseTables.lowerPoints, CaseTables.lowerPoint, if_neg hsigma, List.append_nil,
              List.flatMap_append, flatMap_escapePoints_plain fun d hd =>
                lower_plain T (hcs c List.mem_cons_self) hescape.1 hescape.2 hd]

end Kaiban
