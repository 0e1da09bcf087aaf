/-
`toLowerCase`.

The language lowers a string code point by code point from the tables of Unicode, with one
rule that looks around: a capital sigma at the end of a word becomes a final sigma.  The
tables are a parameter, with what is relied on of them as its laws.
-/
import Kaiban.Lib.Text

open JsString

/-- Σ, and the two letters it is lowered to. -/
abbrev capitalSigma : ℕ := 0x3A3

abbrev smallSigma : ℕ := 0x3C3

abbrev finalSigma : ℕ := 0x3C2

/-- The tables of Unicode that lowering a string reads. -/
structure CaseTables where
  /-- The code points a code point is lowered to, wherever it stands. -/
  lower : ℕ → List ℕ
  /-- `Cased` and `Case_Ignorable`. -/
  cased : ℕ → Bool
  ignorable : ℕ → Bool
  lower_ascii : ∀ c < 0x80, lower c = [if 0x41 ≤ c ∧ c ≤ 0x5A then c + 0x20 else c]
  /-- What is lowered into ASCII is a letter. -/
  lower_wide : ∀ c, 0x80 ≤ c → ∀ d ∈ lower c, 0x80 ≤ d ∨ 0x61 ≤ d ∧ d ≤ 0x7A
  lower_scalar : ∀ c, IsScalar c → ∀ d ∈ lower c, IsScalar d
  lower_ne_nil : ∀ c, lower c ≠ []
  lower_lower : ∀ c, ∀ d ∈ lower c, lower d = [d]
  lower_sigma : lower capitalSigma = [smallSigma] ∧ lower finalSigma = [finalSigma]
  /-- Only cased code points are lowered to others. -/
  lower_uncased : ∀ c, cased c = false → lower c = [c]
  cased_ascii : ∀ c < 0x80, cased c = (0x41 ≤ c && c ≤ 0x5A || 0x61 ≤ c && c ≤ 0x7A)
  /-- The apostrophe, the full stop, the colon, the circumflex and the grave accent. -/
  ignorable_ascii : ∀ c < 0x80, ignorable c = decide (c ∈ [0x27, 0x2E, 0x3A, 0x5E, 0x60])
  surrogate_plain : ∀ c, isSurrogate c = true → cased c = false ∧ ignorable c = false

namespace CaseTables

variable (T : CaseTables)

/-- Past ignorable code points there is a cased one. -/
def reachesCased : List ℕ → Bool
  | [] => false
  | c :: cs => T.cased c || T.ignorable c && reachesCased cs

/-- A code point lowered between what stands before it, read backwards, and what follows. -/
def lowerPoint (before : List ℕ) (c : ℕ) (after : List ℕ) : List ℕ :=
  if c = capitalSigma then
    [if T.reachesCased before && !T.reachesCased after then finalSigma else smallSigma]
  else T.lower c

/-- Code points lowered between what stands before them, read backwards, and what follows. -/
def lowerPoints (before after : List ℕ) : List ℕ → List ℕ
  | [] => []
  | c :: cs => T.lowerPoint before c (cs ++ after) ++ lowerPoints (c :: before) after cs

/-- `s.toLowerCase()`. -/
def toLowerCase (s : JsString) : JsString := ofPoints (T.lowerPoints [] [] (codePoints s))

/-! ### Code points that stay -/

theorem lower_smallSigma : T.lower smallSigma = [smallSigma] :=
  T.lower_lower capitalSigma smallSigma (by rw [T.lower_sigma.1]; exact List.mem_singleton_self _)

theorem cased_capitalSigma : T.cased capitalSigma = true := by
  by_contra h
  have hsame := T.lower_uncased capitalSigma (Bool.eq_false_iff.mpr h)
  rw [T.lower_sigma.1] at hsame
  exact absurd hsame (by decide)

/-- A code point lowering leaves as it is, wherever it stands. -/
def Lowered (c : ℕ) : Prop := T.lower c = [c]

theorem Lowered.ne_capitalSigma {c : ℕ} (h : T.Lowered c) : c ≠ capitalSigma := by
  rintro rfl
  exact absurd (T.lower_sigma.1.symm.trans h) (by decide)

theorem lowerPoint_of_lowered {c : ℕ} (h : T.Lowered c) (before after : List ℕ) :
    T.lowerPoint before c after = [c] := by
  unfold lowerPoint
  rw [if_neg h.ne_capitalSigma]
  exact h

theorem lowered_lowerPoint {before after : List ℕ} {c d : ℕ}
    (h : d ∈ T.lowerPoint before c after) : T.Lowered d := by
  unfold lowerPoint at h
  split at h
  · rw [List.mem_singleton] at h
    subst h
    split
    · exact T.lower_sigma.2
    · exact T.lower_smallSigma
  · exact T.lower_lower c d h

/-- What was lowered stays. -/
theorem lowered_lowerPoints {before after cs : List ℕ} {d : ℕ}
    (h : d ∈ T.lowerPoints before after cs) : T.Lowered d := by
  induction cs generalizing before with
  | nil => exact absurd h List.not_mem_nil
  | cons c cs ih =>
      rcases List.mem_append.mp h with h | h
      · exact T.lowered_lowerPoint h
      · exact ih h

theorem lowerPoints_of_lowered {cs : List ℕ} (h : ∀ c ∈ cs, T.Lowered c) (before after : List ℕ) :
    T.lowerPoints before after cs = cs := by
  induction cs generalizing before with
  | nil => rfl
  | cons c cs ih =>
      rw [lowerPoints, T.lowerPoint_of_lowered (h c List.mem_cons_self),
        ih fun d hd => h d (List.mem_cons_of_mem c hd)]
      rfl

/-! ### Parts -/

theorem lowerPoints_append (before after cs ds : List ℕ) :
    T.lowerPoints before after (cs ++ ds)
      = T.lowerPoints before (ds ++ after) cs ++ T.lowerPoints (cs.reverse ++ before) after ds := by
  induction cs generalizing before with
  | nil => rfl
  | cons c cs ih =>
      rw [List.cons_append, lowerPoints, lowerPoints, ih, List.append_assoc, List.append_assoc,
        List.reverse_cons, List.append_assoc, List.singleton_append]

theorem reachesCased_append_congr (cs : List ℕ) {after after' : List ℕ}
    (h : T.reachesCased after = T.reachesCased after') :
    T.reachesCased (cs ++ after) = T.reachesCased (cs ++ after') := by
  induction cs with
  | nil => exact h
  | cons c cs ih => rw [List.cons_append, List.cons_append, reachesCased, reachesCased, ih]

/-- All that matters of what follows is whether it reaches a cased code point. -/
theorem lowerPoints_after {after after' : List ℕ}
    (h : T.reachesCased after = T.reachesCased after') (before cs : List ℕ) :
    T.lowerPoints before after cs = T.lowerPoints before after' cs := by
  induction cs generalizing before with
  | nil => rfl
  | cons c cs ih =>
      rw [lowerPoints, lowerPoints, ih]
      congr 1
      unfold lowerPoint
      rw [T.reachesCased_append_congr cs h]

theorem lowerPoints_scalar (before after : List ℕ) {cs : List ℕ} (h : ∀ c ∈ cs, IsScalar c) :
    ∀ d ∈ T.lowerPoints before after cs, IsScalar d := by
  induction cs generalizing before with
  | nil => exact fun d hd => absurd hd List.not_mem_nil
  | cons c cs ih =>
      intro d hd
      rcases List.mem_append.mp hd with hd | hd
      · unfold lowerPoint at hd
        split at hd
        · rw [List.mem_singleton] at hd
          subst hd
          split <;> exact ⟨by decide, by decide⟩
        · exact T.lower_scalar c (h c List.mem_cons_self) d hd
      · exact ih _ (fun e he => h e (List.mem_cons_of_mem c he)) d hd

/-! ### The code points of a lowered text -/

theorem lowerPoint_ne_nil (before : List ℕ) (c : ℕ) (after : List ℕ) :
    T.lowerPoint before c after ≠ [] := by
  unfold lowerPoint
  split
  · exact List.cons_ne_nil _ _
  · exact T.lower_ne_nil c

theorem lowerPoint_scalar {c : ℕ} (hc : IsScalar c) (before after : List ℕ) :
    ∀ d ∈ T.lowerPoint before c after, IsScalar d := by
  have hone : ∀ d ∈ [c], IsScalar d := fun d hd => (List.mem_singleton.mp hd) ▸ hc
  have h := T.lowerPoints_scalar before after hone
  simpa [lowerPoints] using h

theorem lowerPoint_surrogate {c : ℕ} (hc : isSurrogate c = true) (before after : List ℕ) :
    T.lowerPoint before c after = [c] :=
  T.lowerPoint_of_lowered (T.lower_uncased c (T.surrogate_plain c hc).1) before after

/-- The first unit of a scalar code point is no low surrogate. -/
theorem head?_pointUnits_scalar {c : ℕ} (hc : IsScalar c) (s : JsString) :
    ∀ u ∈ (pointUnits c ++ s).head?, isLow u = false := by
  obtain ⟨hlt, hsur⟩ := hc
  simp only [isSurrogate, Bool.and_eq_false_iff, decide_eq_false_iff_not] at hsur
  intro u hu
  simp only [isLow, Bool.and_eq_false_iff, decide_eq_false_iff_not]
  unfold pointUnits at hu
  split at hu
  · obtain rfl := Option.some.inj hu
    have hval : (Fin.ofNat 0x10000 c).val = c := Nat.mod_eq_of_lt ‹_›
    omega
  · obtain rfl := Option.some.inj hu
    have hval : (Fin.ofNat 0x10000 (0xD800 + (c - 0x10000) / 0x400)).val
        = 0xD800 + (c - 0x10000) / 0x400 := Nat.mod_eq_of_lt (by omega)
    omega

theorem head?_ofPoints_scalar {cs : List ℕ} (hcs : ∀ c ∈ cs, IsScalar c) (hne : cs ≠ [])
    (s : JsString) : ∀ u ∈ (ofPoints cs ++ s).head?, isLow u = false := by
  cases cs with
  | nil => exact absurd rfl hne
  | cons c cs =>
      rw [ofPoints_cons, List.append_assoc]
      exact head?_pointUnits_scalar (hcs c List.mem_cons_self) _

/-- A lone surrogate is lowered to itself, and anything else to scalar code points. -/
theorem lowerPoint_cases {s : JsString} {c : ℕ} (hc : c ∈ codePoints s) (before after : List ℕ) :
    (isSurrogate c = true ∧ T.lowerPoint before c after = [c]) ∨
      ∀ d ∈ T.lowerPoint before c after, IsScalar d := by
  cases hsur : isSurrogate c with
  | true => exact .inl ⟨rfl, T.lowerPoint_surrogate hsur before after⟩
  | false => exact .inr (T.lowerPoint_scalar ⟨codePoints_lt s c hc, hsur⟩ before after)

theorem head?_lowered {s : JsString} (hs : ∀ u ∈ s.head?, isLow u = false)
    (before after : List ℕ) :
    ∀ u ∈ (ofPoints (T.lowerPoints before after (codePoints s))).head?, isLow u = false := by
  cases hcs : codePoints s with
  | nil => exact fun u hu => absurd hu (by simp [lowerPoints])
  | cons c cs =>
      rw [lowerPoints, ofPoints_append]
      rcases T.lowerPoint_cases (s := s) (c := c) (by rw [hcs]; exact List.mem_cons_self) before
        (cs ++ after) with ⟨hsur, heq⟩ | hscalar
      · rw [heq]
        have hback := ofPoints_codePoints s
        rw [hcs, ofPoints_cons] at hback
        have hsmall : c < 0x10000 := by
          simp only [isSurrogate, Bool.and_eq_true, decide_eq_true_eq] at hsur
          omega
        intro u hu
        refine hs u ?_
        rw [← hback]
        simp only [ofPoints_cons, ofPoints_nil, List.append_nil, pointUnits, if_pos hsmall,
          List.singleton_append, List.head?_cons] at hu ⊢
        exact hu
      · exact head?_ofPoints_scalar hscalar (T.lowerPoint_ne_nil before c _) _

/-- **A lowered text is read back code point by code point.** -/
theorem codePoints_lowered (s : JsString) (before after : List ℕ) :
    codePoints (ofPoints (T.lowerPoints before after (codePoints s)))
      = T.lowerPoints before after (codePoints s) := by
  induction s using codePoints.induct generalizing before with
  | case1 => rfl
  | case2 u =>
      rw [codePoints, lowerPoints, lowerPoints, List.append_nil]
      rcases T.lowerPoint_cases (s := [u]) (c := u.val) (by simp [codePoints]) before
        ([] ++ after) with ⟨-, heq⟩ | hcs
      · rw [heq, ofPoints_cons, pointUnits_unit]
        rfl
      · exact codePoints_ofPoints hcs
  | case3 u v rest h ih =>
      have hmem : 0x10000 + (u.val - 0xD800) * 0x400 + (v.val - 0xDC00)
          ∈ codePoints (u :: v :: rest) := by
        simp [codePoints, h]
      have hpair := h
      simp only [isHigh, isLow, Bool.and_eq_true, decide_eq_true_eq] at hpair
      rw [codePoints, if_pos h, lowerPoints, ofPoints_append, codePoints_ofPoints_append ?_, ih]
      refine T.lowerPoint_scalar ⟨codePoints_lt _ _ hmem, ?_⟩ before _
      simp only [isSurrogate, Bool.and_eq_false_iff, decide_eq_false_iff_not]
      omega
  | case4 u v rest h ih =>
      rw [codePoints, if_neg h, lowerPoints, ofPoints_append]
      rcases T.lowerPoint_cases (s := u :: v :: rest) (c := u.val)
        (by simp [codePoints, h]) before (codePoints (v :: rest) ++ after) with ⟨-, heq⟩ | hcs
      · rw [heq, ofPoints_cons, pointUnits_unit, ofPoints_nil, List.append_nil,
          List.singleton_append, List.singleton_append]
        cases hhigh : isHigh u with
        | false => rw [codePoints_cons hhigh, ih]
        | true =>
            have hlow : isLow v = false := by
              rw [hhigh, Bool.true_and] at h
              exact Bool.eq_false_iff.mpr h
            have hhead := T.head?_lowered (s := v :: rest)
              (fun w hw => (Option.some.inj hw) ▸ hlow) (u.val :: before) after
            have happend := codePoints_append [u] hhead
            rw [List.singleton_append] at happend
            rw [happend, ih]
            rfl
      · rw [codePoints_ofPoints_append hcs, ih]

theorem codePoints_toLowerCase (s : JsString) :
    codePoints (T.toLowerCase s) = T.lowerPoints [] [] (codePoints s) :=
  T.codePoints_lowered s [] []

/-- Lowering twice is lowering once. -/
theorem lowered_toLowerCase {s : JsString} {c : ℕ} (h : c ∈ codePoints (T.toLowerCase s)) :
    T.Lowered c := by
  rw [codePoints_toLowerCase] at h
  exact T.lowered_lowerPoints h

/-! ### ASCII -/

theorem lowered_ascii {c : ℕ} (hc : c < 0x80) (hupper : ¬ (0x41 ≤ c ∧ c ≤ 0x5A)) : T.Lowered c := by
  unfold Lowered
  rw [T.lower_ascii c hc, if_neg hupper]

/-- A unit of ASCII that is no capital letter. -/
def smallAscii (u : CodeUnit) : Bool := u.val < 0x80 && !(0x41 ≤ u.val && u.val ≤ 0x5A)

theorem smallAscii_lowered {u : CodeUnit} (h : smallAscii u = true) : T.Lowered u.val := by
  simp only [smallAscii, Bool.and_eq_true, decide_eq_true_eq, Bool.not_eq_true',
    Bool.and_eq_false_iff, decide_eq_false_iff_not] at h
  exact T.lowered_ascii h.1 (by omega)

theorem codePoints_smallAscii {s : JsString} (h : s.all smallAscii = true) :
    codePoints s = s.map Fin.val := by
  induction s with
  | nil => rfl
  | cons u rest ih =>
      rw [List.all_cons, Bool.and_eq_true] at h
      have hu : isHigh u = false := by
        simp only [smallAscii, Bool.and_eq_true, decide_eq_true_eq] at h
        simp only [isHigh, Bool.and_eq_false_iff, decide_eq_false_iff_not]
        omega
      rw [codePoints_cons hu, ih h.2, List.map_cons]

theorem ofPoints_map_val (s : JsString) : ofPoints (s.map Fin.val) = s := by
  induction s with
  | nil => rfl
  | cons u rest ih => rw [List.map_cons, ofPoints_cons, pointUnits_unit, ih, List.singleton_append]

theorem lowerPoints_smallAscii {s : JsString} (h : s.all smallAscii = true)
    (before after : List ℕ) : T.lowerPoints before after (s.map Fin.val) = s.map Fin.val := by
  refine T.lowerPoints_of_lowered (fun c hc => ?_) before after
  obtain ⟨u, hu, rfl⟩ := List.mem_map.mp hc
  exact T.smallAscii_lowered (List.all_eq_true.mp h u hu)

theorem toLowerCase_smallAscii {s : JsString} (h : s.all smallAscii = true) :
    T.toLowerCase s = s := by
  unfold toLowerCase
  rw [codePoints_smallAscii h, T.lowerPoints_smallAscii h, ofPoints_map_val]

/-- A unit of ASCII that is no letter. -/
def asciiMark (u : CodeUnit) : Bool :=
  smallAscii u && !(0x61 ≤ u.val && u.val ≤ 0x7A)

theorem reachesCased_asciiMarks {s : JsString} (h : s.all asciiMark = true) :
    T.reachesCased (s.map Fin.val) = false := by
  induction s with
  | nil => rfl
  | cons u rest ih =>
      rw [List.all_cons, Bool.and_eq_true] at h
      have hu : T.cased u.val = false := by
        have hmark := h.1
        simp only [asciiMark, smallAscii, Bool.and_eq_true, decide_eq_true_eq, Bool.not_eq_true',
          Bool.and_eq_false_iff, decide_eq_false_iff_not] at hmark
        rw [T.cased_ascii u.val hmark.1.1]
        simp only [Bool.or_eq_false_iff, Bool.and_eq_false_iff, decide_eq_false_iff_not]
        exact ⟨hmark.1.2, hmark.2⟩
      rw [List.map_cons, reachesCased, hu, ih h.2, Bool.and_false, Bool.or_false]

/-- **Marks after a text are left alone, and leave it alone.** -/
theorem toLowerCase_append_marks (s : JsString) {t : JsString} (h : t.all asciiMark = true) :
    T.toLowerCase (s ++ t) = T.toLowerCase s ++ t := by
  have hsmall : t.all smallAscii = true := by
    rw [List.all_eq_true] at h ⊢
    intro u hu
    exact (Bool.and_eq_true_iff.mp (h u hu)).1
  have hlow : ∀ u ∈ t.head?, isLow u = false := by
    intro u hu
    have hu := List.all_eq_true.mp hsmall u (List.mem_of_head? hu)
    simp only [smallAscii, Bool.and_eq_true, decide_eq_true_eq] at hu
    simp only [isLow, Bool.and_eq_false_iff, decide_eq_false_iff_not]
    omega
  have hreaches : T.reachesCased (t.map Fin.val) = T.reachesCased [] :=
    T.reachesCased_asciiMarks h
  unfold toLowerCase
  rw [codePoints_append s hlow, codePoints_smallAscii hsmall, lowerPoints_append,
    T.lowerPoints_smallAscii hsmall, ofPoints_append, ofPoints_map_val, List.append_nil,
    T.lowerPoints_after hreaches]

/-! ### Tables of few letters -/

/-- The capital letters of ASCII and the capital sigma, lowered. -/
def basicLower (c : ℕ) : List ℕ :=
  if c = 0x3A3 then [0x3C3]
  else if 0x41 ≤ c ∧ c ≤ 0x5A then [c + 0x20] else [c]

/-- The letters of ASCII and the three sigmas. -/
def basicCased (c : ℕ) : Bool :=
  0x41 ≤ c && c ≤ 0x5A || 0x61 ≤ c && c ≤ 0x7A || decide (c ∈ [0x3A3, 0x3C3, 0x3C2])

/-- A code point is lowered in one of three ways. -/
theorem basicLower_cases (c : ℕ) : (c = 0x3A3 ∧ basicLower c = [0x3C3]) ∨
    ((0x41 ≤ c ∧ c ≤ 0x5A) ∧ basicLower c = [c + 0x20]) ∨
    (c ≠ 0x3A3 ∧ ¬ (0x41 ≤ c ∧ c ≤ 0x5A)) ∧ basicLower c = [c] := by
  unfold basicLower
  by_cases hsigma : c = 0x3A3
  · exact .inl ⟨hsigma, if_pos hsigma⟩
  rw [if_neg hsigma]
  by_cases hcapital : 0x41 ≤ c ∧ c ≤ 0x5A
  · exact .inr (.inl ⟨hcapital, if_pos hcapital⟩)
  · exact .inr (.inr ⟨⟨hsigma, hcapital⟩, if_neg hcapital⟩)

theorem basicLower_ascii (c : ℕ) (hc : c < 0x80) :
    basicLower c = [if 0x41 ≤ c ∧ c ≤ 0x5A then c + 0x20 else c] := by
  rcases basicLower_cases c with ⟨hsigma, -⟩ | ⟨hcapital, hlower⟩ | ⟨⟨-, hsmall⟩, hlower⟩
  · omega
  · rw [hlower, if_pos hcapital]
  · rw [hlower, if_neg hsmall]

theorem basicLower_wide (c : ℕ) (hc : 0x80 ≤ c) (d : ℕ) (hd : d ∈ basicLower c) :
    0x80 ≤ d ∨ 0x61 ≤ d ∧ d ≤ 0x7A := by
  rcases basicLower_cases c with ⟨-, hlower⟩ | ⟨hcapital, -⟩ | ⟨-, hlower⟩
  · rw [hlower, List.mem_singleton] at hd
    omega
  · omega
  · rw [hlower, List.mem_singleton] at hd
    omega

theorem basicLower_scalar (c : ℕ) (hc : IsScalar c) (d : ℕ) (hd : d ∈ basicLower c) :
    IsScalar d := by
  rcases basicLower_cases c with ⟨-, hlower⟩ | ⟨hcapital, hlower⟩ | ⟨-, hlower⟩ <;>
    rw [hlower, List.mem_singleton] at hd
  · subst hd
    exact ⟨by decide, by decide⟩
  · refine ⟨by omega, ?_⟩
    simp only [isSurrogate, Bool.and_eq_false_iff, decide_eq_false_iff_not]
    omega
  · rwa [hd]

theorem basicLower_ne_nil (c : ℕ) : basicLower c ≠ [] := by
  rcases basicLower_cases c with ⟨-, hlower⟩ | ⟨-, hlower⟩ | ⟨-, hlower⟩ <;> rw [hlower] <;>
    exact List.cons_ne_nil _ _

theorem basicLower_idem (c d : ℕ) (hd : d ∈ basicLower c) : basicLower d = [d] := by
  rcases basicLower_cases c with ⟨-, hlower⟩ | ⟨hcapital, hlower⟩ | ⟨-, hlower⟩
  · rw [hlower, List.mem_singleton] at hd
    subst hd
    rfl
  · rw [hlower, List.mem_singleton] at hd
    rcases basicLower_cases d with ⟨hsigma, -⟩ | ⟨hagain, -⟩ | ⟨-, hsame⟩
    · omega
    · omega
    · exact hsame
  · rw [hlower, List.mem_singleton] at hd
    rw [hd, hlower]

theorem basicLower_sigma :
    basicLower capitalSigma = [smallSigma] ∧ basicLower finalSigma = [finalSigma] := ⟨rfl, rfl⟩

theorem basicLower_uncased (c : ℕ) (hc : basicCased c = false) : basicLower c = [c] := by
  simp only [basicCased, Bool.or_eq_false_iff, Bool.and_eq_false_iff, decide_eq_false_iff_not,
    List.mem_cons, not_or] at hc
  rcases basicLower_cases c with ⟨hsigma, -⟩ | ⟨hcapital, -⟩ | ⟨-, hlower⟩
  · exact absurd hsigma hc.2.1
  · omega
  · exact hlower

theorem basicCased_ascii (c : ℕ) (hc : c < 0x80) :
    basicCased c = (0x41 ≤ c && c ≤ 0x5A || 0x61 ≤ c && c ≤ 0x7A) := by
  have hsigma : decide (c ∈ [0x3A3, 0x3C3, 0x3C2]) = false := by
    rw [decide_eq_false_iff_not, List.mem_cons, List.mem_cons, List.mem_singleton]
    omega
  unfold basicCased
  rw [hsigma, Bool.or_false]

theorem basic_surrogate (c : ℕ) (hc : isSurrogate c = true) :
    basicCased c = false ∧ decide (c ∈ [0x27, 0x2E, 0x3A, 0x5E, 0x60]) = false := by
  simp only [isSurrogate, Bool.and_eq_true, decide_eq_true_eq] at hc
  simp only [basicCased, Bool.or_eq_false_iff, Bool.and_eq_false_iff, decide_eq_false_iff_not,
    List.mem_cons, List.not_mem_nil, or_false]
  omega

/-- What the tables of Unicode say of ASCII and of sigma, and of nothing else. -/
def basic : CaseTables where
  lower := basicLower
  cased := basicCased
  ignorable c := decide (c ∈ [0x27, 0x2E, 0x3A, 0x5E, 0x60])
  lower_ascii := basicLower_ascii
  lower_wide := basicLower_wide
  lower_scalar := basicLower_scalar
  lower_ne_nil := basicLower_ne_nil
  lower_lower := basicLower_idem
  lower_sigma := basicLower_sigma
  lower_uncased := basicLower_uncased
  cased_ascii := basicCased_ascii
  ignorable_ascii _ _ := rfl
  surrogate_plain := basic_surrogate

end CaseTables
