/-
Terms that are found wherever a payload has them.

A term without an escape in its middle is found: the text has every string of the payload,
lowered, respelled and escaped, and at its ends a term can do without the backslashes an
escape adds.
-/
import Kaiban.Proofs.PolicyEngine.Respelled

open JsString

namespace Kaiban

variable (T : CaseTables)

/-! ### The strings of a payload -/

/-- A string value of a JSON value, at any depth. -/
inductive HasString : Json → JsString → Prop where
  | str (s : JsString) : HasString (.str s) s
  | arr {vs : List Json} {v : Json} {s : JsString} (hv : v ∈ vs) (h : HasString v s) :
      HasString (.arr vs) s
  | obj {ms : List (JsString × Json)} {m : JsString × Json} {s : JsString} (hm : m ∈ ms)
      (h : HasString m.2 s) : HasString (.obj ms) s

theorem stringify_infix_moreItems {vs : List Json} {v : Json} (hv : v ∈ vs) :
    Json.stringify v <:+: Json.moreItems vs := by
  induction vs with
  | nil => exact absurd hv List.not_mem_nil
  | cons w vs ih =>
      rw [Json.moreItems]
      rcases List.mem_cons.mp hv with rfl | hv
      · exact ((List.prefix_append _ _).isInfix).trans (List.suffix_cons _ _).isInfix
      · exact (ih hv).trans ((List.suffix_append _ _).trans (List.suffix_cons _ _)).isInfix

theorem stringify_infix_items {vs : List Json} {v : Json} (hv : v ∈ vs) :
    Json.stringify v <:+: Json.items vs := by
  cases vs with
  | nil => exact absurd hv List.not_mem_nil
  | cons w vs =>
      rw [Json.items]
      rcases List.mem_cons.mp hv with rfl | hv
      · exact (List.prefix_append _ _).isInfix
      · exact (stringify_infix_moreItems hv).trans (List.suffix_append _ _).isInfix

theorem stringify_infix_moreMembers {ms : List (JsString × Json)} {m : JsString × Json}
    (hm : m ∈ ms) : Json.stringify m.2 <:+: Json.moreMembers ms := by
  induction ms with
  | nil => exact absurd hm List.not_mem_nil
  | cons n ms ih =>
      rw [Json.moreMembers]
      rcases List.mem_cons.mp hm with rfl | hm
      · exact (List.prefix_append _ _).isInfix.trans
          ((List.suffix_cons _ _).trans ((List.suffix_append _ _).trans
            (List.suffix_cons _ _))).isInfix
      · exact (ih hm).trans ((List.suffix_append _ _).trans ((List.suffix_cons _ _).trans
          ((List.suffix_append _ _).trans (List.suffix_cons _ _)))).isInfix

theorem stringify_infix_members {ms : List (JsString × Json)} {m : JsString × Json}
    (hm : m ∈ ms) : Json.stringify m.2 <:+: Json.members ms := by
  cases ms with
  | nil => exact absurd hm List.not_mem_nil
  | cons n ms =>
      rw [Json.members]
      rcases List.mem_cons.mp hm with rfl | hm
      · exact (List.prefix_append _ _).isInfix.trans
          ((List.suffix_cons _ _).trans (List.suffix_append _ _)).isInfix
      · exact (stringify_infix_moreMembers hm).trans ((List.suffix_append _ _).trans
          ((List.suffix_cons _ _).trans (List.suffix_append _ _))).isInfix

/-- A text has each string of its value, quoted. -/
theorem quote_within {v : Json} {s : JsString} (h : HasString v s) :
    Json.quote s <:+: Json.stringify v := by
  induction h with
  | str s => exact List.infix_rfl
  | arr hv _ ih =>
      rw [Json.stringify]
      exact (ih.trans (stringify_infix_items hv)).trans (List.suffix_cons _ _).isInfix
  | obj hm _ ih =>
      rw [Json.stringify]
      exact (ih.trans (stringify_infix_members hm)).trans (List.suffix_cons _ _).isInfix

/-! ### A string in lower case, in the text in lower case -/

theorem codePoints_escaped {cs : List ℕ} (hcs : ∀ c ∈ cs, c < 0x110000) (t : JsString) :
    codePoints (cs.flatMap Json.escape ++ t) = cs.flatMap escapePoints ++ codePoints t := by
  induction cs with
  | nil => rfl
  | cons c cs ih =>
      obtain ⟨ds, hds, hscalar⟩ := (escape_spec (hcs c List.mem_cons_self)).1
      unfold escapePoints at ih ⊢
      rw [List.flatMap_cons, List.flatMap_cons, List.append_assoc, hds,
        codePoints_ofPoints_append hscalar, codePoints_ofPoints hscalar,
        ih fun d hd => hcs d (List.mem_cons_of_mem c hd), List.append_assoc]

/-- The code points of a text around a quoted string. -/
theorem codePoints_quote (s before after : JsString) :
    codePoints (before ++ Json.quote s ++ after)
      = codePoints before ++ 0x22 :: ((codePoints s).flatMap escapePoints
        ++ 0x22 :: codePoints after) := by
  have hquote : isHigh (unit '"') = false := by decide
  rw [List.append_assoc, codePoints_append before (by
    intro u hu
    rw [← Option.some.inj hu]
    decide)]
  unfold Json.quote
  rw [List.cons_append, codePoints_cons hquote, List.append_assoc,
    codePoints_escaped (codePoints_lt s), List.singleton_append, codePoints_cons hquote]
  rfl

/-- **The text has each of its strings in lower case, respelled and escaped.** -/
theorem respelled_within {text s : JsString} (h : Json.quote s <:+: text) :
    ∃ ds, Respelled T [] (T.lowerPoints [] [] (codePoints s)) ds ∧
      ofPoints (ds.flatMap escapePoints) <:+: T.toLowerCase text := by
  obtain ⟨before, after, rfl⟩ := h
  have hmark (cs : List ℕ) : T.reachesCased (0x22 :: cs) = false :=
    reachesCased_escape T (.inr (.inl rfl)) cs
  have hcontexts : Contexts T [] (0x22 :: (codePoints before).reverse) [] :=
    ⟨fun hcased => absurd hcased (by simp [CaseTables.reachesCased]),
      fun _ hcased => absurd hcased (by simp [hmark])⟩
  obtain ⟨ds, hds, htext⟩ :=
    lowered_escaped T (codePoints_lt s) hcontexts (hmark (codePoints after))
  refine ⟨ds, hds, ?_⟩
  unfold CaseTables.toLowerCase
  rw [codePoints_quote, CaseTables.lowerPoints_append, CaseTables.lowerPoints, List.append_nil,
    List.append_nil, CaseTables.lowerPoints_append, List.append_nil, List.append_nil, htext,
    ofPoints_append, ofPoints_append, ofPoints_append]
  exact ((List.prefix_append _ _).isInfix.trans (List.suffix_append _ _).isInfix).trans
    (List.suffix_append _ _).isInfix

/-! ### Terms that can be read -/

/-- Some sigma of the code points could begin a word after an escape, or end one. -/
def SigmaExposed (cs : List ℕ) : Prop :=
  ∃ xs ys, cs = xs ++ smallSigma :: ys ∧ (∀ x ∈ xs, T.ignorable x = true ∧ T.cased x = false) ∧
    T.reachesCased ys = false

/-- The marks are backslashes at either end, and at most one more after the first ones. -/
def MarksAtEnds (cs : List ℕ) : Prop :=
  ∃ i j middle, cs = List.replicate i 0x5C ++ middle ++ List.replicate j 0x5C ∧
    ∀ c ∈ middle.tail, ¬ Marks c

/-- Code points, in lower case, that the text has wherever a string has them. -/
structure Readable (cs : List ℕ) : Prop where
  shown : ∀ c ∈ cs, ¬ Hides c
  marks : MarksAtEnds cs
  sigmas : ¬ SigmaExposed T cs

/-- What can be read is not respelled. -/
theorem Respelled.readable {before cs es fs : List ℕ} (ds : List ℕ)
    (hshown : ∀ c ∈ ds ++ es, ¬ Hides c) (hsigmas : ¬ SigmaExposed T (ds ++ es))
    (h : Respelled T (ds.reverse ++ before) (es ++ cs) fs) : es <+: fs := by
  induction es generalizing ds fs with
  | nil => exact List.nil_prefix
  | cons e es ih =>
      have hmove : (ds ++ [e]) ++ es = ds ++ e :: es := by simp
      have hrest {fs : List ℕ} (h : Respelled T (e :: (ds.reverse ++ before)) (es ++ cs) fs) :
          es <+: fs := by
        refine ih (ds ++ [e]) (hmove ▸ hshown) (hmove ▸ hsigmas) ?_
        simpa using h
      cases h with
      | same _ h => exact List.cons_prefix_cons.mpr ⟨rfl, hrest h⟩
      | final hbefore hafter h =>
          exfalso
          refine hsigmas ⟨ds, es, rfl, ?_, ?_⟩
          · obtain ⟨xs, c, rest, heq, hc, hxs⟩ := hbefore
            -- The hidden code point stands before the term, so all of the term up to here is
            -- what it is reached past.
            rcases List.append_eq_append_iff.mp heq with ⟨ys, hys, -⟩ | ⟨ys, hys, hrest⟩
            · intro x hx
              exact hxs x (by rw [hys]; simp [hx])
            · cases ys with
              | nil =>
                  intro x hx
                  exact hxs x (by
                    rw [List.append_nil] at hys
                    rw [← hys]
                    simp [hx])
              | cons y ys =>
                  obtain rfl := (List.cons.inj hrest).1
                  refine absurd hc (hshown c (List.mem_append_left _ ?_))
                  rw [← List.mem_reverse, hys]
                  simp
          · have hcongr (es : List ℕ) (h : T.reachesCased (es ++ cs) = false) :
                T.reachesCased es = false := by
              induction es with
              | nil => rfl
              | cons e es ih =>
                  rw [List.cons_append, CaseTables.reachesCased, Bool.or_eq_false_iff,
                    Bool.and_eq_false_iff] at h
                  rw [CaseTables.reachesCased, h.1, Bool.false_or, Bool.and_eq_false_iff]
                  exact h.2.imp_right ih
            exact hcongr es hafter

theorem flatMap_escapePoints_replicate (n : ℕ) :
    (List.replicate n 0x5C).flatMap escapePoints = List.replicate (n + n) 0x5C := by
  induction n with
  | zero => rfl
  | succ n ih =>
      rw [List.replicate_succ, List.flatMap_cons, ih, escapePoints_mark (.inr rfl),
        show n + 1 + (n + 1) = n + n + 1 + 1 by omega, List.replicate_succ, List.replicate_succ]
      rfl

/-- Terms whose marks are at their ends do without what escaping adds. -/
theorem infix_escaped {cs : List ℕ} (hcs : ∀ c ∈ cs, c < 0x110000) (hshown : ∀ c ∈ cs, ¬ Hides c)
    (h : MarksAtEnds cs) : cs <:+: cs.flatMap escapePoints := by
  obtain ⟨i, j, middle, rfl, hmiddle⟩ := h
  simp only [List.flatMap_append, flatMap_escapePoints_replicate]
  have hends (p : ℕ) (body : List ℕ) :
      List.replicate i 0x5C ++ body ++ List.replicate j 0x5C
        <:+: List.replicate (i + i) 0x5C ++ (List.replicate p 0x5C ++ body)
          ++ List.replicate (j + j) 0x5C := by
    refine ⟨List.replicate (i + p) 0x5C, List.replicate j 0x5C, ?_⟩
    simp only [← List.append_assoc, ← List.replicate_add]
    rw [List.append_assoc _ (List.replicate j _) (List.replicate j _), ← List.replicate_add,
      show i + p + i = i + i + p by omega]
  cases middle with
  | nil => simpa using hends 0 []
  | cons c rest =>
      have hrest : rest.flatMap escapePoints = rest := by
        refine flatMap_escapePoints_plain fun d hd => ⟨hcs d ?_, hshown d ?_, hmiddle d hd⟩ <;>
          simp [hd]
      rw [List.flatMap_cons, hrest]
      by_cases hmark : Marks c
      · rw [escapePoints_mark hmark]
        exact hends 1 (c :: rest)
      · rw [escapePoints_plain (hcs c (by simp)) (hshown c (by simp)) hmark]
        exact hends 0 (c :: rest)

/-- A text of scalar code points is where its code points are. -/
theorem infix_codePoints {cs : List ℕ} (hcs : ∀ c ∈ cs, IsScalar c) {s : JsString}
    (h : ofPoints cs <:+: s) : cs <:+: codePoints s := by
  by_cases hne : cs = []
  · rw [hne]
    exact List.nil_infix
  · obtain ⟨before, after, rfl⟩ := h
    rw [List.append_assoc,
      codePoints_append before (CaseTables.head?_ofPoints_scalar hcs hne after),
      codePoints_ofPoints_append hcs]
    exact ⟨codePoints before, codePoints after, by rw [List.append_assoc]⟩

theorem ofPoints_within {cs ds : List ℕ} (h : cs <:+: ds) : ofPoints cs <:+: ofPoints ds := by
  obtain ⟨before, after, rfl⟩ := h
  exact ⟨ofPoints before, ofPoints after, by rw [ofPoints_append, ofPoints_append]⟩

/-- A respelled string is respelled part by part. -/
theorem Respelled.split {before xs cs ds : List ℕ} (h : Respelled T before (xs ++ cs) ds) :
    ∃ fs gs, ds = fs ++ gs ∧ Respelled T (xs.reverse ++ before) cs gs := by
  induction xs generalizing before ds with
  | nil => exact ⟨[], ds, rfl, h⟩
  | cons x xs ih =>
      cases h with
      | same _ h =>
          obtain ⟨fs, gs, rfl, hgs⟩ := ih h
          exact ⟨x :: fs, gs, rfl, by simpa using hgs⟩
      | final _ _ h =>
          obtain ⟨fs, gs, rfl, hgs⟩ := ih h
          exact ⟨finalSigma :: fs, gs, rfl, by simpa using hgs⟩

/-- **What can be read is found in every text that quotes a string with it.** -/
theorem Readable.found {t s text : JsString} (h : Readable T (codePoints t))
    (ht : t <:+: T.toLowerCase s) (htext : Json.quote s <:+: text) : t <:+: T.toLowerCase text := by
  have hscalar : ∀ c ∈ codePoints t, IsScalar c := fun c hc =>
    ⟨codePoints_lt t c hc, Bool.eq_false_iff.mpr (not_or.mp (h.shown c hc)).2⟩
  have hpoints := ofPoints_codePoints t
  obtain ⟨ds, hds, hinfix⟩ := respelled_within T htext
  rw [← hpoints] at ht
  have hstring := infix_codePoints hscalar ht
  rw [T.codePoints_toLowerCase] at hstring
  obtain ⟨xs, ys, hsplit⟩ := hstring
  rw [← hsplit, List.append_assoc] at hds
  -- The text respells what stands before the term, and the term as it is.
  have hterm : codePoints t <:+: ds := by
    obtain ⟨fs, gs, rfl, hgs⟩ := Respelled.split T hds
    have hprefix := Respelled.readable T [] (by simpa using h.shown)
      (by simpa using h.sigmas) hgs
    exact hprefix.isInfix.trans (List.suffix_append fs gs).isInfix
  obtain ⟨zs, ws, rfl⟩ := hterm
  have hescaped := infix_escaped (fun c hc => (hscalar c hc).1) h.shown h.marks
  rw [List.flatMap_append, List.flatMap_append] at hinfix
  rw [← hpoints]
  refine (ofPoints_within (hescaped.trans ?_)).trans hinfix
  exact ⟨_, _, rfl⟩

end Kaiban
