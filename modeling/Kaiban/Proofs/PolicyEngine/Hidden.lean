/-
Terms that a payload can hide.

For every term that cannot be read there is a payload that has it in a string and not in its
text.  A control character or a lone surrogate is in no text.  A mark in the middle of a
term is behind a backslash there: blocks of a letter that the term neither begins nor ends
with keep it from being found across the borders of the string.
-/
import Kaiban.Proofs.PolicyEngine.Found

open JsString

namespace Kaiban

variable (T : CaseTables)

/-! ### Blocks -/

/-- A list that neither begins nor ends with an element is not found across a block of it. -/
theorem infix_of_block {α : Type} {z : α} {n : ℕ} {xs before after : List α}
    (hlen : xs.length ≤ n) (hhead : xs.head? ≠ some z) (hlast : xs.getLast? ≠ some z)
    (h : xs <:+: before ++ (List.replicate n z ++ after)) : xs <:+: before ∨ xs <:+: after := by
  by_cases hne : xs = []
  · exact .inl (hne ▸ List.nil_infix)
  obtain ⟨us, vs, heq⟩ := h
  rw [List.append_assoc] at heq
  rcases List.append_eq_append_iff.mp heq with ⟨ws, hws, hrest⟩ | ⟨ws, hws, hrest⟩
  · rcases List.append_eq_append_iff.mp hrest with ⟨ys, hys, -⟩ | ⟨ys, hys, hblock⟩
    · exact .inl ⟨us, ys, by rw [hws, hys, List.append_assoc]⟩
    · -- The part of the list past `before` lies in the block.
      cases ys using List.reverseRecOn with
      | nil => exact .inl ⟨us, [], by rw [hws, hys, List.append_nil, List.append_nil]⟩
      | append_singleton ys y =>
          exfalso
          have hin : y ∈ List.replicate n z := by
            have hlength : (ys ++ [y]).length ≤ (List.replicate n z).length := by
              rw [List.length_replicate]
              have hle := congrArg List.length hys
              rw [List.length_append] at hle
              omega
            have hprefix := List.prefix_of_prefix_length_le
              (List.prefix_append (ys ++ [y]) vs) (hblock ▸ List.prefix_append _ after) hlength
            exact hprefix.subset (by simp)
          refine hlast ?_
          rw [hys, ← List.append_assoc, List.getLast?_concat, List.eq_of_mem_replicate hin]
  · rcases List.append_eq_append_iff.mp hrest with ⟨ys, -, hys⟩ | ⟨ys, hys, hafter⟩
    · exact .inr ⟨ys, vs, by rw [hys, List.append_assoc]⟩
    · cases ys with
      | nil => exact .inr ⟨[], vs, by simpa using hafter⟩
      | cons y ys =>
          exfalso
          have hy : y ∈ List.replicate n z := by
            rw [hys]
            simp
          obtain ⟨x, xs, rfl⟩ := List.exists_cons_of_ne_nil hne
          refine hhead ?_
          rw [List.head?_cons, (List.cons.inj hafter).1, List.eq_of_mem_replicate hy]

/-- A list is not found across an element it has not got. -/
theorem infix_of_notMem {α : Type} {z : α} {xs before after : List α} (hz : z ∉ xs)
    (h : xs <:+: before ++ z :: after) : xs <:+: before ∨ xs <:+: after := by
  obtain ⟨us, vs, heq⟩ := h
  rcases List.append_eq_append_iff.mp heq with ⟨ws, hws, -⟩ | ⟨ws, hws, hrest⟩
  · exact .inl ⟨us, ws, hws.symm⟩
  · cases ws with
    | nil => exact .inl ⟨us, [], by simpa using hws⟩
    | cons w ws =>
        obtain ⟨rfl, hafter⟩ := List.cons.inj hrest
        rcases List.append_eq_append_iff.mp hws with ⟨as, -, has⟩ | ⟨as, -, has⟩
        · exact absurd (by simp [has]) hz
        · cases as with
          | nil =>
              rw [List.nil_append] at has
              exact absurd (by simp [← has]) hz
          | cons a as =>
              refine .inr ⟨as, vs, ?_⟩
              rw [hafter, (List.cons.inj has).2]
              rfl

/-- What follows a block is read off past it. -/
theorem replicate_append_inj {α : Type} {z : α} {i j : ℕ} {xs ys : List α}
    (hxz : xs.head? ≠ some z) (hyz : ys.head? ≠ some z)
    (h : List.replicate i z ++ xs = List.replicate j z ++ ys) : xs = ys := by
  induction i generalizing j with
  | zero =>
      cases j with
      | zero => simpa using h
      | succ j =>
          rw [List.replicate_zero, List.nil_append] at h
          exact absurd (by rw [h]; rfl) hxz
  | succ i ih =>
      cases j with
      | zero =>
          rw [List.replicate_zero, List.nil_append] at h
          exact absurd (by rw [← h]; rfl) hyz
      | succ j => exact ih (List.cons.inj h).2

/-- A list without the elements of a kind at its ends. -/
theorem exists_middle {α : Type} [DecidableEq α] (z : α) (xs : List α) :
    ∃ i j ys, xs = List.replicate i z ++ ys ++ List.replicate j z ∧
      ys.head? ≠ some z ∧ ys.getLast? ≠ some z := by
  have hfront (xs : List α) : ∃ i ys, xs = List.replicate i z ++ ys ∧ ys.head? ≠ some z := by
    induction xs with
    | nil => exact ⟨0, [], rfl, by simp⟩
    | cons x xs ih =>
        by_cases hx : x = z
        · obtain ⟨i, ys, rfl, hys⟩ := ih
          exact ⟨i + 1, ys, by rw [hx]; rfl, hys⟩
        · exact ⟨0, x :: xs, rfl, by simpa using hx⟩
  obtain ⟨i, ys, rfl, hys⟩ := hfront xs
  obtain ⟨j, zs, hzs, hlast⟩ := hfront ys.reverse
  have hback : ys = zs.reverse ++ List.replicate j z := by
    rw [← List.reverse_reverse ys, hzs, List.reverse_append, List.reverse_replicate]
  refine ⟨i, j, zs.reverse, by rw [hback, List.append_assoc], ?_, ?_⟩
  · cases hz : zs.reverse with
    | nil => simp
    | cons w ws =>
        rw [hback, hz] at hys
        simpa using hys
  · rwa [List.getLast?_reverse]

/-! ### Marks in the middle -/

theorem countP_escaped {cs : List ℕ} (hcs : ∀ c ∈ cs, c < 0x110000 ∧ ¬ Hides c) :
    (cs.flatMap escapePoints).countP (fun c => c ≠ 0x5C) = cs.countP (fun c => c ≠ 0x5C) ∧
      (cs.flatMap escapePoints).length = cs.length + cs.countP (fun c => Marks c) := by
  induction cs with
  | nil => exact ⟨rfl, rfl⟩
  | cons c cs ih =>
      obtain ⟨hlt, hshown⟩ := hcs c List.mem_cons_self
      obtain ⟨hcount, hlength⟩ := ih fun d hd => hcs d (List.mem_cons_of_mem c hd)
      rw [List.flatMap_cons, List.countP_append, List.length_append, hcount, hlength,
        List.length_cons, List.countP_cons, List.countP_cons]
      by_cases hmark : Marks c
      · rw [escapePoints_mark hmark]
        simp only [hmark, decide_true, if_true, List.countP_cons, List.countP_nil,
          List.length_cons, List.length_nil]
        constructor
        · simp
          omega
        · omega
      · rw [escapePoints_plain hlt hshown hmark]
        simp only [hmark, decide_false, List.countP_cons, List.countP_nil, List.length_cons,
          List.length_nil]
        constructor
        · simp
          omega
        · simp
          omega

/-- The last code point of an escaped list stays the last. -/
theorem getLast?_escaped {c : ℕ} {cs : List ℕ}
    (hcs : ∀ d ∈ cs, d < 0x110000 ∧ ¬ Hides d) :
    (c :: cs.flatMap escapePoints).getLast? = (c :: cs).getLast? := by
  cases cs using List.reverseRecOn with
  | nil => rfl
  | append_singleton cs d =>
      obtain ⟨hlt, hshown⟩ := hcs d (by simp)
      have hd : ∃ es, escapePoints d = es ++ [d] := by
        by_cases hmark : Marks d
        · exact ⟨[0x5C], escapePoints_mark hmark⟩
        · exact ⟨[], escapePoints_plain hlt hshown hmark⟩
      obtain ⟨es, hes⟩ := hd
      rw [List.flatMap_append, List.flatMap_singleton, hes, ← List.append_assoc,
        ← List.cons_append, List.getLast?_concat, ← List.cons_append, List.getLast?_concat]

/-- **What is found in its own escaped form has its marks at the ends.** -/
theorem marksAtEnds_within {cs : List ℕ} (hcs : ∀ c ∈ cs, c < 0x110000 ∧ ¬ Hides c)
    (h : cs <:+: cs.flatMap escapePoints) : MarksAtEnds cs := by
  obtain ⟨before, after, heq⟩ := h
  -- Both sides have the same code points but for backslashes, so only those are around.
  have hcount := (countP_escaped hcs).1
  rw [← heq, List.countP_append, List.countP_append] at hcount
  have hslashes (l : List ℕ) (hl : l.countP (fun c => c ≠ 0x5C) = 0) :
      l = List.replicate l.length 0x5C := by
    rw [List.eq_replicate_iff]
    refine ⟨rfl, fun c hc => ?_⟩
    simpa using List.countP_eq_zero.mp hl c hc
  have hbefore := hslashes before (by omega)
  have hafter := hslashes after (by omega)
  obtain ⟨i, j, middle, rfl, hhead, hlast⟩ := exists_middle 0x5C cs
  refine ⟨i, j, middle, rfl, ?_⟩
  cases middle with
  | nil => exact fun c hc => absurd hc (by simp)
  | cons c rest =>
      have hrest : ∀ d ∈ rest, d < 0x110000 ∧ ¬ Hides d := fun d hd => hcs d (by simp [hd])
      have hc := hcs c (by simp)
      obtain ⟨k, hk⟩ : ∃ k, escapePoints c = List.replicate k 0x5C ++ [c] := by
        by_cases hmark : Marks c
        · exact ⟨1, escapePoints_mark hmark⟩
        · exact ⟨0, escapePoints_plain hc.1 hc.2 hmark⟩
      simp only [List.flatMap_append, flatMap_escapePoints_replicate, List.flatMap_cons, hk]
        at heq
      rw [hbefore, hafter] at heq
      have hlists : List.replicate (before.length + i) 0x5C
            ++ (c :: rest ++ List.replicate (j + after.length) 0x5C)
          = List.replicate (i + i + k) 0x5C
            ++ (c :: rest.flatMap escapePoints ++ List.replicate (j + j) 0x5C) := by
        simpa only [List.replicate_add, List.append_assoc, List.cons_append, List.nil_append]
          using heq
      have hfront := replicate_append_inj (by simpa using hhead) (by simpa using hhead) hlists
      have hback := congrArg List.reverse hfront
      rw [List.reverse_append, List.reverse_append, List.reverse_replicate,
        List.reverse_replicate] at hback
      have hlast' : (c :: rest.flatMap escapePoints).getLast? ≠ some 0x5C := by
        rw [getLast?_escaped hrest]
        exact hlast
      have hmiddle := replicate_append_inj (by rwa [List.head?_reverse])
        (by rwa [List.head?_reverse]) hback
      have hsame := (List.cons.inj (List.reverse_injective hmiddle)).2
      have hlength := (countP_escaped hrest).2
      rw [← hsame] at hlength
      intro d hd
      have hzero : rest.countP (fun c => Marks c) = 0 := by omega
      simpa using List.countP_eq_zero.mp hzero d hd

theorem marksAtEnds_of_tail {cs : List ℕ} (h : ∀ c ∈ cs.tail, ¬ Marks c) : MarksAtEnds cs :=
  ⟨0, 0, cs, by simp, h⟩

/-- A list found in a mark and what is no mark has its marks at the ends. -/
theorem marksAtEnds_of_cons {c : ℕ} {cs ds : List ℕ} (hds : ∀ d ∈ ds, ¬ Marks d)
    (h : cs <:+: c :: ds) : MarksAtEnds cs := by
  refine marksAtEnds_of_tail fun d hd => hds d ?_
  rcases List.infix_cons_iff.mp h with hprefix | hinfix
  · rcases List.prefix_cons_iff.mp hprefix with rfl | ⟨es, rfl, hes⟩
    · exact absurd hd (by simp)
    · exact hes.subset hd
  · exact hinfix.subset (List.mem_of_mem_tail hd)

/-! ### Texts of one string -/

/-- The lowered text of a string between units of ASCII. -/
theorem toLowerCase_quoted {before after : JsString} (s : JsString)
    (hbefore : before.all CaseTables.smallAscii = true)
    (hafter : after.all CaseTables.smallAscii = true) :
    T.toLowerCase (before ++ Json.quote s ++ after)
      = ofPoints (before.map Fin.val ++ 0x22 ::
        (T.lowerPoints (0x22 :: (before.map Fin.val).reverse) (0x22 :: after.map Fin.val)
          ((codePoints s).flatMap escapePoints) ++ 0x22 :: after.map Fin.val)) := by
  have hquote : T.Lowered 0x22 := T.lowered_ascii (by decide) (by decide)
  unfold CaseTables.toLowerCase
  rw [codePoints_quote, CaseTables.codePoints_smallAscii hbefore,
    CaseTables.codePoints_smallAscii hafter, CaseTables.lowerPoints_append,
    T.lowerPoints_smallAscii hbefore, CaseTables.lowerPoints, T.lowerPoint_of_lowered hquote,
    CaseTables.lowerPoints_append, CaseTables.lowerPoints, T.lowerPoint_of_lowered hquote,
    T.lowerPoints_smallAscii hafter]
  simp only [List.append_nil, List.singleton_append]

theorem lowerPoints_escaped {cs : List ℕ} (hcs : ∀ c ∈ cs, c < 0x110000)
    (hlowered : ∀ c ∈ cs, T.Lowered c) (before after : List ℕ) :
    T.lowerPoints before after (cs.flatMap escapePoints) = cs.flatMap escapePoints := by
  refine T.lowerPoints_of_lowered (fun d hd => ?_) before after
  obtain ⟨c, hc, hd⟩ := List.mem_flatMap.mp hd
  by_cases hescape : Hides c ∨ Marks c
  · exact escapePoints_lowered T hescape d hd
  · rw [not_or] at hescape
    rw [escapePoints_plain (hcs c hc) hescape.1 hescape.2, List.mem_singleton] at hd
    rw [hd]
    exact hlowered c hc

theorem toLowerCase_of_lowered {s : JsString} (h : ∀ c ∈ codePoints s, T.Lowered c) :
    T.toLowerCase s = s := by
  unfold CaseTables.toLowerCase
  rw [T.lowerPoints_of_lowered h, ofPoints_codePoints]

/-- The term is found wherever a string of a payload has it. -/
def Found (t : JsString) : Prop :=
  ∀ payload s, HasString (.obj payload) s → t <:+: T.toLowerCase s →
    t <:+: T.toLowerCase (Json.stringify (.obj payload))

/-- What a text has of a string: it alone, with the name of its member before it. -/
def flat (name s : JsString) : MessageData := [(name, .str s)]

/-- The same in a list. -/
def listed (name s : JsString) : MessageData := [(name, .arr [.str s])]

theorem stringify_flat (name s : JsString) : Json.stringify (.obj (flat name s))
    = unit '{' :: Json.quote name ++ js ":" ++ Json.quote s ++ js "\x7d" := by
  unfold flat
  rw [Json.stringify, Json.members, Json.stringify, Json.moreMembers]
  simp [js]

theorem stringify_listed (name s : JsString) : Json.stringify (.obj (listed name s))
    = unit '{' :: Json.quote name ++ js ":[" ++ Json.quote s ++ js "]\x7d" := by
  unfold listed
  rw [Json.stringify, Json.members, Json.stringify, Json.moreMembers, Json.items,
    Json.stringify, Json.moreItems]
  simp [js]

theorem hasString_flat (name s : JsString) : HasString (.obj (flat name s)) s :=
  .obj (List.mem_singleton_self _) (.str s)

theorem hasString_listed (name s : JsString) : HasString (.obj (listed name s)) s :=
  .obj (List.mem_singleton_self _) (.arr (List.mem_singleton_self _) (.str s))

/-! ### Code points a text cannot have -/

/-- No unit that JSON writes an escape with, or a text is built from, is of the kind. -/
def NotAscii (p : CodeUnit → Bool) : Prop :=
  ∀ u : CodeUnit, 0x20 ≤ u.val → u.val < 0x80 → p u = false

theorem countP_ascii {p : CodeUnit → Bool} (hp : NotAscii p) (cs : List ℕ)
    (hcs : ∀ c ∈ cs, 0x20 ≤ c ∧ c < 0x80) : (ofPoints cs).countP p = 0 := by
  rw [List.countP_eq_zero]
  intro u hu
  obtain ⟨c, hc, hu⟩ := List.mem_flatMap.mp hu
  obtain ⟨hlow, hhigh⟩ := hcs c hc
  have hsmall : c < 0x10000 := by omega
  rw [pointUnits, if_pos hsmall, List.mem_singleton] at hu
  have hval : u.val = c := by
    rw [hu]
    exact Nat.mod_eq_of_lt hsmall
  rw [hp u (by omega) (by omega)]
  exact Bool.false_ne_true

/-- Escaping a code point leaves no more units of the kind. -/
theorem countP_escapePoints {p : CodeUnit → Bool} (hp : NotAscii p) {c : ℕ} (hc : c < 0x110000) :
    (ofPoints (escapePoints c)).countP p ≤ (pointUnits c).countP p ∧
      (Hides c → (ofPoints (escapePoints c)).countP p = 0) := by
  have hescape (h : Hides c ∨ Marks c) : (ofPoints (escapePoints c)).countP p = 0 := by
    obtain ⟨cs, hcs, hascii⟩ := escapePoints_escape h
    rw [hcs]
    refine countP_ascii hp _ fun d hd => ?_
    rcases List.mem_cons.mp hd with rfl | hd
    · omega
    · have := hascii d hd
      omega
  refine ⟨?_, fun h => hescape (.inl h)⟩
  by_cases h : Hides c ∨ Marks c
  · rw [hescape h]
    exact Nat.zero_le _
  · rw [not_or] at h
    rw [escapePoints_plain hc h.1 h.2, ofPoints_cons, ofPoints_nil, List.append_nil]

theorem countP_escaped_le {p : CodeUnit → Bool} (hp : NotAscii p) (cs : List ℕ)
    (hcs : ∀ c ∈ cs, c < 0x110000) :
    (ofPoints (cs.flatMap escapePoints)).countP p ≤ (ofPoints cs).countP p := by
  induction cs with
  | nil => exact le_refl _
  | cons c cs ih =>
      rw [List.flatMap_cons, ofPoints_append, ofPoints_cons, List.countP_append,
        List.countP_append]
      exact Nat.add_le_add (countP_escapePoints hp (hcs c List.mem_cons_self)).1
        (ih fun d hd => hcs d (List.mem_cons_of_mem c hd))

/-- A control character or a surrogate. -/
def isHidden (u : CodeUnit) : Bool := u.val < 0x20 || isSurrogate u.val

theorem isHidden_notAscii : NotAscii isHidden := by
  intro u hlow hhigh
  simp only [isHidden, isSurrogate, Bool.or_eq_false_iff, Bool.and_eq_false_iff,
    decide_eq_false_iff_not]
  omega

theorem countP_hides_lt {cs : List ℕ} (hcs : ∀ c ∈ cs, c < 0x110000) (h : ∃ c ∈ cs, Hides c) :
    (ofPoints (cs.flatMap escapePoints)).countP isHidden < (ofPoints cs).countP isHidden := by
  obtain ⟨c, hc, hhides⟩ := h
  obtain ⟨xs, ys, rfl⟩ := List.append_of_mem hc
  have hxs := countP_escaped_le isHidden_notAscii xs fun d hd => hcs d (by simp [hd])
  have hys := countP_escaped_le isHidden_notAscii ys fun d hd => hcs d (by simp [hd])
  have hzero := (countP_escapePoints isHidden_notAscii (hcs c (by simp))).2 hhides
  have hone : (pointUnits c).countP isHidden = 1 := by
    have hsmall : c < 0x10000 := by
      rcases hhides with h | h
      · omega
      · simp only [isSurrogate, Bool.and_eq_true, decide_eq_true_eq] at h
        omega
    have hval : (Fin.ofNat 0x10000 c).val = c := Nat.mod_eq_of_lt hsmall
    have hhidden : isHidden (Fin.ofNat 0x10000 c) = true := by
      unfold isHidden
      rw [hval, Bool.or_eq_true, decide_eq_true_eq]
      exact hhides
    rw [pointUnits, if_pos hsmall, List.countP_singleton, if_pos hhidden]
  rw [List.flatMap_append, List.flatMap_cons, ofPoints_append, ofPoints_append, ofPoints_append,
    ofPoints_cons]
  simp only [List.countP_append]
  omega

variable {T}

/-- The text of a term under the name `k`. -/
theorem Found.flat {t : JsString} (h : Found T t) {s : JsString} (ht : t <:+: T.toLowerCase s) :
    t <:+: ofPoints (([0x7B, 0x22, 0x6B, 0x22, 0x3A] : List ℕ) ++ 0x22 ::
      (T.lowerPoints [0x22, 0x3A, 0x22, 0x6B, 0x22, 0x7B] [0x22, 0x7D]
        ((codePoints s).flatMap escapePoints) ++ [0x22, 0x7D])) := by
  have hfound := h (Kaiban.flat (js "k") s) s (hasString_flat _ s) ht
  have hname : unit '{' :: Json.quote (js "k") ++ js ":" = js "\x7b\"k\":" := by decide +kernel
  rw [stringify_flat, hname, toLowerCase_quoted T s (by decide +kernel) (by decide +kernel)]
    at hfound
  exact hfound

/-- A term with a control character or a lone surrogate is not found. -/
theorem Found.shown {t : JsString} (h : Found T t) (ht : ∀ c ∈ codePoints t, T.Lowered c) :
    ∀ c ∈ codePoints t, ¬ Hides c := by
  intro c hc hhides
  have hself : t <:+: T.toLowerCase t := by rw [toLowerCase_of_lowered T ht]
  have hcount := (h.flat hself).sublist.countP_le (p := isHidden)
  rw [lowerPoints_escaped T (codePoints_lt t) ht, ofPoints_append, ofPoints_cons 0x22,
    ofPoints_append] at hcount
  simp only [List.countP_append] at hcount
  have hlt := countP_hides_lt (codePoints_lt t) ⟨c, hc, hhides⟩
  rw [ofPoints_codePoints] at hlt
  have hfront := countP_ascii isHidden_notAscii [0x7B, 0x22, 0x6B, 0x22, 0x3A] (by decide)
  have hquote : (pointUnits 0x22).countP isHidden = 0 := by decide +kernel
  have hback := countP_ascii isHidden_notAscii [0x22, 0x7D] (by decide)
  omega

/-- A term with an exposed sigma is not found after a line break. -/
theorem Found.sigmas {t : JsString} (h : Found T t) (ht : ∀ c ∈ codePoints t, T.Lowered c) :
    ¬ SigmaExposed T (codePoints t) := by
  rintro ⟨xs, ys, hsplit, hxs, hys⟩
  have hshown := h.shown ht
  rw [hsplit] at ht hshown
  have hscalar (c) (hc : c ∈ xs ++ smallSigma :: ys) : IsScalar c := by
    refine ⟨codePoints_lt t c (hsplit ▸ hc), Bool.eq_false_iff.mpr (not_or.mp (hshown c hc)).2⟩
  have hxs' (c) (hc : c ∈ xs) : c < 0x110000 ∧ ¬ Hides c ∧ ¬ Marks c := by
    refine ⟨(hscalar c (by simp [hc])).1, hshown c (by simp [hc]), fun hmark => ?_⟩
    have hplain := (uncased_of_escape T (.inr hmark)).2
    exact absurd ((hxs c hc).1.symm.trans hplain) (by decide)
  have hlowered (c) (hc : c ∈ 0x0A :: xs) : T.Lowered c := by
    rcases List.mem_cons.mp hc with rfl | hc
    · exact T.lowered_ascii (by decide) (by decide)
    · exact ht c (by simp [hc])
  have hlast (c) (hc : c ∈ ys) : T.Lowered c := ht c (by simp [hc])
  have huncased (l : List ℕ) (hl : ∀ c ∈ l, T.cased c = false) : T.reachesCased l = false := by
    induction l with
    | nil => rfl
    | cons c l ih =>
        rw [CaseTables.reachesCased, hl c List.mem_cons_self,
          ih fun d hd => hl d (List.mem_cons_of_mem c hd), Bool.and_false]
        rfl
  have hcased (l : List ℕ) (hl : ∀ c ∈ l, T.ignorable c = true) (d : ℕ) (hd : T.cased d = true)
      (rest : List ℕ) : T.reachesCased (l ++ d :: rest) = true := by
    induction l with
    | nil => rw [List.nil_append, CaseTables.reachesCased, hd, Bool.true_or]
    | cons c l ih =>
        rw [List.cons_append, CaseTables.reachesCased, hl c List.mem_cons_self,
          ih fun e he => hl e (List.mem_cons_of_mem c he), Bool.and_self, Bool.or_true]
  -- The string that has the term after a line break, with a capital sigma.
  have hpoints : codePoints (ofPoints (0x0A :: xs ++ capitalSigma :: ys))
      = 0x0A :: xs ++ capitalSigma :: ys := by
    refine codePoints_ofPoints fun c hc => ?_
    have hc' : c = 0x0A ∨ c = capitalSigma ∨ c ∈ xs ++ smallSigma :: ys := by
      simp only [List.cons_append, List.mem_cons, List.mem_append] at hc ⊢
      tauto
    rcases hc' with rfl | rfl | hc
    · exact ⟨by decide, by decide⟩
    · exact ⟨by decide, by decide⟩
    · exact hscalar c hc
  have hstring : t <:+: T.toLowerCase (ofPoints (0x0A :: xs ++ capitalSigma :: ys)) := by
    have hbefore : T.reachesCased ((0x0A :: xs).reverse ++ []) = false := by
      refine huncased _ fun c hc => ?_
      rw [List.append_nil, List.mem_reverse, List.mem_cons] at hc
      rcases hc with rfl | hc
      · exact (uncased_of_escape T (.inl (.inl (by decide)))).1
      · exact (hxs c hc).2
    unfold CaseTables.toLowerCase
    rw [hpoints, CaseTables.lowerPoints_append, T.lowerPoints_of_lowered hlowered,
      CaseTables.lowerPoints, T.lowerPoints_of_lowered hlast, CaseTables.lowerPoint, if_pos rfl,
      hbefore, Bool.false_and, if_neg Bool.false_ne_true, ← ofPoints_codePoints t, hsplit]
    exact ofPoints_within ⟨[0x0A], [], by simp⟩
  have hfound := h.flat hstring
  have hbreak : escapePoints 0x0A = [0x5C, 0x6E] := by decide
  have htext : (codePoints (ofPoints (0x0A :: xs ++ capitalSigma :: ys))).flatMap escapePoints
      = ([0x5C, 0x6E] ++ xs) ++ capitalSigma :: ys.flatMap escapePoints := by
    rw [hpoints, List.flatMap_append, List.flatMap_cons, List.flatMap_cons, hbreak,
      flatMap_escapePoints_plain hxs', escapePoints_sigma (.inr (.inr rfl))]
    rfl
  have hfront (c) (hc : c ∈ ([0x5C, 0x6E] : List ℕ) ++ xs) : T.Lowered c := by
    simp only [List.cons_append, List.nil_append, List.mem_cons] at hc
    rcases hc with rfl | rfl | hc
    · exact T.lowered_ascii (by decide) (by decide)
    · exact T.lowered_ascii (by decide) (by decide)
    · exact ht c (by simp [hc])
  have hbefore : T.reachesCased (([0x5C, 0x6E] ++ xs).reverse
      ++ [0x22, 0x3A, 0x22, 0x6B, 0x22, 0x7B]) = true := by
    rw [List.reverse_append, List.append_assoc]
    exact hcased xs.reverse (fun c hc => (hxs c (List.mem_reverse.mp hc)).1) 0x6E
      (by rw [T.cased_ascii 0x6E (by decide)]; rfl) _
  have hafter : T.reachesCased (ys.flatMap escapePoints ++ [0x22, 0x7D]) = false := by
    rw [reachesCased_escaped T (fun c hc => (hscalar c (by simp [hc])).1)
      (reachesCased_escape T (.inr (.inl rfl)) _)]
    exact hys
  rw [htext, CaseTables.lowerPoints_append, T.lowerPoints_of_lowered hfront,
    CaseTables.lowerPoints, CaseTables.lowerPoint, if_pos rfl, hbefore, hafter,
    lowerPoints_escaped T (fun c hc => (hscalar c (by simp [hc])).1) hlast] at hfound
  -- The text has one sigma of this kind less than the term.
  have hcount := hfound.sublist.countP_le (p := fun u => u.val = smallSigma)
  have hascii : NotAscii fun u => u.val = smallSigma := by
    intro u hlow hhigh
    rw [decide_eq_false_iff_not]
    have hsigma : smallSigma = 0x3C3 := rfl
    omega
  have hys' := countP_escaped_le hascii ys fun c hc => (hscalar c (by simp [hc])).1
  conv_lhs at hcount => rw [← ofPoints_codePoints t, hsplit]
  simp only [Bool.not_false, Bool.and_self, if_true, ofPoints_append, ofPoints_cons,
    ofPoints_nil, List.countP_append, List.append_nil] at hcount
  have hone : (pointUnits smallSigma).countP (fun u => u.val = smallSigma) = 1 := by
    decide +kernel
  have hnone : (pointUnits finalSigma).countP (fun u => u.val = smallSigma) = 0 := by
    decide +kernel
  have hzero (c : ℕ) (hlow : 0x20 ≤ c) (hhigh : c < 0x80) :
      (pointUnits c).countP (fun u => u.val = smallSigma) = 0 := by
    have hc := countP_ascii hascii [c] (by simpa using ⟨hlow, hhigh⟩)
    simpa using hc
  rw [hone, hnone, hzero 0x7B (by decide) (by decide), hzero 0x22 (by decide) (by decide),
    hzero 0x6B (by decide) (by decide), hzero 0x3A (by decide) (by decide),
    hzero 0x5C (by decide) (by decide), hzero 0x6E (by decide) (by decide),
    hzero 0x7D (by decide) (by decide)] at hcount
  omega

end Kaiban
