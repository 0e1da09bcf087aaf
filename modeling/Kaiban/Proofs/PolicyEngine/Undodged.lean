/-
Which terms of a policy no payload can dodge.
-/
import Kaiban.Proofs.PolicyEngine.Hidden

open JsString

namespace Kaiban

variable {T : CaseTables}

/-! ### Terms with marks in the middle -/

/-- The points of an opening brace and a quote, which every payload's text begins with. -/
def bracePoints : List ℕ := [0x7B, 0x22]

/-- A letter that some code points neither begin nor end with. -/
theorem exists_letter (cs : List ℕ) :
    ∃ z, 0x61 ≤ z ∧ z ≤ 0x63 ∧ cs.head? ≠ some z ∧ cs.getLast? ≠ some z := by
  by_contra hnone
  push Not at hnone
  have ha := hnone 0x61 (by decide) (by decide)
  have hb := hnone 0x62 (by decide) (by decide)
  have hc := hnone 0x63 (by decide) (by decide)
  by_cases h1 : cs.head? = some 0x61
  · have h2 := hb (by simp [h1])
    have h3 := hc (by simp [h1])
    exact absurd (h2.symm.trans h3) (by decide)
  · have h2 := ha h1
    by_cases h3 : cs.head? = some 0x62
    · exact absurd (h2.symm.trans (hc (by simp [h3]))) (by decide)
    · exact absurd (h2.symm.trans (hb h3)) (by decide)

/-- A block of a letter, as text. -/
theorem letters_plain {z n : ℕ} (hz : 0x61 ≤ z ∧ z ≤ 0x63) :
    ∀ c ∈ List.replicate n z, c < 0x110000 ∧ ¬ Hides c ∧ ¬ Marks c := by
  intro c hc
  rw [List.eq_of_mem_replicate hc]
  refine ⟨by omega, ?_, ?_⟩
  · rintro (h | h)
    · omega
    · simp only [isSurrogate, Bool.and_eq_true, decide_eq_true_eq] at h
      omega
  · unfold Marks
    omega

theorem letters_scalar {z n : ℕ} (hz : 0x61 ≤ z ∧ z ≤ 0x63) :
    ∀ c ∈ List.replicate n z, IsScalar c := fun c hc =>
  ⟨(letters_plain hz c hc).1, Bool.eq_false_iff.mpr (not_or.mp (letters_plain hz c hc).2.1).2⟩

theorem quote_letters {z n : ℕ} (hz : 0x61 ≤ z ∧ z ≤ 0x63) :
    Json.quote (ofPoints (List.replicate n z))
      = ofPoints (0x22 :: (List.replicate n z ++ [0x22])) := by
  have hescape (cs : List ℕ) (hcs : ∀ c ∈ cs, c < 0x110000 ∧ ¬ Hides c ∧ ¬ Marks c) :
      cs.flatMap Json.escape = ofPoints cs := by
    induction cs with
    | nil => rfl
    | cons c cs ih =>
        have hc := hcs c List.mem_cons_self
        rw [List.flatMap_cons, escape_plain hc.2.1 hc.2.2,
          ih fun d hd => hcs d (List.mem_cons_of_mem c hd), ofPoints_cons]
  unfold Json.quote
  rw [codePoints_ofPoints (letters_scalar hz), hescape _ (letters_plain hz), ofPoints_cons,
    ofPoints_append]
  rfl

/-- The code points of a payload's text around its string, and what they are opened and
closed with. -/
structure Wrapping where
  payload : JsString → JsString → MessageData
  opening : JsString
  closing : JsString
  text : ∀ name s, Json.stringify (.obj (payload name s))
    = unit '{' :: Json.quote name ++ opening ++ Json.quote s ++ closing
  has : ∀ name s, HasString (.obj (payload name s)) s
  opening_ascii : opening.all CaseTables.smallAscii = true
  closing_ascii : closing.all CaseTables.smallAscii = true

def flatWrapping : Wrapping :=
  ⟨flat, js ":", js "\x7d", stringify_flat, hasString_flat, by decide +kernel, by decide +kernel⟩

def listedWrapping : Wrapping :=
  ⟨listed, js ":[", js "]\x7d", stringify_listed, hasString_listed, by decide +kernel,
    by decide +kernel⟩

theorem smallAscii_letters {z n : ℕ} (hz : 0x61 ≤ z ∧ z ≤ 0x63) :
    (ofPoints (List.replicate n z)).all CaseTables.smallAscii = true := by
  rw [List.all_eq_true]
  intro u hu
  obtain ⟨c, hc, hunit⟩ := List.mem_flatMap.mp hu
  have hcz := List.eq_of_mem_replicate hc
  have hsmall : c < 0x10000 := by omega
  rw [pointUnits, if_pos hsmall, List.mem_singleton] at hunit
  have hval : u.val = c := by
    rw [hunit]
    exact Nat.mod_eq_of_lt hsmall
  simp only [CaseTables.smallAscii, Bool.and_eq_true, decide_eq_true_eq, Bool.not_eq_true',
    Bool.and_eq_false_iff, decide_eq_false_iff_not]
  omega

/-- **A term that is found is found in one piece of a text.**  The blocks of a letter keep it
from lying across. -/
theorem Found.piece {t : JsString} (h : Found T t) (ht : ∀ c ∈ codePoints t, T.Lowered c)
    (w : Wrapping) :
    codePoints t <:+: bracePoints ∨
      codePoints t <:+: 0x22 :: (w.opening.map Fin.val ++ [0x22]) ∨
      codePoints t <:+: (codePoints t).flatMap escapePoints ∨
      codePoints t <:+: 0x22 :: w.closing.map Fin.val := by
  obtain ⟨z, hlow, hhigh, hhead, hlast⟩ := exists_letter (codePoints t)
  have hz : 0x61 ≤ z ∧ z ≤ 0x63 := ⟨hlow, hhigh⟩
  have hshown := h.shown ht
  have hscalar (c) (hc : c ∈ codePoints t) : IsScalar c :=
    ⟨codePoints_lt t c hc, Bool.eq_false_iff.mpr (not_or.mp (hshown c hc)).2⟩
  obtain ⟨block, hblock⟩ : ∃ block, block = List.replicate (codePoints t).length z := ⟨_, rfl⟩
  have hblockscalar : ∀ c ∈ block, IsScalar c := hblock ▸ letters_scalar hz
  have hblocklowered : ∀ c ∈ block, T.Lowered c := by
    intro c hc
    rw [hblock] at hc
    rw [List.eq_of_mem_replicate hc]
    exact T.lowered_ascii (by omega) (by omega)
  have hpoints : codePoints (ofPoints (block ++ codePoints t ++ block))
      = block ++ codePoints t ++ block := by
    refine codePoints_ofPoints fun c hc => ?_
    simp only [List.mem_append] at hc
    rcases hc with (hc | hc) | hc
    · exact hblockscalar c hc
    · exact hscalar c hc
    · exact hblockscalar c hc
  have hlowered (c) (hc : c ∈ codePoints (ofPoints (block ++ codePoints t ++ block))) :
      T.Lowered c := by
    rw [hpoints] at hc
    simp only [List.mem_append] at hc
    rcases hc with (hc | hc) | hc
    · exact hblocklowered c hc
    · exact ht c hc
    · exact hblocklowered c hc
  have hstring : t <:+: T.toLowerCase (ofPoints (block ++ codePoints t ++ block)) := by
    rw [toLowerCase_of_lowered T hlowered, ofPoints_append, ofPoints_append, ofPoints_codePoints]
    exact ⟨_, _, rfl⟩
  have hfound := h (w.payload (ofPoints block) _) _ (w.has _ _) hstring
  have hname : (unit '{' :: Json.quote (ofPoints block) ++ w.opening).all CaseTables.smallAscii
      = true := by
    have hnameblock := smallAscii_letters (n := (codePoints t).length) hz
    rw [hblock, quote_letters hz, List.all_append, w.opening_ascii, ofPoints_cons,
      ofPoints_append, List.all_cons, List.all_append, List.all_append, hnameblock]
    decide +kernel
  have hnamepoints : (unit '{' :: Json.quote (ofPoints block) ++ w.opening).map Fin.val
      = bracePoints ++ (block ++ 0x22 :: w.opening.map Fin.val) := by
    have hall := CaseTables.codePoints_smallAscii (s := ofPoints block)
      (by rw [hblock]; exact smallAscii_letters hz)
    rw [codePoints_ofPoints hblockscalar] at hall
    rw [hblock, quote_letters hz, ← hblock, ofPoints_cons, ofPoints_append]
    simp only [List.map_cons, List.map_append, ← hall, List.cons_append, List.append_assoc]
    rfl
  have hescaped : (block ++ codePoints t ++ block).flatMap escapePoints
      = block ++ (codePoints t).flatMap escapePoints ++ block := by
    rw [List.flatMap_append, List.flatMap_append,
      flatMap_escapePoints_plain (hblock ▸ letters_plain hz)]
  rw [w.text, toLowerCase_quoted T _ hname w.closing_ascii,
    lowerPoints_escaped T (codePoints_lt _) hlowered, hpoints, hescaped, hnamepoints] at hfound
  conv_lhs at hfound => rw [← ofPoints_codePoints t]
  have hinfix := infix_codePoints hscalar hfound
  rw [codePoints_ofPoints ?_] at hinfix
  · have hsplit : bracePoints ++ (block ++ 0x22 :: w.opening.map Fin.val)
          ++ 0x22 :: (block ++ (codePoints t).flatMap escapePoints ++ block
            ++ 0x22 :: w.closing.map Fin.val)
        = bracePoints ++ (block ++ (0x22 :: (w.opening.map Fin.val ++ [0x22])
          ++ (block ++ ((codePoints t).flatMap escapePoints
            ++ (block ++ 0x22 :: w.closing.map Fin.val))))) := by
      simp
    rw [hsplit, hblock] at hinfix
    refine (infix_of_block (le_refl _) hhead hlast hinfix).imp_right fun hinfix => ?_
    refine (infix_of_block (le_refl _) hhead hlast hinfix).imp_right fun hinfix => ?_
    exact infix_of_block (le_refl _) hhead hlast hinfix
  · intro c hc
    have hsmall (s : JsString) (hs : s.all CaseTables.smallAscii = true) (c : ℕ)
        (hc : c ∈ s.map Fin.val) : IsScalar c := by
      obtain ⟨u, hu, rfl⟩ := List.mem_map.mp hc
      have hascii := List.all_eq_true.mp hs u hu
      simp only [CaseTables.smallAscii, Bool.and_eq_true, decide_eq_true_eq] at hascii
      exact isScalar_of_small (by omega)
    have hquote : IsScalar 0x22 := isScalar_of_small (by decide)
    simp only [bracePoints, List.mem_append, List.mem_cons, List.not_mem_nil, or_false] at hc
    rcases hc with ((rfl | rfl) | hc | rfl | hc) | rfl | ((hc | hc) | hc) | rfl | hc
    · exact isScalar_of_small (by decide)
    · exact hquote
    · exact hblockscalar c hc
    · exact hquote
    · exact hsmall _ w.opening_ascii c hc
    · exact hquote
    · exact hblockscalar c hc
    · obtain ⟨d, hd, hc⟩ := List.mem_flatMap.mp hc
      obtain ⟨es, hes, hesscalar⟩ := (escape_spec (hscalar d hd).1).1
      unfold escapePoints at hc
      rw [hes, codePoints_ofPoints hesscalar] at hc
      exact hesscalar c hc
    · exact hblockscalar c hc
    · exact hquote
    · exact hsmall _ w.closing_ascii c hc

/-- A term with a mark in the middle is not found. -/
theorem Found.marks {t : JsString} (h : Found T t) (ht : ∀ c ∈ codePoints t, T.Lowered c) :
    MarksAtEnds (codePoints t) ∨ codePoints t = bracePoints := by
  have hshown (c) (hc : c ∈ codePoints t) : c < 0x110000 ∧ ¬ Hides c :=
    ⟨codePoints_lt t c hc, h.shown ht c hc⟩
  rcases h.piece ht flatWrapping with hbrace | hopening | hescaped | hclosing
  · unfold bracePoints at hbrace ⊢
    rcases List.infix_cons_iff.mp hbrace with hprefix | hinfix
    · rcases List.prefix_cons_iff.mp hprefix with hnil | ⟨ds, hds, hrest⟩
      · exact .inl (marksAtEnds_of_tail (by simp [hnil]))
      · rcases List.prefix_cons_iff.mp hrest with rfl | ⟨es, rfl, hes⟩
        · exact .inl (marksAtEnds_of_tail (by simp [hds]))
        · rw [List.prefix_nil.mp hes] at hds
          exact .inr hds
    · exact .inl (marksAtEnds_of_cons (by simp) hinfix)
  · -- What is opened with a quote is found otherwise in a list.
    have hquotes : codePoints t <:+: [0x22, 0x3A, 0x22] := hopening
    have hno (c : ℕ) (hc : c ∉ ([0x22, 0x3A, 0x22] : List ℕ)) : c ∉ codePoints t :=
      fun hmem => hc (hquotes.subset hmem)
    rcases h.piece ht listedWrapping with hbrace | hlist | hescaped | hclosing
    · have hbrace' : codePoints t <:+: [] ++ 0x7B :: [0x22] := hbrace
      rcases infix_of_notMem (hno 0x7B (by decide)) hbrace' with hnil | hquote
      · exact .inl (marksAtEnds_of_tail (by simp [List.infix_nil.mp hnil]))
      · exact .inl (marksAtEnds_of_cons (by simp) hquote)
    · have hlist' : codePoints t <:+: [0x22, 0x3A] ++ 0x5B :: [0x22] := hlist
      rcases infix_of_notMem (hno 0x5B (by decide)) hlist' with hcolon | hquote
      · exact .inl (marksAtEnds_of_cons (by decide) hcolon)
      · exact .inl (marksAtEnds_of_cons (by simp) hquote)
    · exact .inl (marksAtEnds_within hshown hescaped)
    · have hcloses : codePoints t <:+: [0x22, 0x5D, 0x7D] := hclosing
      exact .inl (marksAtEnds_of_cons (by decide) hcloses)
  · exact .inl (marksAtEnds_within hshown hescaped)
  · have hcloses : codePoints t <:+: [0x22, 0x7D] := hclosing
    exact .inl (marksAtEnds_of_cons (by decide) hcloses)

/-! ### What is found -/

/-- The text of a payload with a string begins with a brace and a quote. -/
theorem brace_found {payload : MessageData} {s : JsString} (h : HasString (.obj payload) s) :
    ofPoints bracePoints <:+: T.toLowerCase (Json.stringify (.obj payload)) := by
  obtain ⟨m, ms, rfl⟩ : ∃ m ms, payload = m :: ms := by
    cases h with
    | obj hm _ => exact List.exists_cons_of_ne_nil (List.ne_nil_of_mem hm)
  have hpoints : ∃ cs, codePoints (Json.stringify (.obj (m :: ms))) = bracePoints ++ cs := by
    rw [Json.stringify, Json.members, Json.quote, List.cons_append, codePoints_cons (by decide),
      codePoints_cons (by decide)]
    exact ⟨_, rfl⟩
  obtain ⟨cs, hcs⟩ := hpoints
  have hlowered : ∀ c ∈ bracePoints, T.Lowered c := by
    intro c hc
    simp only [bracePoints, List.mem_cons, List.not_mem_nil, or_false] at hc
    rcases hc with rfl | rfl <;> exact T.lowered_ascii (by decide) (by decide)
  unfold CaseTables.toLowerCase
  rw [hcs, CaseTables.lowerPoints_append, T.lowerPoints_of_lowered hlowered, ofPoints_append]
  exact (List.prefix_append _ _).isInfix

/-- **A term in lower case is found exactly if it can be read**, or is what every text begins
with. -/
theorem found_iff (term : JsString) : Found T (T.toLowerCase term) ↔
    Readable T (codePoints (T.toLowerCase term)) ∨ T.toLowerCase term = js "\x7b\"" := by
  have hlowered (c) (hc : c ∈ codePoints (T.toLowerCase term)) : T.Lowered c :=
    T.lowered_toLowerCase hc
  have hbrace : ofPoints bracePoints = js "\x7b\"" := by decide +kernel
  constructor
  · intro h
    rcases h.marks hlowered with hmarks | hpoints
    · exact .inl ⟨h.shown hlowered, hmarks, h.sigmas hlowered⟩
    · refine .inr ?_
      rw [← ofPoints_codePoints (T.toLowerCase term), hpoints, hbrace]
  · rintro (h | h) payload s hs hterm
    · exact h.found T hterm (quote_within hs)
    · rw [h, ← hbrace]
      exact brace_found hs

/-! ### Rules -/

namespace PolicyEngine

/-- Whenever a string of the payload has the term, a rule with it that is about the
operation and the agent matches, and decides if no rule before it matches. -/
def Undodged (T : CaseTables) (term : JsString) : Prop :=
  ∀ (policies : PolicySet) (before after : List PolicyRule) (rule : PolicyRule)
    (terms : List JsString) (ctx : GateContext),
    policies.rules = before ++ rule :: after → rule.matchAny = some terms → term ∈ terms →
    operationMatches rule ctx = true → agentMatches rule ctx = true →
    (∃ s, HasString (.obj ctx.payload) s ∧
      includes (T.toLowerCase s) (T.toLowerCase term) = true) →
    ruleMatches T rule ctx (haystack T ctx) = true ∧
      ((∀ r ∈ before, ruleMatches T r ctx (haystack T ctx) = false) →
        (check T policies ctx).action = rule.effect)

/-- A rule of one term for every operation and agent. -/
def termRule (term : JsString) : PolicyRule :=
  ⟨js "rule", none, none, some [term], .block, none⟩

theorem Undodged.found {term : JsString} (h : Undodged T term) :
    Found T (T.toLowerCase term) := by
  intro payload s hs hterm
  have hmatches := (h ⟨.allow, [termRule term]⟩ [] [] (termRule term) [term]
    ⟨.toolCall, js "agent", none, payload, none⟩ rfl rfl (List.mem_singleton_self _) rfl rfl
    ⟨s, hs, decide_eq_true hterm⟩).1
  have hpayload := (Bool.and_eq_true_iff.mp hmatches).2
  obtain ⟨found, hmem, hfound⟩ := List.any_eq_true.mp hpayload
  rw [List.mem_singleton.mp hmem] at hfound
  exact of_decide_eq_true hfound

theorem undodged_of_found {term : JsString} (h : Found T (T.toLowerCase term)) :
    Undodged T term := by
  intro policies before after rule terms ctx hrules hterms hterm hoperation hagent ⟨s, hs, hhas⟩
  have hfound := h ctx.payload s hs (of_decide_eq_true hhas)
  have hpayload : payloadMatches T rule (haystack T ctx) = true := by
    unfold payloadMatches
    rw [hterms]
    exact List.any_eq_true.mpr ⟨term, hterm, decide_eq_true hfound⟩
  have hmatches : ruleMatches T rule ctx (haystack T ctx) = true := by
    unfold ruleMatches
    rw [hoperation, hagent, hpayload]
    rfl
  refine ⟨hmatches, fun hbefore => ?_⟩
  have hnone : before.find? (fun r => ruleMatches T r ctx (haystack T ctx)) = none := by
    rw [List.find?_eq_none]
    intro r hr
    rw [hbefore r hr]
    exact Bool.false_ne_true
  have hrule : (rule :: after).find? (fun r => ruleMatches T r ctx (haystack T ctx)) = some rule :=
    List.find?_cons_of_pos hmatches
  unfold check
  rw [hrules, List.find?_append, hnone, Option.none_or, hrule]

/-- **A term is dodged by no payload exactly if it can be read in a text**: it has no control
character and no lone surrogate, its quotes and backslashes are at its ends, and no sigma of
it could begin a word after an escape. -/
theorem undodged_iff (T : CaseTables) (term : JsString) : Undodged T term ↔
    Readable T (codePoints (T.toLowerCase term)) ∨ T.toLowerCase term = js "\x7b\"" :=
  ⟨fun h => (found_iff term).mp h.found, fun h => undodged_of_found ((found_iff term).mpr h)⟩

/-- A quote between letters is behind a backslash in the text. -/
theorem quoted_term_dodged : ¬ Undodged CaseTables.basic (js "a\"b") := by
  intro h
  have hfound := h.found (flat (js "k") (js "a\"b")) _ (hasString_flat _ _) (by decide +kernel)
  exact absurd hfound (by decide +kernel)

end PolicyEngine

end Kaiban
