/-
Reading looks at surrogates only to copy them.

`mask` replaces every surrogate of a text by U+FFFD, paired or not, and `blur` does the
same inside a value and drops the numbers JSON cannot say.  Masking a text first changes
the value read from it only by that much.  A text in which an encoder replaced the lone
surrogates has the same mask as the text it was given.
-/
import Kaiban.Lib.Json

open JsString

def isSurrogateUnit (u : CodeUnit) : Bool := isSurrogate u.val

def maskUnit (u : CodeUnit) : CodeUnit := if isSurrogateUnit u then 0xFFFD else u

def mask (s : JsString) : JsString := s.map maskUnit

@[simp] theorem mask_nil : mask [] = [] := rfl

@[simp] theorem mask_cons (u : CodeUnit) (s : JsString) : mask (u :: s) = maskUnit u :: mask s :=
  rfl

@[simp] theorem mask_append (s t : JsString) : mask (s ++ t) = mask s ++ mask t :=
  List.map_append

@[simp] theorem mask_eq_nil {s : JsString} : mask s = [] ↔ s = [] := List.map_eq_nil_iff

theorem maskUnit_small {u : CodeUnit} (h : u.val < 0xD800) : maskUnit u = u := by
  have hs : isSurrogateUnit u = false := by
    simp only [isSurrogateUnit, isSurrogate, Bool.and_eq_false_iff, decide_eq_false_iff_not]
    omega
  simp [maskUnit, hs]

/-- A surrogate and its replacement both stand beyond the units the grammar names. -/
theorem maskUnit_cases (u : CodeUnit) :
    maskUnit u = u ∨ (0xD800 ≤ u.val ∧ u.val < 0xE000 ∧ (maskUnit u).val = 0xFFFD) := by
  by_cases hs : isSurrogateUnit u = true
  · have hmask : maskUnit u = 0xFFFD := by simp [maskUnit, hs]
    simp only [isSurrogateUnit, isSurrogate, Bool.and_eq_true, decide_eq_true_eq] at hs
    exact .inr ⟨hs.1, hs.2, by rw [hmask]; rfl⟩
  · exact .inl (by simp [maskUnit, hs])

/-- A test that tells no surrogate from its replacement. -/
theorem maskUnit_test {α : Type} {p : ℕ → α}
    (hp : ∀ n, 0xD800 ≤ n → n < 0xE000 → p n = p 0xFFFD) (u : CodeUnit) :
    p (maskUnit u).val = p u.val := by
  rcases maskUnit_cases u with h | ⟨h1, h2, h3⟩
  · rw [h]
  · rw [h3, hp u.val h1 h2]

theorem maskUnit_eq_iff {v : CodeUnit} (hv : v.val < 0xD800) (u : CodeUnit) :
    maskUnit u = v ↔ u = v := by
  rcases maskUnit_cases u with h | ⟨h1, -, h3⟩
  · rw [h]
  · constructor
    · rintro rfl
      omega
    · rintro rfl
      omega

@[simp] theorem maskUnit_eq_unit {c : Char} (hc : c.toNat < 0xD800) (u : CodeUnit) :
    maskUnit u = unit c ↔ u = unit c := by
  apply maskUnit_eq_iff
  have : (unit c).val = c.toNat := Nat.mod_eq_of_lt (by omega)
  omega

theorem js_small {w : String} (h : w.toList.all (fun c => Nat.blt c.toNat 0xD800) = true) :
    ∀ u ∈ js w, u.val < 0xD800 := by
  intro u hu
  obtain ⟨c, hc, rfl⟩ := List.mem_map.mp hu
  have hlt : c.toNat < 0xD800 := Nat.blt_eq.mp (List.all_eq_true.mp h c hc)
  have hval : (unit c).val = c.toNat := Nat.mod_eq_of_lt (by omega)
  rwa [hval]

/-! ### An encoder's replacements have the same mask -/

theorem mask_pointUnits {c : ℕ} (hc : c < 0x110000) :
    mask (pointUnits (replaced c)) = mask (pointUnits c) := by
  unfold replaced
  by_cases hs : isSurrogate c = true
  · have hlt : c < 0x10000 := by
      simp only [isSurrogate, Bool.and_eq_true, decide_eq_true_eq] at hs
      omega
    have hval : (Fin.ofNat 0x10000 c).val = c := Nat.mod_eq_of_lt hlt
    have hpoint : mask (pointUnits 0xFFFD) = [0xFFFD] := by decide +kernel
    have hmask : maskUnit (Fin.ofNat 0x10000 c) = 0xFFFD := by
      simp only [maskUnit, isSurrogateUnit, hval, hs, if_true]
    rw [if_pos hs, hpoint]
    simp only [pointUnits, if_pos hlt, mask_cons, mask_nil, hmask]
  · rw [if_neg hs]

theorem mask_ofPoints_replaced {cs : List ℕ} (h : ∀ c ∈ cs, c < 0x110000) :
    mask (ofPoints (cs.map replaced)) = mask (ofPoints cs) := by
  induction cs with
  | nil => rfl
  | cons c rest ih =>
      rw [List.map_cons, ofPoints_cons, ofPoints_cons, mask_append, mask_append,
        mask_pointUnits (h c (by simp)), ih fun d hd => h d (by simp [hd])]

/-! ### Numbers -/

namespace NumberText

theorem isDigit_maskUnit (u : CodeUnit) : isDigit (maskUnit u) = isDigit u := by
  refine maskUnit_test (p := fun n => decide (0x30 ≤ n) && decide (n < 0x3A)) ?_ u
  intro n h1 h2
  have ha : ¬ n < 0x3A := by omega
  simp [ha]

theorem maskUnit_digit {u : CodeUnit} (h : isDigit u = true) : maskUnit u = u := by
  simp only [isDigit, Bool.and_eq_true, decide_eq_true_eq] at h
  exact maskUnit_small (by omega)

theorem spanDigits_mask (s : JsString) :
    spanDigits (mask s) = ((spanDigits s).1, mask (spanDigits s).2) := by
  induction s with
  | nil => rfl
  | cons u rest ih =>
      by_cases hu : isDigit u = true
      · simp [spanDigits, maskUnit_digit hu, hu, ih]
      · simp [spanDigits, isDigit_maskUnit, hu]

theorem readSign_mask (s : JsString) :
    readSign (mask s) = ((readSign s).1, mask (readSign s).2) := by
  cases s with
  | nil => rfl
  | cons u rest =>
      have h1 : maskUnit u = unit '-' ↔ u = unit '-' := maskUnit_eq_unit (by decide) u
      have h2 : maskUnit u = unit '+' ↔ u = unit '+' := maskUnit_eq_unit (by decide) u
      simp only [mask_cons, readSign, h1, h2]
      by_cases hm : u = unit '-'
      · simp [hm]
      · rw [if_neg hm, if_neg hm]
        by_cases hp : u = unit '+' <;> simp [hp]

theorem readMinus_mask (s : JsString) :
    readMinus (mask s) = ((readMinus s).1, mask (readMinus s).2) := by
  cases s with
  | nil => rfl
  | cons u rest =>
      have h1 : maskUnit u = unit '-' ↔ u = unit '-' := maskUnit_eq_unit (by decide) u
      simp only [mask_cons, readMinus, h1]
      by_cases hm : u = unit '-' <;> simp [hm]

theorem readFraction_mask (s : JsString) :
    readFraction (mask s) = (readFraction s).map fun p => (p.1, mask p.2) := by
  cases s with
  | nil => rfl
  | cons u rest =>
      have h1 : maskUnit u = unit '.' ↔ u = unit '.' := maskUnit_eq_unit (by decide) u
      simp only [mask_cons, readFraction, h1]
      by_cases hp : u = unit '.'
      · simp only [if_pos hp, spanDigits_mask]
        rcases spanDigits rest with ⟨_ | ⟨d, ds⟩, r⟩ <;> rfl
      · simp [hp]

theorem readExponent_mask (s : JsString) :
    readExponent (mask s) = (readExponent s).map fun p => (p.1, mask p.2) := by
  cases s with
  | nil => rfl
  | cons u rest =>
      have h1 : maskUnit u = unit 'e' ↔ u = unit 'e' := maskUnit_eq_unit (by decide) u
      have h2 : maskUnit u = unit 'E' ↔ u = unit 'E' := maskUnit_eq_unit (by decide) u
      simp only [mask_cons, readExponent, h1, h2]
      by_cases he : u = unit 'e' ∨ u = unit 'E'
      · simp only [if_pos he, readSign_mask, spanDigits_mask]
        rcases spanDigits (readSign rest).2 with ⟨_ | ⟨d, ds⟩, r⟩ <;> rfl
      · simp [he]

theorem readNumber_mask (s : JsString) :
    readNumber (mask s) = (readNumber s).map fun p => (p.1, mask p.2) := by
  unfold readNumber
  simp only [readMinus_mask, spanDigits_mask]
  rcases spanDigits (readMinus s).2 with ⟨_ | ⟨d, ds⟩, r⟩
  · rfl
  by_cases hzero : d = 0 ∧ ds ≠ []
  · simp [hzero]
  · simp only [if_neg hzero, readFraction_mask]
    rcases readFraction r with _ | ⟨fs, r₁⟩
    · rfl
    simp only [Option.map_some, readExponent_mask]
    rcases readExponent r₁ with _ | ⟨e, r₂⟩ <;> rfl

end NumberText

/-! ### Values -/

namespace Json

mutual
/-- A value without its surrogates and without the numbers JSON cannot say. -/
def blur : Json → Json
  | .null => .null
  | .bool b => .bool b
  | .num n => printedNumber n
  | .str s => .str (mask s)
  | .arr vs => .arr (blurItems vs)
  | .obj ms => .obj (blurMembers ms)

def blurItems : List Json → List Json
  | [] => []
  | v :: vs => blur v :: blurItems vs

def blurMembers : List (JsString × Json) → List (JsString × Json)
  | [] => []
  | (k, v) :: ms => (mask k, blur v) :: blurMembers ms
end

theorem blur_printedNumber (n : JsNumber) : blur (printedNumber n) = printedNumber n := by
  cases n <;> simp [printedNumber, blur]

mutual
theorem blur_printed : ∀ v : Json, blur (printed v) = blur v
  | .null => rfl
  | .bool b => rfl
  | .num n => by rw [printed, blur, blur_printedNumber]
  | .str s => rfl
  | .arr vs => by rw [printed, blur, blur, blurItems_printed vs]
  | .obj ms => by rw [printed, blur, blur, blurMembers_printed ms]

theorem blurItems_printed : ∀ vs : List Json, blurItems (printedItems vs) = blurItems vs
  | [] => rfl
  | v :: vs => by rw [printedItems, blurItems, blurItems, blur_printed v, blurItems_printed vs]

theorem blurMembers_printed : ∀ ms : List (JsString × Json),
    blurMembers (printedMembers ms) = blurMembers ms
  | [] => rfl
  | (k, v) :: ms => by
      rw [printedMembers, blurMembers, blurMembers, blur_printed v, blurMembers_printed ms]
end

theorem isSpace_maskUnit (u : CodeUnit) : isSpace (maskUnit u) = isSpace u := by
  refine maskUnit_test (p := fun n => decide (n = 0x20) || decide (n = 0x09) ||
    decide (n = 0x0A) || decide (n = 0x0D)) ?_ u
  intro n h1 h2
  have h : n ≠ 0x20 ∧ n ≠ 0x09 ∧ n ≠ 0x0A ∧ n ≠ 0x0D := by omega
  simp [h]

theorem skipSpace_mask (s : JsString) : skipSpace (mask s) = mask (skipSpace s) := by
  induction s with
  | nil => rfl
  | cons u rest ih =>
      by_cases hu : isSpace u = true <;> simp [skipSpace, isSpace_maskUnit, hu, ih]

theorem expect_mask {c : Char} (hc : c.toNat < 0xD800) (s : JsString) :
    expect c (mask s) = (expect c s).map mask := by
  simp only [expect, skipSpace_mask]
  cases skipSpace s with
  | nil => rfl
  | cons u rest =>
      simp only [mask_cons, maskUnit_eq_unit hc]
      by_cases hu : u = unit c <;> simp [hu]

theorem readWord_mask {w : JsString} (hw : ∀ u ∈ w, u.val < 0xD800) (s : JsString) :
    readWord w (mask s) = (readWord w s).map mask := by
  induction w generalizing s with
  | nil => rfl
  | cons u w ih =>
      cases s with
      | nil => rfl
      | cons v s =>
          have hv : u = maskUnit v ↔ u = v := by
            rw [eq_comm, maskUnit_eq_iff (hw u (by simp)) v, eq_comm]
          simp only [mask_cons, readWord, hv]
          by_cases huv : u = v
          · simp [huv, ih fun x hx => hw x (by simp [hx])]
          · simp [huv]

theorem hexValue_maskUnit (u : CodeUnit) : hexValue (maskUnit u) = hexValue u := by
  refine maskUnit_test (p := fun n =>
    if 0x30 ≤ n ∧ n < 0x3A then some (n - 0x30)
    else if 0x61 ≤ n ∧ n < 0x67 then some (n - 0x57)
    else if 0x41 ≤ n ∧ n < 0x47 then some (n - 0x37)
    else none) ?_ u
  intro n h1 h2
  have h : ¬ (0x30 ≤ n ∧ n < 0x3A) ∧ ¬ (0x61 ≤ n ∧ n < 0x67) ∧ ¬ (0x41 ≤ n ∧ n < 0x47) := by omega
  simp [h]

theorem unescape_maskUnit (u : CodeUnit) : unescape (maskUnit u) = unescape u := by
  rcases maskUnit_cases u with h | ⟨h1, h2, h3⟩
  · rw [h]
  · have hne : ∀ (v : CodeUnit) (c : Char), 0xD800 ≤ v.val → c.toNat < 0xD800 → v ≠ unit c := by
      rintro v c hv hc rfl
      have : (unit c).val = c.toNat := Nat.mod_eq_of_lt (by omega)
      omega
    have hnone : ∀ v : CodeUnit, 0xD800 ≤ v.val → unescape v = none := by
      intro v hv
      simp [unescape, hne v '"' hv (by decide), hne v '\\' hv (by decide),
        hne v '/' hv (by decide), hne v 'b' hv (by decide), hne v 'f' hv (by decide),
        hne v 'n' hv (by decide), hne v 'r' hv (by decide), hne v 't' hv (by decide)]
    rw [hnone u h1, hnone _ (by omega)]

def blurStep : StringStep → StringStep
  | .close r => .close (mask r)
  | .unit u r => .unit (maskUnit u) (mask r)

theorem maskUnit_maskUnit (u : CodeUnit) : maskUnit (maskUnit u) = maskUnit u := by
  rcases maskUnit_cases u with h | ⟨-, -, h3⟩
  · rw [h, h]
  · have : maskUnit u = 0xFFFD := Fin.ext h3
    rw [this]
    decide +kernel

theorem mask_mask (s : JsString) : mask (mask s) = mask s := by
  induction s with
  | nil => rfl
  | cons u rest ih => rw [mask_cons, mask_cons, maskUnit_maskUnit, ih]

theorem stringStep_mask (s : JsString) :
    (stringStep (mask s)).map blurStep = (stringStep s).map blurStep := by
  cases s with
  | nil => rfl
  | cons u rest =>
      have h1 : maskUnit u = unit '"' ↔ u = unit '"' := maskUnit_eq_unit (by decide) u
      have h2 : maskUnit u = unit '\\' ↔ u = unit '\\' := maskUnit_eq_unit (by decide) u
      have hlow : (maskUnit u).val < 0x20 ↔ u.val < 0x20 := by
        rcases maskUnit_cases u with h | ⟨h1, h2, h3⟩
        · rw [h]
        · omega
      simp only [mask_cons, stringStep, h1, h2, hlow]
      by_cases hq : u = unit '"'
      · simp [hq, blurStep, mask_mask]
      by_cases hb : u = unit '\\'
      · simp only [if_neg hq, if_pos hb]
        rcases rest with _ | ⟨e, rest₁⟩
        · rfl
        have he' : maskUnit e = unit 'u' ↔ e = unit 'u' := maskUnit_eq_unit (by decide) e
        simp only [mask_cons, he', unescape_maskUnit]
        by_cases he : e = unit 'u'
        · simp only [if_pos he]
          rcases rest₁ with _ | ⟨a, _ | ⟨b, _ | ⟨c, _ | ⟨d, rest₂⟩⟩⟩⟩
          · rfl
          · rfl
          · rfl
          · rfl
          · simp only [mask_cons, hexQuad, hexValue_maskUnit, Option.map_map]
            congr 1
            funext x
            simp [blurStep, mask_mask]
        · simp only [if_neg he, Option.map_map]
          congr 1
          funext x
          simp [blurStep, mask_mask]
      by_cases hc : u.val < 0x20
      · simp [hq, hb, hc]
      · simp [hq, hb, hc, blurStep, mask_mask, maskUnit_maskUnit]

/-! ### Two texts with one mask are read alike -/

theorem map_eq_map {α β : Type} {f : α → β} {x y : Option α} (h : x.map f = y.map f) :
    (x = none ∧ y = none) ∨ ∃ a b, x = some a ∧ y = some b ∧ f a = f b := by
  cases x with
  | none =>
      cases y with
      | none => exact .inl ⟨rfl, rfl⟩
      | some b => simp at h
  | some a =>
      cases y with
      | none => simp at h
      | some b => exact .inr ⟨a, b, rfl, rfl, by simpa using h⟩

theorem expect_alike {c : Char} (hc : c.toNat < 0xD800) {s t : JsString}
    (h : mask s = mask t) : (expect c s).map mask = (expect c t).map mask := by
  rw [← expect_mask hc, ← expect_mask hc, h]

theorem stringStep_alike {s t : JsString} (h : mask s = mask t) :
    (stringStep s).map blurStep = (stringStep t).map blurStep := by
  rw [← stringStep_mask, ← stringStep_mask t, h]

theorem readString_alike {n : ℕ} {s t : JsString} (h : mask s = mask t) :
    (readString n s).map (fun p => (mask p.1, mask p.2))
      = (readString n t).map fun p => (mask p.1, mask p.2) := by
  induction n generalizing s t with
  | zero => rfl
  | succ n ih =>
      simp only [readString]
      rcases map_eq_map (stringStep_alike h) with ⟨h1, h2⟩ | ⟨p, q, h1, h2, hpq⟩
      · rw [h1, h2]
      · rw [h1, h2]
        cases p with
        | close r =>
            cases q with
            | close r' => simpa [blurStep] using hpq
            | unit u r' => simp [blurStep] at hpq
        | unit u r =>
            cases q with
            | close r' => simp [blurStep] at hpq
            | unit u' r' =>
                simp only [blurStep, StringStep.unit.injEq] at hpq
                obtain ⟨hu, hr⟩ := hpq
                rcases map_eq_map (ih hr) with ⟨e1, e2⟩ | ⟨a, b, e1, e2, hab⟩
                · simp [e1, e2]
                · simp only [Prod.mk.injEq] at hab
                  simp [e1, e2, hu, hab.1, hab.2]

/-- Two texts with one mask are read alike. -/
def Alike (n : ℕ) : Prop :=
  (∀ s t, mask s = mask t → (readValue n s).map (fun p => (blur p.1, mask p.2))
    = (readValue n t).map fun p => (blur p.1, mask p.2)) ∧
  (∀ s t, mask s = mask t → (readItems n s).map (fun p => (blurItems p.1, mask p.2))
    = (readItems n t).map fun p => (blurItems p.1, mask p.2)) ∧
  (∀ s t, mask s = mask t → (readMembers n s).map (fun p => (blurMembers p.1, mask p.2))
    = (readMembers n t).map fun p => (blurMembers p.1, mask p.2))

theorem readWord_alike {w : JsString} (hw : ∀ u ∈ w, u.val < 0xD800) {s t : JsString}
    (h : mask s = mask t) (v : Json) :
    ((readWord w s).map fun r => (v, r)).map (fun p => (blur p.1, mask p.2))
      = ((readWord w t).map fun r => (v, r)).map fun p => (blur p.1, mask p.2) := by
  have hmap : (readWord w s).map mask = (readWord w t).map mask := by
    rw [← readWord_mask hw, ← readWord_mask hw, h]
  rcases map_eq_map hmap with ⟨e1, e2⟩ | ⟨a, b, e1, e2, hab⟩
  · simp [e1, e2]
  · simp [e1, e2, hab]

theorem readNumber_alike {s t : JsString} (h : mask s = mask t) :
    ((NumberText.readNumber s).map fun p => (Json.num (.finite p.1), p.2)).map
        (fun p => (blur p.1, mask p.2))
      = ((NumberText.readNumber t).map fun p => (Json.num (.finite p.1), p.2)).map
        fun p => (blur p.1, mask p.2) := by
  have hmap : (NumberText.readNumber s).map (fun p => (p.1, mask p.2))
      = (NumberText.readNumber t).map fun p => (p.1, mask p.2) := by
    rw [← NumberText.readNumber_mask, ← NumberText.readNumber_mask, h]
  rcases map_eq_map hmap with ⟨e1, e2⟩ | ⟨a, b, e1, e2, hab⟩
  · simp [e1, e2]
  · simp only [Prod.mk.injEq] at hab
    simp [e1, e2, hab.1, hab.2]

theorem alike_value {n : ℕ} (ih : Alike n) (s t : JsString) (h : mask s = mask t) :
    (readValue (n + 1) s).map (fun p => (blur p.1, mask p.2))
      = (readValue (n + 1) t).map fun p => (blur p.1, mask p.2) := by
  cases s with
  | nil =>
      obtain rfl : t = [] := mask_eq_nil.mp h.symm
      rfl
  | cons u rest =>
  cases t with
  | nil => exact absurd h (by simp)
  | cons u' rest' =>
      have hall := h
      simp only [mask_cons, List.cons.injEq] at h
      obtain ⟨hu, hrest⟩ := h
      have htest : ∀ c : Char, c.toNat < 0xD800 → (u' = unit c ↔ u = unit c) := by
        intro c hc
        rw [← maskUnit_eq_unit hc u', ← maskUnit_eq_unit hc u, hu]
      simp only [readValue, htest '{' (by decide), htest '[' (by decide), htest '"' (by decide),
        htest 't' (by decide), htest 'f' (by decide), htest 'n' (by decide)]
      by_cases h1 : u = unit '{'
      · simp only [if_pos h1]
        rcases map_eq_map (expect_alike (c := '}') (by decide) hrest) with
          ⟨e1, e2⟩ | ⟨a, b, e1, e2, hab⟩
        · rw [e1, e2]
          rcases map_eq_map (ih.2.2 _ _ hrest) with ⟨e1, e2⟩ | ⟨a, b, e1, e2, hab⟩
          · simp [e1, e2]
          · simp only [Prod.mk.injEq] at hab
            simp [e1, e2, blur, hab.1, hab.2]
        · simp [e1, e2, hab]
      by_cases h2 : u = unit '['
      · simp only [if_neg h1, if_pos h2]
        rcases map_eq_map (expect_alike (c := ']') (by decide) hrest) with
          ⟨e1, e2⟩ | ⟨a, b, e1, e2, hab⟩
        · rw [e1, e2]
          rcases map_eq_map (ih.2.1 _ _ hrest) with ⟨e1, e2⟩ | ⟨a, b, e1, e2, hab⟩
          · simp [e1, e2]
          · simp only [Prod.mk.injEq] at hab
            simp [e1, e2, blur, hab.1, hab.2]
        · simp [e1, e2, hab]
      by_cases h3 : u = unit '"'
      · simp only [if_neg h1, if_neg h2, if_pos h3]
        rcases map_eq_map (readString_alike (n := n) hrest) with ⟨e1, e2⟩ | ⟨a, b, e1, e2, hab⟩
        · simp [e1, e2]
        · simp only [Prod.mk.injEq] at hab
          simp [e1, e2, blur, hab.1, hab.2]
      simp only [if_neg h1, if_neg h2, if_neg h3]
      by_cases h4 : u = unit 't'
      · simp only [if_pos h4]
        exact readWord_alike (js_small rfl) hrest _
      by_cases h5 : u = unit 'f'
      · simp only [if_neg h4, if_pos h5]
        exact readWord_alike (js_small rfl) hrest _
      by_cases h6 : u = unit 'n'
      · simp only [if_neg h4, if_neg h5, if_pos h6]
        exact readWord_alike (js_small rfl) hrest _
      · simp only [if_neg h4, if_neg h5, if_neg h6]
        exact readNumber_alike hall

theorem alike_items {n : ℕ} (ih : Alike n) (s t : JsString) (h : mask s = mask t) :
    (readItems (n + 1) s).map (fun p => (blurItems p.1, mask p.2))
      = (readItems (n + 1) t).map fun p => (blurItems p.1, mask p.2) := by
  have hskip : mask (skipSpace s) = mask (skipSpace t) := by
    rw [← skipSpace_mask, ← skipSpace_mask, h]
  simp only [readItems]
  rcases map_eq_map (ih.1 _ _ hskip) with ⟨e1, e2⟩ | ⟨⟨v, r⟩, ⟨v', r'⟩, e1, e2, hv⟩
  · simp [e1, e2]
  simp only [Prod.mk.injEq] at hv
  simp only [e1, e2]
  rcases map_eq_map (expect_alike (c := ',') (by decide) hv.2) with
    ⟨e1, e2⟩ | ⟨a, b, e1, e2, hab⟩
  · rw [e1, e2]
    rcases map_eq_map (expect_alike (c := ']') (by decide) hv.2) with
      ⟨e1, e2⟩ | ⟨a, b, e1, e2, hab⟩
    · simp [e1, e2]
    · simp [e1, e2, blurItems, hv.1, hab]
  · rw [e1, e2]
    rcases map_eq_map (ih.2.1 _ _ hab) with ⟨e1, e2⟩ | ⟨a, b, e1, e2, hab⟩
    · simp [e1, e2]
    · simp only [Prod.mk.injEq] at hab
      simp [e1, e2, blurItems, hv.1, hab.1, hab.2]

theorem alike_members {n : ℕ} (ih : Alike n) (s t : JsString) (h : mask s = mask t) :
    (readMembers (n + 1) s).map (fun p => (blurMembers p.1, mask p.2))
      = (readMembers (n + 1) t).map fun p => (blurMembers p.1, mask p.2) := by
  simp only [readMembers]
  rcases map_eq_map (expect_alike (c := '"') (by decide) h) with ⟨e1, e2⟩ | ⟨a, b, e1, e2, hab⟩
  · simp [e1, e2]
  simp only [e1, e2, Option.bind_some]
  rcases map_eq_map (readString_alike (n := n) hab) with ⟨e1, e2⟩ | ⟨⟨k, r⟩, ⟨k', r'⟩, e1, e2, hk⟩
  · simp [e1, e2]
  simp only [Prod.mk.injEq] at hk
  simp only [e1, e2]
  rcases map_eq_map (expect_alike (c := ':') (by decide) hk.2) with
    ⟨e1, e2⟩ | ⟨a, b, e1, e2, hab⟩
  · simp [e1, e2]
  simp only [e1, e2, Option.bind_some]
  have hskip : mask (skipSpace a) = mask (skipSpace b) := by
    rw [← skipSpace_mask, ← skipSpace_mask, hab]
  rcases map_eq_map (ih.1 _ _ hskip) with ⟨e1, e2⟩ | ⟨⟨v, r₁⟩, ⟨v', r₁'⟩, e1, e2, hv⟩
  · simp [e1, e2]
  simp only [Prod.mk.injEq] at hv
  simp only [e1, e2]
  rcases map_eq_map (expect_alike (c := ',') (by decide) hv.2) with
    ⟨e1, e2⟩ | ⟨a, b, e1, e2, hab⟩
  · rw [e1, e2]
    rcases map_eq_map (expect_alike (c := '}') (by decide) hv.2) with
      ⟨e1, e2⟩ | ⟨a, b, e1, e2, hab⟩
    · simp [e1, e2]
    · simp [e1, e2, blurMembers, hk.1, hv.1, hab]
  · rw [e1, e2]
    rcases map_eq_map (ih.2.2 _ _ hab) with ⟨e1, e2⟩ | ⟨a, b, e1, e2, hab⟩
    · simp [e1, e2]
    · simp only [Prod.mk.injEq] at hab
      simp [e1, e2, blurMembers, hk.1, hv.1, hab.1, hab.2]

theorem alike (n : ℕ) : Alike n := by
  induction n with
  | zero => exact ⟨by simp [readValue], by simp [readItems], by simp [readMembers]⟩
  | succ n ih => exact ⟨alike_value ih, alike_items ih, alike_members ih⟩

theorem length_mask (s : JsString) : (mask s).length = s.length := List.length_map _

/-- **Two texts that differ only in surrogates parse to the same value, up to those.** -/
theorem parse_alike {s t : JsString} (h : mask s = mask t) :
    (parse s).map blur = (parse t).map blur := by
  have hlen : s.length = t.length := by rw [← length_mask, h, length_mask]
  have hskip : mask (skipSpace s) = mask (skipSpace t) := by
    rw [← skipSpace_mask, ← skipSpace_mask, h]
  have hfuel : fuelFor s = fuelFor t := by rw [fuelFor, fuelFor, hlen]
  simp only [parse, hfuel]
  rcases map_eq_map ((alike (fuelFor t)).1 _ _ hskip) with
    ⟨e1, e2⟩ | ⟨⟨v, r⟩, ⟨v', r'⟩, e1, e2, hv⟩
  · simp [e1, e2]
  simp only [Prod.mk.injEq] at hv
  have hnil : skipSpace r = [] ↔ skipSpace r' = [] := by
    rw [← mask_eq_nil, ← skipSpace_mask, hv.2, skipSpace_mask, mask_eq_nil]
  simp only [e1, e2, hnil]
  by_cases hr : skipSpace r' = [] <;> simp [hr, hv.1]

end Json
