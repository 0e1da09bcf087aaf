/-
`Number(text)`, and how a number is printed with a fixed count of decimals.

The text is trimmed first; an empty one is zero.  `0x`, `0o` and `0b` begin whole
numbers without a sign, and everything else is a signed decimal in which either side of
the point may be empty.  Text that is none of these is `nan`.
-/
import Kaiban.Lib.Json.Blur
import Mathlib.Data.List.TakeWhile

open JsString

namespace JsNumber

open NumberText

def ofInt (m : ℤ) : JsNumber := .finite (Decimal.ofInt m)

def negate : JsNumber → JsNumber
  | .nan => .nan
  | .posInfinity => .negInfinity
  | .negInfinity => .posInfinity
  | .finite d => .finite (-d)

/-- `String(n)`. -/
def text : JsNumber → JsString
  | .nan => js "NaN"
  | .posInfinity => js "Infinity"
  | .negInfinity => js "-Infinity"
  | .finite d => numberText d

/-- White space and line ends, as `trim` knows them. -/
def isWhite (u : CodeUnit) : Bool :=
  (0x09 ≤ u.val && u.val ≤ 0x0D) || u.val = 0x20 || u.val = 0xA0 || u.val = 0x1680 ||
    (0x2000 ≤ u.val && u.val ≤ 0x200A) || u.val = 0x2028 || u.val = 0x2029 || u.val = 0x202F ||
    u.val = 0x205F || u.val = 0x3000 || u.val = 0xFEFF

def trim (s : JsString) : JsString :=
  ((s.dropWhile isWhite).reverse.dropWhile isWhite).reverse

/-- The base a letter after a leading zero names. -/
def radix (u : CodeUnit) : Option ℕ :=
  if u = unit 'x' ∨ u = unit 'X' then some 16
  else if u = unit 'o' ∨ u = unit 'O' then some 8
  else if u = unit 'b' ∨ u = unit 'B' then some 2
  else none

/-- Digits of a base, the most significant first, added to `acc`. -/
def radixValue (b : ℕ) : ℕ → JsString → Option ℕ
  | acc, [] => some acc
  | acc, u :: rest =>
      match Json.hexValue u with
      | none => none
      | some d => if d < b then radixValue b (acc * b + d) rest else none

def radixNumber (b : ℕ) (s : JsString) : JsNumber :=
  if s = [] then .nan
  else match radixValue b 0 s with
    | none => .nan
    | some n => ofInt n

/-- The digits after a decimal point, if there is one. -/
def readPoint : JsString → List ℕ × JsString
  | [] => ([], [])
  | u :: rest => if u = unit '.' then spanDigits rest else ([], u :: rest)

def unsignedNumber (s : JsString) : JsNumber :=
  if s = js "Infinity" then .posInfinity
  else
    let whole := spanDigits s
    let frac := readPoint whole.2
    match readExponent frac.2 with
    | some (e, []) =>
        if whole.1 = [] ∧ frac.1 = [] then .nan
        else .finite (Decimal.ofParts (digitsValue (whole.1 ++ frac.1)) (e - frac.1.length))
    | _ => .nan

def signedNumber (s : JsString) : JsNumber :=
  if (readSign s).1 then negate (unsignedNumber (readSign s).2)
  else unsignedNumber (readSign s).2

/-- The number a trimmed text that is not empty stands for. -/
def literalNumber : JsString → JsNumber
  | z :: x :: digits =>
      match if z = unit '0' then radix x else none with
      | some b => radixNumber b digits
      | none => signedNumber (z :: x :: digits)
  | s => signedNumber s

/-- `Number(text)`. -/
def ofText (s : JsString) : JsNumber :=
  if trim s = [] then ofInt 0 else literalNumber (trim s)

/-- `d.toFixed(places)`: rounded to the nearest, halves away from zero. -/
def toFixed (places : ℕ) (d : Decimal) : JsString :=
  if 10 ^ 21 ≤ |(d : ℚ)| then numberText d
  else
    let n := (|(d : ℚ)| * 10 ^ places + 1 / 2).floor.toNat
    let ds := digitsOf n
    let padded := List.replicate (places + 1 - ds.length) 0 ++ ds
    let whole := padded.take (padded.length - places)
    let frac := padded.drop (padded.length - places)
    (Literal.mk (decide (d < 0)) whole frac none).text

/-! ### A text with surrogates is not a number, whatever they are -/

theorem isWhite_maskUnit (u : CodeUnit) : isWhite (maskUnit u) = isWhite u := by
  refine maskUnit_test (p := fun n =>
    (decide (0x09 ≤ n) && decide (n ≤ 0x0D)) || decide (n = 0x20) || decide (n = 0xA0) ||
      decide (n = 0x1680) || (decide (0x2000 ≤ n) && decide (n ≤ 0x200A)) || decide (n = 0x2028) ||
      decide (n = 0x2029) || decide (n = 0x202F) || decide (n = 0x205F) || decide (n = 0x3000) ||
      decide (n = 0xFEFF)) ?_ u
  intro n h1 h2
  have h : ¬ n ≤ 0x0D ∧ n ≠ 0x20 ∧ n ≠ 0xA0 ∧ n ≠ 0x1680 ∧ ¬ n ≤ 0x200A ∧ n ≠ 0x2028 ∧
      n ≠ 0x2029 ∧ n ≠ 0x202F ∧ n ≠ 0x205F ∧ n ≠ 0x3000 ∧ n ≠ 0xFEFF := by omega
  simp [h]

theorem dropWhile_mask (s : JsString) :
    (mask s).dropWhile isWhite = mask (s.dropWhile isWhite) := by
  induction s with
  | nil => rfl
  | cons u rest ih =>
      cases hu : isWhite u with
      | false => simp [isWhite_maskUnit, hu]
      | true => simp [isWhite_maskUnit, hu, ih]

theorem mask_reverse (s : JsString) : mask s.reverse = (mask s).reverse := List.map_reverse

theorem trim_mask (s : JsString) : trim (mask s) = mask (trim s) := by
  simp only [trim, dropWhile_mask, ← mask_reverse]

theorem radixValue_mask (b acc : ℕ) (s : JsString) :
    radixValue b acc (mask s) = radixValue b acc s := by
  induction s generalizing acc with
  | nil => rfl
  | cons u rest ih => simp only [mask_cons, radixValue, Json.hexValue_maskUnit, ih]

theorem readPoint_mask (s : JsString) :
    readPoint (mask s) = ((readPoint s).1, mask (readPoint s).2) := by
  cases s with
  | nil => rfl
  | cons u rest =>
      have h1 : maskUnit u = unit '.' ↔ u = unit '.' := maskUnit_eq_unit (by decide) u
      simp only [mask_cons, readPoint, h1]
      by_cases hu : u = unit '.'
      · simp [hu, spanDigits_mask]
      · simp [hu]

/-- A text below the surrogates is the only one with its mask. -/
theorem mask_eq_iff {w : JsString} (hw : ∀ u ∈ w, u.val < 0xD800) (s : JsString) :
    mask s = w ↔ s = w := by
  induction w generalizing s with
  | nil => exact mask_eq_nil
  | cons v w ih =>
      cases s with
      | nil => simp
      | cons u s =>
          rw [mask_cons, List.cons.injEq, List.cons.injEq, maskUnit_eq_iff (hw v (by simp)),
            ih fun x hx => hw x (by simp [hx])]

theorem unsignedNumber_mask (s : JsString) : unsignedNumber (mask s) = unsignedNumber s := by
  have hinf : mask s = js "Infinity" ↔ s = js "Infinity" :=
    mask_eq_iff (js_small rfl) s
  simp only [unsignedNumber, hinf, spanDigits_mask, readPoint_mask, readExponent_mask]
  by_cases h : s = js "Infinity"
  · rw [if_pos h, if_pos h]
  · rw [if_neg h, if_neg h]
    cases readExponent (readPoint (spanDigits s).2).2 with
    | none => rfl
    | some p =>
        obtain ⟨e, r⟩ := p
        cases r <;> rfl

theorem signedNumber_mask (s : JsString) : signedNumber (mask s) = signedNumber s := by
  simp only [signedNumber, readSign_mask, unsignedNumber_mask]

theorem radix_maskUnit (u : CodeUnit) : radix (maskUnit u) = radix u := by
  simp only [radix, maskUnit_eq_unit (c := 'x') (by decide),
    maskUnit_eq_unit (c := 'X') (by decide),
    maskUnit_eq_unit (c := 'o') (by decide), maskUnit_eq_unit (c := 'O') (by decide),
    maskUnit_eq_unit (c := 'b') (by decide), maskUnit_eq_unit (c := 'B') (by decide)]

theorem literalNumber_mask (s : JsString) : literalNumber (mask s) = literalNumber s := by
  rcases s with _ | ⟨z, _ | ⟨x, digits⟩⟩
  · rfl
  · exact signedNumber_mask [z]
  · have hz : maskUnit z = unit '0' ↔ z = unit '0' := maskUnit_eq_unit (by decide) z
    have hsigned := signedNumber_mask (z :: x :: digits)
    simp only [mask_cons] at hsigned
    simp only [mask_cons, literalNumber, hz, radix_maskUnit, radixNumber, radixValue_mask,
      mask_eq_nil, hsigned]

/-- **Masking a text does not change the number it stands for.** -/
theorem ofText_mask (s : JsString) : ofText (mask s) = ofText s := by
  simp only [ofText, trim_mask, literalNumber_mask, mask_eq_nil]

/-! ### A comma is in no number -/

theorem unit_comma : isDigit (unit ',') = false ∧ Json.hexValue (unit ',') = none ∧
    unit ',' ≠ unit '.' ∧ unit ',' ≠ unit 'e' ∧ unit ',' ≠ unit 'E' ∧ unit ',' ≠ unit '+' ∧
    unit ',' ≠ unit '-' ∧ isWhite (unit ',') = false ∧ unit ',' ∉ js "Infinity" := by
  decide

theorem mem_trim {u : CodeUnit} (hu : isWhite u = false) {s : JsString} (h : u ∈ s) :
    u ∈ trim s := by
  have hdrop : ∀ {t : JsString}, u ∈ t → u ∈ t.dropWhile isWhite := by
    intro t ht
    rw [← List.takeWhile_append_dropWhile (p := isWhite) (l := t), List.mem_append] at ht
    rcases ht with ht | ht
    · rw [List.mem_takeWhile_imp ht] at hu
      exact absurd hu (by simp)
    · exact ht
  exact List.mem_reverse.mpr (hdrop (List.mem_reverse.mpr (hdrop h)))

theorem comma_radixValue (b : ℕ) {acc : ℕ} {s : JsString} (h : unit ',' ∈ s) :
    radixValue b acc s = none := by
  induction s generalizing acc with
  | nil => simp at h
  | cons u rest ih =>
      simp only [radixValue]
      rcases List.mem_cons.mp h with rfl | hrest
      · rw [unit_comma.2.1]
      · cases Json.hexValue u with
        | none => rfl
        | some d =>
            simp only
            by_cases hd : d < b
            · rw [if_pos hd, ih hrest]
            · rw [if_neg hd]

theorem comma_radixNumber (b : ℕ) {s : JsString} (h : unit ',' ∈ s) : radixNumber b s = .nan := by
  unfold radixNumber
  by_cases hs : s = []
  · rw [if_pos hs]
  · rw [if_neg hs, comma_radixValue b h]

theorem comma_spanDigits {s : JsString} (h : unit ',' ∈ s) : unit ',' ∈ (spanDigits s).2 := by
  obtain ⟨c, hc, hdigits, -⟩ := spanDigits_reads (s := s) rfl
  rw [hc, List.mem_append] at h
  rcases h with h | h
  · have hdigit := unit_comma.1
    rw [hdigits _ h] at hdigit
    exact absurd hdigit (by simp)
  · exact h

theorem comma_unsignedNumber {s : JsString} (h : unit ',' ∈ s) : unsignedNumber s = .nan := by
  have hinf : s ≠ js "Infinity" := by
    rintro rfl
    exact unit_comma.2.2.2.2.2.2.2.2 h
  have hpoint : unit ',' ∈ (readPoint (spanDigits s).2).2 := by
    have hspan := comma_spanDigits h
    cases hr : (spanDigits s).2 with
    | nil => rw [hr] at hspan; simp at hspan
    | cons u rest =>
        rw [hr] at hspan
        simp only [readPoint]
        by_cases hu : u = unit '.'
        · rw [if_pos hu]
          rcases List.mem_cons.mp hspan with hu' | hrest
          · exact absurd (hu'.trans hu) unit_comma.2.2.1
          · exact comma_spanDigits hrest
        · rw [if_neg hu]
          exact hspan
  unfold unsignedNumber
  rw [if_neg hinf]
  simp only
  cases hexp : readExponent (readPoint (spanDigits s).2).2 with
  | none => rfl
  | some p =>
      obtain ⟨e, r⟩ := p
      cases r with
      | cons u rest => rfl
      | nil =>
          obtain ⟨c, hc, hunits, -⟩ := readExponent_reads hexp
          rw [hc, List.append_nil] at hpoint
          obtain ⟨h1, -, -, h2, h3, h4, h5, -⟩ := unit_comma
          rcases hunits _ hpoint with h | h | h | h | h
          · rw [h1] at h
            exact absurd h (by simp)
          · exact absurd h h2
          · exact absurd h h3
          · exact absurd h h4
          · exact absurd h h5

theorem comma_signedNumber {s : JsString} (h : unit ',' ∈ s) : signedNumber s = .nan := by
  have hsign : unit ',' ∈ (readSign s).2 := by
    obtain ⟨-, -, -, -, -, hplus, hminus, -⟩ := unit_comma
    cases s with
    | nil => simp at h
    | cons u rest =>
        have hrest : u ≠ unit ',' → unit ',' ∈ rest := fun hu =>
          (List.mem_cons.mp h).resolve_left fun hc => hu hc.symm
        simp only [readSign]
        by_cases hm : u = unit '-'
        · rw [if_pos hm]
          exact hrest fun hu => hminus (hu.symm.trans hm)
        rw [if_neg hm]
        by_cases hp : u = unit '+'
        · rw [if_pos hp]
          exact hrest fun hu => hplus (hu.symm.trans hp)
        · rw [if_neg hp]
          exact h
  unfold signedNumber
  rw [comma_unsignedNumber hsign]
  cases (readSign s).1 <;> rfl

/-- **A text with a comma is not a number.** -/
theorem ofText_comma {s : JsString} (h : unit ',' ∈ s) : ofText s = .nan := by
  have htrim := mem_trim unit_comma.2.2.2.2.2.2.2.1 h
  unfold ofText
  rw [if_neg (List.ne_nil_of_mem htrim)]
  rcases hs : trim s with _ | ⟨z, _ | ⟨x, digits⟩⟩
  · rw [hs] at htrim
    simp at htrim
  · rw [hs] at htrim
    exact comma_signedNumber htrim
  · rw [hs] at htrim
    simp only [literalNumber]
    by_cases hz : z = unit '0'
    · rw [if_pos hz]
      cases hx : radix x with
      | none => exact comma_signedNumber htrim
      | some b =>
          have h1 : unit ',' ≠ z := by rw [hz]; decide
          have h2 : unit ',' ≠ x := by
            rintro rfl
            have hradix : radix (unit ',') = none := by decide
            rw [hradix] at hx
            exact absurd hx (by simp)
          have hdigits : unit ',' ∈ digits := by simpa [h1, h2] using htrim
          exact comma_radixNumber b hdigits
    · rw [if_neg hz]
      exact comma_signedNumber htrim

end JsNumber

/-! ### `String(v)` and `Number(v)` of a JSON value -/

namespace Json

/-- The text of an object.  A member named `toString` is never callable, and then the
conversion throws. -/
def objectText (ms : List (JsString × Json)) : Option JsString :=
  if (get ms (js "toString")).isSome then none else some (js "[object Object]")

mutual
/-- `String(v)`, with `none` for the error it throws. -/
def toText : Json → Option JsString
  | .null => some (js "null")
  | .bool true => some (js "true")
  | .bool false => some (js "false")
  | .num n => some n.text
  | .str s => some s
  | .arr vs => joinText vs
  | .obj ms => objectText ms

/-- `vs.join(",")`, in which `null` is empty. -/
def joinText : List Json → Option JsString
  | [] => some []
  | .null :: vs => moreText vs
  | v :: vs => (toText v).bind fun t => (moreText vs).map fun r => t ++ r

def moreText : List Json → Option JsString
  | [] => some []
  | .null :: vs => (moreText vs).map fun r => unit ',' :: r
  | v :: vs => (toText v).bind fun t => (moreText vs).map fun r => unit ',' :: (t ++ r)
end

/-- `Number(v)`, with `none` for the error it throws. -/
def toNumber : Json → Option JsNumber
  | .null => some (JsNumber.ofInt 0)
  | .bool b => some (JsNumber.ofInt (if b then 1 else 0))
  | .num n => some n
  | .str s => some (JsNumber.ofText s)
  | .arr vs => (joinText vs).map JsNumber.ofText
  | .obj ms => (objectText ms).map JsNumber.ofText

end Json
