/-
Exact decimal numbers and the way JavaScript writes them.

A finite JavaScript number is identified here with the shortest decimal that reads
back as it, which is the text the language prints.  `Decimal` is the subgroup of the
rationals with a finite decimal expansion, so sums and comparisons are exact, and
nothing rounds.  Where a program depends on it, `Double.round` has the double next to
such a number.

`numberText` follows `Number::toString`: plain digits up to 10^21, a decimal point
down to 10^-6, and an exponent beyond.  `readNumber` follows the number grammar of
JSON.  The file ends with the fact both rest on: what is written is read back.
-/
import Kaiban.Lib.Text
import Mathlib.Algebra.Group.Subgroup.Basic
import Mathlib.Algebra.Order.Group.Defs
import Mathlib.Algebra.Group.Subgroup.Order
import Mathlib.Algebra.Order.Ring.Rat
import Mathlib.Data.Nat.Digits.Lemmas
import Mathlib.Tactic.FieldSimp
import Mathlib.Tactic.Ring
import Mathlib.Tactic.Positivity

open JsString

/-- The rationals with a finite decimal expansion. -/
def decimals : AddSubgroup ℚ where
  carrier := {q | ∃ (m : ℤ) (k : ℕ), q * 10 ^ k = m}
  zero_mem' := ⟨0, 0, by simp⟩
  add_mem' := by
    rintro a b ⟨m, k, hm⟩ ⟨n, l, hn⟩
    refine ⟨m * 10 ^ l + n * 10 ^ k, k + l, ?_⟩
    push_cast
    rw [← hm, ← hn, pow_add]
    ring
  neg_mem' := by
    rintro a ⟨m, k, hm⟩
    refine ⟨-m, k, ?_⟩
    push_cast
    rw [← hm]
    ring

/-- A number with a finite decimal expansion. -/
def Decimal : Type := decimals

namespace Decimal

instance : AddCommGroup Decimal := inferInstanceAs (AddCommGroup decimals)

instance : LinearOrder Decimal := inferInstanceAs (LinearOrder decimals)

instance : IsOrderedAddMonoid Decimal := inferInstanceAs (IsOrderedAddMonoid decimals)

instance addLeftMono : AddLeftMono Decimal := inferInstance

instance : Coe Decimal ℚ := ⟨Subtype.val⟩

@[simp] theorem coe_zero : ((0 : Decimal) : ℚ) = 0 := rfl

@[simp] theorem coe_add (a b : Decimal) : ((a + b : Decimal) : ℚ) = a + b := rfl

theorem lt_iff {a b : Decimal} : a < b ↔ (a : ℚ) < b := Iff.rfl

/-- `m * 10 ^ e`. -/
def ofParts (m e : ℤ) : Decimal :=
  ⟨m * 10 ^ e, by
    rcases Int.eq_ofNat_of_zero_le (le_max_right e 0) with ⟨n, hn⟩
    refine ⟨m * 10 ^ (e + (-e).toNat).toNat, (-e).toNat, ?_⟩
    have h10 : (10 : ℚ) ≠ 0 := by norm_num
    push_cast
    rw [mul_assoc, ← zpow_natCast (10 : ℚ) (-e).toNat, ← zpow_add₀ h10,
      ← zpow_natCast (10 : ℚ) (e + (-e).toNat).toNat]
    congr 2
    omega⟩

@[simp] theorem coe_ofParts (m e : ℤ) : (ofParts m e : ℚ) = m * 10 ^ e := rfl

def ofInt (m : ℤ) : Decimal := ofParts m 0

@[simp] theorem coe_ofInt (m : ℤ) : (ofInt m : ℚ) = m := by simp [ofInt]

theorem ofInt_injective : Function.Injective ofInt := by
  intro m n h
  have hvalue : (ofInt m : ℚ) = ofInt n := by rw [h]
  rw [coe_ofInt, coe_ofInt] at hvalue
  exact_mod_cast hvalue

theorem exists_scale (d : Decimal) : ∃ k : ℕ, ((d : ℚ) * 10 ^ k).den = 1 := by
  obtain ⟨m, k, hm⟩ := d.2
  exact ⟨k, by rw [hm]; exact Rat.den_intCast m⟩

/-- The number of decimals. -/
def scale (d : Decimal) : ℕ := Nat.find (exists_scale d)

/-- The number without its decimal point. -/
def mantissa (d : Decimal) : ℤ := ((d : ℚ) * 10 ^ scale d).num

theorem mantissa_eq (d : Decimal) : (mantissa d : ℚ) = d * 10 ^ scale d := by
  have hden : ((d : ℚ) * 10 ^ scale d).den = 1 := Nat.find_spec (exists_scale d)
  exact Rat.coe_int_num_of_den_eq_one hden

theorem coe_eq_mantissa (d : Decimal) : (d : ℚ) = mantissa d * 10 ^ (-(scale d : ℤ)) := by
  rw [mantissa_eq, mul_assoc, ← zpow_natCast, ← zpow_add₀ (by norm_num : (10 : ℚ) ≠ 0)]
  simp

/-- Take trailing zeros off a number and put them into its exponent. -/
def strip : ℕ → ℕ → ℤ → ℕ × ℤ
  | 0, s, e => (s, e)
  | fuel + 1, s, e => if s ≠ 0 ∧ s % 10 = 0 then strip fuel (s / 10) (e + 1) else (s, e)

theorem strip_value (fuel s : ℕ) (e : ℤ) :
    ((strip fuel s e).1 : ℚ) * 10 ^ (strip fuel s e).2 = s * 10 ^ e := by
  induction fuel generalizing s e with
  | zero => rfl
  | succ fuel ih =>
      unfold strip
      by_cases h : s ≠ 0 ∧ s % 10 = 0
      · rw [if_pos h, ih]
        have hs : (s : ℚ) = (s / 10 : ℕ) * 10 := by
          have hnat : s = s / 10 * 10 := by omega
          exact_mod_cast hnat
        rw [hs, zpow_add₀ (by norm_num : (10 : ℚ) ≠ 0)]
        ring
      · rw [if_neg h]

end Decimal

/-! ### Digits -/

namespace NumberText

def isDigit (u : CodeUnit) : Bool := 0x30 ≤ u.val && u.val < 0x3A

def digitUnit (d : ℕ) : CodeUnit := Fin.ofNat 0x10000 (0x30 + d)

/-- The value of digits, the most significant first. -/
def digitsValue (ds : List ℕ) : ℕ := Nat.ofDigits 10 ds.reverse

/-- The digits of a number, the most significant first.  Zero has one. -/
def digitsOf (n : ℕ) : List ℕ := if n = 0 then [0] else (Nat.digits 10 n).reverse

/-- The digits a text begins with, and what follows them. -/
def spanDigits : JsString → List ℕ × JsString
  | [] => ([], [])
  | u :: rest =>
      if isDigit u then ((u.val - 0x30) :: (spanDigits rest).1, (spanDigits rest).2)
      else ([], u :: rest)

theorem digitsValue_digitsOf (n : ℕ) : digitsValue (digitsOf n) = n := by
  unfold digitsValue digitsOf
  by_cases h : n = 0
  · subst h; rfl
  · rw [if_neg h, List.reverse_reverse, Nat.ofDigits_digits]

theorem digitsOf_lt (n : ℕ) : ∀ d ∈ digitsOf n, d < 10 := by
  unfold digitsOf
  intro d hd
  by_cases h : n = 0
  · rw [if_pos h] at hd
    obtain rfl : d = 0 := by simpa using hd
    omega
  · rw [if_neg h, List.mem_reverse] at hd
    exact Nat.digits_lt_base (by norm_num) hd

theorem digitsOf_ne_nil (n : ℕ) : digitsOf n ≠ [] := by
  unfold digitsOf
  by_cases h : n = 0
  · simp [h]
  · simp [h, Nat.digits_ne_nil_iff_ne_zero]

/-- Only zero is written with a leading zero. -/
theorem digitsOf_head {n : ℕ} (hn : n ≠ 0) : (digitsOf n).head? ≠ some 0 := by
  unfold digitsOf
  rw [if_neg hn, List.head?_reverse]
  have hne : Nat.digits 10 n ≠ [] := Nat.digits_ne_nil_iff_ne_zero.mpr hn
  rw [List.getLast?_eq_getLast_of_ne_nil hne]
  intro h
  exact Nat.getLast_digit_ne_zero 10 hn (Option.some.inj h)

theorem digitsValue_append_zeros (ds : List ℕ) (k : ℕ) :
    digitsValue (ds ++ List.replicate k 0) = digitsValue ds * 10 ^ k := by
  unfold digitsValue
  rw [List.reverse_append, List.reverse_replicate, Nat.ofDigits_append, List.length_replicate]
  have hzero : Nat.ofDigits 10 (List.replicate k 0) = 0 := by
    simp
  rw [hzero]
  ring

theorem digitsValue_zeros_append (k : ℕ) (ds : List ℕ) :
    digitsValue (List.replicate k 0 ++ ds) = digitsValue ds := by
  unfold digitsValue
  rw [List.reverse_append, List.reverse_replicate, Nat.ofDigits_append_replicate_zero]

/-- Nothing that could continue a run of digits. -/
def NoDigitHead (r : JsString) : Prop := ∀ u ∈ r.head?, isDigit u = false

theorem isDigit_digitUnit {d : ℕ} (hd : d < 10) :
    isDigit (digitUnit d) = true ∧ (digitUnit d).val - 0x30 = d := by
  have hval : (digitUnit d).val = 0x30 + d := Nat.mod_eq_of_lt (by omega)
  simp only [isDigit, hval, Bool.and_eq_true, decide_eq_true_eq]
  omega

theorem spanDigits_map {ds : List ℕ} (hd : ∀ d ∈ ds, d < 10) {r : JsString}
    (hr : NoDigitHead r) : spanDigits (ds.map digitUnit ++ r) = (ds, r) := by
  induction ds with
  | nil =>
      cases r with
      | nil => rfl
      | cons u rest => simp [spanDigits, hr u rfl]
  | cons d rest ih =>
      obtain ⟨h1, h2⟩ := isDigit_digitUnit (hd d (by simp))
      simp only [List.map_cons, List.cons_append, spanDigits, h1, if_true, h2,
        ih fun x hx => hd x (by simp [hx])]

/-- What the digits were read from, with any other text after it that is no digit. -/
theorem spanDigits_reads {s r : JsString} {ds : List ℕ} (h : spanDigits s = (ds, r)) :
    ∃ c, s = c ++ r ∧ (∀ u ∈ c, isDigit u = true) ∧
      ∀ r', NoDigitHead r' → spanDigits (c ++ r') = (ds, r') := by
  have hplain : ∀ r', NoDigitHead r' → spanDigits ([] ++ r') = ([], r') := fun r' hr =>
    @spanDigits_map [] (by simp) r' hr
  induction s generalizing ds with
  | nil =>
      simp only [spanDigits, Prod.mk.injEq] at h
      obtain ⟨rfl, rfl⟩ := h
      exact ⟨[], rfl, by simp, hplain⟩
  | cons u rest ih =>
      simp only [spanDigits] at h
      by_cases hu : isDigit u = true
      · rw [if_pos hu, Prod.mk.injEq] at h
        obtain ⟨h1, h2⟩ := h
        obtain ⟨c, hc, hdigits, hany⟩ := ih (show spanDigits rest = ((spanDigits rest).1, r) by
          rw [← h2])
        refine ⟨u :: c, by rw [hc, List.cons_append], ?_, ?_⟩
        · intro x hx
          rcases List.mem_cons.mp hx with rfl | hx
          · exact hu
          · exact hdigits x hx
        · intro r' hr
          simp only [List.cons_append, spanDigits, hu, if_true, hany r' hr, ← h1]
      · rw [if_neg hu, Prod.mk.injEq] at h
        obtain ⟨rfl, rfl⟩ := h
        exact ⟨[], rfl, by simp, hplain⟩

/-! ### Literals -/

/-- A number as it is written: sign, whole digits, fraction digits and exponent. -/
structure Literal where
  neg : Bool
  whole : List ℕ
  frac : List ℕ
  exp : Option ℤ

namespace Literal

def value (l : Literal) : Decimal :=
  Decimal.ofParts ((if l.neg then -1 else 1) * digitsValue (l.whole ++ l.frac))
    (l.exp.getD 0 - l.frac.length)

def fractionText (l : Literal) : JsString :=
  if l.frac = [] then [] else unit '.' :: l.frac.map digitUnit

def exponentText (l : Literal) : JsString :=
  match l.exp with
  | none => []
  | some e => unit 'e' :: (if e < 0 then unit '-' else unit '+') ::
      (digitsOf e.natAbs).map digitUnit

def text (l : Literal) : JsString :=
  (if l.neg then [unit '-'] else []) ++ l.whole.map digitUnit ++ l.fractionText ++ l.exponentText

/-- The literals the number grammar accepts. -/
structure WellFormed (l : Literal) : Prop where
  whole_ne : l.whole ≠ []
  noLeadingZero : l.whole.head? = some 0 → l.whole.length = 1
  whole_lt : ∀ d ∈ l.whole, d < 10
  frac_lt : ∀ d ∈ l.frac, d < 10

end Literal

/-- `Number::toString` for the digits `ds` and the exponent `e`: the number is
`ds * 10 ^ e`, and its decimal point stands after `n` digits. -/
def layout (neg : Bool) (ds : List ℕ) (e : ℤ) : Literal :=
  let n := ds.length + e
  if 0 ≤ e ∧ n ≤ 21 then ⟨neg, ds ++ List.replicate e.toNat 0, [], none⟩
  else if 0 < n ∧ n ≤ 21 then ⟨neg, ds.take n.toNat, ds.drop n.toNat, none⟩
  else if -6 < n ∧ n ≤ 0 then ⟨neg, [0], List.replicate (-n).toNat 0 ++ ds, none⟩
  else ⟨neg, ds.take 1, ds.drop 1, some (n - 1)⟩

/-- The literal JavaScript prints for a number. -/
def literalOf (d : Decimal) : Literal :=
  if d = 0 then ⟨false, [0], [], none⟩
  else
    let p := Decimal.strip d.mantissa.natAbs d.mantissa.natAbs (-(d.scale : ℤ))
    layout (decide (d < 0)) (digitsOf p.1) p.2

def numberText (d : Decimal) : JsString := (literalOf d).text

theorem layout_value (neg : Bool) {ds : List ℕ} (hds : ds ≠ []) (e : ℤ) :
    (layout neg ds e).value
      = Decimal.ofParts ((if neg then -1 else 1) * digitsValue ds) e := by
  have hlen : 0 < ds.length := List.length_pos_iff.mpr hds
  apply Subtype.ext
  unfold layout
  simp only
  split
  · rename_i h
    simp only [Literal.value, List.append_nil, digitsValue_append_zeros, Option.getD_none,
      Decimal.coe_ofParts, List.length_nil]
    have he : (e.toNat : ℤ) = e := by omega
    push_cast
    rw [← zpow_natCast (10 : ℚ) e.toNat, he]
    simp
  split
  · rename_i h
    have hexp : (0 : ℤ) - (ds.length - (ds.length + e).toNat : ℕ) = e := by omega
    simp only [Literal.value, List.take_append_drop, Option.getD_none, List.length_drop, hexp]
  split
  · rename_i h
    have hzero : digitsValue ([0] ++ (List.replicate (-(ds.length + e)).toNat 0 ++ ds))
        = digitsValue ds := by
      have := digitsValue_zeros_append ((-((ds.length : ℤ) + e)).toNat + 1) ds
      rwa [List.replicate_succ] at this
    have hexp : (0 : ℤ) - ((-(ds.length + e)).toNat + ds.length : ℕ) = e := by
      push_cast
      omega
    simp only [Literal.value, Option.getD_none, List.length_append, List.length_replicate, hzero,
      hexp]
  · have hexp : (ds.length : ℤ) + e - 1 - (ds.length - 1 : ℕ) = e := by omega
    simp only [Literal.value, List.take_append_drop, Option.getD_some, List.length_drop, hexp]

theorem layout_wellFormed (neg : Bool) {ds : List ℕ} (hds : ds ≠ []) (hlt : ∀ d ∈ ds, d < 10)
    (hzero : ds.head? ≠ some 0) (e : ℤ) : (layout neg ds e).WellFormed := by
  have hlen : 0 < ds.length := List.length_pos_iff.mpr hds
  have htake : ∀ n, 0 < n → (ds.take n) ≠ [] ∧ (ds.take n).head? ≠ some 0 := by
    intro n hn
    cases ds with
    | nil => exact absurd rfl hds
    | cons d rest =>
        cases n with
        | zero => omega
        | succ n => exact ⟨by simp, by simpa using hzero⟩
  unfold layout
  simp only
  split
  · refine ⟨by simp [hds], ?_, ?_, by simp⟩
    · intro h
      cases ds with
      | nil => exact absurd rfl hds
      | cons d rest => exact absurd (by simpa using h) hzero
    · intro d hd
      rcases List.mem_append.mp hd with hd | hd
      · exact hlt d hd
      · have := List.eq_of_mem_replicate hd
        omega
  split
  · rename_i h
    obtain ⟨h1, h2⟩ := htake (ds.length + e).toNat (by omega)
    exact ⟨h1, fun hc => absurd hc h2, fun d hd => hlt d (List.mem_of_mem_take hd),
      fun d hd => hlt d (List.mem_of_mem_drop hd)⟩
  split
  · refine ⟨by simp, by simp, by simp, ?_⟩
    intro d hd
    rcases List.mem_append.mp hd with hd | hd
    · have := List.eq_of_mem_replicate hd
      omega
    · exact hlt d hd
  · obtain ⟨h1, h2⟩ := htake 1 (by omega)
    exact ⟨h1, fun hc => absurd hc h2, fun d hd => hlt d (List.mem_of_mem_take hd),
      fun d hd => hlt d (List.mem_of_mem_drop hd)⟩

theorem literalOf_value (d : Decimal) : (literalOf d).value = d := by
  unfold literalOf
  by_cases h0 : d = 0
  · subst h0
    apply Subtype.ext
    simp [Literal.value, digitsValue]
  · rw [if_neg h0]
    simp only
    rw [layout_value _ (digitsOf_ne_nil _), digitsValue_digitsOf]
    apply Subtype.ext
    rw [Decimal.coe_ofParts]
    have hv := Decimal.strip_value d.mantissa.natAbs d.mantissa.natAbs (-(d.scale : ℤ))
    push_cast
    rw [mul_assoc, hv, Decimal.coe_eq_mantissa d]
    have hsign : (d < 0) ↔ d.mantissa < 0 := by
      have h1 : (d < 0) ↔ (d : ℚ) < 0 := Iff.rfl
      rw [h1, ← Int.cast_lt (R := ℚ), Decimal.mantissa_eq]
      constructor
      · intro h
        simpa using mul_neg_of_neg_of_pos h (by positivity)
      · intro h
        by_contra hc
        have : (0 : ℚ) ≤ d * 10 ^ d.scale := mul_nonneg (not_lt.mp hc) (by positivity)
        rw [Int.cast_zero] at h
        exact absurd h (not_lt.mpr this)
    by_cases hneg : d < 0
    · have hm : d.mantissa < 0 := hsign.mp hneg
      have hnat : ((d.mantissa.natAbs : ℤ) : ℚ) = -d.mantissa := by
        rw [Int.ofNat_natAbs_of_nonpos hm.le]
        push_cast
        rfl
      rw [Int.cast_natCast] at hnat
      simp only [hneg, decide_true, if_true, hnat]
      ring
    · have hm : ¬ d.mantissa < 0 := fun hc => hneg (hsign.mpr hc)
      have hnat : ((d.mantissa.natAbs : ℤ) : ℚ) = d.mantissa := by
        rw [Int.natAbs_of_nonneg (not_lt.mp hm)]
      rw [Int.cast_natCast] at hnat
      simp only [hneg, decide_false, hnat, Bool.false_eq_true, if_false]
      ring

theorem strip_ne_zero {fuel s : ℕ} {e : ℤ} (hs : s ≠ 0) : (Decimal.strip fuel s e).1 ≠ 0 := by
  induction fuel generalizing s e with
  | zero => exact hs
  | succ fuel ih =>
      unfold Decimal.strip
      by_cases h : s ≠ 0 ∧ s % 10 = 0
      · rw [if_pos h]
        exact ih (by omega)
      · rw [if_neg h]
        exact hs

theorem literalOf_wellFormed (d : Decimal) : (literalOf d).WellFormed := by
  unfold literalOf
  by_cases h0 : d = 0
  · rw [if_pos h0]
    exact ⟨by simp, by simp, by simp, by simp⟩
  · rw [if_neg h0]
    have hm : d.mantissa.natAbs ≠ 0 := by
      intro h
      apply h0
      apply Subtype.ext
      rw [Decimal.coe_eq_mantissa d, Int.natAbs_eq_zero.mp h]
      simp
    exact layout_wellFormed _ (digitsOf_ne_nil _) (digitsOf_lt _)
      (digitsOf_head (strip_ne_zero hm)) _

/-! ### Reading a number -/

/-- A fraction, if a decimal point comes next: at least one digit must follow it. -/
def readFraction : JsString → Option (List ℕ × JsString)
  | [] => some ([], [])
  | u :: rest =>
      if u = unit '.' then
        match spanDigits rest with
        | ([], _) => none
        | (d :: ds, r) => some (d :: ds, r)
      else some ([], u :: rest)

/-- The sign of an exponent. -/
def readSign : JsString → Bool × JsString
  | [] => (false, [])
  | u :: rest =>
      if u = unit '-' then (true, rest)
      else if u = unit '+' then (false, rest)
      else (false, u :: rest)

/-- An exponent, if the letter comes next: at least one digit must follow it. -/
def readExponent : JsString → Option (ℤ × JsString)
  | [] => some (0, [])
  | u :: rest =>
      if u = unit 'e' ∨ u = unit 'E' then
        match spanDigits (readSign rest).2 with
        | ([], _) => none
        | (d :: ds, r) =>
            some ((if (readSign rest).1 then -1 else 1) * digitsValue (d :: ds), r)
      else some (0, u :: rest)

def readMinus : JsString → Bool × JsString
  | [] => (false, [])
  | u :: rest => if u = unit '-' then (true, rest) else (false, u :: rest)

/-- A number of the JSON grammar, and what follows it. -/
def readNumber (s : JsString) : Option (Decimal × JsString) :=
  match spanDigits (readMinus s).2 with
  | ([], _) => none
  | (d :: ds, s₁) =>
      if d = 0 ∧ ds ≠ [] then none
      else
        match readFraction s₁ with
        | none => none
        | some (fs, s₂) =>
            match readExponent s₂ with
            | none => none
            | some (e, s₃) =>
                some (Decimal.ofParts
                  ((if (readMinus s).1 then -1 else 1) * digitsValue (d :: ds ++ fs))
                  (e - fs.length), s₃)

/-- Nothing that could continue a number. -/
def NoNumberHead (r : JsString) : Prop :=
  ∀ u ∈ r.head?, isDigit u = false ∧ u ≠ unit '.' ∧ u ≠ unit 'e' ∧ u ≠ unit 'E'

theorem NoNumberHead.noDigitHead {r : JsString} (h : NoNumberHead r) : NoDigitHead r :=
  fun u hu => (h u hu).1

theorem readFraction_text (l : Literal) (hl : l.WellFormed) {r : JsString}
    (hd : NoDigitHead r) (hr : ∀ u ∈ r.head?, u ≠ unit '.') :
    readFraction (l.fractionText ++ r) = some (l.frac, r) := by
  unfold Literal.fractionText
  by_cases hf : l.frac = []
  · rw [if_pos hf, List.nil_append, hf]
    cases r with
    | nil => rfl
    | cons u rest => simp [readFraction, hr u rfl]
  · rw [if_neg hf]
    obtain ⟨d, ds, hds⟩ := List.exists_cons_of_ne_nil hf
    have hspan := spanDigits_map hl.frac_lt hd
    rw [hds] at hspan ⊢
    simp only [List.cons_append, readFraction, if_true] at hspan ⊢
    rw [hspan]

theorem readExponent_text (l : Literal) {r : JsString} (hr : NoNumberHead r) :
    readExponent (l.exponentText ++ r) = some (l.exp.getD 0, r) := by
  unfold Literal.exponentText
  cases hexp : l.exp with
  | none =>
      cases r with
      | nil => rfl
      | cons u rest =>
          obtain ⟨-, -, h1, h2⟩ := hr u rfl
          simp [readExponent, h1, h2]
  | some e =>
      obtain ⟨d, ds, hds⟩ := List.exists_cons_of_ne_nil (digitsOf_ne_nil e.natAbs)
      have hspan := spanDigits_map (digitsOf_lt e.natAbs) hr.noDigitHead
      have hval := digitsValue_digitsOf e.natAbs
      rw [hds] at hspan hval
      have hsign : ∀ t, readSign ((if e < 0 then unit '-' else unit '+') :: t)
          = (decide (e < 0), t) := by
        intro t
        by_cases hneg : e < 0
        · simp [readSign, hneg]
        · have hne : unit '+' ≠ unit '-' := by decide
          simp [readSign, hneg, hne]
      simp only [hds, List.cons_append, readExponent, true_or, if_true, hsign]
      rw [hspan]
      simp only [hval, decide_eq_true_eq, Option.getD_some, Option.some.injEq, Prod.mk.injEq,
        and_true]
      by_cases hneg : e < 0
      · rw [if_pos hneg]
        omega
      · rw [if_neg hneg]
        omega

/-- **A literal of the grammar is read back as its value, whatever follows it.** -/
theorem readNumber_text (l : Literal) (hl : l.WellFormed) {r : JsString}
    (hr : NoNumberHead r) : readNumber (l.text ++ r) = some (l.value, r) := by
  obtain ⟨d, ds, hds⟩ := List.exists_cons_of_ne_nil hl.whole_ne
  -- What follows the fraction begins with the exponent's letter or ends the number.
  have hexp : NoDigitHead (l.exponentText ++ r) ∧
      ∀ u ∈ (l.exponentText ++ r).head?, u ≠ unit '.' := by
    unfold Literal.exponentText
    cases l.exp with
    | none => exact ⟨hr.noDigitHead, fun u hu => (hr u hu).2.1⟩
    | some e =>
        have h1 : isDigit (unit 'e') = false := by decide
        have h2 : unit 'e' ≠ unit '.' := by decide
        exact ⟨by intro u hu; simp at hu; rw [← hu]; exact h1,
          by intro u hu; simp at hu; rw [← hu]; exact h2⟩
  have hfrac : NoDigitHead (l.fractionText ++ (l.exponentText ++ r)) := by
    unfold Literal.fractionText
    by_cases hf : l.frac = []
    · rw [if_pos hf]
      exact hexp.1
    · rw [if_neg hf]
      have h1 : isDigit (unit '.') = false := by decide
      intro u hu
      simp at hu
      rw [← hu]
      exact h1
  have hminus : readMinus (l.text ++ r)
      = (l.neg, l.whole.map digitUnit ++ (l.fractionText ++ (l.exponentText ++ r))) := by
    have hd := isDigit_digitUnit (hl.whole_lt d (by simp [hds]))
    have hne : digitUnit d ≠ unit '-' := by
      intro hc
      have h1 : isDigit (unit '-') = false := by decide
      rw [hc, h1] at hd
      exact Bool.noConfusion hd.1
    unfold Literal.text
    cases l.neg with
    | false => simp [hds, readMinus, hne]
    | true => simp [readMinus]
  have hspan := spanDigits_map hl.whole_lt hfrac
  have hzero : ¬ (d = 0 ∧ ds ≠ []) := by
    rintro ⟨rfl, hne⟩
    have := hl.noLeadingZero (by rw [hds]; rfl)
    rw [hds] at this
    simp at this
    exact hne this
  unfold readNumber
  rw [hminus]
  simp only
  rw [hspan, hds]
  simp only [if_neg hzero]
  rw [readFraction_text l hl hexp.1 hexp.2]
  simp only
  rw [readExponent_text l hr]
  simp only [Literal.value, hds, List.cons_append]

/-- **What JavaScript prints for a number is read back as that number.** -/
theorem readNumber_numberText (d : Decimal) {r : JsString} (hr : NoNumberHead r) :
    readNumber (numberText d ++ r) = some (d, r) := by
  rw [numberText, readNumber_text _ (literalOf_wellFormed d) hr, literalOf_value]

/-! ### What a number is read from

A number is read from a prefix of the text, and reads the same with any other text
after that prefix that could not continue a number. -/

theorem readMinus_reads (s : JsString) :
    ∃ c, s = c ++ (readMinus s).2 ∧ (c = [] ∨ c = [unit '-']) ∧
      ∀ r', (∀ u ∈ r'.head?, u ≠ unit '-') → readMinus (c ++ r') = ((readMinus s).1, r') := by
  have hplain : ∀ r' : JsString, (∀ u ∈ r'.head?, u ≠ unit '-') → readMinus r' = (false, r') := by
    intro r' hr
    cases r' with
    | nil => rfl
    | cons u rest => simp [readMinus, hr u rfl]
  cases s with
  | nil => exact ⟨[], rfl, .inl rfl, hplain⟩
  | cons u rest =>
      by_cases hu : u = unit '-'
      · refine ⟨[unit '-'], by simp [readMinus, hu], .inr rfl, fun r' _ => ?_⟩
        simp [readMinus, hu]
      · refine ⟨[], by simp [readMinus, hu], .inl rfl, fun r' hr => ?_⟩
        simpa [readMinus, hu] using hplain r' hr

theorem readSign_reads (s : JsString) (hs : ∃ d ds r, spanDigits (readSign s).2 = (d :: ds, r)) :
    ∃ c, s = c ++ (readSign s).2 ∧ (∀ u ∈ c, u = unit '+' ∨ u = unit '-') ∧
      ∀ r' : JsString, (∃ u ∈ r'.head?, isDigit u = true) →
        readSign (c ++ r') = ((readSign s).1, r') := by
  have hplain : ∀ r' : JsString, (∃ u ∈ r'.head?, isDigit u = true) →
      readSign r' = (false, r') := by
    rintro r' ⟨u, hu, hd⟩
    cases r' with
    | nil => simp at hu
    | cons v rest =>
        obtain rfl : v = u := by simpa using hu
        have h1 : v ≠ unit '-' := by rintro rfl; exact absurd hd (by decide)
        have h2 : v ≠ unit '+' := by rintro rfl; exact absurd hd (by decide)
        simp [readSign, h1, h2]
  cases s with
  | nil =>
      obtain ⟨d, ds, r, h⟩ := hs
      simp [readSign, spanDigits] at h
  | cons u rest =>
      by_cases h1 : u = unit '-'
      · refine ⟨[unit '-'], by simp [readSign, h1], by simp, fun r' _ => ?_⟩
        simp [readSign, h1]
      · by_cases h2 : u = unit '+'
        · have hne : unit '+' ≠ unit '-' := by decide
          refine ⟨[unit '+'], by simp [readSign, h2, hne], by simp, fun r' _ => ?_⟩
          simp [readSign, h2, hne]
        · refine ⟨[], by simp [readSign, h1, h2], by simp, fun r' hr => ?_⟩
          simpa [readSign, h1, h2] using hplain r' hr

theorem readFraction_reads {s r : JsString} {fs : List ℕ} (h : readFraction s = some (fs, r)) :
    ∃ c, s = c ++ r ∧ (∀ u ∈ c, isDigit u = true ∨ u = unit '.') ∧
      (∀ u ∈ c.head?, u = unit '.') ∧
      ∀ r', NoDigitHead r' → (∀ u ∈ r'.head?, u ≠ unit '.') →
        readFraction (c ++ r') = some (fs, r') := by
  have hplain : ∀ r' : JsString, (∀ u ∈ r'.head?, u ≠ unit '.') →
      readFraction r' = some ([], r') := by
    intro r' hr
    cases r' with
    | nil => rfl
    | cons u rest => simp [readFraction, hr u rfl]
  cases s with
  | nil =>
      simp only [readFraction, Option.some.injEq, Prod.mk.injEq] at h
      obtain ⟨rfl, rfl⟩ := h
      exact ⟨[], rfl, by simp, by simp, fun r' _ hr => hplain r' hr⟩
  | cons u rest =>
      simp only [readFraction] at h
      by_cases hu : u = unit '.'
      · rw [if_pos hu] at h
        cases hspan : spanDigits rest with
        | mk ds s₁ =>
            rw [hspan] at h
            cases ds with
            | nil => simp at h
            | cons d ds =>
                simp only [Option.some.injEq, Prod.mk.injEq] at h
                obtain ⟨rfl, rfl⟩ := h
                obtain ⟨c, hc, hdigits, hany⟩ := spanDigits_reads hspan
                refine ⟨u :: c, by rw [hc, List.cons_append], ?_, by simp [hu], ?_⟩
                · intro x hx
                  rcases List.mem_cons.mp hx with rfl | hx
                  · exact .inr hu
                  · exact .inl (hdigits x hx)
                · intro r' hd _
                  simp only [List.cons_append, readFraction, if_pos hu]
                  rw [hany r' hd]
      · rw [if_neg hu] at h
        simp only [Option.some.injEq, Prod.mk.injEq] at h
        obtain ⟨rfl, rfl⟩ := h
        exact ⟨[], rfl, by simp, by simp, fun r' _ hr => hplain r' hr⟩

theorem readExponent_reads {s r : JsString} {e : ℤ} (h : readExponent s = some (e, r)) :
    ∃ c, s = c ++ r ∧
      (∀ u ∈ c, isDigit u = true ∨ u = unit 'e' ∨ u = unit 'E' ∨ u = unit '+' ∨ u = unit '-') ∧
      (∀ u ∈ c.head?, u = unit 'e' ∨ u = unit 'E') ∧
      ∀ r', NoNumberHead r' → readExponent (c ++ r') = some (e, r') := by
  have hplain : ∀ r', NoNumberHead r' → readExponent r' = some (0, r') := by
    intro r' hr
    cases r' with
    | nil => rfl
    | cons u rest =>
        obtain ⟨-, -, h1, h2⟩ := hr u rfl
        simp [readExponent, h1, h2]
  cases s with
  | nil =>
      simp only [readExponent, Option.some.injEq, Prod.mk.injEq] at h
      obtain ⟨rfl, rfl⟩ := h
      exact ⟨[], rfl, by simp, by simp, fun r' hr => hplain r' hr⟩
  | cons u rest =>
      simp only [readExponent] at h
      by_cases hu : u = unit 'e' ∨ u = unit 'E'
      · rw [if_pos hu] at h
        cases hspan : spanDigits (readSign rest).2 with
        | mk ds s₁ =>
            rw [hspan] at h
            cases ds with
            | nil => simp at h
            | cons d ds =>
                simp only [Option.some.injEq, Prod.mk.injEq] at h
                obtain ⟨rfl, rfl⟩ := h
                obtain ⟨c₁, hc₁, hsigns, hany₁⟩ := readSign_reads rest ⟨d, ds, s₁, hspan⟩
                obtain ⟨c₂, hc₂, hdigits, hany₂⟩ := spanDigits_reads hspan
                have hhead : ∀ r' : JsString, ∃ x ∈ (c₂ ++ r').head?, isDigit x = true := by
                  intro r'
                  cases c₂ with
                  | nil =>
                      have := hany₂ [] (by simp [NoDigitHead])
                      simp [spanDigits] at this
                  | cons x xs => exact ⟨x, by simp, hdigits x (by simp)⟩
                refine ⟨u :: (c₁ ++ c₂), ?_, ?_, by simpa using hu, ?_⟩
                · conv => lhs; rw [hc₁, hc₂]
                  simp
                · intro x hx
                  rcases List.mem_cons.mp hx with rfl | hx
                  · exact .inr (hu.elim .inl fun h => .inr (.inl h))
                  · rcases List.mem_append.mp hx with hx | hx
                    · exact .inr (.inr (.inr (hsigns x hx)))
                    · exact .inl (hdigits x hx)
                · intro r' hr
                  simp only [List.cons_append, List.append_assoc, readExponent, if_pos hu,
                    hany₁ _ (hhead r')]
                  rw [hany₂ r' hr.noDigitHead]
      · rw [if_neg hu] at h
        simp only [Option.some.injEq, Prod.mk.injEq] at h
        obtain ⟨rfl, rfl⟩ := h
        exact ⟨[], rfl, by simp, by simp, fun r' hr => hplain r' hr⟩

/-- **A number is read from a prefix of the text, whatever follows that prefix.** -/
theorem readNumber_reads {s r : JsString} {d : Decimal} (h : readNumber s = some (d, r)) :
    ∃ c, s = c ++ r ∧ c ≠ [] ∧
      ∀ r', NoNumberHead r' → readNumber (c ++ r') = some (d, r') := by
  obtain ⟨c₀, hc₀, hminus, hany₀⟩ := readMinus_reads s
  unfold readNumber at h
  cases hspan : spanDigits (readMinus s).2 with
  | mk ds s₁ =>
      rw [hspan] at h
      cases ds with
      | nil => simp at h
      | cons k ds =>
          simp only at h
          by_cases hzero : k = 0 ∧ ds ≠ []
          · rw [if_pos hzero] at h
            simp at h
          rw [if_neg hzero] at h
          cases hfrac : readFraction s₁ with
          | none => simp [hfrac] at h
          | some p =>
              obtain ⟨fs, s₂⟩ := p
              simp only [hfrac] at h
              cases hexp : readExponent s₂ with
              | none => simp [hexp] at h
              | some q =>
                  obtain ⟨e, s₃⟩ := q
                  simp only [hexp, Option.some.injEq, Prod.mk.injEq] at h
                  obtain ⟨rfl, rfl⟩ := h
                  obtain ⟨c₁, hc₁, hdigits₁, hany₁⟩ := spanDigits_reads hspan
                  obtain ⟨c₂, hc₂, hdigits₂, hhead₂, hany₂⟩ := readFraction_reads hfrac
                  obtain ⟨c₃, hc₃, hdigits₃, hhead₃, hany₃⟩ := readExponent_reads hexp
                  have hne : c₁ ≠ [] := by
                    rintro rfl
                    have := hany₁ [] (by simp [NoDigitHead])
                    simp [spanDigits] at this
                  refine ⟨c₀ ++ (c₁ ++ (c₂ ++ c₃)), ?_, by simp [hne], ?_⟩
                  · conv => lhs; rw [hc₀, hc₁, hc₂, hc₃]
                    simp
                  intro r' hr
                  -- What follows each part cannot continue it.
                  have hstop₃ : NoDigitHead (c₃ ++ r') ∧
                      ∀ u ∈ (c₃ ++ r').head?, u ≠ unit '.' := by
                    cases c₃ with
                    | nil => exact ⟨hr.noDigitHead, fun u hu => (hr u hu).2.1⟩
                    | cons x xs =>
                        refine ⟨fun u hu => ?_, fun u hu => ?_⟩ <;>
                          rcases hhead₃ u (by simpa using hu) with rfl | rfl <;> decide
                  have hstop₂ : NoDigitHead (c₂ ++ (c₃ ++ r')) := by
                    cases c₂ with
                    | nil => exact hstop₃.1
                    | cons x xs =>
                        intro u hu
                        rw [hhead₂ u (by simpa using hu)]
                        decide
                  have hstop₁ : ∀ u ∈ (c₁ ++ (c₂ ++ (c₃ ++ r'))).head?, u ≠ unit '-' := by
                    cases c₁ with
                    | nil => exact absurd rfl hne
                    | cons x xs =>
                        intro u hu
                        obtain rfl : x = u := by simpa using hu
                        have hd := hdigits₁ x (by simp)
                        rintro rfl
                        exact absurd hd (by decide)
                  unfold readNumber
                  simp only [List.append_assoc]
                  rw [hany₀ _ hstop₁]
                  simp only
                  rw [hany₁ _ hstop₂]
                  simp only [if_neg hzero]
                  rw [hany₂ _ hstop₃.1 hstop₃.2]
                  simp only
                  rw [hany₃ _ hr]

end NumberText
