/-
Decimal numbers rounded to doubles.

A double that is neither negative nor infinite is a whole number of units of 2^-1074, the
least double there is, with at most 53 binary digits in front of its zeros.  So a number is
rounded by counting it in units, going to the nearest count with 53 digits, and taking the
even one of two that are equally near.  From 2^1024 on there is infinity.

The language prints a double as the shortest decimal that reads back as it, and of the
shortest ones the nearest.
-/
import Kaiban.Lib.Decimal
import Mathlib.Algebra.Order.Floor.Ring
import Mathlib.Data.Rat.Floor
import Mathlib.Order.WithBot
import Mathlib.Tactic.Linarith

namespace Double

/-! ### Whole numbers -/

/-- The nearest whole number, and of two the even one. -/
def halfEven (x : ℚ) : ℕ :=
  let n := x.floor.toNat
  if x - n < 1 / 2 then n else if 1 / 2 < x - n then n + 1 else n + n % 2

variable {x y : ℚ}

theorem floor_le (hx : 0 ≤ x) : (x.floor.toNat : ℚ) ≤ x := by
  have hfloor : (0 : ℤ) ≤ x.floor := Int.floor_nonneg.mpr hx
  have hcast : ((x.floor.toNat : ℤ) : ℚ) = x.floor := by rw [Int.toNat_of_nonneg hfloor]
  exact (hcast.trans_le (Int.floor_le x) :)

theorem lt_floor (x : ℚ) : x < x.floor.toNat + 1 := by
  have hcast : ((x.floor : ℤ) : ℚ) ≤ ((x.floor.toNat : ℤ) : ℚ) := by
    exact_mod_cast Int.self_le_toNat x.floor
  have hlt : x < x.floor + 1 := Int.lt_floor_add_one x
  have hnat : ((x.floor.toNat : ℤ) : ℚ) = (x.floor.toNat : ℚ) := Int.cast_natCast _
  linarith

theorem floor_mono (h : x ≤ y) : x.floor.toNat ≤ y.floor.toNat :=
  Int.toNat_le_toNat (Int.floor_mono h)

theorem floor_natCast (n : ℕ) : (n : ℚ).floor.toNat = n := by
  have h : ⌊(n : ℚ)⌋ = n := Int.floor_natCast n
  show ⌊(n : ℚ)⌋.toNat = n
  rw [h]
  rfl

/-- A rounded number is the floor or the next one. -/
theorem halfEven_bounds (x : ℚ) :
    x.floor.toNat ≤ halfEven x ∧ halfEven x ≤ x.floor.toNat + 1 := by
  unfold halfEven
  dsimp only
  split_ifs <;> omega

theorem halfEven_mono (h : x ≤ y) : halfEven x ≤ halfEven y := by
  rcases Nat.lt_or_eq_of_le (floor_mono h) with hlt | heq
  · exact (halfEven_bounds x).2.trans ((Nat.succ_le_of_lt hlt).trans (halfEven_bounds y).1)
  · -- With one floor the fractions decide.
    unfold halfEven
    rw [heq]
    dsimp only
    split_ifs <;> first | omega | linarith

theorem halfEven_natCast (n : ℕ) : halfEven n = n := by
  unfold halfEven
  dsimp only
  rw [floor_natCast, sub_self, if_pos (by norm_num)]

/-- What is less than a half above a whole number is rounded to it at most. -/
theorem halfEven_le_of_lt {m : ℕ} (h : x < m + 1 / 2) : halfEven x ≤ m := by
  rcases Nat.lt_or_ge x.floor.toNat m with hlt | hge
  · exact (halfEven_bounds x).2.trans hlt
  · have hcast : (m : ℚ) ≤ x.floor.toNat := by exact_mod_cast hge
    have hfloor : x.floor.toNat < m + 1 := by
      by_contra hnot
      have hmore : (m : ℚ) + 1 ≤ x.floor.toNat := by exact_mod_cast not_lt.mp hnot
      have hx : 0 ≤ x := by
        by_contra hneg
        have hzero : x.floor.toNat = 0 :=
          Int.toNat_of_nonpos (Int.floor_nonpos (not_le.mp hneg).le)
        omega
      linarith [floor_le hx]
    unfold halfEven
    dsimp only
    rw [if_pos (by linarith)]
    omega

/-! ### Fifty-three digits -/

/-- How many binary digits a number of units has to spare. -/
def spare (x : ℚ) : ℕ := x.floor.toNat.log2 - 52

/-- A number of units, rounded to 53 binary digits. -/
def nearest (x : ℚ) : ℕ := halfEven (x / 2 ^ spare x) * 2 ^ spare x

theorem spare_mono (h : x ≤ y) : spare x ≤ spare y := by
  have hfloor := floor_mono h
  unfold spare
  rcases Nat.eq_zero_or_pos x.floor.toNat with hzero | hpos
  · rw [hzero]
    simp
  · have hlog : x.floor.toNat.log2 ≤ y.floor.toNat.log2 :=
      (Nat.le_log2 (by omega)).mpr ((Nat.log2_self_le (by omega)).trans hfloor)
    omega

/-- The digits that are kept are 53. -/
theorem lt_spare (x : ℚ) : x < 2 ^ (53 + spare x) := by
  have hlog : x.floor.toNat < 2 ^ (53 + spare x) := by
    have hle : x.floor.toNat.log2 + 1 ≤ 53 + spare x := by
      unfold spare
      omega
    exact Nat.lt_log2_self.trans_le (Nat.pow_le_pow_right (by omega) hle)
  have hcast : (x.floor.toNat : ℚ) + 1 ≤ 2 ^ (53 + spare x) := by exact_mod_cast hlog
  exact (lt_floor x).trans_le hcast

theorem spare_le (hx : 0 ≤ x) (hspare : 0 < spare x) : 2 ^ (52 + spare x) ≤ x := by
  have hlog : 2 ^ (52 + spare x) ≤ x.floor.toNat := by
    have hne : x.floor.toNat ≠ 0 := by
      intro hzero
      unfold spare at hspare
      rw [hzero] at hspare
      simp at hspare
    have hle : 52 + spare x ≤ x.floor.toNat.log2 := by
      unfold spare at hspare ⊢
      omega
    exact (Nat.le_log2 hne).mp hle
  have hcast : (2 : ℚ) ^ (52 + spare x) ≤ x.floor.toNat := by exact_mod_cast hlog
  exact hcast.trans (floor_le hx)

theorem halfEven_le_of_le {n : ℕ} (h : x ≤ n) : halfEven x ≤ n :=
  (halfEven_mono h).trans_eq (halfEven_natCast n)

theorem le_halfEven_of_le {n : ℕ} (h : n ≤ x) : n ≤ halfEven x :=
  (halfEven_natCast n).symm.trans_le (halfEven_mono h)

/-- The rounded count has 53 digits, or is the next power of two. -/
theorem halfEven_spare_le (x : ℚ) : halfEven (x / 2 ^ spare x) ≤ 2 ^ 53 := by
  refine halfEven_le_of_le ?_
  have hlt := lt_spare x
  rw [div_le_iff₀ (by positivity), Nat.cast_pow, Nat.cast_ofNat, ← pow_add]
  exact hlt.le

/-- **Rounding keeps the order.** -/
theorem nearest_mono (hx : 0 ≤ x) (h : x ≤ y) : nearest x ≤ nearest y := by
  rcases Nat.lt_or_eq_of_le (spare_mono h) with hlt | heq
  · -- The number with more digits is beyond what the other can be rounded to.
    have hbelow : nearest x ≤ 2 ^ 53 * 2 ^ spare x :=
      Nat.mul_le_mul_right _ (halfEven_spare_le x)
    have hmore := spare_le (hx.trans h) (Nat.zero_lt_of_lt hlt)
    have habove : 2 ^ 52 * 2 ^ spare y ≤ nearest y := by
      refine Nat.mul_le_mul_right _ (le_halfEven_of_le ?_)
      rw [le_div_iff₀ (by positivity), Nat.cast_pow, Nat.cast_ofNat, ← pow_add]
      exact hmore
    refine hbelow.trans (le_trans ?_ habove)
    rw [← pow_add, ← pow_add]
    exact Nat.pow_le_pow_right (by omega) (by omega)
  · unfold nearest
    rw [heq]
    exact Nat.mul_le_mul_right _ (halfEven_mono (by gcongr))

/-- **A count of 53 digits is not rounded.** -/
theorem nearest_natCast {m : ℕ} (hm : m ≤ 2 ^ 53) (e : ℕ) :
    nearest ((m * 2 ^ e : ℕ) : ℚ) = m * 2 ^ e := by
  have hdvd : 2 ^ spare ((m * 2 ^ e : ℕ) : ℚ) ∣ m * 2 ^ e := by
    unfold spare
    rw [floor_natCast]
    rcases Nat.eq_zero_or_pos m with rfl | hpos
    · simp
    rcases Nat.lt_or_eq_of_le hm with hlt | rfl
    · have hlog : (m * 2 ^ e).log2 < 53 + e := by
        refine (Nat.log2_lt (by positivity)).mpr ?_
        rw [pow_add]
        exact Nat.mul_lt_mul_of_pos_right hlt (by positivity)
      exact (Nat.pow_dvd_pow 2 (by omega)).trans (Nat.dvd_mul_left _ _)
    · rw [← pow_add, Nat.log2_two_pow]
      exact Nat.pow_dvd_pow 2 (by omega)
  obtain ⟨q, hq⟩ := hdvd
  have hquotient : ((m * 2 ^ e : ℕ) : ℚ) / 2 ^ spare ((m * 2 ^ e : ℕ) : ℚ) = q := by
    have hcast : ((m * 2 ^ e : ℕ) : ℚ) = 2 ^ spare ((m * 2 ^ e : ℕ) : ℚ) * q :=
      (congrArg Nat.cast hq).trans (by rw [Nat.cast_mul, Nat.cast_pow, Nat.cast_ofNat])
    exact (div_eq_iff (by positivity)).mpr (hcast.trans (mul_comm _ _))
  unfold nearest
  rw [hquotient, halfEven_natCast, mul_comm]
  exact hq.symm

theorem nearest_nearest (x : ℚ) : nearest (nearest x : ℕ) = nearest x :=
  nearest_natCast (halfEven_spare_le x) (spare x)

/-! ### Decimals -/

/-- The bits of a unit behind the point. -/
def unitBits : ℕ := 1074

/-- The bits of infinity in units. -/
def limitBits : ℕ := 2098

/-- A decimal that is not negative. -/
abbrev Magnitude := {d : Decimal // 0 ≤ d}

theorem ofUnits_mem (n : ℕ) : (n / 2 ^ unitBits : ℚ) ∈ decimals := by
  have hten : (10 : ℚ) ^ unitBits = 2 ^ unitBits * 5 ^ unitBits := by
    rw [← mul_pow]
    norm_num
  refine ⟨n * 5 ^ unitBits, unitBits, ?_⟩
  rw [hten, ← mul_assoc, div_mul_cancel₀ _ (by positivity)]
  push_cast
  rfl

theorem ofUnits_nonneg (n : ℕ) : (0 : Decimal) ≤ ⟨n / 2 ^ unitBits, ofUnits_mem n⟩ :=
  div_nonneg n.cast_nonneg (by positivity : (0 : ℚ) ≤ 2 ^ unitBits)

/-- So many units. -/
def ofUnits (n : ℕ) : Magnitude := ⟨⟨n / 2 ^ unitBits, ofUnits_mem n⟩, ofUnits_nonneg n⟩

/-- How many units a number is. -/
def units (d : Magnitude) : ℚ := (d.val : ℚ) * 2 ^ unitBits

/-- The double next to a number; `⊤` is infinity. -/
def round (d : Magnitude) : WithTop Magnitude :=
  if nearest (units d) < 2 ^ limitBits then (ofUnits (nearest (units d)) : Magnitude) else ⊤

theorem units_ofUnits (n : ℕ) : units (ofUnits n) = n :=
  div_mul_cancel₀ (n : ℚ) (by positivity)

theorem units_nonneg (d : Magnitude) : 0 ≤ units d :=
  mul_nonneg d.2 (by positivity : (0 : ℚ) ≤ 2 ^ unitBits)

theorem units_mono {a b : Magnitude} (h : a ≤ b) : units a ≤ units b :=
  mul_le_mul_of_nonneg_right (show (a.val : ℚ) ≤ b.val from h) (by positivity)

theorem ofUnits_mono {m n : ℕ} (h : m ≤ n) : ofUnits m ≤ ofUnits n :=
  div_le_div_of_nonneg_right (Nat.cast_le.mpr h) (by positivity : (0 : ℚ) ≤ 2 ^ unitBits)

/-- **Rounding to doubles keeps the order.** -/
theorem round_mono {a b : Magnitude} (h : a ≤ b) : round a ≤ round b := by
  have hunits : nearest (units a) ≤ nearest (units b) :=
    nearest_mono (units_nonneg a) (units_mono h)
  unfold round
  by_cases hb : nearest (units b) < 2 ^ limitBits
  · rw [if_pos hb, if_pos (hunits.trans_lt hb)]
    exact WithTop.coe_le_coe.mpr (ofUnits_mono hunits)
  · rw [if_neg hb]
    exact le_top

/-- **A double is not rounded.** -/
theorem round_round {a b : Magnitude} (h : round a = b) : round b = b := by
  unfold round at h
  by_cases ha : nearest (units a) < 2 ^ limitBits
  · rw [if_pos ha] at h
    obtain rfl := WithTop.coe_inj.mp h
    unfold round
    rw [units_ofUnits, nearest_nearest, if_pos ha]
  · rw [if_neg ha] at h
    exact absurd h WithTop.top_ne_coe

theorem round_zero : round 0 = (0 : Magnitude) := by
  have hzero : ofUnits 0 = 0 := Subtype.ext (Subtype.ext (by simp [ofUnits]))
  have hround : round (ofUnits 0) = (ofUnits 0 : Magnitude) := by
    have hnearest := nearest_natCast (Nat.zero_le (2 ^ 53)) 0
    rw [Nat.zero_mul] at hnearest
    unfold round
    rw [units_ofUnits, hnearest, if_pos (by positivity)]
  rwa [hzero] at hround

/-- More than half a unit is rounded to a unit at least. -/
theorem nearest_pos {x : ℚ} (h : 1 / 2 < x) : 0 < nearest x := by
  rcases le_or_gt 1 x with hone | hlt
  · have hnearest := nearest_natCast (show 1 ≤ 2 ^ 53 by norm_num) 0
    rw [pow_zero, Nat.mul_one, Nat.cast_one] at hnearest
    exact Nat.lt_of_lt_of_eq Nat.one_pos hnearest.symm |>.trans_le (nearest_mono zero_le_one hone)
  · have hfloor : x.floor.toNat = 0 := by
      have hnot := floor_le (show 0 ≤ x by linarith)
      have hcast : (x.floor.toNat : ℚ) < 1 := hnot.trans_lt hlt
      exact_mod_cast Nat.lt_one_iff.mp (by exact_mod_cast hcast)
    have hspare : spare x = 0 := by
      unfold spare
      rw [hfloor]
      rfl
    unfold nearest
    rw [hspare, pow_zero, div_one, pow_zero, Nat.mul_one]
    unfold halfEven
    rw [hfloor]
    dsimp only
    rw [if_neg (by push_cast; linarith), if_pos (by push_cast; linarith)]
    exact Nat.one_pos

/-- What is more than half a step below a power of two is rounded below it. -/
theorem nearest_lt {x : ℚ} {k : ℕ} (hx : 0 ≤ x) (h : x < 2 ^ (54 + k) - 2 ^ k) :
    nearest x < 2 ^ (54 + k) := by
  have hpow : (2 : ℚ) ^ (54 + k) = 2 ^ 53 * 2 ^ (k + 1) := by
    rw [← pow_add]
    congr 1
    omega
  rcases Nat.lt_or_ge (spare x) (k + 1) with hlt | hge
  · calc nearest x ≤ 2 ^ 53 * 2 ^ spare x := Nat.mul_le_mul_right _ (halfEven_spare_le x)
      _ ≤ 2 ^ (53 + k) := by
          rw [← pow_add]
          exact Nat.pow_le_pow_right (by omega) (by omega)
      _ < 2 ^ (54 + k) := Nat.pow_lt_pow_right (by omega) (by omega)
  · have hspare : spare x = k + 1 := by
      refine le_antisymm (Nat.le_of_not_lt fun hmore => ?_) hge
      have hle := spare_le hx (by omega)
      have hbig : (2 : ℚ) ^ (54 + k) ≤ 2 ^ (52 + spare x) :=
        pow_le_pow_right₀ (by norm_num) (by omega)
      have hpos : (0 : ℚ) < 2 ^ k := by positivity
      linarith
    have hdigits : halfEven (x / 2 ^ spare x) ≤ 2 ^ 53 - 1 := by
      refine halfEven_le_of_lt ?_
      have hquotient : x / 2 ^ spare x < 2 ^ 53 - 1 / 2 := by
        rw [hspare, div_lt_iff₀ (by positivity), sub_mul, ← hpow, pow_succ]
        linarith
      have hcast : ((2 ^ 53 - 1 : ℕ) : ℚ) = 2 ^ 53 - 1 := by norm_num
      rw [hcast]
      linarith
    unfold nearest
    rw [hspare] at hdigits ⊢
    calc _ ≤ (2 ^ 53 - 1) * 2 ^ (k + 1) := Nat.mul_le_mul_right _ hdigits
      _ < 2 ^ 53 * 2 ^ (k + 1) := Nat.mul_lt_mul_of_pos_right (by norm_num) (by positivity)
      _ = 2 ^ (54 + k) := by
          rw [← pow_add]
          congr 1
          omega

theorem ofUnits_pos {n : ℕ} (h : 0 < n) : 0 < ofUnits n :=
  show (0 : ℚ) < n / 2 ^ unitBits from div_pos (Nat.cast_pos.mpr h) (by positivity)

/-- **A number is rounded to one that is positive and finite** when it is more than half the
least double, and less than half a step below infinity. -/
theorem round_positive {d : Magnitude} (hlow : 1 < (d.val : ℚ) * 2 ^ (unitBits + 1))
    (hhigh : (d.val : ℚ) < 2 ^ 1024 - 2 ^ 970) : ∃ c : Magnitude, round d = c ∧ 0 < c := by
  have hpos : 0 < nearest (units d) := by
    refine nearest_pos ?_
    rw [pow_succ, ← mul_assoc] at hlow
    unfold units
    linarith
  have hlt : nearest (units d) < 2 ^ limitBits := by
    have hscaled : units d < 2 ^ (54 + 2044) - 2 ^ 2044 := by
      unfold units
      calc (d.val : ℚ) * 2 ^ unitBits < (2 ^ 1024 - 2 ^ 970) * 2 ^ unitBits :=
            mul_lt_mul_of_pos_right hhigh (by positivity)
        _ = 2 ^ (54 + 2044) - 2 ^ 2044 := by
            have htop : 1024 + unitBits = 54 + 2044 := rfl
            have hstep : 970 + unitBits = 2044 := rfl
            rw [sub_mul, ← pow_add, ← pow_add, htop, hstep]
    have hbits : 54 + 2044 = limitBits := rfl
    rw [← hbits]
    exact nearest_lt (units_nonneg d) hscaled
  refine ⟨ofUnits (nearest (units d)), ?_, ofUnits_pos hpos⟩
  unfold round
  rw [if_pos hlt]

/-! ### The shortest decimal -/

theorem ofTen_nonneg (k : ℕ) (p : ℤ) : 0 ≤ Decimal.ofParts k p :=
  mul_nonneg (Int.cast_nonneg (Int.natCast_nonneg k)) (zpow_nonneg (by norm_num : (0 : ℚ) ≤ 10) p)

/-- `k * 10 ^ p`. -/
def ofTen (k : ℕ) (p : ℤ) : Magnitude := ⟨Decimal.ofParts k p, ofTen_nonneg k p⟩

/-- The numbers with the exponent `p` on both sides of a number, the nearer one first. -/
def neighbours (d : Magnitude) (p : ℤ) : List Magnitude :=
  let q := (d.val : ℚ) / 10 ^ p
  [ofTen (halfEven q) p, ofTen q.floor.toNat p, ofTen (q.floor.toNat + 1) p]

/-- The exponent of a power of ten that is above the number. -/
def decade (d : Magnitude) : ℤ :=
  (NumberText.digitsOf ((d.val : ℚ) * 10 ^ 324).floor.toNat).length - 324

/-- The decimal is read as this double. -/
def reads (d c : Magnitude) : Bool := round c = d

/-- The shortest decimal that is read as a double.  Seventeen digits are enough. -/
def shortest (d : Magnitude) : Magnitude :=
  ((List.range 18).findSome? fun i => (neighbours d (decade d - i)).find? (reads d)).getD d

/-- **The shortest decimal reads back.** -/
theorem round_shortest {d : Magnitude} (h : round d = d) : round (shortest d) = d := by
  have hfound : ∀ found : Option Magnitude, (∀ c, found = some c → reads d c = true) →
      round (found.getD d) = d := by
    intro found hreads
    cases found with
    | none => exact h
    | some c => exact of_decide_eq_true (hreads c rfl)
  refine hfound _ fun c hc => ?_
  obtain ⟨i, -, hi⟩ := List.exists_of_findSome?_eq_some hc
  exact List.find?_some hi

example : round (ofTen 2 308) = ⊤ := by decide +kernel

example : shortest ((round (ofTen 1 23)).untopD 0) = ofTen 1 23 := by decide +kernel

end Double
