/-
JavaScript strings and their UTF-8 bytes.

A JavaScript string is a list of UTF-16 code units, and nothing makes the list well
formed: a surrogate may stand alone.  `codePoints` reads the list the way the
language iterates a string — a high surrogate directly followed by a low one is one
code point, every other unit is a code point of its own — and `bytes` is what
`Buffer.from(s, "utf8")` holds, where a lone surrogate is replaced by U+FFFD.

`takeBytes n` keeps the longest run of code points that fits in `n` bytes.  It is the
reference a byte-level truncation is compared with.
-/
import Mathlib.Data.List.Forall2
import Mathlib.Tactic.Linarith
import Mathlib.Algebra.BigOperators.Group.List.Basic

/-- One UTF-16 code unit. -/
abbrev CodeUnit := Fin 0x10000

instance CodeUnit.neZero : NeZero 0x10000 := ⟨by decide⟩

/-- A JavaScript string: its code units, well formed or not. -/
abbrev JsString := List CodeUnit

instance JsString.lawfulBEq : LawfulBEq JsString := inferInstance

namespace JsString

/-- The unit of a character below U+10000. -/
def unit (c : Char) : CodeUnit := Fin.ofNat 0x10000 c.toNat

/-- A string literal whose characters are all below U+10000. -/
def js (s : String) : JsString := s.toList.map unit

def isHigh (u : CodeUnit) : Bool := 0xD800 ≤ u.val && u.val < 0xDC00

def isLow (u : CodeUnit) : Bool := 0xDC00 ≤ u.val && u.val < 0xE000

/-- The code points of a string.  A surrogate that is not part of a pair stands for itself. -/
def codePoints : JsString → List ℕ
  | [] => []
  | [u] => [u.val]
  | u :: v :: rest =>
      if isHigh u && isLow v then
        (0x10000 + (u.val - 0xD800) * 0x400 + (v.val - 0xDC00)) :: codePoints rest
      else u.val :: codePoints (v :: rest)

/-- The units of one code point. -/
def pointUnits (c : ℕ) : JsString :=
  if c < 0x10000 then [Fin.ofNat 0x10000 c]
  else [Fin.ofNat 0x10000 (0xD800 + (c - 0x10000) / 0x400),
    Fin.ofNat 0x10000 (0xDC00 + (c - 0x10000) % 0x400)]

def ofPoints (cs : List ℕ) : JsString := cs.flatMap pointUnits

def isSurrogate (c : ℕ) : Bool := 0xD800 ≤ c && c < 0xE000

/-- A code point that UTF-8 can encode. -/
def IsScalar (c : ℕ) : Prop := c < 0x110000 ∧ isSurrogate c = false

/-- What UTF-8 encodes for a code point: U+FFFD for a lone surrogate. -/
def replaced (c : ℕ) : ℕ := if isSurrogate c then 0xFFFD else c

@[simp] theorem ofPoints_nil : ofPoints [] = [] := rfl

@[simp] theorem ofPoints_cons (c : ℕ) (cs : List ℕ) :
    ofPoints (c :: cs) = pointUnits c ++ ofPoints cs := rfl

theorem ofPoints_append (cs ds : List ℕ) :
    ofPoints (cs ++ ds) = ofPoints cs ++ ofPoints ds := by
  simp [ofPoints, List.flatMap_append]

/-! ### Code points and units -/

theorem pointUnits_unit (u : CodeUnit) : pointUnits u.val = [u] := by
  have hu : u.val < 0x10000 := u.isLt
  simp [pointUnits, hu, Fin.ofNat, Nat.mod_eq_of_lt hu]

theorem pointUnits_pair {u v : CodeUnit} (hu : isHigh u = true) (hv : isLow v = true) :
    pointUnits (0x10000 + (u.val - 0xD800) * 0x400 + (v.val - 0xDC00)) = [u, v] := by
  simp only [isHigh, isLow, Bool.and_eq_true, decide_eq_true_eq] at hu hv
  have hnot : ¬ 0x10000 + (u.val - 0xD800) * 0x400 + (v.val - 0xDC00) < 0x10000 := by omega
  have hhi : (0x10000 + (u.val - 0xD800) * 0x400 + (v.val - 0xDC00) - 0x10000) / 0x400
      = u.val - 0xD800 := by omega
  have hlo : (0x10000 + (u.val - 0xD800) * 0x400 + (v.val - 0xDC00) - 0x10000) % 0x400
      = v.val - 0xDC00 := by omega
  have hu' : Fin.ofNat 0x10000 (0xD800 + (u.val - 0xD800)) = u := by
    rw [show 0xD800 + (u.val - 0xD800) = u.val by omega]
    exact Fin.ofNat_val_eq_self u
  have hv' : Fin.ofNat 0x10000 (0xDC00 + (v.val - 0xDC00)) = v := by
    rw [show 0xDC00 + (v.val - 0xDC00) = v.val by omega]
    exact Fin.ofNat_val_eq_self v
  simp only [pointUnits, if_neg hnot, hhi, hlo, hu', hv']

/-- Writing the code points of a string back gives the string. -/
theorem ofPoints_codePoints (s : JsString) : ofPoints (codePoints s) = s := by
  induction s using codePoints.induct with
  | case1 => rfl
  | case2 u => simp [codePoints, pointUnits_unit]
  | case3 u v rest h ih =>
      obtain ⟨hu, hv⟩ := Bool.and_eq_true_iff.mp h
      simp only [codePoints, h, if_true, ofPoints_cons, ih]
      rw [pointUnits_pair hu hv]
      rfl
  | case4 u v rest h ih =>
      simp only [codePoints, h, if_false, ofPoints_cons, ih, Bool.false_eq_true]
      rw [pointUnits_unit]
      rfl

theorem codePoints_lt (s : JsString) : ∀ c ∈ codePoints s, c < 0x110000 := by
  induction s using codePoints.induct with
  | case1 => simp [codePoints]
  | case2 u =>
      intro c hc
      obtain rfl : c = u.val := by simpa [codePoints] using hc
      omega
  | case3 u v rest h ih =>
      intro c hc
      have h' := h
      simp only [isHigh, isLow, Bool.and_eq_true, decide_eq_true_eq] at h'
      simp only [codePoints, h, if_true, List.mem_cons] at hc
      rcases hc with hc | hc
      · omega
      · exact ih c hc
  | case4 u v rest h ih =>
      intro c hc
      simp only [codePoints, h, if_false, List.mem_cons, Bool.false_eq_true] at hc
      rcases hc with rfl | hc
      · omega
      · exact ih c hc

theorem replaced_isScalar {c : ℕ} (h : c < 0x110000) : IsScalar (replaced c) := by
  unfold replaced
  by_cases hs : isSurrogate c = true
  · rw [if_pos hs]
    exact ⟨by norm_num, by decide +kernel⟩
  · rw [if_neg hs]
    exact ⟨h, by simpa using hs⟩

/-- A unit that is not a high surrogate is a code point whatever follows it. -/
theorem codePoints_cons {u : CodeUnit} (h : isHigh u = false) (s : JsString) :
    codePoints (u :: s) = u.val :: codePoints s := by
  cases s with
  | nil => rfl
  | cons v rest => simp [codePoints, h]

/-- A text that begins with no low surrogate is read on its own. -/
theorem codePoints_append (s : JsString) {t : JsString} (ht : ∀ u ∈ t.head?, isLow u = false) :
    codePoints (s ++ t) = codePoints s ++ codePoints t := by
  induction s using codePoints.induct with
  | case1 => rfl
  | case2 u =>
      cases t with
      | nil => rfl
      | cons v rest => simp [codePoints, ht v rfl]
  | case3 u v rest h ih =>
      simp only [List.cons_append, codePoints, h, if_true, ih]
  | case4 u v rest h ih =>
      simp only [List.cons_append, codePoints, h, if_false, Bool.false_eq_true] at ih ⊢
      rw [ih]

theorem codePoints_pointUnits {c : ℕ} (hc : IsScalar c) (s : JsString) :
    codePoints (pointUnits c ++ s) = c :: codePoints s := by
  obtain ⟨hlt, hsur⟩ := hc
  simp only [isSurrogate, Bool.and_eq_false_iff, decide_eq_false_iff_not] at hsur
  unfold pointUnits
  by_cases hbmp : c < 0x10000
  · rw [if_pos hbmp]
    have hval : (Fin.ofNat 0x10000 c).val = c := Nat.mod_eq_of_lt hbmp
    have hhigh : isHigh (Fin.ofNat 0x10000 c) = false := by
      simp only [isHigh, hval, Bool.and_eq_false_iff, decide_eq_false_iff_not]
      omega
    rw [List.singleton_append, codePoints_cons hhigh, hval]
  · rw [if_neg hbmp]
    set u : CodeUnit := Fin.ofNat 0x10000 (0xD800 + (c - 0x10000) / 0x400) with hu
    set v : CodeUnit := Fin.ofNat 0x10000 (0xDC00 + (c - 0x10000) % 0x400) with hv
    have huval : u.val = 0xD800 + (c - 0x10000) / 0x400 :=
      Nat.mod_eq_of_lt (by omega)
    have hvval : v.val = 0xDC00 + (c - 0x10000) % 0x400 :=
      Nat.mod_eq_of_lt (by omega)
    have hpair : (isHigh u && isLow v) = true := by
      simp only [isHigh, isLow, huval, hvval, Bool.and_eq_true, decide_eq_true_eq]
      omega
    have hback : 0x10000 + (u.val - 0xD800) * 0x400 + (v.val - 0xDC00) = c := by
      rw [huval, hvval]
      omega
    simp only [List.cons_append, List.nil_append, codePoints, hpair, if_true, hback]

/-- Scalar code points are read back as they were written. -/
theorem codePoints_ofPoints {cs : List ℕ} (h : ∀ c ∈ cs, IsScalar c) :
    codePoints (ofPoints cs) = cs := by
  induction cs with
  | nil => rfl
  | cons c rest ih =>
      rw [ofPoints_cons, codePoints_pointUnits (h c (by simp)),
        ih fun d hd => h d (by simp [hd])]

theorem codePoints_ofPoints_append {cs : List ℕ} (h : ∀ c ∈ cs, IsScalar c) (s : JsString) :
    codePoints (ofPoints cs ++ s) = cs ++ codePoints s := by
  induction cs with
  | nil => rfl
  | cons c rest ih =>
      rw [ofPoints_cons, List.append_assoc, codePoints_pointUnits (h c (by simp)),
        ih fun d hd => h d (by simp [hd]), List.cons_append]

/-! ### UTF-8 -/

/-- How many bytes UTF-8 takes for a code point. -/
def utf8Size (c : ℕ) : ℕ :=
  if c < 0x80 then 1 else if c < 0x800 then 2 else if c < 0x10000 then 3 else 4

/-- The UTF-8 bytes of a scalar code point, as numbers below 256. -/
def utf8Encode (c : ℕ) : List ℕ :=
  if c < 0x80 then [c]
  else if c < 0x800 then [0xC0 + c / 0x40, 0x80 + c % 0x40]
  else if c < 0x10000 then [0xE0 + c / 0x1000, 0x80 + c / 0x40 % 0x40, 0x80 + c % 0x40]
  else [0xF0 + c / 0x40000, 0x80 + c / 0x1000 % 0x40, 0x80 + c / 0x40 % 0x40, 0x80 + c % 0x40]

/-- `Buffer.from(s, "utf8")`. -/
def bytes (s : JsString) : List ℕ := (codePoints s).flatMap fun c => utf8Encode (replaced c)

/-- `Buffer.byteLength(s, "utf8")`. -/
def byteLength (s : JsString) : ℕ := ((codePoints s).map utf8Size).sum

/-- A byte `10xxxxxx`, which continues a character. -/
def isContinuation (b : ℕ) : Bool := b / 0x40 == 2

/-- `buf.toString("utf8")`.  A byte that begins no sequence becomes U+FFFD. -/
def decode : List ℕ → JsString
  | [] => []
  | b :: rest =>
      if b < 0x80 then pointUnits b ++ decode rest
      else if 0xC0 ≤ b ∧ b < 0xE0 then
        match rest with
        | c :: rest₁ => pointUnits ((b - 0xC0) * 0x40 + (c - 0x80)) ++ decode rest₁
        | [] => pointUnits 0xFFFD
      else if 0xE0 ≤ b ∧ b < 0xF0 then
        match rest with
        | c :: d :: rest₁ =>
            pointUnits ((b - 0xE0) * 0x1000 + (c - 0x80) * 0x40 + (d - 0x80)) ++ decode rest₁
        | _ => pointUnits 0xFFFD
      else if 0xF0 ≤ b then
        match rest with
        | c :: d :: e :: rest₁ =>
            pointUnits ((b - 0xF0) * 0x40000 + (c - 0x80) * 0x1000 + (d - 0x80) * 0x40
              + (e - 0x80)) ++ decode rest₁
        | _ => pointUnits 0xFFFD
      else pointUnits 0xFFFD ++ decode rest

@[simp] theorem byteLength_nil : byteLength [] = 0 := rfl

theorem utf8Size_pos (c : ℕ) : 0 < utf8Size c := by
  unfold utf8Size
  split <;> [skip; split <;> [skip; split]] <;> omega

theorem utf8Encode_length (c : ℕ) : (utf8Encode c).length = utf8Size c := by
  unfold utf8Encode utf8Size
  split <;> [rfl; split <;> [rfl; split <;> rfl]]

theorem utf8Size_replaced (c : ℕ) : utf8Size (replaced c) = utf8Size c := by
  unfold replaced
  by_cases hs : isSurrogate c = true
  · rw [if_pos hs]
    simp only [isSurrogate, Bool.and_eq_true, decide_eq_true_eq] at hs
    have hc : ¬ c < 0x80 ∧ ¬ c < 0x800 ∧ c < 0x10000 := by omega
    simp [utf8Size, hc]
  · rw [if_neg hs]

/-- The byte length is the number of bytes. -/
theorem length_bytes (s : JsString) : (bytes s).length = byteLength s := by
  simp only [bytes, byteLength, List.length_flatMap, utf8Encode_length, utf8Size_replaced]

theorem isContinuation_iff {b : ℕ} : isContinuation b = true ↔ 0x80 ≤ b ∧ b < 0xC0 := by
  simp only [isContinuation, beq_iff_eq]
  omega

/-- The first byte of a character does not continue one, and the others do. -/
theorem utf8Encode_shape {c : ℕ} (hc : c < 0x110000) :
    ∃ b tail, utf8Encode c = b :: tail ∧ isContinuation b = false ∧
      ∀ x ∈ tail, isContinuation x = true := by
  have hcont : ∀ x, isContinuation (0x80 + x % 0x40) = true := fun x =>
    isContinuation_iff.mpr (by omega)
  have hlead : ∀ b, ¬ (0x80 ≤ b ∧ b < 0xC0) → isContinuation b = false := fun b hb => by
    rw [← Bool.not_eq_true, isContinuation_iff]
    exact hb
  unfold utf8Encode
  by_cases h1 : c < 0x80
  · rw [if_pos h1]
    exact ⟨c, [], rfl, hlead c (by omega), by simp⟩
  rw [if_neg h1]
  by_cases h2 : c < 0x800
  · rw [if_pos h2]
    exact ⟨_, _, rfl, hlead _ (by omega), by simp [hcont]⟩
  rw [if_neg h2]
  by_cases h3 : c < 0x10000
  · rw [if_pos h3]
    exact ⟨_, _, rfl, hlead _ (by omega), by simp [hcont]⟩
  rw [if_neg h3]
  exact ⟨_, _, rfl, hlead _ (by omega), by simp [hcont]⟩

/-- Decoding the bytes of one character gives it back. -/
theorem decode_utf8Encode {c : ℕ} (hc : c < 0x110000) (rest : List ℕ) :
    decode (utf8Encode c ++ rest) = pointUnits c ++ decode rest := by
  unfold utf8Encode
  by_cases h1 : c < 0x80
  · rw [if_pos h1, List.singleton_append]
    conv_lhs => rw [decode.eq_def]
    simp only [if_pos h1]
  rw [if_neg h1]
  by_cases h2 : c < 0x800
  · rw [if_pos h2]
    simp only [List.cons_append, List.nil_append]
    conv_lhs => rw [decode.eq_def]
    have hb : ¬ 0xC0 + c / 0x40 < 0x80 := by omega
    have hb' : 0xC0 ≤ 0xC0 + c / 0x40 ∧ 0xC0 + c / 0x40 < 0xE0 := by omega
    have hback : (0xC0 + c / 0x40 - 0xC0) * 0x40 + (0x80 + c % 0x40 - 0x80) = c := by omega
    simp only [if_neg hb, if_pos hb', hback]
  rw [if_neg h2]
  by_cases h3 : c < 0x10000
  · rw [if_pos h3]
    simp only [List.cons_append, List.nil_append]
    conv_lhs => rw [decode.eq_def]
    have hb : ¬ 0xE0 + c / 0x1000 < 0x80 := by omega
    have hb' : ¬ (0xC0 ≤ 0xE0 + c / 0x1000 ∧ 0xE0 + c / 0x1000 < 0xE0) := by omega
    have hb'' : 0xE0 ≤ 0xE0 + c / 0x1000 ∧ 0xE0 + c / 0x1000 < 0xF0 := by omega
    have hback : (0xE0 + c / 0x1000 - 0xE0) * 0x1000 + (0x80 + c / 0x40 % 0x40 - 0x80) * 0x40
        + (0x80 + c % 0x40 - 0x80) = c := by omega
    simp only [if_neg hb, if_neg hb', if_pos hb'', hback]
  rw [if_neg h3]
  simp only [List.cons_append, List.nil_append]
  conv_lhs => rw [decode.eq_def]
  have hb : ¬ 0xF0 + c / 0x40000 < 0x80 := by omega
  have hb' : ¬ (0xC0 ≤ 0xF0 + c / 0x40000 ∧ 0xF0 + c / 0x40000 < 0xE0) := by omega
  have hb'' : ¬ (0xE0 ≤ 0xF0 + c / 0x40000 ∧ 0xF0 + c / 0x40000 < 0xF0) := by omega
  have hb''' : 0xF0 ≤ 0xF0 + c / 0x40000 := by omega
  have hback : (0xF0 + c / 0x40000 - 0xF0) * 0x40000 + (0x80 + c / 0x1000 % 0x40 - 0x80) * 0x1000
      + (0x80 + c / 0x40 % 0x40 - 0x80) * 0x40 + (0x80 + c % 0x40 - 0x80) = c := by omega
  simp only [if_neg hb, if_neg hb', if_neg hb'', if_pos hb''', hback]

theorem decode_flatMap {cs : List ℕ} (h : ∀ c ∈ cs, c < 0x110000) :
    decode (cs.flatMap utf8Encode) = ofPoints cs := by
  induction cs with
  | nil => rfl
  | cons c rest ih =>
      rw [List.flatMap_cons, decode_utf8Encode (h c (by simp)), ofPoints_cons,
        ih fun d hd => h d (by simp [hd])]

/-! ### The longest prefix that fits -/

/-- The longest run of code points, from the first on, that takes at most `n` bytes. -/
def takeBytes : ℕ → List ℕ → List ℕ
  | _, [] => []
  | n, c :: cs => if utf8Size c ≤ n then c :: takeBytes (n - utf8Size c) cs else []

def pointsSize (cs : List ℕ) : ℕ := (cs.map utf8Size).sum

@[simp] theorem pointsSize_nil : pointsSize [] = 0 := rfl

@[simp] theorem pointsSize_cons (c : ℕ) (cs : List ℕ) : pointsSize (c :: cs)
    = utf8Size c + pointsSize cs := by
  simp [pointsSize]

theorem byteLength_eq (s : JsString) : byteLength s = pointsSize (codePoints s) := rfl

theorem pointsSize_map_replaced (cs : List ℕ) : pointsSize (cs.map replaced) = pointsSize cs := by
  simp [pointsSize, utf8Size_replaced, Function.comp_def]

theorem takeBytes_initial (n : ℕ) (cs : List ℕ) : takeBytes n cs <+: cs := by
  induction cs generalizing n with
  | nil => exact List.nil_prefix
  | cons c rest ih =>
      unfold takeBytes
      by_cases h : utf8Size c ≤ n
      · rw [if_pos h]
        exact List.cons_prefix_cons.mpr ⟨rfl, ih _⟩
      · rw [if_neg h]
        exact List.nil_prefix

theorem pointsSize_takeBytes_le (n : ℕ) (cs : List ℕ) : pointsSize (takeBytes n cs) ≤ n := by
  induction cs generalizing n with
  | nil => simp [takeBytes]
  | cons c rest ih =>
      unfold takeBytes
      by_cases h : utf8Size c ≤ n
      · rw [if_pos h, pointsSize_cons]
        have := ih (n - utf8Size c)
        omega
      · rw [if_neg h]
        exact Nat.zero_le n

/-- When something is cut off, the first code point cut off would not have fitted. -/
theorem takeBytes_cut {n : ℕ} {cs : List ℕ} (h : n < pointsSize cs) :
    ∃ c rest, cs = takeBytes n cs ++ c :: rest ∧ n < pointsSize (takeBytes n cs) + utf8Size c := by
  induction cs generalizing n with
  | nil => simp at h
  | cons c rest ih =>
      rw [pointsSize_cons] at h
      by_cases hc : utf8Size c ≤ n
      · obtain ⟨d, tail, htail, hlt⟩ := ih (n := n - utf8Size c) (by omega)
        have htake : takeBytes n (c :: rest) = c :: takeBytes (n - utf8Size c) rest := by
          simp only [takeBytes, if_pos hc]
        refine ⟨d, tail, ?_, ?_⟩
        · rw [htake, List.cons_append, ← htail]
        · rw [htake, pointsSize_cons]
          omega
      · have htake : takeBytes n (c :: rest) = [] := by simp only [takeBytes, if_neg hc]
        refine ⟨c, rest, ?_, ?_⟩
        · rw [htake, List.nil_append]
        · rw [htake, pointsSize_nil]
          omega

end JsString
