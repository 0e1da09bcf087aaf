/-
A text that is cut is the longest part of it that fits.

The parts that count end at the end of a code point.  The loop stops at the first byte of the
code point that does not fit any more, and a code point has four bytes at most.
-/
import Kaiban.Publisher

open JsString

namespace Kaiban

/-! ### Parts of a text -/

/-- No surrogate of the text stands alone. -/
def WellFormed (str : JsString) : Prop := ∀ c ∈ codePoints str, IsScalar c

/-- The text begins with this part, which ends at the end of a code point. -/
def WholePart (part str : JsString) : Prop :=
  ∃ rest, str = part ++ rest ∧ codePoints str = codePoints part ++ codePoints rest

/-- The first code points of a text are a part of it. -/
theorem wholePart_ofPoints {str : JsString} (h : WellFormed str) {pre : List ℕ}
    (hpre : pre <+: codePoints str) : WholePart (ofPoints pre) str ∧
      codePoints (ofPoints pre) = pre := by
  obtain ⟨post, hcs⟩ := hpre
  have hscalar : ∀ c ∈ pre ++ post, IsScalar c := fun c hc => h c (hcs ▸ hc)
  have hfirst : codePoints (ofPoints pre) = pre :=
    codePoints_ofPoints fun c hc => hscalar c (List.mem_append_left post hc)
  have hlast : codePoints (ofPoints post) = post :=
    codePoints_ofPoints fun c hc => hscalar c (List.mem_append_right pre hc)
  refine ⟨⟨ofPoints post, ?_, ?_⟩, hfirst⟩
  · rw [← ofPoints_append, hcs, ofPoints_codePoints]
  · rw [hfirst, hlast, hcs]

/-- `takeBytes` takes all that fits. -/
theorem prefix_takeBytes {n : ℕ} {pre cs : List ℕ} (hpre : pre <+: cs)
    (hfits : pointsSize pre ≤ n) : pre <+: takeBytes n cs := by
  induction cs generalizing pre n with
  | nil => exact hpre.trans List.nil_prefix
  | cons c cs ih =>
      cases pre with
      | nil => exact List.nil_prefix
      | cons d pre =>
          obtain ⟨rfl, hrest⟩ := List.cons_prefix_cons.mp hpre
          rw [pointsSize_cons] at hfits
          have hsize : utf8Size d ≤ n := le_trans (Nat.le_add_right _ _) hfits
          unfold takeBytes
          rw [if_pos hsize]
          exact List.cons_prefix_cons.mpr ⟨rfl, ih hrest (by omega)⟩

/-! ### The scan -/

/-- The bytes the loop of `truncateToBytes` looks at. -/
def scanReads (buf : List ℕ) : ℕ → List ℕ
  | 0 => []
  | n + 1 =>
      (n + 1) :: if isContinuation (buf.getD (n + 1) 0) = true then scanReads buf n else []

theorem scanReads_le (buf : List ℕ) (n : ℕ) : ∀ i ∈ scanReads buf n, i ≤ n := by
  induction n with
  | zero => exact fun i hi => absurd hi List.not_mem_nil
  | succ n ih =>
      intro i hi
      rcases List.mem_cons.mp hi with rfl | hi
      · exact le_rfl
      · split at hi
        · exact (ih i hi).trans (Nat.le_succ n)
        · exact absurd hi List.not_mem_nil

theorem utf8Size_le (c : ℕ) : utf8Size c ≤ 4 := by
  unfold utf8Size
  split <;> [skip; split <;> [skip; split]] <;> omega

/-- The loop takes three steps at most. -/
theorem backUp_near {str : JsString} {n : ℕ} (h : n < byteLength str) :
    n ≤ backUp (bytes str) n + 3 := by
  rw [backUp_bytes h]
  rw [byteLength_eq] at h
  obtain ⟨c, -, -, hlt⟩ := takeBytes_cut h
  have hsize := utf8Size_le c
  omega

/-! ### The longest part -/

/-- The longest part of a text that takes at most so many bytes. -/
structure LongestFitting (str : JsString) (maxBytes : ℕ) (part : JsString) : Prop where
  whole : WholePart part str
  fits : (bytes part).length ≤ maxBytes
  longest : ∀ other, WholePart other str → (bytes other).length ≤ maxBytes → other <+: part

/-- **Both copies of `truncateToBytes` give the longest part that fits**, and their scan stays
in the buffer and is short. -/
theorem truncateToBytes_longest {str : JsString} (h : WellFormed str) (maxBytes : ℕ) :
    LongestFitting str maxBytes (truncateToBytes str maxBytes) ∧
      (maxBytes < (bytes str).length →
        (∀ i ∈ scanReads (bytes str) maxBytes, i < (bytes str).length) ∧
          maxBytes ≤ backUp (bytes str) maxBytes + 3) ∧
      AgentStatePublisher.truncateToBytes str maxBytes = truncateToBytes str maxBytes := by
  refine ⟨?_, fun hlong => ⟨fun i hi => (scanReads_le _ _ i hi).trans_lt hlong, ?_⟩, rfl⟩
  · by_cases hshort : byteLength str ≤ maxBytes
    · rw [truncateToBytes_of_le hshort]
      refine ⟨⟨[], (List.append_nil _).symm, (List.append_nil _).symm⟩, ?_, ?_⟩
      · rw [length_bytes]
        exact hshort
      · rintro other ⟨rest, heq, -⟩ -
        exact ⟨rest, heq.symm⟩
    · have hinitial := takeBytes_initial maxBytes (codePoints str)
      have hsame : (takeBytes maxBytes (codePoints str)).map replaced
          = takeBytes maxBytes (codePoints str) := by
        refine (List.map_congr_left fun c hc => ?_).trans (List.map_id _)
        have hscalar := (h c (hinitial.subset hc)).2
        unfold replaced
        rw [hscalar]
        rfl
      obtain ⟨hwhole, hpoints⟩ := wholePart_ofPoints h hinitial
      rw [truncateToBytes_eq (not_le.mp hshort), hsame]
      refine ⟨hwhole, ?_, ?_⟩
      · rw [length_bytes, byteLength_eq, hpoints]
        exact pointsSize_takeBytes_le _ _
      · rintro other ⟨rest, -, hsplit⟩ hfits
        rw [length_bytes, byteLength_eq] at hfits
        obtain ⟨more, hmore⟩ := prefix_takeBytes ⟨codePoints rest, hsplit.symm⟩ hfits
        refine ⟨ofPoints more, ?_⟩
        rw [← hmore, ofPoints_append, ofPoints_codePoints]
  · rw [length_bytes] at hlong
    exact backUp_near hlong

/-- A text of a one-byte and a two-byte character, cut after its second byte. -/
theorem truncateToBytes_longest_two :
    LongestFitting (ofPoints [0x61, 0xE9]) 2 (truncateToBytes (ofPoints [0x61, 0xE9]) 2) := by
  refine (truncateToBytes_longest (fun c hc => ?_) 2).1
  have hpoints : codePoints (ofPoints [0x61, 0xE9]) = [0x61, 0xE9] := by decide
  rw [hpoints] at hc
  simp only [List.mem_cons, List.not_mem_nil, or_false] at hc
  rcases hc with rfl | rfl <;> exact ⟨by decide, by decide⟩

end Kaiban
