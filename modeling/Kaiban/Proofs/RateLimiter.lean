/-
The rate limiter is the naive one.

The naive limiter keeps every time it admitted of every key and counts those in the window.
What the limiter holds of a key is a suffix of these, and what it dropped has left the window,
so both count the same.  The sweep drops no more than that: a limiter that never sweeps gives
the same answers.
-/
import Kaiban.Proofs.StopIngress

open JsString

namespace Kaiban.SlidingWindowRateLimiter

variable {l : LimiterLimits} {keys : Finset JsString} {granted : JsString → List ℕ}
  {s : SlidingWindowRateLimiter} {last now : ℕ}

/-! ### The three limiters -/

/-- The answers to some calls, and the limiter after them. -/
def answerAll (l : LimiterLimits) :
    SlidingWindowRateLimiter → List (JsString × ℕ) → List Bool × SlidingWindowRateLimiter
  | s, [] => ([], s)
  | s, (key, now) :: calls =>
      let (allowed, s) := s.isAllowed l key now
      let (rest, s) := answerAll l s calls
      (allowed :: rest, s)

/-- `isAllowed(key)` without its sweep. -/
def isAllowedUnswept (l : LimiterLimits) (s : SlidingWindowRateLimiter) (key : JsString)
    (now : ℕ) : Bool × SlidingWindowRateLimiter :=
  if l.maxRequests ≤ (current l s key now).length then
    (false, { s with windows :=
      if key ∈ s.windows.keys then s.windows.set key (current l s key now) else s.windows })
  else
    (true, { s with windows :=
      ((s.windows.erase key).set key (current l s key now ++ [now])).newest l.maxKeys })

/-- The sweep comes first, and the rest is the same. -/
theorem isAllowed_eq (l : LimiterLimits) (s : SlidingWindowRateLimiter) (key : JsString) (now : ℕ) :
    s.isAllowed l key now = (s.sweep l now).isAllowedUnswept l key now := rfl

/-- The answers of a limiter that tidies up in some way before each call. -/
def answersBy (l : LimiterLimits)
    (tidy : SlidingWindowRateLimiter → ℕ → SlidingWindowRateLimiter) :
    SlidingWindowRateLimiter → List (JsString × ℕ) → List Bool
  | _, [] => []
  | s, (key, now) :: calls =>
      ((tidy s now).isAllowedUnswept l key now).1 ::
        answersBy l tidy ((tidy s now).isAllowedUnswept l key now).2 calls

/-- The answers of a limiter that never sweeps. -/
def answersUnswept (l : LimiterLimits) :
    SlidingWindowRateLimiter → List (JsString × ℕ) → List Bool :=
  answersBy l fun s _ => s

/-- The limiter tidies up by its sweep. -/
theorem answerAll_eq (l : LimiterLimits) (s : SlidingWindowRateLimiter)
    (calls : List (JsString × ℕ)) :
    (answerAll l s calls).1 = answersBy l (fun s now => s.sweep l now) s calls := by
  induction calls generalizing s with
  | nil => rfl
  | cons call calls ih => exact congrArg _ (ih _)

/-- The naive limiter: fewer than `maxRequests` admitted times are at `now - windowMs` or
later. -/
def admits (l : LimiterLimits) (granted : JsString → List ℕ) (key : JsString) (now : ℕ) : Bool :=
  (granted key).countP (fun t => now ≤ t + l.windowMs) < l.maxRequests

/-- The answers of the naive limiter, which has admitted `granted`. -/
def naiveAnswers (l : LimiterLimits) : (JsString → List ℕ) → List (JsString × ℕ) → List Bool
  | _, [] => []
  | granted, (key, now) :: calls =>
      admits l granted key now ::
        naiveAnswers l (grant granted key now (admits l granted key now)) calls

/-! ### One call -/

/-- The times that are held of a key and in its window are all of those in its window. -/
theorem Tracks.countP_eq (h : Tracks l keys granted s now) (key : JsString) :
    (granted key).countP (fun t => now ≤ t + l.windowMs) = (current l s key now).length := by
  obtain ⟨dropped, heq, hdropped⟩ := h.shifted key
  have hsorted := h.sorted key
  have hnone : dropped.countP (fun t => now ≤ t + l.windowMs) = 0 := by
    rw [List.countP_eq_zero]
    intro t ht
    have hlt := hdropped t ht
    simpa using hlt
  -- What is left begins in the window, and the times grow.
  have hall : ∀ t ∈ current l s key now, now ≤ t + l.windowMs := by
    intro t ht
    unfold current at ht
    rw [heq] at hsorted
    have hheld := (List.pairwise_append.mp hsorted).2.1
    cases hcur : ((s.windows.get key).getD []).dropWhile (outside l now) with
    | nil =>
        rw [hcur] at ht
        exact absurd ht List.not_mem_nil
    | cons first rest =>
        have hfirst : ¬ outside l now first = true := by
          have hhead := List.head?_dropWhile_not (outside l now) ((s.windows.get key).getD [])
          rw [hcur] at hhead
          simpa using hhead
        have hin : now ≤ first + l.windowMs := not_lt.mp fun hlt => hfirst (outside_iff.mpr hlt)
        rw [hcur] at ht hheld
        rcases List.mem_cons.mp ht with rfl | ht
        · exact hin
        · have hle := (List.pairwise_cons.mp hheld).1 t ht
          omega
  have hcount : (current l s key now).countP (fun t => now ≤ t + l.windowMs)
      = (current l s key now).length := by
    rw [List.countP_eq_length]
    intro t ht
    simpa using hall t ht
  have hsplit : granted key = dropped ++ current l s key now := heq
  rw [hsplit, List.countP_append, hnone, hcount, zero_add]

/-- **A call is answered as the naive limiter answers it**, and the limiter goes on tracking
what was admitted. -/
theorem Tracks.isAllowedUnswept {key : JsString} (h : Tracks l keys granted s now)
    (hkey : key ∈ keys) (hfew : keys.card ≤ l.maxKeys) :
    (s.isAllowedUnswept l key now).1 = admits l granted key now ∧
      Tracks l keys (grant granted key now (admits l granted key now))
        (s.isAllowedUnswept l key now).2 now := by
  have hadmits : admits l granted key now
      = decide ((current l s key now).length < l.maxRequests) := by
    unfold admits
    rw [h.countP_eq key]
  unfold SlidingWindowRateLimiter.isAllowedUnswept
  by_cases hfull : l.maxRequests ≤ (current l s key now).length
  · have hno : admits l granted key now = false := by
      rw [hadmits]
      simpa using hfull
    have hsame : grant granted key now false = granted := by
      funext k
      simp [grant]
    rw [if_pos hfull, hno, hsame]
    exact ⟨rfl, h.refused hkey⟩
  · have hyes : admits l granted key now = true := by
      rw [hadmits]
      simpa using not_le.mp hfull
    rw [if_neg hfull, hyes]
    exact ⟨rfl, h.allowed hkey hfew (not_le.mp hfull)⟩

/-! ### A sequence of calls -/

/-- The keys that are asked about. -/
def keysOf (calls : List (JsString × ℕ)) : Finset JsString := (calls.map Prod.fst).toFinset

theorem Tracks.answersBy {tidy : SlidingWindowRateLimiter → ℕ → SlidingWindowRateLimiter}
    {calls : List (JsString × ℕ)} (h : Tracks l keys granted s last)
    (htidy : ∀ granted s now, Tracks l keys granted s now → Tracks l keys granted (tidy s now) now)
    (hclock : (calls.map Prod.snd).Pairwise (· ≤ ·)) (hlast : ∀ c ∈ calls, last ≤ c.2)
    (hkeys : keysOf calls ⊆ keys) (hfew : keys.card ≤ l.maxKeys) :
    answersBy l tidy s calls = naiveAnswers l granted calls := by
  induction calls generalizing s granted last with
  | nil => rfl
  | cons call calls ih =>
      obtain ⟨key, now⟩ := call
      obtain ⟨hbefore, hrest⟩ := List.pairwise_cons.mp hclock
      have hkey : key ∈ keys := hkeys (List.mem_toFinset.mpr List.mem_cons_self)
      have htidied := htidy _ _ _ (h.later (hlast (key, now) List.mem_cons_self))
      obtain ⟨hanswer, hnext⟩ := htidied.isAllowedUnswept hkey hfew
      have hmore : ∀ c ∈ calls, now ≤ c.2 := fun c hc => hbefore c.2 (List.mem_map_of_mem hc)
      have hsub : keysOf calls ⊆ keys := fun k hk =>
        hkeys (List.mem_toFinset.mpr (List.mem_cons_of_mem key (List.mem_toFinset.mp hk)))
      show ((tidy s now).isAllowedUnswept l key now).1 :: SlidingWindowRateLimiter.answersBy l tidy
        ((tidy s now).isAllowedUnswept l key now).2 calls = _
      rw [ih hnext hrest hmore hsub, hanswer]
      rfl

/-! ### How many keys are held -/

theorem keys_set_of_mem {m : OrderedMap JsString (List ℕ)} {k : JsString} (h : k ∈ m.keys)
    (v : List ℕ) : (m.set k v).keys = m.keys := by
  unfold OrderedMap.set
  rw [dif_pos h]
  exact OrderedMap.keys_overwrite k v m.entries

theorem length_newest_le (n : ℕ) (m : OrderedMap JsString (List ℕ)) :
    (m.newest n).keys.length ≤ n := by
  unfold OrderedMap.newest OrderedMap.keys
  rw [List.length_map, List.length_drop]
  omega

/-- A call leaves no more keys than the cap. -/
theorem length_keys_isAllowed (h : s.windows.keys.length ≤ l.maxKeys) (key : JsString) (now : ℕ) :
    (s.isAllowed l key now).2.windows.keys.length ≤ l.maxKeys := by
  have hswept : (s.sweep l now).windows.keys.length ≤ l.maxKeys := by
    unfold sweep
    split
    · exact h
    · refine le_trans ?_ h
      unfold OrderedMap.filter OrderedMap.keys
      rw [List.length_map, List.length_map]
      exact List.length_filter_le _ _
  rw [isAllowed_eq]
  unfold isAllowedUnswept
  split
  · dsimp only
    split
    · rename_i hmem
      rw [keys_set_of_mem hmem]
      exact hswept
    · exact hswept
  · exact length_newest_le _ _

theorem length_keys_answerAll (h : s.windows.keys.length ≤ l.maxKeys)
    (calls : List (JsString × ℕ)) :
    (answerAll l s calls).2.windows.keys.length ≤ l.maxKeys := by
  induction calls generalizing s with
  | nil => exact h
  | cons call calls ih => exact ih (length_keys_isAllowed h call.1 call.2)

/-- **The limiter answers as the naive one does**, swept or not, when it is asked about no more
keys than it may hold; and it never holds more. -/
theorem limiter_windows (l : LimiterLimits) (calls : List (JsString × ℕ)) :
    ((calls.map Prod.snd).Pairwise (· ≤ ·) → (keysOf calls).card ≤ l.maxKeys →
      (answerAll l init calls).1 = naiveAnswers l (fun _ => []) calls ∧
        answersUnswept l init calls = (answerAll l init calls).1) ∧
      (answerAll l init calls).2.windows.keys.length ≤ l.maxKeys := by
  refine ⟨fun hclock hfew => ?_, length_keys_answerAll (Nat.zero_le _) calls⟩
  have htracks := tracks_init l (keysOf calls)
  have hstart : ∀ c ∈ calls, 0 ≤ c.2 := fun c _ => Nat.zero_le _
  have hanswers := htracks.answersBy (fun _ _ _ h => h.sweep) hclock hstart
    (Finset.Subset.refl _) hfew
  have hunswept := htracks.answersBy (fun _ _ _ h => h) hclock hstart (Finset.Subset.refl _) hfew
  rw [answerAll_eq]
  exact ⟨hanswers, hunswept.trans hanswers.symm⟩

/-- Two keys, of which the first asks too often. -/
def twoKeys : List (JsString × ℕ) :=
  [(js "a", 0), (js "a", 1), (js "b", 2), (js "a", 20)]

theorem limiter_windows_two :
    ((answerAll ⟨10, 1, 2⟩ init twoKeys).1 = naiveAnswers ⟨10, 1, 2⟩ (fun _ => []) twoKeys ∧
      answersUnswept ⟨10, 1, 2⟩ init twoKeys = (answerAll ⟨10, 1, 2⟩ init twoKeys).1) ∧
      (answerAll ⟨10, 1, 2⟩ init twoKeys).2.windows.keys.length ≤ 2 := by
  obtain ⟨hanswers, hsize⟩ := limiter_windows ⟨10, 1, 2⟩ twoKeys
  exact ⟨hanswers (by decide) (by decide), hsize⟩

end Kaiban.SlidingWindowRateLimiter
