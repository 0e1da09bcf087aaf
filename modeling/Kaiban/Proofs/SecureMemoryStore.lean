/-
The hardened memory store is a log of what was put and revoked.

What a `get` answers depends on the last write of its tenant and key, and on nothing else
that was done.  An entry that is missing although it was written had expired at some time of
the history, and as no later time is smaller, it is expired for every `get` that comes after.
-/
import Kaiban.SecureMemoryStore

open JsString

namespace Kaiban

variable {υ : Type} {history : List (MemoryOp υ)} {s : SecureMemoryStore υ}

/-- A pair of texts is read off its key. -/
theorem compositeKey_inj {t k t' k' : JsString} (h : compositeKey t k = compositeKey t' k') :
    t = t' ∧ k = k' := by
  have hparse := congrArg Json.parse h
  unfold compositeKey at hparse
  rw [Json.parse_stringify, Json.parse_stringify] at hparse
  simpa [Json.printed, Json.printedItems] using hparse

/-! ### The log -/

/-- The write of `(tenantId, key)` an operation is: what is there after it. -/
def MemoryOp.writes (tenantId key : JsString) : MemoryOp υ → Option (Option (MemoryEntry υ))
  | .put t k value opts => if t = tenantId ∧ k = key then some (some (.ofPut value opts)) else none
  | .revoke t k => if t = tenantId ∧ k = key then some none else none
  | .get _ _ _ => none
  | .sweep _ => none

/-- What the last `put` or `revoke` of `(tenantId, key)` left. -/
def lastWrite (history : List (MemoryOp υ)) (tenantId key : JsString) : Option (MemoryEntry υ) :=
  (history.reverse.findSome? (MemoryOp.writes tenantId key)).join

/-- The entry is there to read for this caller, at this time. -/
def MemoryEntry.readable (entry : MemoryEntry υ) (opts : GetOptions) : Bool :=
  !entry.isExpired opts.now && canRead opts.role entry.classification &&
    entry.meetsTrust opts.minTrust

/-- The times the operations are told do not go back. -/
def InOrder (history : List (MemoryOp υ)) : Prop :=
  (history.filterMap MemoryOp.now).Pairwise fun a b => JsNumber.le a b = true

theorem lastWrite_append (history : List (MemoryOp υ)) (op : MemoryOp υ) (t k : JsString) :
    lastWrite (history ++ [op]) t k = (op.writes t k).getD (lastWrite history t k) := by
  unfold lastWrite
  rw [List.reverse_append, List.reverse_singleton, List.singleton_append, List.findSome?_cons]
  cases op.writes t k <;> rfl

/-- Operations that do not write a pair may be left out of its log. -/
theorem lastWrite_filter {p : MemoryOp υ → Bool} {t k : JsString}
    (hp : ∀ op, op.writes t k ≠ none → p op = true) (history : List (MemoryOp υ)) :
    lastWrite (history.filter p) t k = lastWrite history t k := by
  induction history using List.reverseRecOn with
  | nil => rfl
  | append_singleton history op ih =>
      rw [lastWrite_append, List.filter_append]
      by_cases hop : p op = true
      · rw [List.filter_cons_of_pos hop, List.filter_nil, lastWrite_append, ih]
      · have hnone : op.writes t k = none := by
          by_contra hw
          exact hop (hp op hw)
        rw [List.filter_cons_of_neg hop, List.filter_nil, List.append_nil, ih, hnone]
        rfl

/-! ### What is in the store -/

/-- The entry was written and had expired at some time of the history. -/
def Evicted (history : List (MemoryOp υ)) (tenantId key : JsString) : Prop :=
  ∃ entry now, lastWrite history tenantId key = some entry ∧
    now ∈ history.filterMap MemoryOp.now ∧ entry.isExpired now = true

/-- The store holds what was last written, less what was evicted. -/
def Logged (history : List (MemoryOp υ)) (s : SecureMemoryStore υ) : Prop :=
  ∀ t k, OrderedMap.get s (compositeKey t k) = lastWrite history t k ∨
    OrderedMap.get s (compositeKey t k) = none ∧ Evicted history t k

theorem Evicted.append {t k : JsString} (h : Evicted history t k) {op : MemoryOp υ}
    (hw : op.writes t k = none) : Evicted (history ++ [op]) t k := by
  obtain ⟨entry, now, hentry, hmem, hexpired⟩ := h
  refine ⟨entry, now, ?_, ?_, hexpired⟩
  · rw [lastWrite_append, hw]
    exact hentry
  · rw [List.filterMap_append]
    exact List.mem_append_left _ hmem

/-- A pair that an operation neither writes nor evicts. -/
theorem Logged.keeps (h : Logged history s) {t k : JsString} {op : MemoryOp υ}
    (hw : op.writes t k = none) {s' : SecureMemoryStore υ}
    (hsame : OrderedMap.get s' (compositeKey t k) = OrderedMap.get s (compositeKey t k)) :
    OrderedMap.get s' (compositeKey t k) = lastWrite (history ++ [op]) t k ∨
      OrderedMap.get s' (compositeKey t k) = none ∧ Evicted (history ++ [op]) t k := by
  rw [hsame, lastWrite_append, hw]
  rcases h t k with heq | ⟨hnone, hevicted⟩
  · exact .inl heq
  · exact .inr ⟨hnone, hevicted.append hw⟩

/-- A pair whose entry an operation evicts. -/
theorem Logged.evicts (h : Logged history s) {t k : JsString} {op : MemoryOp υ}
    (hw : op.writes t k = none) {now : JsNumber} (hnow : op.now = some now)
    {entry : MemoryEntry υ} (hentry : OrderedMap.get s (compositeKey t k) = some entry)
    (hexpired : entry.isExpired now = true) : Evicted (history ++ [op]) t k := by
  refine ⟨entry, now, ?_, ?_, hexpired⟩
  · rw [lastWrite_append, hw]
    rcases h t k with heq | ⟨hnone, -⟩
    · exact heq.symm.trans hentry
    · exact absurd (hnone.symm.trans hentry) (by simp)
  · rw [List.filterMap_append]
    exact List.mem_append_right _ (by simp [hnow])

/-- **Every operation keeps the store to its log.** -/
theorem Logged.step (h : Logged history s) (op : MemoryOp υ) :
    Logged (history ++ [op]) (op.apply s) := by
  intro t k
  cases op with
  | put t' k' value opts =>
      by_cases heq : t' = t ∧ k' = k
      · obtain ⟨rfl, rfl⟩ := heq
        refine .inl ?_
        rw [lastWrite_append, MemoryOp.writes, if_pos ⟨rfl, rfl⟩]
        exact OrderedMap.get_set_self ..
      · have hw : (MemoryOp.put t' k' value opts).writes t k = none := if_neg heq
        refine h.keeps hw (OrderedMap.get_set_ne _ _ fun hkey => heq ?_)
        exact compositeKey_inj hkey.symm
  | revoke t' k' =>
      by_cases heq : t' = t ∧ k' = k
      · obtain ⟨rfl, rfl⟩ := heq
        refine .inl ?_
        rw [lastWrite_append, MemoryOp.writes, if_pos ⟨rfl, rfl⟩]
        exact OrderedMap.get_erase_self ..
      · have hw : (MemoryOp.revoke t' k' : MemoryOp υ).writes t k = none := if_neg heq
        refine h.keeps hw (OrderedMap.get_erase_ne _ fun hkey => heq ?_)
        exact compositeKey_inj hkey.symm
  | get t' k' opts =>
      have hsame : ∀ s' : SecureMemoryStore υ, s' = s →
          OrderedMap.get s' (compositeKey t k) = OrderedMap.get s (compositeKey t k) := by
        rintro s' rfl
        rfl
      show OrderedMap.get (SecureMemoryStore.get s t' k' opts).2 _ = _ ∨
        OrderedMap.get (SecureMemoryStore.get s t' k' opts).2 _ = _ ∧ _
      unfold SecureMemoryStore.get
      cases hentry : OrderedMap.get s (compositeKey t' k') with
      | none => exact h.keeps rfl (hsame _ rfl)
      | some entry =>
          dsimp only
          by_cases hexpired : entry.isExpired opts.now = true
          · rw [if_pos hexpired]
            by_cases hkey : compositeKey t k = compositeKey t' k'
            · refine .inr ⟨?_, h.evicts rfl rfl (hkey ▸ hentry) hexpired⟩
              rw [hkey]
              exact OrderedMap.get_erase_self ..
            · exact h.keeps rfl (OrderedMap.get_erase_ne _ hkey)
          · rw [if_neg hexpired]
            refine h.keeps rfl (hsame _ ?_)
            split
            · rfl
            · split <;> rfl
  | sweep now =>
      show OrderedMap.get (OrderedMap.filter s _) _ = _ ∨
        OrderedMap.get (OrderedMap.filter s _) _ = _ ∧ _
      have hfilter := OrderedMap.get_filter s (fun _ entry => !entry.isExpired now)
        (compositeKey t k)
      cases hentry : OrderedMap.get s (compositeKey t k) with
      | none => exact h.keeps rfl (by rw [hfilter, hentry]; rfl)
      | some entry =>
          by_cases hexpired : entry.isExpired now = true
          · refine .inr ⟨?_, h.evicts rfl rfl hentry hexpired⟩
            rw [hfilter, hentry]
            simp [Option.filter, hexpired]
          · refine h.keeps rfl ?_
            rw [hfilter, hentry]
            simp [Option.filter, hexpired]

theorem logged_after (history : List (MemoryOp υ)) :
    Logged history (SecureMemoryStore.after history) := by
  induction history using List.reverseRecOn with
  | nil => exact fun _ _ => .inl rfl
  | append_singleton history op ih =>
      unfold SecureMemoryStore.after
      rw [List.foldl_append]
      exact ih.step op

/-! ### What a `get` answers -/

/-- An entry that had expired stays expired. -/
theorem MemoryEntry.isExpired_later {entry : MemoryEntry υ} {now later : JsNumber}
    (h : entry.isExpired now = true) (hle : JsNumber.le now later = true) :
    entry.isExpired later = true := by
  unfold MemoryEntry.isExpired at h ⊢
  cases httl : entry.ttlMs with
  | none => rw [httl] at h; exact h
  | some ttlMs =>
      rw [httl] at h
      exact JsNumber.le_trans h hle

/-- What `get` reads off an entry that is there. -/
theorem get_answer (s : SecureMemoryStore υ) (t k : JsString) (opts : GetOptions) :
    (SecureMemoryStore.get s t k opts).1
      = (OrderedMap.get s (compositeKey t k)).filter fun entry => entry.readable opts := by
  unfold SecureMemoryStore.get
  cases OrderedMap.get s (compositeKey t k) with
  | none => rfl
  | some entry =>
      simp only [Option.filter, MemoryEntry.readable]
      by_cases hexpired : entry.isExpired opts.now = true
      · simp [hexpired]
      · by_cases hread : canRead opts.role entry.classification = true
        · by_cases htrust : entry.meetsTrust opts.minTrust = true
          · simp [hexpired, hread, htrust]
          · simp [hexpired, hread, htrust]
        · simp [hexpired, hread]

/-- **A `get` answers from the log**: the last write of its pair, if the caller may read it. -/
theorem get_refines {t k : JsString} {opts : GetOptions}
    (horder : InOrder (history ++ [.get t k opts])) :
    (SecureMemoryStore.get (SecureMemoryStore.after history) t k opts).1
      = (lastWrite history t k).filter fun entry => entry.readable opts := by
  rw [get_answer]
  rcases logged_after history t k with heq | ⟨hnone, entry, now, hentry, hmem, hexpired⟩
  · rw [heq]
  · have hle : JsNumber.le now opts.now = true := by
      unfold InOrder at horder
      rw [List.filterMap_append] at horder
      exact (List.pairwise_append.mp horder).2.2 now hmem opts.now (by simp [MemoryOp.now])
    have hunread : entry.readable opts = false := by
      unfold MemoryEntry.readable
      rw [MemoryEntry.isExpired_later hexpired hle]
      rfl
    rw [hnone, hentry]
    simp [Option.filter, hunread]

/-! ### What others do -/

/-- A `put` or a `revoke`. -/
def MemoryOp.isWrite : MemoryOp υ → Bool
  | .put _ _ _ _ => true
  | .revoke _ _ => true
  | .get _ _ _ => false
  | .sweep _ => false

/-- A `sweep`, or an operation of this tenant. -/
def MemoryOp.concerns (tenantId : JsString) : MemoryOp υ → Bool
  | .put t _ _ _ => decide (t = tenantId)
  | .revoke t _ => decide (t = tenantId)
  | .get t _ _ => decide (t = tenantId)
  | .sweep _ => true

theorem isWrite_of_writes {t k : JsString} {op : MemoryOp υ} (h : op.writes t k ≠ none) :
    op.isWrite = true := by
  cases op with
  | put => rfl
  | revoke => rfl
  | get => exact absurd rfl h
  | sweep => exact absurd rfl h

theorem concerns_of_writes {t k : JsString} {op : MemoryOp υ} (h : op.writes t k ≠ none) :
    op.concerns t = true := by
  cases op with
  | put t' k' value opts =>
      by_contra hne
      refine h (if_neg fun heq => hne ?_)
      exact decide_eq_true heq.1
  | revoke t' k' =>
      by_contra hne
      refine h (if_neg fun heq => hne ?_)
      exact decide_eq_true heq.1
  | get => exact absurd rfl h
  | sweep => exact absurd rfl h

/-- Two histories with the same operations of a kind that has all writes of a pair. -/
theorem get_same {p : MemoryOp υ → Bool} {t k : JsString} {opts : GetOptions}
    {history' : List (MemoryOp υ)} (hp : ∀ op, op.writes t k ≠ none → p op = true)
    (horder : InOrder (history ++ [.get t k opts]))
    (horder' : InOrder (history' ++ [.get t k opts]))
    (hsame : history.filter p = history'.filter p) :
    (SecureMemoryStore.get (SecureMemoryStore.after history) t k opts).1
      = (SecureMemoryStore.get (SecureMemoryStore.after history') t k opts).1 := by
  rw [get_refines horder, get_refines horder', ← lastWrite_filter hp history, hsame,
    lastWrite_filter hp history']

/-- **The store is its log.**  A `get` answers the last write of its pair if the caller may
read it; it does not show which reads and sweeps came before, nor what other tenants did. -/
theorem store_refines_log (υ : Type) :
    (∀ (history : List (MemoryOp υ)) t k opts, InOrder (history ++ [.get t k opts]) →
      (SecureMemoryStore.get (SecureMemoryStore.after history) t k opts).1
        = (lastWrite history t k).filter fun entry => entry.readable opts) ∧
    (∀ (history history' : List (MemoryOp υ)) t k opts,
      InOrder (history ++ [.get t k opts]) → InOrder (history' ++ [.get t k opts]) →
      history.filter MemoryOp.isWrite = history'.filter MemoryOp.isWrite →
      (SecureMemoryStore.get (SecureMemoryStore.after history) t k opts).1
        = (SecureMemoryStore.get (SecureMemoryStore.after history') t k opts).1) ∧
    (∀ (history history' : List (MemoryOp υ)) t k opts,
      InOrder (history ++ [.get t k opts]) → InOrder (history' ++ [.get t k opts]) →
      history.filter (MemoryOp.concerns t) = history'.filter (MemoryOp.concerns t) →
      (SecureMemoryStore.get (SecureMemoryStore.after history) t k opts).1
        = (SecureMemoryStore.get (SecureMemoryStore.after history') t k opts).1) :=
  ⟨fun _ _ _ _ => get_refines,
    fun _ _ _ _ _ => get_same fun _ => isWrite_of_writes,
    fun _ _ _ _ _ => get_same fun _ => concerns_of_writes⟩

/-- A tenant stores an entry, another uses the same key, and a sweep follows. -/
def sharedKey : List (MemoryOp ℕ) :=
  [.put (js "a") (js "k") 1 ⟨⟨js "doc", .high⟩, some .public, none, .finite (.ofInt 1)⟩,
    .put (js "b") (js "k") 2 ⟨⟨js "web", .untrusted⟩, none, some (.finite (.ofInt 1)),
      .finite (.ofInt 2)⟩,
    .sweep (.finite (.ofInt 4))]

/-- A reader without a role. -/
def trustedRead : GetOptions := ⟨.finite (.ofInt 5), none, some .low⟩

theorem sharedKey_inOrder :
    InOrder (sharedKey ++ [.get (js "a") (js "k") trustedRead]) ∧
    InOrder (sharedKey.take 2 ++ [.get (js "a") (js "k") trustedRead]) ∧
    InOrder ((sharedKey.eraseIdx 1) ++ [.get (js "a") (js "k") trustedRead]) := by
  unfold InOrder sharedKey trustedRead
  decide +kernel

theorem store_refines_log_shared :
    ((SecureMemoryStore.get (SecureMemoryStore.after sharedKey) (js "a") (js "k")
      trustedRead).1).map MemoryEntry.value = some 1 ∧
    (SecureMemoryStore.get (SecureMemoryStore.after sharedKey) (js "a") (js "k") trustedRead).1
      = (SecureMemoryStore.get (SecureMemoryStore.after (sharedKey.take 2)) (js "a") (js "k")
          trustedRead).1 ∧
    (SecureMemoryStore.get (SecureMemoryStore.after sharedKey) (js "a") (js "k") trustedRead).1
      = (SecureMemoryStore.get (SecureMemoryStore.after (sharedKey.eraseIdx 1)) (js "a") (js "k")
          trustedRead).1 := by
  obtain ⟨hall, hunswept, halone⟩ := sharedKey_inOrder
  refine ⟨?_, (store_refines_log ℕ).2.1 _ _ _ _ _ hall hunswept rfl,
    (store_refines_log ℕ).2.2 _ _ _ _ _ hall halone rfl⟩
  rw [(store_refines_log ℕ).1 _ _ _ _ hall]
  decide +kernel

end Kaiban
