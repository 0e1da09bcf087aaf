/-
What a delivery that never runs still holds in the cost limiter.

A reservation is made by one validator of the gate and the decision to refuse is taken
elsewhere.  Nothing gives it back: once the gate has charged a scope, some scope keeps the
units.  It need not be one that admitted them, as a rejected consume keeps its addition.
-/
import Kaiban.GatedActor
import Kaiban.Lib.Steps

open JsString

namespace Kaiban

variable {units : ℤ}

/-! ### The account of one call -/

namespace LimiterStore

variable {st : LimiterStore}

@[simp] theorem before_account (st : LimiterStore) : st.before.account = st.account := by
  unfold before
  split <;> rfl

theorem charge_account_self (st : LimiterStore) (k : LimiterKey) (units : ℤ) :
    (st.charge k units).account k = st.account k + units := if_pos rfl

theorem charge_account_ne {k x : LimiterKey} (h : x ≠ k) (units : ℤ) :
    (st.charge k units).account x = st.account x := if_neg h

/-- No units leave every account as it was. -/
theorem charge_zero (st : LimiterStore) (k x : LimiterKey) :
    (st.charge k 0).account x = st.account x := by
  show (if x = k then st.account x + 0 else st.account x) = _
  rw [Int.add_zero, ite_self]

end LimiterStore

/-- What a consume does to the account. -/
theorem consumeOne_account (target : LimiterTarget) (units : ℤ) (st : LimiterStore) :
    (∃ e, st.error = some e ∧ consumeOne target units st = (.error e, st.before)) ∨
      (st.error = none ∧ ∃ res,
        consumeOne target units st = (.ok res, st.before.charge target.key units)) := by
  unfold consumeOne
  cases he : st.error with
  | some e => exact .inl ⟨e, rfl, rfl⟩
  | none =>
      refine .inr ⟨rfl, ?_⟩
      dsimp only
      split
      · exact ⟨_, rfl⟩
      · exact ⟨_, rfl⟩

/-- Giving back changes only the scopes it gives back to. -/
theorem compensate_account (units : ℤ) {ts : List LimiterTarget} {k : LimiterKey}
    (hk : k ∉ ts.map LimiterTarget.key) (st : LimiterStore) :
    (compensate units ts st).2.account k = st.account k := by
  induction ts generalizing st with
  | nil => rfl
  | cons target rest ih =>
      have hne : k ≠ target.key := fun h => hk (by simp [h])
      have hrest : k ∉ rest.map LimiterTarget.key := fun h => hk (by simp [h])
      unfold compensate
      split
      · rw [LimiterStore.before_account]
      · rw [ih hrest, LimiterStore.charge_account_ne hne, LimiterStore.before_account]

theorem compensate_zero (ts : List LimiterTarget) (st : LimiterStore) :
    (compensate 0 ts st).2.account = st.account := by
  induction ts generalizing st with
  | nil => rfl
  | cons target rest ih =>
      unfold compensate
      split
      · rw [LimiterStore.before_account]
      · rw [ih]
        funext x
        rw [Int.neg_zero, LimiterStore.charge_zero, LimiterStore.before_account]

/-! ### The account of a reservation -/

/-- The store after the loop, by what becomes of its first consume. -/
theorem consumeTargets_store (units : ℤ) (target : LimiterTarget)
    (rest consumed : List LimiterTarget)
    (remaining : WithTop ℤ) (utilization : ℚ) (st : LimiterStore) :
    (consumeTargets units (target :: rest) consumed remaining utilization st).2 =
      match consumeOne target units st with
      | (.error _, st) => st
      | (.ok none, st) => (compensate units consumed st).2
      | (.ok (some res), st) =>
          (consumeTargets units rest (consumed ++ [target])
            (min remaining (res.remainingPoints : ℤ))
            (max utilization ((res.consumedPoints : ℚ) / target.points)) st).2 := by
  rw [consumeTargets]
  rcases consumeOne target units st with ⟨answer, after⟩
  cases answer with
  | error e => rfl
  | ok res =>
      cases res with
      | some res => rfl
      | none =>
          dsimp only
          rcases compensate units consumed after with ⟨back, after⟩
          cases back with
          | error e => rfl
          | ok u => rfl

/-- A reservation changes only the scopes of its targets. -/
theorem consumeTargets_account (units : ℤ) {ts : List LimiterTarget} {k : LimiterKey}
    (hk : k ∉ ts.map LimiterTarget.key) :
    ∀ {consumed : List LimiterTarget} (remaining : WithTop ℤ) (utilization : ℚ)
      (st : LimiterStore), k ∉ consumed.map LimiterTarget.key →
      (consumeTargets units ts consumed remaining utilization st).2.account k = st.account k := by
  induction ts with
  | nil => intro consumed remaining utilization st _; rfl
  | cons target rest ih =>
      intro consumed remaining utilization st hconsumed
      have hne : k ≠ target.key := fun h => hk (by simp [h])
      have hrest : k ∉ rest.map LimiterTarget.key := fun h => hk (by simp [h])
      have hcharge : (st.before.charge target.key units).account k = st.account k := by
        rw [LimiterStore.charge_account_ne hne, LimiterStore.before_account]
      rw [consumeTargets_store]
      rcases consumeOne_account target units st with ⟨e, -, heq⟩ | ⟨-, res, heq⟩
      · rw [heq]
        exact congrFun (LimiterStore.before_account st) k
      · rw [heq]
        cases res with
        | none => exact (compensate_account units hconsumed _).trans hcharge
        | some res =>
            dsimp only
            rw [ih hrest _ _ _ (by simp [hconsumed, hne]), hcharge]

/-- No units leave every scope as it was. -/
theorem consumeTargets_zero {ts : List LimiterTarget} :
    ∀ (consumed : List LimiterTarget) (remaining : WithTop ℤ) (utilization : ℚ)
      (st : LimiterStore),
      (consumeTargets 0 ts consumed remaining utilization st).2.account = st.account := by
  induction ts with
  | nil => intro consumed remaining utilization st; rfl
  | cons target rest ih =>
      intro consumed remaining utilization st
      have hcharge : (st.before.charge target.key 0).account = st.account := by
        funext x
        rw [LimiterStore.charge_zero, LimiterStore.before_account]
      rw [consumeTargets_store]
      rcases consumeOne_account target 0 st with ⟨e, -, heq⟩ | ⟨-, res, heq⟩
      · rw [heq]
        exact LimiterStore.before_account st
      · rw [heq]
        cases res with
        | none => exact (compensate_zero consumed _).trans hcharge
        | some res =>
            dsimp only
            rw [ih, hcharge]

/-- **Once a scope was charged, some scope keeps the units**, whatever comes after. -/
theorem consumeTargets_keeps {ts : List LimiterTarget} {a : LimiterKey → ℤ} :
    ∀ (consumed : List LimiterTarget) (remaining : WithTop ℤ) (utilization : ℚ)
      (st : LimiterStore), consumed ≠ [] →
      (∀ t ∈ consumed, st.account t.key = a t.key + units) →
      (∀ t ∈ ts, st.account t.key = a t.key) →
      ((consumed ++ ts).map LimiterTarget.key).Nodup →
      ∃ t ∈ consumed ++ ts,
        (consumeTargets units ts consumed remaining utilization st).2.account t.key
          = a t.key + units := by
  induction ts with
  | nil =>
      intro consumed remaining utilization st hne hheld hfree hnodup
      obtain ⟨t, ht⟩ := List.exists_mem_of_ne_nil consumed hne
      exact ⟨t, by simp [ht], hheld t ht⟩
  | cons target rest ih =>
      intro consumed remaining utilization st hne hheld hfree hnodup
      have hfresh : target.key ∉ consumed.map LimiterTarget.key := by
        intro hmem
        rw [List.map_append, List.map_cons] at hnodup
        exact (List.nodup_append.mp hnodup).2.2 _ hmem _ (by simp) rfl
      have hcharged : (st.before.charge target.key units).account target.key
          = a target.key + units := by
        rw [LimiterStore.charge_account_self, LimiterStore.before_account, hfree target (by simp)]
      rw [consumeTargets_store]
      rcases consumeOne_account target units st with ⟨e, -, heq⟩ | ⟨-, res, heq⟩
      · rw [heq]
        obtain ⟨t, ht⟩ := List.exists_mem_of_ne_nil consumed hne
        refine ⟨t, by simp [ht], ?_⟩
        dsimp only
        rw [LimiterStore.before_account]
        exact hheld t ht
      · rw [heq]
        cases res with
        | none =>
            exact ⟨target, by simp, (compensate_account units hfresh _).trans hcharged⟩
        | some res =>
            dsimp only
            have hnext := ih (consumed ++ [target])
              (min remaining (res.remainingPoints : ℤ))
              (max utilization ((res.consumedPoints : ℚ) / target.points))
              (st.before.charge target.key units) (by simp) ?_ ?_ (by simpa using hnodup)
            · simpa using hnext
            · intro t ht
              rcases List.mem_append.mp ht with hold | hnew
              · have hdiff : t.key ≠ target.key := fun h =>
                  hfresh (h ▸ List.mem_map_of_mem hold)
                rw [LimiterStore.charge_account_ne hdiff, LimiterStore.before_account]
                exact hheld t hold
              · rw [List.mem_singleton.mp hnew]
                exact hcharged
            · intro t ht
              have hdiff : t.key ≠ target.key := by
                intro h
                rw [List.map_append, List.map_cons] at hnodup
                have hcons := (List.nodup_append.mp hnodup).2.1
                exact (List.nodup_cons.mp hcons).1 (h ▸ List.mem_map_of_mem ht)
              rw [LimiterStore.charge_account_ne hdiff, LimiterStore.before_account]
              exact hfree t (by simp [ht])

/-! ### The scopes of a reservation -/

theorem buildTargets_concern {cfg : EconomicsConfig} {concern : Concern} {scope : BudgetScope}
    {globalLimit scopeLimit : ℤ} {t : LimiterTarget}
    (h : t ∈ buildTargets cfg concern scope globalLimit scopeLimit) : t.key.concern = concern := by
  have htier : ∀ (c : Prop) [Decidable c] (u : LimiterTarget), u.key.concern = concern →
      t ∈ (if c then [u] else []) → t.key.concern = concern := by
    intro c _ u hu ht
    split at ht
    · rw [List.mem_singleton.mp ht]
      exact hu
    · exact absurd ht (by simp)
  unfold buildTargets at h
  split at h
  · rcases List.mem_append.mp h with h | h
    · rcases List.mem_append.mp h with h | h
      · exact htier _ _ rfl h
      · cases hid : scope.tenantId with
        | none => rw [hid] at h; exact absurd h (by simp)
        | some id => rw [hid] at h; exact htier _ _ rfl h
    · cases hid : scope.agentId with
      | none => rw [hid] at h; exact absurd h (by simp)
      | some id => rw [hid] at h; exact htier _ _ rfl h
  · exact absurd h (by simp)

/-- The scopes of one reservation are different counters. -/
theorem buildTargets_nodup (cfg : EconomicsConfig) (concern : Concern) (scope : BudgetScope)
    (globalLimit scopeLimit : ℤ) :
    ((buildTargets cfg concern scope globalLimit scopeLimit).map LimiterTarget.key).Nodup := by
  unfold buildTargets
  cases scope.tenantId <;> cases scope.agentId <;> split_ifs <;> simp

theorem consumeAll_account {targets : List LimiterTarget} {k : LimiterKey}
    (hk : k ∉ targets.map LimiterTarget.key) (units : ℤ) (st : LimiterStore) :
    (consumeAll targets units st).2.account k = st.account k := by
  unfold consumeAll
  split
  · rfl
  · exact consumeTargets_account units hk ⊤ 0 st (by simp)

/-- A request charges no cost. -/
theorem consumeRequest_account (cfg : EconomicsConfig) (scope : BudgetScope) (st : LimiterStore)
    {k : LimiterKey} (hk : k.concern = .cost) :
    (consumeRequest cfg scope st).2.account k = st.account k := by
  refine consumeAll_account (fun hmem => ?_) 1 st
  obtain ⟨t, ht, rfl⟩ := List.mem_map.mp hmem
  rw [buildTargets_concern ht] at hk
  exact absurd hk (by simp)

/-- **A reservation leaves no units behind exactly when it charges nothing**: no units, no
scope that is limited, or a first call that fails. -/
theorem reserveCost_account_iff (cfg : EconomicsConfig) (scope : BudgetScope) (units : ℤ)
    (st : LimiterStore) :
    (∀ k, k.concern = .cost → (reserveCost cfg scope units st).2.account k = st.account k) ↔
      (units = 0 ∨ costTargets cfg scope = [] ∨ st.error ≠ none) := by
  unfold reserveCost consumeAll
  have hnodup : ((costTargets cfg scope).map LimiterTarget.key).Nodup := buildTargets_nodup ..
  have hconcern : ∀ t ∈ costTargets cfg scope, t.key.concern = .cost :=
    fun t ht => buildTargets_concern ht
  cases htargets : costTargets cfg scope with
  | nil => simp
  | cons target rest =>
      rw [if_neg (by simp)]
      rw [htargets] at hnodup hconcern
      constructor
      · intro hkept
        by_contra hnot
        simp only [not_or, not_not] at hnot
        obtain ⟨hunits, -, hcall⟩ := hnot
        have hcharged : (st.before.charge target.key units).account target.key
            = st.account target.key + units := by
          rw [LimiterStore.charge_account_self, LimiterStore.before_account]
        obtain ⟨t, ht, heq⟩ : ∃ t ∈ target :: rest,
            (consumeTargets units (target :: rest) [] ⊤ 0 st).2.account t.key
              = st.account t.key + units := by
          rw [consumeTargets_store]
          rcases consumeOne_account target units st with ⟨e, he, -⟩ | ⟨-, res, heq⟩
          · exact absurd (hcall.symm.trans he) (by simp)
          · rw [heq]
            cases res with
            | none => exact ⟨target, by simp, hcharged⟩
            | some res =>
                refine consumeTargets_keeps [target] _ _ _ (by simp) ?_ ?_
                  (by simpa using hnodup)
                · intro t ht
                  rw [List.mem_singleton.mp ht]
                  exact hcharged
                · intro t ht
                  have hdiff : t.key ≠ target.key := fun h =>
                    (List.nodup_cons.mp hnodup).1 (h ▸ List.mem_map_of_mem ht)
                  rw [LimiterStore.charge_account_ne hdiff, LimiterStore.before_account]
        have hsame := hkept t.key (hconcern t ht)
        omega
      · intro hfree k _
        rcases hfree with rfl | hnil | hcall
        · rw [consumeTargets_zero]
        · exact absurd hnil (by simp)
        · rw [consumeTargets_store]
          rcases consumeOne_account target units st with ⟨e, -, heq⟩ | ⟨hnone, -⟩
          · rw [heq]
            exact congrFun (LimiterStore.before_account st) k
          · exact absurd hnone hcall

/-! ### The account of an admission -/

/-- The rate check passes and leaves a store whose first call for cost is charged. -/
structure Admits (r : CostReservation) (scope : BudgetScope) (units : ℤ) (st : LimiterStore) :
    Prop where
  enabled : r.config.enabled = true
  rate : ∃ res, (consumeRequest r.limiter scope st).1 = .ok res ∧ res.ok = true
  limited : costTargets r.limiter scope ≠ []
  call : (consumeRequest r.limiter scope st).2.error = none
  units : units ≠ 0

/-- The store after an admission. -/
theorem admit_store (r : CostReservation) (scope : BudgetScope) (units : ℤ) (st : LimiterStore)
    (henabled : r.config.enabled = true) {res : LimiterReservation} (hok : res.ok = true)
    (hrate : (consumeRequest r.limiter scope st).1 = .ok res) :
    (CostReservation.admitCall r scope units st).2
      = (reserveCost r.limiter scope units (consumeRequest r.limiter scope st).2).2 := by
  unfold CostReservation.admitCall
  rw [if_pos henabled]
  rcases hreq : consumeRequest r.limiter scope st with ⟨answer, after⟩
  rw [hreq] at hrate
  obtain rfl : answer = .ok res := hrate
  dsimp only
  rw [if_pos hok]
  rcases reserveCost r.limiter scope units after with ⟨cost, last⟩
  cases cost with
  | error e => rfl
  | ok cost =>
      dsimp only
      split <;> rfl

theorem admit_account_iff (r : CostReservation) (scope : BudgetScope) (units : ℤ)
    (st : LimiterStore) :
    (∀ k, k.concern = .cost →
      (CostReservation.admitCall r scope units st).2.account k = st.account k) ↔
      ¬ Admits r scope units st := by
  by_cases henabled : r.config.enabled = true
  · by_cases hrate : ∃ res, (consumeRequest r.limiter scope st).1 = .ok res ∧ res.ok = true
    · obtain ⟨res, hreq, hok⟩ := hrate
      have hstore := admit_store r scope units st henabled hok hreq
      have hiff := reserveCost_account_iff r.limiter scope units
        (consumeRequest r.limiter scope st).2
      rw [hstore]
      have hbefore : ∀ k : LimiterKey, k.concern = .cost →
          (consumeRequest r.limiter scope st).2.account k = st.account k :=
        fun k hk => consumeRequest_account r.limiter scope st hk
      constructor
      · intro hkept hadmits
        have hfree := hiff.mp fun k hk => (hkept k hk).trans (hbefore k hk).symm
        rcases hfree with hunits | hnil | hcall
        · exact hadmits.units hunits
        · exact hadmits.limited hnil
        · exact hcall hadmits.call
      · intro hnot k hk
        rw [← hbefore k hk]
        refine hiff.mpr ?_ k hk
        by_contra hcharged
        simp only [not_or, not_not] at hcharged
        exact hnot ⟨henabled, ⟨res, hreq, hok⟩, hcharged.2.1, hcharged.2.2, hcharged.1⟩
    · refine ⟨fun _ hadmits => hrate hadmits.rate, fun _ k hk => ?_⟩
      rw [← consumeRequest_account r.limiter scope st hk]
      unfold CostReservation.admitCall
      rw [if_pos henabled]
      rcases hreq : consumeRequest r.limiter scope st with ⟨answer, after⟩
      rw [hreq] at hrate
      cases answer with
      | error e => rfl
      | ok res =>
          dsimp only
          rw [if_neg fun hok => hrate ⟨res, rfl, hok⟩]
  · refine ⟨fun _ hadmits => henabled hadmits.enabled, fun _ k _ => ?_⟩
    unfold CostReservation.admitCall
    rw [if_neg henabled]

end Kaiban
