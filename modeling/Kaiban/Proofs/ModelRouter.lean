/-
The model a step is routed to.

`preferred` compares four keys one after the other, and the last of them is the id, so it is a
strict total order on candidates with different ids.  The fold finds its maximum, which no
order of the candidates changes.

A score is linear in the pressure.  Of two models that win at two pressures, the one that wins
at the higher has the smaller slope on both sides of the exchange, so it is no more capable and
no dearer.
-/
import Kaiban.Economics
import Mathlib.Data.List.Nodup
import Mathlib.Data.Prod.Lex
import Mathlib.Order.Fin.Basic
import Mathlib.Tactic.Linarith

open JsString

namespace Kaiban

/-! ### The order of preference -/

/-- What `preferred` compares, one after the other. -/
abbrev RouteKey := ℚ ×ₗ (ℚ ×ₗ (ℚᵒᵈ ×ₗ JsStringᵒᵈ))

def routeKey (pressure : ℚ) (c : ModelCandidate) : RouteKey :=
  toLex (score c pressure,
    toLex (c.capability, toLex (OrderDual.toDual (costProxy c), OrderDual.toDual c.id)))

/-- **`preferred` compares the keys.** -/
theorem preferred_iff {a b : ModelCandidate} {pressure : ℚ} :
    preferred a b pressure = true ↔ routeKey pressure b < routeKey pressure a := by
  unfold routeKey preferred
  rw [Prod.Lex.toLex_lt_toLex, Prod.Lex.toLex_lt_toLex, Prod.Lex.toLex_lt_toLex]
  dsimp only
  rw [OrderDual.toDual_lt_toDual, OrderDual.toDual_lt_toDual]
  by_cases hs : score a pressure - score b pressure ≠ 0
  · have hne : score b pressure ≠ score a pressure := fun h => hs (sub_eq_zero.mpr h.symm)
    rw [if_pos hs]
    simp [hne]
  · have hscore : score b pressure = score a pressure := (sub_eq_zero.mp (not_not.mp hs)).symm
    rw [if_neg hs]
    by_cases hc : a.capability ≠ b.capability
    · rw [if_pos hc]
      simp [hscore, hc.symm]
    · have hcapability := not_not.mp hc
      rw [if_neg hc]
      by_cases hk : costProxy a - costProxy b ≠ 0
      · have hne : costProxy b ≠ costProxy a := fun h => hk (sub_eq_zero.mpr h.symm)
        rw [if_pos hk]
        simp [hscore, hcapability, hne]
      · have hcost : costProxy b = costProxy a := (sub_eq_zero.mp (not_not.mp hk)).symm
        rw [if_neg hk]
        simp [hscore, hcapability, hcost]

theorem score_le_of_key {a b : ModelCandidate} {pressure : ℚ}
    (h : routeKey pressure a ≤ routeKey pressure b) : score a pressure ≤ score b pressure := by
  rcases Prod.Lex.toLex_le_toLex.mp h with hlt | ⟨heq, -⟩
  · exact hlt.le
  · exact heq.le

theorem id_eq_of_key {a b : ModelCandidate} {pressure : ℚ}
    (h : routeKey pressure a = routeKey pressure b) : a.id = b.id := by
  have hlex := toLex.injective h
  have hrest := toLex.injective (congrArg Prod.snd hlex)
  have hlast := toLex.injective (congrArg Prod.snd hrest)
  exact OrderDual.toDual.injective (congrArg Prod.snd hlast)

/-- The fold finds a candidate that none has a greater key than. -/
theorem pickBest_greatest (pressure : ℚ) (first : ModelCandidate) (rest : List ModelCandidate) :
    pickBest first rest pressure ∈ first :: rest ∧
      ∀ c ∈ first :: rest,
        routeKey pressure c ≤ routeKey pressure (pickBest first rest pressure) := by
  induction rest generalizing first with
  | nil =>
      refine ⟨List.mem_singleton.mpr rfl, fun c hc => ?_⟩
      rw [List.mem_singleton.mp hc]
      exact le_rfl
  | cons next rest ih =>
      by_cases hnext : preferred next first pressure = true
      · have hpick : pickBest first (next :: rest) pressure = pickBest next rest pressure := by
          unfold pickBest
          rw [List.foldl_cons, if_pos hnext]
        obtain ⟨hmem, hmax⟩ := ih next
        rw [hpick]
        refine ⟨List.mem_cons_of_mem first hmem, fun c hc => ?_⟩
        rcases List.mem_cons.mp hc with rfl | hc
        · exact (preferred_iff.mp hnext).le.trans (hmax next List.mem_cons_self)
        · exact hmax c hc
      · have hpick : pickBest first (next :: rest) pressure = pickBest first rest pressure := by
          unfold pickBest
          rw [List.foldl_cons, if_neg hnext]
        have hle : routeKey pressure next ≤ routeKey pressure first :=
          not_lt.mp fun hlt => hnext (preferred_iff.mpr hlt)
        obtain ⟨hmem, hmax⟩ := ih first
        rw [hpick]
        refine ⟨?_, fun c hc => ?_⟩
        · rcases List.mem_cons.mp hmem with heq | hmem
          · exact List.mem_cons.mpr (.inl heq)
          · exact List.mem_cons_of_mem _ (List.mem_cons_of_mem _ hmem)
        · rcases List.mem_cons.mp hc with rfl | hc
          · exact hmax c List.mem_cons_self
          · rcases List.mem_cons.mp hc with rfl | hc
            · exact hle.trans (hmax first List.mem_cons_self)
            · exact hmax c (List.mem_cons_of_mem first hc)

/-! ### The winner -/

/-- The winner among some candidates: it is eligible, and no eligible one is preferred. -/
structure Winner (req : RoutingRequest) (candidates : List ModelCandidate) (m : ModelCandidate) :
    Prop where
  mem : m ∈ candidates
  eligible : isEligible m req = true
  best : ∀ c ∈ candidates, isEligible c req = true →
    routeKey (clamp req.budgetPressure 0 1) c ≤ routeKey (clamp req.budgetPressure 0 1) m

/-- **The model that is routed to is the winner**, and there is none when nothing is
eligible. -/
theorem routeModel_winner (req : RoutingRequest) (candidates : List ModelCandidate) :
    (∀ c ∈ candidates, isEligible c req = false) ∧ routeModel req candidates
        = ⟨none, js "no candidate meets capability/context requirements"⟩ ∨
      ∃ m, Winner req candidates m ∧ routeModel req candidates
        = ⟨some m.id, if 1 / 2 ≤ clamp req.budgetPressure 0 1
            then js "right-sized under budget pressure" else js "capability-first selection"⟩ := by
  cases heligible : candidates.filter fun c => isEligible c req with
  | nil =>
      refine .inl ⟨fun c hc => ?_, ?_⟩
      · have hnot := List.filter_eq_nil_iff.mp heligible c hc
        simpa using hnot
      · unfold routeModel
        rw [heligible]
  | cons first rest =>
      obtain ⟨hmem, hmax⟩ := pickBest_greatest (clamp req.budgetPressure 0 1) first rest
      rw [← heligible] at hmem hmax
      obtain ⟨hin, hfit⟩ := List.mem_filter.mp hmem
      refine .inr ⟨_, ⟨hin, hfit, fun c hc hok => hmax c (List.mem_filter.mpr ⟨hc, hok⟩)⟩, ?_⟩
      unfold routeModel
      rw [heligible]

/-- Candidates with one id are one candidate. -/
theorem eq_of_id {candidates : List ModelCandidate}
    (hids : (candidates.map ModelCandidate.id).Nodup) {a b : ModelCandidate}
    (ha : a ∈ candidates) (hb : b ∈ candidates) (h : a.id = b.id) : a = b :=
  List.inj_on_of_nodup_map hids ha hb h

theorem Winner.unique {req : RoutingRequest} {candidates : List ModelCandidate}
    (hids : (candidates.map ModelCandidate.id).Nodup) {a b : ModelCandidate}
    (ha : Winner req candidates a) (hb : Winner req candidates b) : a = b := by
  apply eq_of_id hids ha.mem hb.mem
  exact id_eq_of_key (le_antisymm (hb.best a ha.mem ha.eligible) (ha.best b hb.mem hb.eligible))

theorem Winner.of_perm {req : RoutingRequest} {candidates others : List ModelCandidate}
    {m : ModelCandidate} (h : Winner req others m) (hperm : others.Perm candidates) :
    Winner req candidates m where
  mem := hperm.mem_iff.mp h.mem
  eligible := h.eligible
  best c hc := h.best c (hperm.mem_iff.mpr hc)

/-! ### Two pressures -/

theorem clamp_mono {x y : ℚ} (h : x ≤ y) : clamp x 0 1 ≤ clamp y 0 1 :=
  min_le_min_right 1 (max_le_max_right 0 h)

theorem clamp_bounds (x : ℚ) : 0 ≤ clamp x 0 1 ∧ clamp x 0 1 ≤ 1 :=
  ⟨le_min (le_max_right x 0) zero_le_one, min_le_right _ _⟩

/-- Two winners at two pressures: exchanging them gains nothing at either. -/
theorem winners_exchange {a b : ModelCandidate} {p q : ℚ} (hp : 0 ≤ p) (hpq : p < q) (hq : q ≤ 1)
    (hfirst : score b p ≤ score a p) (hsecond : score a q ≤ score b q) :
    b.capability ≤ a.capability ∧ costProxy b ≤ costProxy a := by
  unfold score at hfirst hsecond
  have hlow : (b.capability - a.capability) * (1 - p) ≤ (costProxy b - costProxy a) * p := by
    linarith
  have hhigh : (costProxy b - costProxy a) * q ≤ (b.capability - a.capability) * (1 - q) := by
    linarith
  have hgap : 0 < q - p := sub_pos.mpr hpq
  constructor
  · have hslope : (b.capability - a.capability) * (q - p) ≤ 0 := by
      have h1 := mul_le_mul_of_nonneg_right hlow (hp.trans hpq.le)
      have h2 := mul_le_mul_of_nonneg_right hhigh hp
      linarith
    linarith [nonpos_of_mul_nonpos_left hslope hgap]
  · have hslope : (costProxy b - costProxy a) * (q - p) ≤ 0 := by
      have h1 := mul_le_mul_of_nonneg_right hlow (sub_nonneg.mpr hq)
      have h2 := mul_le_mul_of_nonneg_right hhigh (sub_nonneg.mpr (hpq.le.trans hq))
      linarith
    linarith [nonpos_of_mul_nonpos_left hslope hgap]

/-- **The routing does not depend on the order of the candidates, and more pressure never
routes to a more capable or a dearer model.** -/
theorem routeModel_steady (req : RoutingRequest) {candidates : List ModelCandidate}
    (hids : (candidates.map ModelCandidate.id).Nodup) :
    (∀ others, others.Perm candidates → routeModel req others = routeModel req candidates) ∧
      ∀ pressure, req.budgetPressure ≤ pressure →
        (routeModel req candidates).modelId = none ∧
          (routeModel { req with budgetPressure := pressure } candidates).modelId = none ∨
        ∃ a ∈ candidates, ∃ b ∈ candidates,
          (routeModel req candidates).modelId = some a.id ∧
          (routeModel { req with budgetPressure := pressure } candidates).modelId = some b.id ∧
          b.capability ≤ a.capability ∧ costProxy b ≤ costProxy a := by
  constructor
  · intro others hperm
    rcases routeModel_winner req others with ⟨hnone, hroute⟩ | ⟨m, hm, hroute⟩ <;>
      rcases routeModel_winner req candidates with ⟨hnone', hroute'⟩ | ⟨m', hm', hroute'⟩
    · rw [hroute, hroute']
    · have hfit := hnone m' (hperm.mem_iff.mpr hm'.mem)
      exact absurd (hm'.eligible.symm.trans hfit) (by simp)
    · have hfit := hnone' m (hperm.mem_iff.mp hm.mem)
      exact absurd (hm.eligible.symm.trans hfit) (by simp)
    · rw [hroute, hroute', Winner.unique hids (hm.of_perm hperm) hm']
  · intro pressure hmore
    -- The pressure plays no part in what is eligible.
    have hsame : ∀ c, isEligible c { req with budgetPressure := pressure } = isEligible c req :=
      fun _ => rfl
    rcases routeModel_winner req candidates with ⟨hnone, hroute⟩ | ⟨a, ha, hroute⟩ <;>
      rcases routeModel_winner { req with budgetPressure := pressure } candidates with
        ⟨hnone', hroute'⟩ | ⟨b, hb, hroute'⟩
    · exact .inl ⟨by rw [hroute], by rw [hroute']⟩
    · exact absurd (hb.eligible.symm.trans (hnone b hb.mem)) (by simp)
    · exact absurd (ha.eligible.symm.trans (hnone' a ha.mem)) (by simp)
    · refine .inr ⟨a, ha.mem, b, hb.mem, by rw [hroute], by rw [hroute'], ?_⟩
      rcases (clamp_mono hmore).lt_or_eq with hlt | heq
      · exact winners_exchange (clamp_bounds _).1 hlt (clamp_bounds _).2
          (score_le_of_key (ha.best b hb.mem hb.eligible))
          (score_le_of_key (hb.best a ha.mem ha.eligible))
      · have hsamewinner : Winner req candidates b := by
          refine ⟨hb.mem, hb.eligible, fun c hc hok => ?_⟩
          rw [heq]
          exact hb.best c hc hok
        rw [Winner.unique hids ha hsamewinner]
        exact ⟨le_rfl, le_rfl⟩

/-- A large and a small model. -/
def twoModels : List ModelCandidate :=
  [⟨js "large", ⟨5, 15, none⟩, 9, 100000⟩, ⟨js "small", ⟨1, 2, none⟩, 3, 100000⟩]

theorem routeModel_steady_two :
    routeModel ⟨1, 1000, 0⟩ twoModels.reverse = routeModel ⟨1, 1000, 0⟩ twoModels ∧
      ∀ pressure, (0 : ℚ) ≤ pressure →
        (routeModel ⟨1, 1000, 0⟩ twoModels).modelId = none ∧
          (routeModel ⟨1, 1000, pressure⟩ twoModels).modelId = none ∨
        ∃ a ∈ twoModels, ∃ b ∈ twoModels,
          (routeModel ⟨1, 1000, 0⟩ twoModels).modelId = some a.id ∧
          (routeModel ⟨1, 1000, pressure⟩ twoModels).modelId = some b.id ∧
          b.capability ≤ a.capability ∧ costProxy b ≤ costProxy a := by
  have hids : (twoModels.map ModelCandidate.id).Nodup := by decide
  obtain ⟨horder, hpressure⟩ := routeModel_steady ⟨1, 1000, 0⟩ hids
  exact ⟨horder _ (List.reverse_perm _), hpressure⟩

end Kaiban
