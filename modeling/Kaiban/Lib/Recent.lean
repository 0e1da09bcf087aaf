/-
Maps that keep the entries of the last keys that were written.

`touch n m k v` moves the key `k` to the end of the map, under the value `v`, and drops the
oldest key when the map then has more than `n`.  A tally kept this way is a sum as long as
its key stays in the map, and the sum starts again once the key was dropped.

A key is dropped after `n` other keys have been written since its own last write, and not
before.  Both directions are proved about a history of amounts that are added one after
the other: a key that is never `n` other keys behind has its whole sum (`Steady`), and `n`
different other keys leave nothing of it.
-/
import Kaiban.Lib.OrderedMap
import Mathlib.Algebra.BigOperators.Group.List.Basic
import Mathlib.Data.Finset.Card
import Mathlib.Data.List.Infix

namespace OrderedMap

variable {κ υ : Type} [DecidableEq κ]

/-- The map with its oldest key left out. -/
def dropOldest (m : OrderedMap κ υ) : OrderedMap κ υ :=
  match m.keys with
  | [] => m
  | oldest :: _ => m.erase oldest

def touch (n : ℕ) (m : OrderedMap κ υ) (k : κ) (v : υ) : OrderedMap κ υ :=
  let moved := (m.erase k).set k v
  if n < moved.entries.length then moved.dropOldest else moved

/-- The entries with `k` moved to the end. -/
def movedEntries (m : OrderedMap κ υ) (k : κ) (v : υ) : List (κ × υ) :=
  (m.entries.filter fun e => e.1 ≠ k) ++ [(k, v)]

theorem entries_dropOldest (m : OrderedMap κ υ) : m.dropOldest.entries = m.entries.tail := by
  obtain ⟨entries, hkeys⟩ := m
  cases entries with
  | nil => rfl
  | cons e rest =>
      rw [List.map_cons, List.nodup_cons] at hkeys
      show (e :: rest).filter (fun x => x.1 ≠ e.1) = rest
      rw [List.filter_cons_of_neg (by simp), List.filter_eq_self]
      intro x hx
      have hne : x.1 ≠ e.1 := fun h => hkeys.1 (h ▸ List.mem_map_of_mem hx)
      simpa using hne

theorem entries_moved (m : OrderedMap κ υ) (k : κ) (v : υ) :
    ((m.erase k).set k v).entries = m.movedEntries k v := by
  rw [set_of_notMem (get_eq_none.mp (get_erase_self m k))]
  rfl

theorem entries_touch (n : ℕ) (m : OrderedMap κ υ) (k : κ) (v : υ) :
    (m.touch n k v).entries = if n < (m.movedEntries k v).length then (m.movedEntries k v).tail
      else m.movedEntries k v := by
  unfold touch
  dsimp only
  rw [entries_moved]
  by_cases h : n < (m.movedEntries k v).length
  · rw [if_pos h, if_pos h, entries_dropOldest, entries_moved]
  · rw [if_neg h, if_neg h, entries_moved]

theorem length_movedEntries_le (m : OrderedMap κ υ) (k : κ) (v : υ) :
    (m.movedEntries k v).length ≤ m.entries.length + 1 := by
  unfold movedEntries
  rw [List.length_append, List.length_singleton]
  exact Nat.add_le_add_right (List.length_filter_le _ _) 1

/-- The map never has more than `n` keys. -/
theorem length_touch_le {n : ℕ} {m : OrderedMap κ υ} (h : m.entries.length ≤ n) (k : κ) (v : υ) :
    (m.touch n k v).entries.length ≤ n := by
  have hle := length_movedEntries_le m k v
  rw [entries_touch]
  by_cases hmore : n < (m.movedEntries k v).length
  · rw [if_pos hmore, List.length_tail]
    omega
  · rw [if_neg hmore]
    omega

/-- What `touch` leaves was moved or was there before. -/
theorem mem_touch {n : ℕ} {m : OrderedMap κ υ} {k : κ} {v : υ} {e : κ × υ}
    (h : e ∈ (m.touch n k v).entries) : e ∈ m.movedEntries k v := by
  rw [entries_touch] at h
  split at h
  · exact List.mem_of_mem_tail h
  · exact h

theorem get_touch_self {n : ℕ} (hn : 0 < n) (m : OrderedMap κ υ) (k : κ) (v : υ) :
    (m.touch n k v).get k = some v := by
  rw [get_eq_some, entries_touch]
  unfold movedEntries
  split
  · rename_i h
    cases hrest : m.entries.filter fun e => e.1 ≠ k with
    | nil =>
        rw [hrest] at h
        exact absurd h (by simp; omega)
    | cons e rest => simp
  · simp

/-- Another key keeps its value or is dropped. -/
theorem get_touch_ne (n : ℕ) (m : OrderedMap κ υ) {k x : κ} (v : υ) (h : x ≠ k) :
    (m.touch n k v).get x = m.get x ∨ (m.touch n k v).get x = none := by
  cases hx : (m.touch n k v).get x with
  | none => exact .inr rfl
  | some w =>
      have hmem := mem_touch (get_eq_some.mp hx)
      unfold movedEntries at hmem
      rw [List.mem_append, List.mem_filter, List.mem_singleton] at hmem
      rcases hmem with hold | hnew
      · exact .inl (get_eq_some.mpr hold.1).symm
      · exact absurd (congrArg Prod.fst hnew) h

/-! ### Histories -/

variable {α : Type}

/-- The keys of a history after the last time `k` came. -/
def since (k : κ) (hist : List (κ × α)) : List κ :=
  (hist.reverse.takeWhile fun e => e.1 ≠ k).map Prod.fst

/-- From its first time on, `k` never had `n` other keys behind it. -/
def Steady (n : ℕ) (k : κ) (hist : List (κ × α)) : Prop :=
  ∀ p, p <+: hist → k ∈ p.map Prod.fst → (since k p).toFinset.card < n

theorem since_concat (k : κ) (hist : List (κ × α)) (e : κ × α) :
    since k (hist ++ [e]) = if e.1 = k then [] else e.1 :: since k hist := by
  unfold since
  rw [List.reverse_append, List.reverse_singleton, List.singleton_append, List.takeWhile_cons]
  by_cases h : e.1 = k <;> simp [h]

theorem Steady.of_concat {n : ℕ} {k : κ} {hist : List (κ × α)} {e : κ × α}
    (h : Steady n k (hist ++ [e])) : Steady n k hist :=
  fun p hp hk => h p (hp.trans (List.prefix_append hist [e])) hk

/-! ### Tallies -/

variable [AddCommMonoid α]

/-- An amount added to the tally of a key. -/
def tally (n : ℕ) (m : OrderedMap κ α) (k : κ) (a : α) : OrderedMap κ α :=
  m.touch n k ((m.get k).getD 0 + a)

/-- A history of amounts. -/
def tallyAll (n : ℕ) (m : OrderedMap κ α) (hist : List (κ × α)) : OrderedMap κ α :=
  hist.foldl (fun m e => m.tally n e.1 e.2) m

/-- What a history adds for a key. -/
def own (k : κ) (hist : List (κ × α)) : α := ((hist.filter fun e => e.1 = k).map Prod.snd).sum

@[simp] theorem tallyAll_nil (n : ℕ) (m : OrderedMap κ α) : m.tallyAll n [] = m := rfl

theorem tallyAll_concat (n : ℕ) (m : OrderedMap κ α) (hist : List (κ × α)) (e : κ × α) :
    m.tallyAll n (hist ++ [e]) = (m.tallyAll n hist).tally n e.1 e.2 := by
  unfold tallyAll
  rw [List.foldl_append]
  rfl

@[simp] theorem own_nil (k : κ) : own k ([] : List (κ × α)) = 0 := rfl

theorem own_concat (k : κ) (hist : List (κ × α)) (e : κ × α) :
    own k (hist ++ [e]) = own k hist + if e.1 = k then e.2 else 0 := by
  unfold own
  rw [List.filter_append, List.map_append, List.sum_append]
  by_cases h : e.1 = k <;> simp [h]

theorem own_of_notMem {k : κ} {hist : List (κ × α)} (h : k ∉ hist.map Prod.fst) :
    own k hist = 0 := by
  have hnone : (hist.filter fun e => e.1 = k) = [] := by
    rw [List.filter_eq_nil_iff]
    intro e he hk
    exact h (List.mem_map.mpr ⟨e, he, by simpa using hk⟩)
  unfold own
  rw [hnone]
  rfl

/-- Where the key of a steady history stands: its sum is in the map, and whatever stands
behind it came since. -/
structure Stands (k : κ) (hist : List (κ × α)) (m : OrderedMap κ α) (pre post : List (κ × α)) :
    Prop where
  came : k ∈ hist.map Prod.fst
  entries : m.entries = pre ++ (k, own k hist) :: post
  behind : ∀ e ∈ post, e.1 ∈ since k hist

theorem Stands.get {k : κ} {hist pre post : List (κ × α)} {m : OrderedMap κ α}
    (h : Stands k hist m pre post) : m.get k = some (own k hist) := by
  rw [get_eq_some, h.entries]
  simp

/-- A key that comes again stands at the end. -/
theorem stands_self {n : ℕ} (hn : 0 < n) {k : κ} {hist : List (κ × α)} {m : OrderedMap κ α}
    (hget : (m.get k).getD 0 = own k hist) (a : α) :
    ∃ pre, Stands k (hist ++ [(k, a)]) (m.tally n k a) pre [] := by
  have hown : own k (hist ++ [(k, a)]) = (m.get k).getD 0 + a := by
    rw [own_concat, if_pos rfl, hget]
  have hcame : k ∈ (hist ++ [(k, a)]).map Prod.fst := by simp
  have hentries := entries_touch n m k ((m.get k).getD 0 + a)
  unfold movedEntries at hentries
  cases hrest : m.entries.filter fun e => e.1 ≠ k with
  | nil =>
      rw [hrest, if_neg (by simp; omega)] at hentries
      exact ⟨[], ⟨hcame, hentries.trans (by rw [hown]), by simp⟩⟩
  | cons e rest =>
      rw [hrest] at hentries
      by_cases hmore : n < (e :: rest ++ [(k, (m.get k).getD 0 + a)]).length
      · rw [if_pos hmore] at hentries
        exact ⟨rest, ⟨hcame, hentries.trans (by rw [hown]; rfl), by simp⟩⟩
      · rw [if_neg hmore] at hentries
        exact ⟨e :: rest, ⟨hcame, hentries.trans (by rw [hown]), by simp⟩⟩

/-- A key that is fewer than `n` keys behind is not dropped by another one. -/
theorem Stands.tally_ne {n : ℕ} {k x : κ} {hist pre post : List (κ × α)} {m : OrderedMap κ α}
    (h : Stands k hist m pre post) (hx : x ≠ k) (a : α)
    (hfew : (since k (hist ++ [(x, a)])).toFinset.card < n) :
    ∃ pre' post', Stands k (hist ++ [(x, a)]) (m.tally n x a) pre' post' := by
  have hown : own k (hist ++ [(x, a)]) = own k hist := by
    rw [own_concat, if_neg hx, add_zero]
  have hsince : since k (hist ++ [(x, a)]) = x :: since k hist := by
    rw [since_concat, if_neg hx]
  have hcame : k ∈ (hist ++ [(x, a)]).map Prod.fst := by
    rw [List.map_append, List.mem_append]
    exact .inl h.came
  let v := (m.get x).getD 0 + a
  let ahead := pre.filter fun e => e.1 ≠ x
  let post' := (post.filter fun e => e.1 ≠ x) ++ [(x, v)]
  have hmoved : m.movedEntries x v = ahead ++ (k, own k hist) :: post' := by
    show (m.entries.filter fun e => e.1 ≠ x) ++ [(x, v)] = _
    rw [h.entries, List.filter_append, List.filter_cons_of_pos (by simpa using hx.symm)]
    simp [ahead, post']
  have hbehind : ∀ e ∈ post', e.1 ∈ since k (hist ++ [(x, a)]) := by
    intro e he
    rw [hsince]
    rcases List.mem_append.mp he with hold | hnew
    · exact List.mem_cons_of_mem _ (h.behind e (List.mem_filter.mp hold).1)
    · rw [List.mem_singleton.mp hnew]
      exact List.mem_cons_self
  have hentries := entries_touch n m x v
  by_cases hmore : n < (m.movedEntries x v).length
  · rw [if_pos hmore, hmoved] at hentries
    cases hahead : ahead with
    | nil =>
        -- The keys behind `k` are different ones, and all of them came since.
        have hnodup : ((m.movedEntries x v).map Prod.fst).Nodup := by
          rw [← entries_moved]
          exact ((m.erase x).set x v).nodup
        have hkeys : (post'.map Prod.fst).Nodup := by
          rw [hmoved, hahead] at hnodup
          exact (List.nodup_cons.mp hnodup).2
        have hsub : (post'.map Prod.fst).toFinset ⊆ (since k (hist ++ [(x, a)])).toFinset := by
          intro y hy
          rw [List.mem_toFinset] at hy ⊢
          obtain ⟨e, he, rfl⟩ := List.mem_map.mp hy
          exact hbehind e he
        have hcard := Finset.card_le_card hsub
        rw [List.toFinset_card_of_nodup hkeys, List.length_map] at hcard
        rw [hmoved, hahead, List.nil_append, List.length_cons] at hmore
        omega
    | cons e rest =>
        rw [hahead] at hentries
        exact ⟨rest, post', ⟨hcame, by rw [hown]; exact hentries, hbehind⟩⟩
  · rw [if_neg hmore, hmoved] at hentries
    exact ⟨ahead, post', ⟨hcame, by rw [hown]; exact hentries, hbehind⟩⟩

theorem get_tally_of_none {n : ℕ} {m : OrderedMap κ α} {k x : κ} (h : m.get k = none)
    (hx : x ≠ k) (a : α) : (m.tally n x a).get k = none := by
  rcases get_touch_ne n m ((m.get x).getD 0 + a) hx.symm with hk | hk
  · exact hk.trans h
  · exact hk

/-- **A steady key has its whole sum.** -/
theorem get_tallyAll {n : ℕ} (hn : 0 < n) {k : κ} {hist : List (κ × α)} (h : Steady n k hist) :
    (tallyAll n empty hist).get k = if k ∈ hist.map Prod.fst then some (own k hist) else none := by
  have hstands : (k ∉ hist.map Prod.fst ∧ (tallyAll n empty hist).get k = none) ∨
      ∃ pre post, Stands k hist (tallyAll n empty hist) pre post := by
    induction hist using List.reverseRecOn with
    | nil => exact .inl ⟨by simp, rfl⟩
    | append_singleton hist e ih =>
        rw [tallyAll_concat]
        have hih := ih h.of_concat
        by_cases he : e.1 = k
        · obtain ⟨x, a⟩ := e
          obtain rfl : x = k := he
          have hget : ((tallyAll n empty hist).get x).getD 0 = own x hist := by
            rcases hih with ⟨hnot, hnone⟩ | ⟨pre, post, hs⟩
            · rw [hnone, own_of_notMem hnot]
              rfl
            · rw [hs.get]
              rfl
          obtain ⟨pre, hs⟩ := stands_self hn hget a
          exact .inr ⟨pre, [], hs⟩
        · rcases hih with ⟨hnot, hnone⟩ | ⟨pre, post, hs⟩
          · refine .inl ⟨?_, get_tally_of_none hnone he e.2⟩
            rw [List.map_append, List.mem_append, not_or]
            exact ⟨hnot, by simpa using fun hk => he hk.symm⟩
          · have hcame : k ∈ (hist ++ [e]).map Prod.fst := by
              rw [List.map_append, List.mem_append]
              exact .inl hs.came
            exact .inr (hs.tally_ne he e.2 (h _ List.prefix_rfl hcame))
  rcases hstands with ⟨hnot, hnone⟩ | ⟨pre, post, hs⟩
  · rw [hnone, if_neg hnot]
  · rw [hs.get, if_pos hs.came]

/-- Fresh keys stand at the end of the map, in their order. -/
theorem keys_tallyAll {n : ℕ} {m : OrderedMap κ α} (hm : m.entries.length ≤ n)
    {hist : List (κ × α)} (hnodup : (hist.map Prod.fst).Nodup) (hlen : hist.length ≤ n) :
    (m.tallyAll n hist).entries.length ≤ n ∧
      ∃ pre, (m.tallyAll n hist).keys = pre ++ hist.map Prod.fst := by
  induction hist using List.reverseRecOn with
  | nil => exact ⟨hm, m.keys, by simp⟩
  | append_singleton hist e ih =>
      rw [List.map_append, List.nodup_append] at hnodup
      rw [List.length_append, List.length_singleton] at hlen
      obtain ⟨hle, pre, hpre⟩ := ih hnodup.1 (by omega)
      rw [tallyAll_concat]
      refine ⟨length_touch_le hle _ _, ?_⟩
      have hfresh : ∀ y ∈ hist.map Prod.fst, y ≠ e.1 := fun y hy => hnodup.2.2 y hy e.1 (by simp)
      let v := (((m.tallyAll n hist).get e.1).getD 0) + e.2
      have hmoved : ((m.tallyAll n hist).movedEntries e.1 v).map Prod.fst
          = (pre.filter fun y => y ≠ e.1) ++ (hist ++ [e]).map Prod.fst := by
        have hkeys : ((m.tallyAll n hist).entries.filter fun x => x.1 ≠ e.1).map Prod.fst
            = (m.tallyAll n hist).keys.filter fun y => y ≠ e.1 := by
          unfold keys
          rw [List.filter_map]
          rfl
        have hsame : (hist.map Prod.fst).filter (fun y => y ≠ e.1) = hist.map Prod.fst := by
          rw [List.filter_eq_self]
          intro y hy
          simpa using hfresh y hy
        unfold movedEntries
        rw [List.map_append, hkeys, hpre, List.filter_append, hsame, List.append_assoc,
          List.map_append]
        rfl
      show ∃ pre', ((m.tallyAll n hist).touch n e.1 v).entries.map Prod.fst = pre' ++ _
      rw [entries_touch]
      by_cases hmore : n < ((m.tallyAll n hist).movedEntries e.1 v).length
      · rw [if_pos hmore, List.map_tail, hmoved]
        cases hahead : pre.filter fun y => y ≠ e.1 with
        | nil =>
            rw [hahead] at hmoved
            have hcount := congrArg List.length hmoved
            rw [List.length_map, List.nil_append, List.length_map, List.length_append,
              List.length_singleton] at hcount
            omega
        | cons y rest => exact ⟨rest, rfl⟩
      · rw [if_neg hmore, hmoved]
        exact ⟨_, rfl⟩

/-- **A key is dropped once `n` other keys came.** -/
theorem get_tallyAll_none {n : ℕ} {m : OrderedMap κ α} (hm : m.entries.length ≤ n)
    {hist : List (κ × α)} (hnodup : (hist.map Prod.fst).Nodup) (hlen : hist.length = n)
    {k : κ} (hk : k ∉ hist.map Prod.fst) : (m.tallyAll n hist).get k = none := by
  obtain ⟨hle, pre, hpre⟩ := keys_tallyAll hm hnodup hlen.le
  have hkeys : (m.tallyAll n hist).keys.length ≤ n := by
    unfold keys
    rwa [List.length_map]
  have hnil : pre = [] := by
    rw [hpre, List.length_append, List.length_map, hlen] at hkeys
    exact List.length_eq_zero_iff.mp (by omega)
  rw [get_eq_none, hpre, hnil, List.nil_append]
  exact hk

end OrderedMap
