/-
Maps that remember the order their keys were added in.

The entries are a list in which no key comes twice, and the structure carries that fact.
Writing a key that is there keeps its place; deleting a key and writing it again moves it
to the end.
-/
import Mathlib.Data.List.Nodup

@[ext] structure OrderedMap (κ υ : Type) where
  entries : List (κ × υ)
  nodup : (entries.map Prod.fst).Nodup

namespace OrderedMap

variable {κ υ : Type} [DecidableEq κ]

def empty : OrderedMap κ υ := ⟨[], List.nodup_nil⟩

def get (m : OrderedMap κ υ) (k : κ) : Option υ :=
  (m.entries.find? fun e => e.1 = k).map Prod.snd

def keys (m : OrderedMap κ υ) : List κ := m.entries.map Prod.fst

/-- The entries with the value of `k` replaced. -/
def overwrite (k : κ) (v : υ) (es : List (κ × υ)) : List (κ × υ) :=
  es.map fun e => if e.1 = k then (k, v) else e

theorem keys_overwrite (k : κ) (v : υ) (es : List (κ × υ)) :
    (overwrite k v es).map Prod.fst = es.map Prod.fst := by
  unfold overwrite
  rw [List.map_map]
  refine List.map_congr_left fun e _ => ?_
  by_cases h : e.1 = k <;> simp [h]

def set (m : OrderedMap κ υ) (k : κ) (v : υ) : OrderedMap κ υ :=
  if h : k ∈ m.keys then ⟨overwrite k v m.entries, by rw [keys_overwrite]; exact m.nodup⟩
  else ⟨m.entries ++ [(k, v)], by
    rw [List.map_append]
    refine m.nodup.append (by simp) ?_
    intro x hx hk
    obtain rfl : x = k := by simpa using hk
    exact h hx⟩

def erase (m : OrderedMap κ υ) (k : κ) : OrderedMap κ υ :=
  ⟨m.entries.filter fun e => e.1 ≠ k,
    m.nodup.sublist (List.Sublist.map Prod.fst List.filter_sublist)⟩

/-- The entries that meet `p`. -/
def filter (m : OrderedMap κ υ) (p : κ → υ → Bool) : OrderedMap κ υ :=
  ⟨m.entries.filter fun e => p e.1 e.2,
    m.nodup.sublist (List.Sublist.map Prod.fst List.filter_sublist)⟩

/-- The last `n` entries. -/
def newest (n : ℕ) (m : OrderedMap κ υ) : OrderedMap κ υ :=
  ⟨m.entries.drop (m.entries.length - n),
    m.nodup.sublist (List.Sublist.map Prod.fst (List.drop_sublist _ _))⟩

/-- The entries written one after the other. -/
def setAll (m : OrderedMap κ υ) (es : List (κ × υ)) : OrderedMap κ υ :=
  es.foldl (fun m e => m.set e.1 e.2) m

/-- `m` with the entries of `n` written over it. -/
def merge (m n : OrderedMap κ υ) : OrderedMap κ υ := m.setAll n.entries

@[simp] theorem get_empty (k : κ) : (empty : OrderedMap κ υ).get k = none := rfl

/-- Each entry is what its key gives. -/
theorem get_eq_some {m : OrderedMap κ υ} {k : κ} {v : υ} :
    m.get k = some v ↔ (k, v) ∈ m.entries := by
  obtain ⟨entries, hkeys⟩ := m
  show (entries.find? fun e => e.1 = k).map Prod.snd = some v ↔ (k, v) ∈ entries
  induction entries with
  | nil => simp
  | cons e rest ih =>
      rw [List.map_cons, List.nodup_cons] at hkeys
      rw [List.find?_cons]
      by_cases he : e.1 = k
      · have hnot : (k, v) ∉ rest := fun hmem => hkeys.1 (he ▸ List.mem_map_of_mem hmem)
        simp only [he, decide_true, Option.map_some, Option.some.injEq, List.mem_cons, hnot,
          or_false]
        exact ⟨fun hv => by rw [← he, ← hv], fun hv => by rw [← hv]⟩
      · have hne : (k, v) ≠ e := fun h => he (by rw [← h])
        simp only [he, decide_false, List.mem_cons, hne, false_or]
        exact ih hkeys.2

theorem get_eq_none {m : OrderedMap κ υ} {k : κ} : m.get k = none ↔ k ∉ m.keys := by
  unfold get keys
  rw [Option.map_eq_none_iff, List.find?_eq_none, List.mem_map]
  constructor
  · rintro h ⟨e, he, rfl⟩
    exact absurd (h e he) (by simp)
  · intro h e he hk
    exact h ⟨e, he, by simpa using hk⟩

@[simp] theorem get_set_self (m : OrderedMap κ υ) (k : κ) (v : υ) :
    (m.set k v).get k = some v := by
  rw [get_eq_some]
  unfold set
  split
  · rename_i h
    obtain ⟨e, he, hk⟩ := List.mem_map.mp h
    exact List.mem_map.mpr ⟨e, he, by rw [if_pos hk]⟩
  · simp

theorem get_set_ne (m : OrderedMap κ υ) {k x : κ} (v : υ) (h : x ≠ k) :
    (m.set k v).get x = m.get x := by
  refine Option.ext fun w => ?_
  rw [get_eq_some, get_eq_some]
  unfold set
  split
  · constructor
    · intro hmem
      obtain ⟨e, he, hx⟩ := List.mem_map.mp hmem
      by_cases hk : e.1 = k
      · rw [if_pos hk] at hx
        exact absurd (congrArg Prod.fst hx).symm h
      · rw [if_neg hk] at hx
        exact hx ▸ he
    · intro hmem
      exact List.mem_map.mpr ⟨(x, w), hmem, by rw [if_neg h]⟩
  · simp [h]

@[simp] theorem get_erase_self (m : OrderedMap κ υ) (k : κ) : (m.erase k).get k = none := by
  rw [get_eq_none]
  unfold keys erase
  simp

theorem get_erase_ne (m : OrderedMap κ υ) {k x : κ} (h : x ≠ k) :
    (m.erase k).get x = m.get x := by
  refine Option.ext fun w => ?_
  rw [get_eq_some, get_eq_some]
  unfold erase
  simp [h]

/-- What is left after deleting a key was there before. -/
theorem get_of_erase {m : OrderedMap κ υ} {k x : κ} {v : υ} (h : (m.erase k).get x = some v) :
    x ≠ k ∧ m.get x = some v := by
  by_cases hx : x = k
  · rw [hx, get_erase_self] at h
    exact absurd h (by simp)
  · rw [get_erase_ne m hx] at h
    exact ⟨hx, h⟩

theorem get_filter (m : OrderedMap κ υ) (p : κ → υ → Bool) (k : κ) :
    (m.filter p).get k = (m.get k).filter (p k) := by
  refine Option.ext fun w => ?_
  rw [get_eq_some, Option.filter_eq_some_iff, get_eq_some]
  unfold filter
  simp

omit [DecidableEq κ] in
theorem newest_of_length_le {n : ℕ} {m : OrderedMap κ υ} (h : m.keys.length ≤ n) :
    m.newest n = m := by
  refine OrderedMap.ext ?_
  have hlen : m.entries.length - n = 0 := by
    unfold keys at h
    rw [List.length_map] at h
    omega
  show m.entries.drop (m.entries.length - n) = m.entries
  rw [hlen, List.drop_zero]

/-! ### Writing many entries -/

/-- Writing what is there changes nothing. -/
theorem set_of_get {m : OrderedMap κ υ} {k : κ} {v : υ} (h : m.get k = some v) :
    m.set k v = m := by
  have hk : k ∈ m.keys := by
    by_contra hnot
    rw [get_eq_none.mpr hnot] at h
    exact absurd h (by simp)
  unfold set
  rw [dif_pos hk]
  refine OrderedMap.ext ?_
  show overwrite k v m.entries = m.entries
  have hsame : ∀ e ∈ m.entries, (if e.1 = k then (k, v) else e) = e := by
    intro e he
    by_cases hek : e.1 = k
    · have hget : m.get e.1 = some e.2 := get_eq_some.mpr he
      rw [hek, h] at hget
      rw [if_pos hek, ← hek, Option.some.inj hget]
    · rw [if_neg hek]
  unfold overwrite
  exact (List.map_congr_left hsame).trans (List.map_id _)

/-- An entry is the one written, or was there. -/
theorem mem_set {m : OrderedMap κ υ} {k : κ} {v : υ} {e : κ × υ} (h : e ∈ (m.set k v).entries) :
    e = (k, v) ∨ e ∈ m.entries := by
  unfold set at h
  split at h
  · obtain ⟨x, hx, rfl⟩ := List.mem_map.mp h
    split
    · exact .inl rfl
    · exact .inr hx
  · rcases List.mem_append.mp h with hold | hnew
    · exact .inr hold
    · exact .inl (List.mem_singleton.mp hnew)

theorem set_of_notMem {m : OrderedMap κ υ} {k : κ} (h : k ∉ m.keys) (v : υ) :
    (m.set k v).entries = m.entries ++ [(k, v)] := by
  unfold set
  rw [dif_neg h]

/-- A new key that is deleted again leaves no trace. -/
theorem erase_set {m : OrderedMap κ υ} {k : κ} (h : m.get k = none) (v : υ) :
    (m.set k v).erase k = m := by
  refine OrderedMap.ext ?_
  show (m.set k v).entries.filter _ = m.entries
  rw [set_of_notMem (get_eq_none.mp h), List.filter_append, List.filter_eq_self.mpr]
  · simp
  · intro e he
    have hne : e.1 ≠ k := fun hk => get_eq_none.mp h (hk ▸ List.mem_map_of_mem he)
    simpa using hne

theorem setAll_of_get {m : OrderedMap κ υ} {es : List (κ × υ)}
    (h : ∀ e ∈ es, m.get e.1 = some e.2) : m.setAll es = m := by
  induction es with
  | nil => rfl
  | cons e rest ih =>
      show (m.set e.1 e.2).setAll rest = m
      rw [set_of_get (h e (by simp))]
      exact ih fun x hx => h x (by simp [hx])

/-- Entries with new names are added at the end, in their order. -/
theorem setAll_append {m : OrderedMap κ υ} {es : List (κ × υ)}
    (hnodup : ((m.entries ++ es).map Prod.fst).Nodup) :
    (m.setAll es).entries = m.entries ++ es := by
  induction es generalizing m with
  | nil => exact (List.append_nil _).symm
  | cons e rest ih =>
      have hnew : e.1 ∉ m.keys := by
        intro hmem
        rw [List.map_append, List.nodup_append] at hnodup
        exact hnodup.2.2 _ hmem _ (by simp) rfl
      have hentries := set_of_notMem hnew e.2
      show ((m.set e.1 e.2).setAll rest).entries = m.entries ++ e :: rest
      rw [ih (by rw [hentries, List.append_assoc]; exact hnodup), hentries, List.append_assoc]
      rfl

theorem get_setAll {m : OrderedMap κ υ} {es : List (κ × υ)} {k : κ} {v : υ}
    (hes : (k, v) ∈ es) (hnodup : (es.map Prod.fst).Nodup) : (m.setAll es).get k = some v := by
  have hkeep : ∀ {rest : List (κ × υ)} {n : OrderedMap κ υ}, k ∉ rest.map Prod.fst →
      (n.setAll rest).get k = n.get k := by
    intro rest
    induction rest with
    | nil => intro n _; rfl
    | cons e rest ih =>
        intro n hk
        rw [List.map_cons, List.mem_cons, not_or] at hk
        show ((n.set e.1 e.2).setAll rest).get k = n.get k
        rw [ih hk.2, get_set_ne n e.2 hk.1]
  induction es generalizing m with
  | nil => exact absurd hes (by simp)
  | cons e rest ih =>
      rw [List.map_cons, List.nodup_cons] at hnodup
      show ((m.set e.1 e.2).setAll rest).get k = some v
      rcases List.mem_cons.mp hes with rfl | hrest
      · rw [hkeep hnodup.1, get_set_self]
      · exact ih hrest hnodup.2

/-- What is written over a map wins. -/
theorem get_merge_of_get {m n : OrderedMap κ υ} {k : κ} {v : υ} (h : n.get k = some v) :
    (m.merge n).get k = some v :=
  get_setAll (get_eq_some.mp h) n.nodup

/-- **Writing the entries of a map into an empty one gives the map back.** -/
@[simp] theorem merge_empty_left (m : OrderedMap κ υ) : empty.merge m = m :=
  OrderedMap.ext (setAll_append (m := empty) m.nodup)

@[simp] theorem merge_self (m : OrderedMap κ υ) : m.merge m = m :=
  setAll_of_get fun _ he => get_eq_some.mpr he

end OrderedMap
