/-
The audit log gives tampering away.

A record's hash tells the hash before it from the content: the one is hexadecimal and the
other begins with a brace.  So what a hash is taken over is read off the hash, and from the
last hash of a chain the whole chain is.
-/
import Kaiban.AuditLog
import Kaiban.Proofs.JsonBytes

open JsString

namespace Kaiban

variable {sha : Sha256}

/-! ### What a hash is taken over -/

/-- A text of hexadecimal digits. -/
def Hexadecimal (s : JsString) : Prop := ∀ u ∈ s, (Json.hexValue u).isSome = true

theorem Hexadecimal.nil : Hexadecimal [] := fun _ h => absurd h (by simp)

/-- The brace a content begins with, which is no hexadecimal digit. -/
def brace : CodeUnit := unit '{'

theorem canonical_brace (index : JsNumber) (timestamp : JsString) (decision : Json) :
    ∃ rest, canonical index timestamp decision = brace :: rest := ⟨_, rfl⟩

theorem Hexadecimal.brace_notMem {s : JsString} (h : Hexadecimal s) : brace ∉ s := by
  intro hmem
  have hnone : (Json.hexValue brace).isSome = false := by decide
  exact absurd ((h brace hmem).symm.trans hnone) (by simp)

theorem Hexadecimal.encodable {s : JsString} (h : Hexadecimal s) : Encodable s := by
  refine encodable_small fun u hu => ?_
  have hsome := h u hu
  by_contra hlarge
  have hnone : Json.hexValue u = none := by
    have hout : ¬ (0x30 ≤ u.val ∧ u.val < 0x3A) ∧ ¬ (0x61 ≤ u.val ∧ u.val < 0x67) ∧
        ¬ (0x41 ≤ u.val ∧ u.val < 0x47) := by omega
    unfold Json.hexValue
    rw [if_neg hout.1, if_neg hout.2.1, if_neg hout.2.2]
  rw [hnone] at hsome
  exact absurd hsome (by simp)

/-- A text is read off up to the first unit of a kind. -/
theorem split_at_unit {u : CodeUnit} {p q r t : JsString} (hp : u ∉ p) (hq : u ∉ q)
    (h : p ++ u :: r = q ++ u :: t) : p = q ∧ r = t := by
  induction p generalizing q with
  | nil =>
      cases q with
      | nil => exact ⟨rfl, (List.cons.inj h).2⟩
      | cons v q => exact absurd (List.cons.inj h).1 (fun heq => hq (by simp [heq]))
  | cons w p ih =>
      cases q with
      | nil => exact absurd (List.cons.inj h).1.symm (fun heq => hp (by simp [heq]))
      | cons v q =>
          obtain ⟨rfl, hrest⟩ := List.cons.inj h
          obtain ⟨rfl, hrt⟩ := ih (fun hm => hp (by simp [hm])) (fun hm => hq (by simp [hm])) hrest
          exact ⟨rfl, hrt⟩

/-- The content of two records is the same: their JSON is. -/
structure SameContent (a b : AuditRecord) : Prop where
  index : Json.printed (.num a.index) = Json.printed (.num b.index)
  timestamp : a.timestamp = b.timestamp
  decision : Json.printed a.decision = Json.printed b.decision

theorem canonical_eq_iff {a b : AuditRecord} :
    canonical a.index a.timestamp a.decision = canonical b.index b.timestamp b.decision ↔
      SameContent a b := by
  constructor
  · intro h
    have hparse := congrArg Json.parse h
    unfold canonical at hparse
    rw [Json.parse_stringify, Json.parse_stringify] at hparse
    simp only [Json.printed, Json.printedMembers, Option.some.injEq, Json.obj.injEq,
      List.cons.injEq, Prod.mk.injEq, true_and, and_true] at hparse
    exact ⟨hparse.1, Json.str.inj hparse.2.1, hparse.2.2⟩
  · rintro ⟨hindex, htimestamp, hdecision⟩
    unfold canonical
    rw [← Json.stringify_printed, ← Json.stringify_printed (.obj [_, _, (_, b.decision)])]
    simp only [Json.printed, Json.printedMembers] at hindex ⊢
    rw [hindex, htimestamp, hdecision]

/-- **A hash tells what it was taken over.** -/
theorem computeHash_inj {p q : JsString} (hp : Hexadecimal p) (hq : Hexadecimal q)
    {a b : AuditRecord} (h : computeHash sha p a.index a.timestamp a.decision
      = computeHash sha q b.index b.timestamp b.decision) : p = q ∧ SameContent a b := by
  have hbytes := sha.injective h
  have htext := (hp.encodable.append (stringify_encodable _)).bytes_inj
    (hq.encodable.append (stringify_encodable _)) hbytes
  obtain ⟨rest, hrest⟩ := canonical_brace a.index a.timestamp a.decision
  obtain ⟨rest', hrest'⟩ := canonical_brace b.index b.timestamp b.decision
  have hsplit : p ++ brace :: rest = q ++ brace :: rest' := by rw [← hrest, ← hrest']; exact htext
  obtain ⟨hpq, hcontent⟩ := split_at_unit hp.brace_notMem hq.brace_notMem hsplit
  refine ⟨hpq, canonical_eq_iff.mp ?_⟩
  rw [hrest, hrest', hcontent]

/-! ### Chains that verify -/

namespace AuditLog

/-- The hash a record should have. -/
def expectedHash (sha : Sha256) (record : AuditRecord) : JsString :=
  computeHash sha record.prevHash record.index record.timestamp record.decision

/-- Every record follows the one before it and has the hash it should. -/
def Linked (sha : Sha256) : JsString → AuditLog → Prop
  | _, [] => True
  | prev, record :: rest =>
      record.prevHash = prev ∧ record.hash = expectedHash sha record ∧
        Linked sha record.hash rest

theorem verifyFrom_valid_iff (i : ℕ) (prev : JsString) (chain : AuditLog) :
    verifyFrom sha i prev chain = .valid ↔ Linked sha prev chain := by
  induction chain generalizing i prev with
  | nil => exact ⟨fun _ => trivial, fun _ => rfl⟩
  | cons record rest ih =>
      unfold verifyFrom Linked
      by_cases hprev : record.prevHash = prev
      · by_cases hhash : record.hash = expectedHash sha record
        · rw [if_neg (by rw [not_or, not_not, not_not]; exact ⟨hprev, hhash⟩), ih]
          exact ⟨fun h => ⟨hprev, hhash, h⟩, fun h => h.2.2⟩
        · rw [if_pos (.inr hhash)]
          exact ⟨fun h => absurd h (by simp), fun h => absurd h.2.1 hhash⟩
      · rw [if_pos (.inl hprev)]
        exact ⟨fun h => absurd h (by simp), fun h => absurd h.1 hprev⟩

theorem linked_append {prev : JsString} {chain : AuditLog} {record : AuditRecord} :
    Linked sha prev (chain ++ [record]) ↔
      Linked sha prev chain ∧ record.prevHash = (chain.getLast?.map AuditRecord.hash).getD prev ∧
        record.hash = expectedHash sha record := by
  induction chain generalizing prev with
  | nil => simp [Linked]
  | cons first rest ih =>
      have hlast : ((first :: rest).getLast?.map AuditRecord.hash).getD prev
          = (rest.getLast?.map AuditRecord.hash).getD first.hash := by
        cases rest with
        | nil => rfl
        | cons second rest =>
            rw [List.getLast?_cons_cons, List.getLast?_eq_some_getLast (by simp)]
            rfl
      rw [List.cons_append, Linked, Linked, ih, hlast, and_assoc, and_assoc]

/-- **Appending keeps a chain linked.** -/
theorem append_linked {chain : AuditLog} (h : Linked sha [] chain) (decision : Json)
    (timestamp : JsString) : Linked sha [] (append sha chain decision timestamp) :=
  linked_append.mpr ⟨h, rfl, rfl⟩

theorem appendAll_linked (sha : Sha256) (entries : List (Json × JsString)) :
    Linked sha [] (appendAll sha entries) := by
  induction entries using List.reverseRecOn with
  | nil => trivial
  | append_singleton entries entry ih =>
      unfold appendAll
      rw [List.foldl_append]
      exact append_linked ih entry.1 entry.2

theorem Linked.hash_hex {prev : JsString} {record : AuditRecord} {rest : AuditLog}
    (h : Linked sha prev (record :: rest)) : Hexadecimal record.hash := by
  rw [h.2.1]
  exact sha.isHex _

/-! ### A chain that was changed -/

/-- The records of one index differ, in their content or in their link. -/
def Changed (chain tampered : AuditLog) (i : ℕ) : Prop :=
  ∃ a b, chain[i]? = some a ∧ tampered[i]? = some b ∧
    ¬ (SameContent a b ∧ a.prevHash = b.prevHash)

/-- **The first record that was changed is where the chain is broken.** -/
theorem verifyFrom_changed {prev : JsString} (hprev : Hexadecimal prev) {chain tampered : AuditLog}
    (h : Linked sha prev chain)
    (hhashes : tampered.map AuditRecord.hash = chain.map AuditRecord.hash) {i : ℕ}
    (hfirst : IsLeast {i | Changed chain tampered i} i) (k : ℕ) :
    verifyFrom sha k prev tampered = .brokenAt (k + i) := by
  induction chain generalizing prev tampered i k with
  | nil =>
      obtain ⟨a, b, ha, -, -⟩ := hfirst.1
      exact absurd ha (by simp)
  | cons a chain ih =>
      cases tampered with
      | nil => exact absurd hhashes (by simp)
      | cons b tampered =>
          rw [List.map_cons, List.map_cons] at hhashes
          obtain ⟨hhash, hrest⟩ := List.cons.inj hhashes
          obtain ⟨haprev, hahash, hlinked⟩ := id h
          unfold verifyFrom
          by_cases hsame : SameContent a b ∧ a.prevHash = b.prevHash
          · -- The record is as it was, so the first change comes later.
            obtain ⟨j, rfl⟩ : ∃ j, i = j + 1 := by
              refine Nat.exists_eq_succ_of_ne_zero ?_
              rintro rfl
              obtain ⟨a', b', ha, hb, hdiff⟩ := hfirst.1
              obtain rfl := Option.some.inj ha
              obtain rfl := Option.some.inj hb
              exact hdiff hsame
            have hexpected : b.hash = expectedHash sha b := by
              rw [hhash, hahash]
              unfold expectedHash computeHash
              rw [canonical_eq_iff.mpr hsame.1, hsame.2]
            rw [if_neg (by
              rw [not_or, not_not, not_not]
              exact ⟨hsame.2.symm.trans haprev, hexpected⟩), hhash,
              ih (Linked.hash_hex h) hlinked hrest ⟨hfirst.1, fun x hx => ?_⟩ (k + 1)]
            · rw [Nat.add_assoc, Nat.add_comm 1 j]
            · have hle : j + 1 ≤ x + 1 := hfirst.2 hx
              omega
          · have hzero : i = 0 := by
              have hle : i ≤ 0 := hfirst.2 ⟨a, b, rfl, rfl, hsame⟩
              omega
            have hbroken : b.prevHash ≠ prev ∨ b.hash ≠ expectedHash sha b := by
              by_contra hnot
              rw [not_or, not_not, not_not] at hnot
              have h1 : a.hash = expectedHash sha a := hahash
              have h2 : b.hash = expectedHash sha b := hnot.2
              unfold expectedHash at h1 h2
              rw [haprev] at h1
              rw [hnot.1] at h2
              have hsums : computeHash sha prev a.index a.timestamp a.decision
                  = computeHash sha prev b.index b.timestamp b.decision := by
                rw [← h1, ← h2, hhash]
              exact hsame ⟨(computeHash_inj hprev hprev hsums).2, haprev.trans hnot.1.symm⟩
            rw [hzero]
            exact if_pos hbroken

/-! ### Two chains with one last hash -/

theorem linked_hexadecimal {chain : AuditLog} (h : Linked sha [] chain) :
    Hexadecimal (lastHash chain) := by
  unfold lastHash
  cases chain using List.reverseRecOn with
  | nil => exact .nil
  | append_singleton chain record =>
      rw [List.getLast?_concat]
      rw [show ((some record).map AuditRecord.hash).getD [] = record.hash from rfl,
        (linked_append.mp h).2.2]
      exact sha.isHex _

/-- **The last hash of a chain tells the whole chain.** -/
theorem linked_same {chain other : AuditLog} (h : Linked sha [] chain) (ho : Linked sha [] other)
    (hlen : chain.length = other.length) (hlast : lastHash chain = lastHash other) :
    List.Forall₂ SameContent chain other := by
  induction chain using List.reverseRecOn generalizing other with
  | nil =>
      obtain rfl := List.length_eq_zero_iff.mp hlen.symm
      exact .nil
  | append_singleton chain record ih =>
      cases other using List.reverseRecOn with
      | nil => exact absurd hlen (by simp)
      | append_singleton other record' =>
          obtain ⟨hchain, hprev, hhash⟩ := linked_append.mp h
          obtain ⟨hother, hprev', hhash'⟩ := linked_append.mp ho
          unfold lastHash at hlast
          rw [List.getLast?_concat, List.getLast?_concat] at hlast
          have heq : expectedHash sha record = expectedHash sha record' := by
            rw [← hhash, ← hhash']
            exact hlast
          unfold expectedHash at heq
          rw [hprev, hprev'] at heq
          obtain ⟨hbefore, hsame⟩ :=
            computeHash_inj (linked_hexadecimal hchain) (linked_hexadecimal hother) heq
          refine List.rel_append (ih hchain hother ?_ hbefore) (.cons hsame .nil)
          simpa using hlen

/-! ### The log as a whole -/

/-- **The audit log gives tampering away.**  What was appended verifies; records that are
changed without their hashes are found, the first of them by its index; and two chains that
verify and end with one hash have the same content. -/
theorem audit_log_tamper_evident (sha : Sha256) :
    (∀ entries, verify sha (appendAll sha entries) = .valid) ∧
    (∀ entries (tampered : AuditLog),
      tampered.map AuditRecord.hash = (appendAll sha entries).map AuditRecord.hash →
      (∃ i, Changed (appendAll sha entries) tampered i) →
      ∃ i, IsLeast {i | Changed (appendAll sha entries) tampered i} i ∧
        verify sha tampered = .brokenAt i) ∧
    (∀ chain other : AuditLog, verify sha chain = .valid → verify sha other = .valid →
      chain.length = other.length → lastHash chain = lastHash other →
      List.Forall₂ SameContent chain other) := by
  refine ⟨fun entries => ?_, fun entries tampered hhashes hchanged => ?_,
    fun chain other hchain hother => ?_⟩
  · exact (verifyFrom_valid_iff 0 [] _).mpr (appendAll_linked sha entries)
  · classical
    have hfirst : IsLeast {i | Changed (appendAll sha entries) tampered i} (Nat.find hchanged) :=
      ⟨Nat.find_spec hchanged, fun _ hi => Nat.find_min' hchanged hi⟩
    refine ⟨_, hfirst, ?_⟩
    have hbroken := verifyFrom_changed .nil (appendAll_linked sha entries) hhashes hfirst 0
    rwa [Nat.zero_add] at hbroken
  · exact linked_same ((verifyFrom_valid_iff 0 [] chain).mp hchain)
      ((verifyFrom_valid_iff 0 [] other).mp hother)

/-! ### Two records -/

/-- A number of zeros and a one, for each number of a list. -/
def spelled : List ℕ → JsString
  | [] => []
  | n :: rest => List.replicate n (unit '0') ++ unit '1' :: spelled rest

theorem spelled_injective : Function.Injective spelled := by
  have hone : ∀ n, unit '1' ∉ List.replicate n (unit '0') := by
    intro n hmem
    exact absurd (List.eq_of_mem_replicate hmem) (by decide)
  intro xs
  induction xs with
  | nil =>
      intro ys h
      cases ys with
      | nil => rfl
      | cons m ys => exact absurd h (by simp [spelled])
  | cons n xs ih =>
      intro ys h
      cases ys with
      | nil => exact absurd h (by simp [spelled])
      | cons m ys =>
          obtain ⟨hn, hrest⟩ := split_at_unit (hone n) (hone m) h
          rw [ih hrest, ← List.length_replicate (n := n) (a := unit '0'), hn,
            List.length_replicate]

theorem spelled_hexadecimal (input : List ℕ) : Hexadecimal (spelled input) := by
  have h0 : (Json.hexValue (unit '0')).isSome = true := by decide
  have h1 : (Json.hexValue (unit '1')).isSome = true := by decide
  induction input with
  | nil => exact .nil
  | cons n rest ih =>
      intro u hu
      rcases List.mem_append.mp hu with hu | hu
      · rwa [List.eq_of_mem_replicate hu]
      · rcases List.mem_cons.mp hu with rfl | hu
        · exact h1
        · exact ih u hu

def allowed : Json := .obj [(js "action", .str (js "allow"))]

/-- What the first hash of a log with one record is taken over. -/
def firstInput : List ℕ := bytes (canonical (.ofInt 0) (js "t") allowed)

/-- The SHA-256 of the first input; every other one is spelled out after another digit. -/
def sampleSha : Sha256 where
  hexDigest input :=
    if input = firstInput then
      js "f530642d8fa085939e7128490e1e070e8554c83fb4506a4a8496e27024abe7a5"
    else unit '0' :: spelled input
  injective := by
    have hhead : ∀ rest, js "f530642d8fa085939e7128490e1e070e8554c83fb4506a4a8496e27024abe7a5"
        ≠ unit '0' :: rest := fun rest h => absurd (congrArg List.head? h) (by
      rw [List.head?_cons]
      decide)
    intro a b h
    dsimp only at h
    split at h
    · rename_i ha
      split at h
      · rename_i hb
        rw [ha, hb]
      · exact absurd h (hhead _)
    · split at h
      · exact absurd h.symm (hhead _)
      · exact spelled_injective (List.cons.inj h).2
  isHex input := by
    split
    · exact List.all_eq_true.mp (by decide +kernel)
    · intro u hu
      rcases List.mem_cons.mp hu with rfl | hu
      · decide
      · exact spelled_hexadecimal input u hu

/-- A log of two records, and the second one with another time. -/
def twoRecords : AuditLog := appendAll sampleSha [(allowed, js "t"), (allowed, js "u")]

def backdated : AuditLog :=
  twoRecords.map fun record =>
    if record.timestamp = js "u" then { record with timestamp := js "s" } else record

theorem audit_log_two_records :
    verify sampleSha twoRecords = .valid ∧
    (∃ i, IsLeast {i | Changed twoRecords backdated i} i ∧
      verify sampleSha backdated = .brokenAt i) ∧
    List.Forall₂ SameContent twoRecords twoRecords := by
  have hvalid := (audit_log_tamper_evident sampleSha).1 [(allowed, js "t"), (allowed, js "u")]
  refine ⟨hvalid, (audit_log_tamper_evident sampleSha).2.1 _ backdated rfl ⟨1, _, _, rfl, rfl, ?_⟩,
    (audit_log_tamper_evident sampleSha).2.2 _ _ hvalid hvalid rfl rfl⟩
  intro h
  exact absurd h.1.timestamp (by decide)

end AuditLog

end Kaiban
