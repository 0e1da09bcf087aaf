/-
The bytes of a JSON text.

JSON escapes every lone surrogate, so a JSON text can be encoded, and a text that can be
encoded is read back off its bytes.
-/
import Kaiban.Proofs.Capping

open JsString

namespace Kaiban

variable {s t : JsString}

theorem Encodable.append (hs : Encodable s) (ht : Encodable t) : Encodable (s ++ t) := by
  obtain ⟨cs, rfl, hcs⟩ := hs
  obtain ⟨ds, rfl, hds⟩ := ht
  refine ⟨cs ++ ds, (ofPoints_append cs ds).symm, fun c hc => ?_⟩
  exact (List.mem_append.mp hc).elim (hcs c) (hds c)

/-- A text that can be encoded is read back off its bytes. -/
theorem Encodable.decode_bytes (h : Encodable s) : decode (bytes s) = s := by
  obtain ⟨cs, rfl, hcs⟩ := h
  have hsame : cs.map replaced = cs := by
    refine (List.map_congr_left fun c hc => ?_).trans (List.map_id cs)
    unfold replaced
    rw [(hcs c hc).2]
    rfl
  unfold bytes
  rw [codePoints_ofPoints hcs, ← List.flatMap_map, hsame, decode_flatMap fun c hc => (hcs c hc).1]

theorem Encodable.bytes_inj (hs : Encodable s) (ht : Encodable t) (h : bytes s = bytes t) :
    s = t := by
  rw [← hs.decode_bytes, h, ht.decode_bytes]

/-! ### Texts of JSON -/

theorem encodable_cons (c : Char) (hc : c.toNat < 0xD800) (h : Encodable s) :
    Encodable (unit c :: s) :=
  (encodable_small (s := [unit c]) fun u hu => by
    rw [List.mem_singleton.mp hu]
    exact unit_small c hc).append h

theorem quote_encodable (s : JsString) : Encodable (Json.quote s) := by
  have hall : ∀ cs : List ℕ, (∀ c ∈ cs, c < 0x110000) → Encodable (cs.flatMap Json.escape) := by
    intro cs
    induction cs with
    | nil => intro _; exact ⟨[], rfl, by simp⟩
    | cons c rest ih =>
        intro h
        rw [List.flatMap_cons]
        exact (escape_spec (h c (by simp))).1.append (ih fun d hd => h d (by simp [hd]))
  exact encodable_cons '"' (by decide) ((hall _ (codePoints_lt s)).append
    (encodable_cons '"' (by decide) ⟨[], rfl, by simp⟩))

open NumberText in
theorem numberText_encodable (d : Decimal) : Encodable (numberText d) := by
  have hdigits : ∀ ds : List ℕ, (∀ x ∈ ds, x < 10) → Encodable (ds.map digitUnit) := by
    intro ds hds
    refine encodable_small fun u hu => ?_
    obtain ⟨x, hx, rfl⟩ := List.mem_map.mp hu
    have hlt := hds x hx
    have hval : (digitUnit x).val = 0x30 + x := Nat.mod_eq_of_lt (by omega)
    omega
  have hnil : Encodable [] := ⟨[], rfl, by simp⟩
  have hform := literalOf_wellFormed d
  unfold numberText Literal.text
  refine ((Encodable.append ?_ (hdigits _ hform.whole_lt)).append ?_).append ?_
  · split
    · exact encodable_cons '-' (by decide) hnil
    · exact hnil
  · unfold Literal.fractionText
    split
    · exact hnil
    · exact encodable_cons '.' (by decide) (hdigits _ hform.frac_lt)
  · unfold Literal.exponentText
    cases (literalOf d).exp with
    | none => exact hnil
    | some e =>
        refine encodable_cons 'e' (by decide) ?_
        split
        · exact encodable_cons '-' (by decide) (hdigits _ (digitsOf_lt _))
        · exact encodable_cons '+' (by decide) (hdigits _ (digitsOf_lt _))

theorem word_encodable (w : String) (h : w.toList.all (fun c => Nat.blt c.toNat 0xD800) = true) :
    Encodable (js w) := encodable_small (js_small h)

mutual
/-- **A JSON text has no lone surrogate.** -/
theorem stringify_encodable : ∀ v : Json, Encodable (Json.stringify v)
  | .null => word_encodable _ rfl
  | .bool true => word_encodable _ rfl
  | .bool false => word_encodable _ rfl
  | .num (.finite d) => numberText_encodable d
  | .num .nan => word_encodable "null" rfl
  | .num .posInfinity => word_encodable "null" rfl
  | .num .negInfinity => word_encodable "null" rfl
  | .str s => quote_encodable s
  | .arr vs => encodable_cons '[' (by decide) (items_encodable vs)
  | .obj ms => encodable_cons '{' (by decide) (members_encodable ms)

theorem items_encodable : ∀ vs : List Json, Encodable (Json.items vs)
  | [] => encodable_cons ']' (by decide) ⟨[], rfl, by simp⟩
  | v :: vs => (stringify_encodable v).append (moreItems_encodable vs)

theorem moreItems_encodable : ∀ vs : List Json, Encodable (Json.moreItems vs)
  | [] => encodable_cons ']' (by decide) ⟨[], rfl, by simp⟩
  | v :: vs => encodable_cons ',' (by decide)
      ((stringify_encodable v).append (moreItems_encodable vs))

theorem members_encodable : ∀ ms : List (JsString × Json), Encodable (Json.members ms)
  | [] => encodable_cons '}' (by decide) ⟨[], rfl, by simp⟩
  | (k, v) :: ms => (quote_encodable k).append (encodable_cons ':' (by decide)
      ((stringify_encodable v).append (moreMembers_encodable ms)))

theorem moreMembers_encodable : ∀ ms : List (JsString × Json), Encodable (Json.moreMembers ms)
  | [] => encodable_cons '}' (by decide) ⟨[], rfl, by simp⟩
  | (k, v) :: ms => encodable_cons ',' (by decide) ((quote_encodable k).append
      (encodable_cons ':' (by decide) ((stringify_encodable v).append (moreMembers_encodable ms))))
end

/-! ### The size of an object -/

theorem byteLength_unit (c : Char) (hc : c.toNat < 0x80) (s : JsString) :
    byteLength (unit c :: s) = 1 + byteLength s := by
  have hval : (unit c).val = c.toNat := Nat.mod_eq_of_lt (by omega)
  have hhigh : isHigh (unit c) = false := by
    simp only [isHigh, Bool.and_eq_false_iff, decide_eq_false_iff_not]
    omega
  rw [byteLength_eq, byteLength_eq, codePoints_cons hhigh, pointsSize_cons, hval]
  simp [utf8Size, hc]

/-- The bytes of a member, with what sets it off from its neighbours. -/
def memberBytes (m : JsString × Json) : ℕ :=
  byteLength (Json.quote m.1) + jsonBytes m.2 + 2

theorem byteLength_moreMembers_eq (ms : List (JsString × Json)) :
    byteLength (Json.moreMembers ms) = 1 + (ms.map memberBytes).sum := by
  induction ms with
  | nil => rfl
  | cons m rest ih =>
      rw [Json.moreMembers, byteLength_unit ',' (by decide),
        (quote_encodable m.1).byteLength_append, byteLength_unit ':' (by decide),
        (stringify_encodable m.2).byteLength_append, ih, List.map_cons, List.sum_cons,
        memberBytes, jsonBytes]
      omega

/-- **An object takes its braces and its members**, and a comma less than they have. -/
theorem jsonBytes_obj (ms : List (JsString × Json)) :
    jsonBytes (.obj ms) = 1 + max 1 (ms.map memberBytes).sum := by
  unfold jsonBytes
  rw [Json.stringify, byteLength_unit '{' (by decide)]
  cases ms with
  | nil => rfl
  | cons m rest =>
      rw [Json.members, (quote_encodable m.1).byteLength_append, byteLength_unit ':' (by decide),
        (stringify_encodable m.2).byteLength_append, byteLength_moreMembers_eq, List.map_cons,
        List.sum_cons, memberBytes, jsonBytes]
      omega

/-- Fewer members take no more bytes. -/
theorem jsonBytes_subperm {ms ns : List (JsString × Json)} (h : ms.Subperm ns) :
    jsonBytes (.obj ms) ≤ jsonBytes (.obj ns) := by
  obtain ⟨os, hperm, hsub⟩ := h
  have hsum : (ms.map memberBytes).sum = (os.map memberBytes).sum :=
    ((hperm.map memberBytes).sum_eq).symm
  have hle : (os.map memberBytes).sum ≤ (ns.map memberBytes).sum :=
    (hsub.map memberBytes).sum_le_sum fun n _ => Nat.zero_le n
  rw [jsonBytes_obj, jsonBytes_obj, hsum]
  exact Nat.add_le_add_left (max_le_max le_rfl hle) 1

end Kaiban
