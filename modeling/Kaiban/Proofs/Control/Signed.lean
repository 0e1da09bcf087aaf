/-
What a signature on the channel, and on the saved stop, is worth.

HMAC-SHA256 is idealised in the usual way.  The holders of the secret have signed some
texts; whoever shows a signature of a text has it from a holder (`unforged`), and no other
text has the signature of one of theirs (`injective`).  Both readers check the signature of
a text they write again from what they parsed, so a value they accept is one whose text a
holder signed.  A body begins with a number and a saved text with its domain, so neither
signature passes for the other.
-/
import Kaiban.Proofs.Control.Saved

open JsString

namespace Kaiban

variable {sg : Signing}

/-! ### What was signed -/

/-- What the holders of the secret have signed. -/
structure Holders where
  /-- The payloads given to `wrapSigned`, each with the time of its envelope. -/
  wrapped : List (ℕ × Json)
  /-- The commands given to `sealStopCommand`. -/
  sealedCommands : List StopAllCommand

/-- A holder signed the text. -/
def Holders.Signed (h : Holders) (text : JsString) : Prop :=
  (∃ e ∈ h.wrapped, text = envelopeBody (JsNumber.ofInt e.1) e.2) ∨
    ∃ cmd ∈ h.sealedCommands, text = savedSignatureDomain ++ cmd.canonical

/-- The bytes of the signature that a text shows. -/
def shownSignature (raw : JsString) : Option (List Byte) :=
  match Json.parse raw with
  | some (.obj ms) => (textMember ms (js "sig")).map hexBytes
  | _ => none

/-- No other text has the signature of a text that a holder signed. -/
def Injective (sg : Signing) (h : Holders) : Prop :=
  ∀ text, h.Signed text → ∀ other, sg.hmac sg.secret text = sg.hmac sg.secret other → text = other

/-- A signature that the text shows was made by a holder. -/
def Unforged (sg : Signing) (h : Holders) (raw : JsString) : Prop :=
  ∀ text, shownSignature raw = some (sg.hmac sg.secret text) →
    ∃ own, h.Signed own ∧ sg.hmac sg.secret own = sg.hmac sg.secret text

theorem signed_of_shown {h : Holders} {raw text : JsString} (hinjective : Injective sg h)
    (hunforged : Unforged sg h raw)
    (hshown : shownSignature raw = some (sg.hmac sg.secret text)) : h.Signed text := by
  obtain ⟨own, hown, hsame⟩ := hunforged text hshown
  rw [← hinjective own hown text hsame]
  exact hown

/-! ### The two formats -/

/-- A body begins with no letter of the domain. -/
theorem numberText_head_ne (n : JsNumber) : ∃ u rest, n.text = u :: rest ∧ u ≠ unit 'k' := by
  cases n with
  | finite d =>
      obtain ⟨u, rest, hu, hhead⟩ := Json.numberText_head d
      refine ⟨u, rest, hu, ?_⟩
      rcases hhead with hdigit | rfl
      · rintro rfl
        exact absurd hdigit (by decide)
      · decide
  | nan => exact ⟨unit 'N', _, rfl, by decide⟩
  | posInfinity => exact ⟨unit 'I', _, rfl, by decide⟩
  | negInfinity => exact ⟨unit '-', _, rfl, by decide⟩

/-- **No body of an envelope is the text of a saved signature.** -/
theorem envelopeBody_ne_saved (ts : JsNumber) (payload : Json) (canonical : JsString) :
    envelopeBody ts payload ≠ savedSignatureDomain ++ canonical := by
  intro h
  obtain ⟨u, rest, htext, hne⟩ := numberText_head_ne ts
  unfold envelopeBody at h
  rw [htext] at h
  exact hne (List.cons.inj h).1

/-- The text of a command says which command it is. -/
theorem canonical_injective {cmd other : StopAllCommand} (h : cmd.canonical = other.canonical) :
    cmd = other := by
  have hmembers : Json.obj cmd.members = .obj other.members := by
    refine Option.some.inj ?_
    rw [← parse_canonical, ← parse_canonical, h]
  have hparse := parseStopAllCommand_members cmd
  rw [hmembers, parseStopAllCommand_members] at hparse
  exact (Option.some.inj hparse).symm

/-! ### What the readers accept -/

theorem textMember_ordered (ms : List (JsString × Json)) (k : JsString) :
    textMember (Json.propertyOrder (Json.orderedMembers ms)) k = textMember ms k := by
  unfold textMember
  rw [Json.get_ordered]
  cases Json.get ms k with
  | none => rfl
  | some v => cases v <;> rfl

/-- The time of the envelope in a text. -/
def EnvelopeTime (raw : JsString) (ts : JsNumber) : Prop :=
  ∃ ms, Json.parse raw = some (.obj ms) ∧ Json.get ms (js "ts") = some (.num ts)

/-- The signature and the time of an envelope are members of the text. -/
theorem envelope_members {v payload : Json} {sig : JsString} {ts : JsNumber}
    (h : envelope v.ordered = some (payload, sig, ts)) :
    ∃ ms, v = .obj ms ∧ textMember ms (js "sig") = some sig ∧
      Json.get ms (js "ts") = some (.num ts) := by
  cases v with
  | obj ms =>
      refine ⟨ms, rfl, ?_⟩
      unfold Json.ordered envelope at h
      dsimp only at h
      rw [textMember_ordered, Json.get_ordered ms (js "ts")] at h
      split at h
      case h_2 => exact absurd h (by simp)
      case h_1 payload' sig' ts' hpayload hsig hts =>
        split at h
        case isFalse => exact absurd h (by simp)
        case isTrue =>
          obtain ⟨-, hrest⟩ := Prod.mk.inj (Option.some.inj h)
          obtain ⟨rfl, rfl⟩ := Prod.mk.inj hrest
          obtain ⟨n, hn, hnum⟩ := Option.map_eq_some_iff.mp hts
          refine ⟨hsig, ?_⟩
          rw [hn]
          cases n <;> simp [Json.ordered] at hnum ⊢
          exact hnum
  | null => exact absurd h (by simp [Json.ordered, envelope])
  | bool b => exact absurd h (by simp [Json.ordered, envelope])
  | num n => exact absurd h (by simp [Json.ordered, envelope])
  | str t => exact absurd h (by simp [Json.ordered, envelope])
  | arr vs => exact absurd h (by simp [Json.ordered, envelope])

/-- What an envelope has to be for its payload to be taken. -/
theorem unwrap_cases {fresh : Freshness} {raw : JsString} {payload : Json}
    (hsecret : sg.secret ≠ []) (h : unwrapVerified sg fresh raw = some payload) :
    ∃ ts, EnvelopeTime raw ts ∧ stale fresh ts = false ∧
      shownSignature raw = some (sg.hmac sg.secret (envelopeBody ts payload)) := by
  unfold unwrapVerified at h
  rw [if_neg hsecret] at h
  split at h
  case h_2 => exact absurd h (by simp)
  case h_1 found sig ts henvelope =>
    split at h
    · exact absurd h (by simp)
    rename_i hfresh
    split at h
    case isFalse => exact absurd h (by simp)
    case isTrue hmac =>
      obtain rfl := Option.some.inj h
      obtain ⟨v, hv, henvelope⟩ := Option.bind_eq_some_iff.mp henvelope
      obtain ⟨w, hw, rfl⟩ := Option.map_eq_some_iff.mp hv
      obtain ⟨ms, rfl, hsig, hts⟩ := envelope_members henvelope
      refine ⟨ts, ⟨ms, hw, hts⟩, by simpa using hfresh, ?_⟩
      unfold shownSignature
      rw [hw]
      dsimp only
      rw [hsig, hmac]
      rfl

/-- What a saved value shows when a command is opened from it. -/
theorem shown_of_open {raw : JsString} {cmd : StopAllCommand} (hsecret : sg.secret ≠ [])
    (h : openSavedStopCommand sg raw = some cmd) :
    shownSignature raw = some (sg.hmac sg.secret (savedSignatureDomain ++ cmd.canonical)) := by
  obtain ⟨ms, hms, -, hsig⟩ := open_cases h
  obtain ⟨sig, hsig, hsame⟩ := hsig hsecret
  unfold sameHex savedSignature at hsame
  rw [hexBytes_hexText] at hsame
  have hbytes := (of_decide_eq_true hsame).1
  unfold shownSignature
  rw [hms]
  dsimp only
  rw [hsig, Option.map_some, hbytes]

/-! ### The channel -/

theorem readAs_perm {ms : List (JsString × Json)} {cmd : StopAllCommand}
    (h : ms.Perm cmd.members) : ReadAs ms cmd := by
  have hnodup : (cmd.members.map Prod.fst).Nodup := by
    unfold StopAllCommand.members
    cases cmd.reason with
    | none =>
        show [js "commandId", js "command", js "issuedBy", js "issuedAt"].Nodup
        decide
    | some r =>
        show [js "commandId", js "command", js "issuedBy", js "issuedAt", js "reason"].Nodup
        decide
  have hread := readAs_members cmd
  have hget := Json.get_perm h hnodup
  refine ⟨fun m hm => hread.names m (h.mem_iff.mp hm), ?_, ?_, ?_, ?_, ?_⟩
  · rw [← hread.command]
    unfold textMember
    rw [hget]
  · rw [← hread.commandId]
    unfold textMember
    rw [hget]
  · rw [← hread.issuedBy]
    unfold textMember
    rw [hget]
  · rw [← hread.issuedAt]
    unfold momentMember
    rw [hget]
  · rw [← hread.reason]
    unfold optionalMember
    rw [hget]

/-- What is accepted of a text comes from the holders. -/
structure Authentic (sg : Signing) (h : Holders) (raw : JsString) : Prop where
  envelopes : ∀ fresh payload, unwrapVerified sg fresh raw = some payload →
    ∃ ts, EnvelopeTime raw ts ∧
      (∃ e ∈ h.wrapped, envelopeBody ts payload = envelopeBody (JsNumber.ofInt e.1) e.2) ∧
      ∀ now maxSkew, fresh = some (now, maxSkew) →
        ∃ t, ts = .finite t ∧ |Decimal.ofInt now - t| ≤ maxSkew
  commands : ∀ cmd, openSavedStopCommand sg raw = some cmd → cmd ∈ h.sealedCommands

/-- A text that shows a signature of one format is not accepted as the other. -/
structure Separate (sg : Signing) (h : Holders) (raw : JsString) : Prop where
  sealedOnly : ∀ cmd ∈ h.sealedCommands,
    shownSignature raw = some (sg.hmac sg.secret (savedSignatureDomain ++ cmd.canonical)) →
    ∀ fresh, unwrapVerified sg fresh raw = none
  wrappedOnly : ∀ e ∈ h.wrapped,
    shownSignature raw
      = some (sg.hmac sg.secret (envelopeBody (JsNumber.ofInt e.1) e.2)) →
    openSavedStopCommand sg raw = none

theorem authentic_of_ideal {h : Holders} {raw : JsString} (hsecret : sg.secret ≠ [])
    (hinjective : Injective sg h) (hunforged : Unforged sg h raw) : Authentic sg h raw := by
  refine ⟨fun fresh payload haccepted => ?_, fun cmd haccepted => ?_⟩
  · obtain ⟨ts, htime, hfresh, hshown⟩ := unwrap_cases hsecret haccepted
    rcases signed_of_shown hinjective hunforged hshown with ⟨e, he, hbody⟩ | ⟨cmd, -, hbody⟩
    · refine ⟨ts, htime, ⟨e, he, hbody⟩, ?_⟩
      rintro now maxSkew rfl
      cases ts with
      | finite t =>
          refine ⟨t, rfl, ?_⟩
          unfold stale at hfresh
          simpa using hfresh
      | posInfinity => exact absurd hfresh (by simp [stale])
      | negInfinity => exact absurd hfresh (by simp [stale])
      | nan =>
          -- the body of a holder begins with a digit
          obtain ⟨u, rest, hu, hhead⟩ := Json.numberText_head (Decimal.ofInt e.1)
          have htext : unit 'N' = u := by
            unfold envelopeBody at hbody
            rw [show (JsNumber.ofInt e.1).text = u :: rest from hu] at hbody
            exact (List.cons.inj hbody).1
          subst htext
          rcases hhead with hdigit | hminus
          · exact absurd hdigit (by decide)
          · exact absurd hminus (by decide)
    · exact absurd hbody (envelopeBody_ne_saved _ _ _)
  · have hshown := shown_of_open hsecret haccepted
    rcases signed_of_shown hinjective hunforged hshown with ⟨e, -, hbody⟩ | ⟨own, hown, htext⟩
    · exact absurd hbody.symm (envelopeBody_ne_saved _ _ _)
    · rw [canonical_injective (List.append_cancel_left htext)]
      exact hown

theorem separate_of_injective {h : Holders} (hsecret : sg.secret ≠ [])
    (hinjective : Injective sg h) (raw : JsString) : Separate sg h raw := by
  refine ⟨fun cmd hcmd hshown fresh => ?_, fun e he hshown => ?_⟩
  · cases haccepted : unwrapVerified sg fresh raw with
    | none => rfl
    | some payload =>
        obtain ⟨ts, -, -, hbody⟩ := unwrap_cases hsecret haccepted
        have hsame := Option.some.inj (hshown.symm.trans hbody)
        exact absurd (hinjective _ (.inr ⟨cmd, hcmd, rfl⟩) _ hsame).symm
          (envelopeBody_ne_saved _ _ _)
  · cases haccepted : openSavedStopCommand sg raw with
    | none => rfl
    | some cmd =>
        have hsame := Option.some.inj (hshown.symm.trans (shown_of_open hsecret haccepted))
        exact absurd (hinjective _ (.inl ⟨e, he, rfl⟩) _ hsame) (envelopeBody_ne_saved _ _ _)

/-- **With a secret, what is written is read back, what is accepted was signed by a holder,
and neither kind of signature passes for the other.** -/
theorem signed_channel (sg : Signing) (hsecret : sg.secret ≠ []) :
    (∀ fresh (ts : ℕ) ms, Json.ordered (.obj ms) = .obj ms →
      stale fresh (JsNumber.ofInt ts) = false →
      unwrapVerified sg fresh (wrapSigned sg ts (.obj ms)) = some (Json.printed (.obj ms))) ∧
    (∀ (cmd : StopAllCommand) ms, ms.Perm cmd.members →
      (sealMembers sg ms).bind (openSavedStopCommand sg) = some cmd) ∧
    (∀ h raw, Injective sg h → Unforged sg h raw → Authentic sg h raw) ∧
    ∀ h raw, Injective sg h → Separate sg h raw := by
  refine ⟨fun fresh ts ms hordered hfresh => unwrapVerified_wrapSigned hordered hfresh,
    fun cmd ms hperm => ?_, fun h raw hinjective hunforged => ?_, fun h raw hinjective => ?_⟩
  · unfold sealMembers
    rw [parse_of_readAs (readAs_perm hperm), Option.map_some, Option.bind_some]
    exact openSavedStopCommand_seal cmd
  · exact authentic_of_ideal hsecret hinjective hunforged
  · exact separate_of_injective hsecret hinjective raw

/-! ### A signature that tells one text from all others -/

theorem shownSignature_wrapSigned (hsecret : sg.secret ≠ []) (ts : ℕ)
    (ms : List (JsString × Json)) : shownSignature (wrapSigned sg ts (.obj ms))
      = some (sg.hmac sg.secret (envelopeBody (JsNumber.ofInt ts) (.obj ms))) := by
  unfold shownSignature wrapSigned
  rw [if_neg hsecret, Json.parse_stringify]
  show some (hexBytes (hexText _)) = _
  rw [hexBytes_hexText]

/-- What the holders of the key have signed: a payload with a member, and a stop. -/
def holdersPayload : List (JsString × Json) := [(js "taskId", .str (js "task-1"))]

def holdersStop : StopAllCommand := stopAt 7 (by decide)

def holders : Holders := ⟨[(1, .obj holdersPayload)], [holdersStop]⟩

def holdersBody : JsString := envelopeBody (JsNumber.ofInt 1) (.obj holdersPayload)

def holdersSealed : JsString := savedSignatureDomain ++ holdersStop.canonical

/-- The holders' key, under which each of their texts has a signature of its own. -/
def holdersSigning : Signing where
  secret := js "secret"
  hmac := fun _ text =>
    List.replicate 32 (if text = holdersBody then 1 else if text = holdersSealed then 2 else 0)
  hmac_length := fun _ _ => List.length_replicate

theorem holders_signed {text : JsString} (h : holders.Signed text) :
    text = holdersBody ∨ text = holdersSealed := by
  rcases h with ⟨e, he, rfl⟩ | ⟨cmd, hcmd, rfl⟩
  · rw [List.mem_singleton.mp he]
    exact .inl rfl
  · rw [List.mem_singleton.mp hcmd]
    exact .inr rfl

theorem holders_injective : Injective holdersSigning holders := by
  have hne : holdersSealed ≠ holdersBody := (envelopeBody_ne_saved _ _ _).symm
  have hbyte : ∀ {a b : Byte}, List.replicate 32 a = List.replicate 32 b → a = b := by
    intro a b h
    exact (List.cons.inj h).1
  intro text htext other hsame
  have hmark := hbyte hsame
  rcases holders_signed htext with rfl | rfl
  · rw [if_pos rfl] at hmark
    by_contra hother
    rw [if_neg (Ne.symm hother)] at hmark
    split at hmark <;> exact absurd hmark (by decide)
  · rw [if_neg hne, if_pos rfl] at hmark
    by_contra hother
    rw [if_neg (Ne.symm hother)] at hmark
    split at hmark <;> exact absurd hmark (by decide)

theorem unforged_of_signed {h : Holders} {raw own : JsString} (hown : h.Signed own)
    (hshown : shownSignature raw = some (sg.hmac sg.secret own)) : Unforged sg h raw :=
  fun _ htext => ⟨own, hown, Option.some.inj (hshown.symm.trans htext)⟩

/-- A payload goes through the channel and a stop through the store, only their holders can
have sent them, and neither passes for the other. -/
theorem signed_channel_holders :
    unwrapVerified holdersSigning (some (1, Decimal.ofInt 30000))
        (wrapSigned holdersSigning 1 (.obj holdersPayload)) = some (.obj holdersPayload) ∧
      (sealMembers holdersSigning holdersStop.members).bind (openSavedStopCommand holdersSigning)
        = some holdersStop ∧
      (Authentic holdersSigning holders (wrapSigned holdersSigning 1 (.obj holdersPayload)) ∧
        Separate holdersSigning holders (wrapSigned holdersSigning 1 (.obj holdersPayload))) ∧
      Authentic holdersSigning holders (sealStopCommand holdersSigning holdersStop) ∧
        Separate holdersSigning holders (sealStopCommand holdersSigning holdersStop) := by
  have hsecret : holdersSigning.secret ≠ [] := by decide
  have hwrapped : Unforged holdersSigning holders
      (wrapSigned holdersSigning 1 (.obj holdersPayload)) :=
    unforged_of_signed (.inl ⟨(1, .obj holdersPayload), by simp [holders], rfl⟩)
      (shownSignature_wrapSigned hsecret 1 holdersPayload)
  have hsealed : Unforged holdersSigning holders (sealStopCommand holdersSigning holdersStop) :=
    unforged_of_signed (.inr ⟨holdersStop, by simp [holders], rfl⟩)
      (shown_of_open hsecret (openSavedStopCommand_seal holdersStop))
  obtain ⟨hround, hopened, hauthentic, hseparate⟩ := signed_channel holdersSigning hsecret
  exact ⟨hround _ 1 holdersPayload rfl (by decide +kernel), hopened holdersStop _ (.refl _),
    ⟨hauthentic _ _ holders_injective hwrapped, hseparate _ _ holders_injective⟩,
    hauthentic _ _ holders_injective hsealed, hseparate _ _ holders_injective⟩

end Kaiban
