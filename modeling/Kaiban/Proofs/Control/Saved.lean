/-
A saved stop is what is read back, unless the script keeps a value the reader refuses.

A sealed command opens to itself and a published one is received as itself: the JSON text
gives back the members, the members the command, and the signature is over the same text.
So a save that goes through is read back.  When the script keeps the value that is there,
the reader may refuse it, and then no stop is read at all.
-/
import Kaiban.Control
import Kaiban.Lib.Json.RoundTrip

open JsString

namespace Kaiban

variable {sg : Signing}

/-! ### Hex -/

theorem hexValue_hexUnit : ∀ d < 16, Json.hexValue (Json.hexUnit d) = some d := by decide

theorem hexBytes_hexText (bs : List Byte) : hexBytes (hexText bs) = bs := by
  induction bs with
  | nil => rfl
  | cons b rest ih =>
      have hhigh := hexValue_hexUnit (b.val / 16) (by omega)
      have hlow := hexValue_hexUnit (b.val % 16) (by omega)
      show hexBytes (Json.hexUnit (b.val / 16) :: Json.hexUnit (b.val % 16) :: hexText rest) = _
      unfold hexBytes
      rw [hhigh, hlow]
      dsimp only
      rw [ih, Nat.div_add_mod]
      congr 1
      exact Fin.ext (Nat.mod_eq_of_lt b.isLt)

theorem sameHex_self {key text : JsString} :
    sameHex (hexText (sg.hmac key text)) (hexText (sg.hmac key text)) = true := by
  have hne : sg.hmac key text ≠ [] := by
    intro h
    have hlen := sg.hmac_length key text
    rw [h] at hlen
    exact absurd hlen (by simp)
  unfold sameHex
  rw [hexBytes_hexText]
  simp [hne]

/-! ### Commands -/

theorem momentMember_ofInt {ms : List (JsString × Json)} {k : JsString} {n : ℕ} (hn : 0 < n)
    (h : Json.get ms k = some (.num (JsNumber.ofInt n))) : momentMember ms k = some n := by
  unfold momentMember
  rw [h]
  show (if (Decimal.ofInt n : ℚ).den = 1 ∧ 0 < (Decimal.ofInt n : ℚ).num then
    some (Decimal.ofInt n : ℚ).num.toNat else none) = some n
  rw [Decimal.coe_ofInt, Int.cast_natCast, if_pos ⟨Rat.den_natCast n, by simpa using hn⟩]
  simp

/-- What some members have to be for a command to be read from them. -/
structure ReadAs (ms : List (JsString × Json)) (cmd : StopAllCommand) : Prop where
  names : ∀ m ∈ ms, m.1 ∈ commandFields
  command : textMember ms (js "command") = some (js "STOP_ALL")
  commandId : textMember ms (js "commandId") = some cmd.commandId
  issuedBy : textMember ms (js "issuedBy") = some cmd.issuedBy
  issuedAt : momentMember ms (js "issuedAt") = some cmd.issuedAt
  reason : optionalMember ms (js "reason") = some cmd.reason

theorem readAs_of_parse {ms : List (JsString × Json)} {cmd : StopAllCommand}
    (h : parseStopAllCommand (.obj ms) = some cmd) : ReadAs ms cmd := by
  unfold parseStopAllCommand at h
  dsimp only at h
  split at h
  · rename_i hnames
    split at h
    · rename_i hid hby hat hreason
      split at h
      · obtain rfl := Option.some.inj h
        exact ⟨fun m hm => by simpa using List.all_eq_true.mp hnames.1 m hm, hnames.2, hid, hby,
          hat, hreason⟩
      · exact absurd h (by simp)
    · exact absurd h (by simp)
  · exact absurd h (by simp)

/-- A command is read from all members that stand for it. -/
theorem parse_of_readAs {ms : List (JsString × Json)} {cmd : StopAllCommand} (h : ReadAs ms cmd) :
    parseStopAllCommand (.obj ms) = some cmd := by
  have hnames : (ms.all fun m => m.1 ∈ commandFields) = true ∧
      textMember ms (js "command") = some (js "STOP_ALL") :=
    ⟨List.all_eq_true.mpr fun m hm => decide_eq_true (h.names m hm), h.command⟩
  unfold parseStopAllCommand
  dsimp only
  rw [if_pos hnames, h.commandId, h.issuedBy, h.issuedAt, h.reason]
  exact dif_pos ⟨cmd.commandId_size, cmd.issuedBy_size, cmd.issuedAt_safe, cmd.reason_size⟩

theorem readAs_members (cmd : StopAllCommand) : ReadAs cmd.members cmd := by
  have hnames : (cmd.members.all fun m => m.1 ∈ commandFields) = true := by
    unfold StopAllCommand.members
    cases cmd.reason <;> rfl
  refine ⟨fun m hm => of_decide_eq_true (List.all_eq_true.mp hnames m hm), ?_, ?_, ?_, ?_, ?_⟩
  · unfold StopAllCommand.members
    cases cmd.reason <;> rfl
  · unfold StopAllCommand.members
    cases cmd.reason <;> rfl
  · unfold StopAllCommand.members
    cases cmd.reason <;> rfl
  · refine momentMember_ofInt cmd.issuedAt_safe.1 ?_
    unfold StopAllCommand.members
    cases cmd.reason <;> rfl
  · unfold StopAllCommand.members
    cases cmd.reason <;> rfl

/-- **The members of a command are read as the command.** -/
theorem parseStopAllCommand_members (cmd : StopAllCommand) :
    parseStopAllCommand (.obj cmd.members) = some cmd := parse_of_readAs (readAs_members cmd)

theorem printed_members (cmd : StopAllCommand) :
    Json.printed (.obj cmd.members) = .obj cmd.members := by
  unfold StopAllCommand.members
  cases cmd.reason <;> rfl

theorem parse_canonical (cmd : StopAllCommand) :
    Json.parse cmd.canonical = some (.obj cmd.members) := by
  unfold StopAllCommand.canonical
  rw [Json.parse_stringify, printed_members]

theorem parse_sealed (cmd : StopAllCommand) :
    Json.parse (Json.stringify (.obj (sealedMembers sg cmd)))
      = some (.obj (sealedMembers sg cmd)) := by
  rw [Json.parse_stringify]
  unfold sealedMembers StopAllCommand.members
  cases cmd.reason <;> rfl

theorem filter_sealed (cmd : StopAllCommand) :
    (sealedMembers sg cmd).filter (fun m => m.1 ≠ js "sig") = cmd.members := by
  unfold sealedMembers StopAllCommand.members
  cases cmd.reason <;> rfl

theorem filter_members (cmd : StopAllCommand) :
    cmd.members.filter (fun m => m.1 ≠ js "sig") = cmd.members := by
  unfold StopAllCommand.members
  cases cmd.reason <;> rfl

theorem textMember_sealed (cmd : StopAllCommand) :
    textMember (sealedMembers sg cmd) (js "sig") = some (savedSignature sg cmd.canonical) := by
  unfold sealedMembers textMember
  rw [Json.get_append]
  rfl

/-- **A sealed command opens to itself.** -/
theorem openSavedStopCommand_seal (cmd : StopAllCommand) :
    openSavedStopCommand sg (sealStopCommand sg cmd) = some cmd := by
  unfold openSavedStopCommand sealStopCommand
  by_cases hsecret : sg.secret = []
  · simp only [if_pos hsecret, parse_canonical, filter_members, parseStopAllCommand_members]
  · simp only [if_neg hsecret, parse_sealed, filter_sealed, parseStopAllCommand_members,
      textMember_sealed]
    exact if_pos sameHex_self

theorem ordered_members (cmd : StopAllCommand) :
    Json.ordered (.obj cmd.members) = .obj cmd.members := by
  unfold StopAllCommand.members
  cases cmd.reason <;> rfl

/-- **A payload is received as it was written, while its envelope is fresh.** -/
theorem unwrapVerified_wrapSigned {fresh : Freshness} {ts : ℕ} {ms : List (JsString × Json)}
    (hordered : Json.ordered (.obj ms) = .obj ms)
    (hfresh : stale fresh (JsNumber.ofInt ts) = false) :
    unwrapVerified sg fresh (wrapSigned sg ts (.obj ms)) = some (Json.printed (.obj ms)) := by
  have hread : Json.ordered (Json.printed (.obj ms)) = Json.printed (.obj ms) := by
    rw [Json.ordered_printed, hordered]
  unfold unwrapVerified wrapSigned parseJson
  by_cases hsecret : sg.secret = []
  · rw [if_pos hsecret, if_pos hsecret, Json.parse_stringify, Option.map_some, hread]
  · rw [if_neg hsecret, if_neg hsecret, Json.parse_stringify, Option.map_some, Option.bind_some]
    set sig := hexText (sg.hmac sg.secret (envelopeBody (JsNumber.ofInt ts) (.obj ms))) with hsig
    have henvelope : envelope (Json.ordered (Json.printed (.obj [(js "payload", .obj ms),
          (js "sig", .str sig), (js "ts", .num (JsNumber.ofInt ts))])))
        = some (Json.ordered (Json.printed (.obj ms)), sig, JsNumber.ofInt ts) := rfl
    rw [henvelope, hread]
    dsimp only
    rw [if_neg (by rw [hfresh]; simp), if_pos]
    rw [hsig, hexBytes_hexText]
    unfold envelopeBody
    rw [Json.stringify_printed]

/-- **A published command is received as itself.** -/
theorem commandOfMessage_published (ts : ℕ) (cmd : StopAllCommand) :
    commandOfMessage sg (publishedStop sg ts cmd) = some cmd := by
  unfold commandOfMessage publishedStop
  rw [unwrapVerified_wrapSigned (ordered_members cmd) rfl, printed_members, Option.bind_some]
  exact parseStopAllCommand_members cmd

/-! ### What the script sees -/

theorem get_of_momentMember {ms : List (JsString × Json)} {k : JsString} {n : ℕ}
    (h : momentMember ms k = some n) : Json.get ms k = some (.num (JsNumber.ofInt n)) := by
  unfold momentMember at h
  split at h
  · rename_i d hget
    split at h
    · rename_i hd
      obtain rfl := Option.some.inj h
      rw [hget]
      have hvalue : d = Decimal.ofInt ((d : ℚ).num.toNat : ℤ) := by
        refine Subtype.ext ?_
        show (d : ℚ) = (Decimal.ofInt ((d : ℚ).num.toNat : ℤ) : ℚ)
        rw [Decimal.coe_ofInt, Int.toNat_of_nonneg (le_of_lt hd.2)]
        exact (Rat.coe_int_num_of_den_eq_one hd.1).symm
      show some (Json.num (.finite d)) = some (.num (.finite _))
      rw [← hvalue]
    · exact absurd h (by simp)
  · exact absurd h (by simp)

theorem get_filter_ne {ms : List (JsString × Json)} {k sig : JsString} (h : k ≠ sig) :
    Json.get (ms.filter fun m => m.1 ≠ sig) k = Json.get ms k := by
  unfold Json.get
  rw [← List.filter_reverse, List.find?_filter]
  congr 2
  funext m
  by_cases hm : m.1 = k
  · simp [hm, h]
  · simp [hm]

theorem atLeast_ofInt {m n : ℕ} :
    atLeast (JsNumber.ofInt m) (JsNumber.ofInt n) = true ↔ n ≤ m := by
  show decide (Decimal.ofInt n ≤ Decimal.ofInt m) = true ↔ n ≤ m
  rw [decide_eq_true_iff]
  show ((Decimal.ofInt n : ℚ) ≤ (Decimal.ofInt m : ℚ)) ↔ n ≤ m
  rw [Decimal.coe_ofInt, Decimal.coe_ofInt]
  exact_mod_cast Iff.rfl

/-- What a saved value has to be for a command to be opened from it. -/
theorem open_cases {raw : JsString} {cmd : StopAllCommand}
    (h : openSavedStopCommand sg raw = some cmd) :
    ∃ ms, Json.parse raw = some (.obj ms) ∧
      parseStopAllCommand (.obj (ms.filter fun m => m.1 ≠ js "sig")) = some cmd ∧
      (sg.secret ≠ [] → ∃ sig, textMember ms (js "sig") = some sig ∧
        sameHex sig (savedSignature sg cmd.canonical) = true) := by
  unfold openSavedStopCommand at h
  split at h
  · rename_i ms hms
    refine ⟨ms, hms, ?_⟩
    split at h
    · exact absurd h (by simp)
    · rename_i found hfound
      rw [hfound]
      split at h
      · rename_i hsecret
        obtain rfl := Option.some.inj h
        exact ⟨rfl, fun hne => absurd hsecret hne⟩
      · split at h
        · exact absurd h (by simp)
        · rename_i sig hsig
          split at h
          · rename_i hsame
            obtain rfl := Option.some.inj h
            exact ⟨rfl, fun _ => ⟨sig, hsig, hsame⟩⟩
          · exact absurd h (by simp)
  · exact absurd h (by simp)

/-- The script finds, in a value the reader accepts, the moment the reader finds. -/
theorem savedMoment_of_open {lua : Lua} {current : JsString} {cmd : StopAllCommand}
    (hopen : openSavedStopCommand sg current = some cmd) {n : JsNumber}
    (hmoment : savedMoment lua current = some n) : n = JsNumber.ofInt cmd.issuedAt := by
  obtain ⟨ms, hms, hcmd, -⟩ := open_cases hopen
  have hget : Json.get ms (js "issuedAt") = some (.num (JsNumber.ofInt cmd.issuedAt)) := by
    rw [← get_filter_ne (show js "issuedAt" ≠ js "sig" by decide)]
    exact get_of_momentMember (readAs_of_parse hcmd).issuedAt
  unfold savedMoment at hmoment
  cases hdecode : lua.decode current with
  | none =>
      rw [hdecode] at hmoment
      exact absurd hmoment (by simp)
  | some v =>
      obtain ⟨ms', rfl, hget'⟩ := lua.decode_agrees current v ms _ hdecode hms hget
      rw [hdecode] at hmoment
      dsimp only at hmoment
      rw [hget'] at hmoment
      exact (Option.some.inj hmoment).symm

/-- A value the script keeps and the reader accepts is not before the command. -/
theorem issuedAt_le_of_keeps {lua : Lua} {current : JsString} {cmd found : StopAllCommand}
    (hopen : openSavedStopCommand sg current = some found)
    (hkeeps : keeps lua current (NumberText.numberText (Decimal.ofInt cmd.issuedAt)) = true) :
    cmd.issuedAt ≤ found.issuedAt := by
  unfold keeps at hkeeps
  rw [lua.toNumber_numberText _ cmd.issuedAt_safe.2] at hkeeps
  cases hmoment : savedMoment lua current with
  | none =>
      rw [hmoment] at hkeeps
      exact absurd hkeeps (by simp)
  | some n =>
      rw [hmoment, savedMoment_of_open hopen hmoment] at hkeeps
      exact atLeast_ofInt.mp hkeeps

/-- **A command that was issued is masked exactly by a value the script keeps and the
reader refuses.** -/
theorem issued_readable_iff (sg : Signing) (lua : Lua) (stored : Option JsString)
    (cmd : StopAllCommand) :
    (∃ found, readLastStop sg (some (savedAfter sg lua stored cmd)) = some found ∧
        cmd.issuedAt ≤ found.issuedAt) ↔
      ∀ current, stored = some current →
        keeps lua current (NumberText.numberText (Decimal.ofInt cmd.issuedAt)) = true →
        ∃ found, openSavedStopCommand sg current = some found := by
  have hsealed : ∃ found, openSavedStopCommand sg (sealStopCommand sg cmd) = some found ∧
      cmd.issuedAt ≤ found.issuedAt := ⟨cmd, openSavedStopCommand_seal cmd, le_refl _⟩
  unfold savedAfter saveIfLater readLastStop
  cases stored with
  | none => exact ⟨fun _ current h => absurd h (by simp), fun _ => hsealed⟩
  | some current =>
      by_cases hkeeps :
          keeps lua current (NumberText.numberText (Decimal.ofInt cmd.issuedAt)) = true
      · simp only [if_pos hkeeps]
        constructor
        · rintro ⟨found, hopen, -⟩ x hx -
          obtain rfl := Option.some.inj hx
          exact ⟨found, hopen⟩
        · intro h
          obtain ⟨found, hopen⟩ := h current rfl hkeeps
          exact ⟨found, hopen, issuedAt_le_of_keeps hopen hkeeps⟩
      · simp only [if_neg hkeeps]
        refine ⟨fun _ x hx hk => ?_, fun _ => hsealed⟩
        obtain rfl := Option.some.inj hx
        exact absurd hk hkeeps

/-! ### A stop that is masked -/

/-- No text of these members has a lone surrogate. -/
def unicodeMembers (ms : List (JsString × Json)) : Bool :=
  ms.all fun m => (codePoints m.1).all (fun c => !isSurrogate c) &&
    match m.2 with
    | .str s => (codePoints s).all fun c => !isSurrogate c
    | _ => true

theorem unicodeMembers_of_plain {ms : List (JsString × Json)}
    (h : ∀ m ∈ ms, Unicode m.1 ∧ Plain m.2) : unicodeMembers ms = true := by
  have hall : ∀ s, Unicode s → ((codePoints s).all fun c => !isSurrogate c) = true := by
    intro s hs
    rw [List.all_eq_true]
    intro c hc
    rw [hs c hc]
    rfl
  unfold unicodeMembers
  rw [List.all_eq_true]
  intro m hm
  obtain ⟨hname, hvalue⟩ := h m hm
  rw [hall m.1 hname, Bool.true_and]
  cases hv : m.2 with
  | str s =>
      rw [hv] at hvalue
      exact hall s hvalue
  | _ => rfl

theorem printedMembers_of_plain {ms : List (JsString × Json)} (h : ∀ m ∈ ms, Plain m.2) :
    Json.printedMembers ms = ms := by
  induction ms with
  | nil => rfl
  | cons m rest ih =>
      obtain ⟨k, v⟩ := m
      have hv : Json.printed v = v := by
        have hplain := h (k, v) (by simp)
        cases v with
        | str s => rfl
        | num n =>
            obtain ⟨i, -, rfl⟩ := hplain
            rfl
        | _ => exact absurd hplain (by simp [Plain])
      show (k, Json.printed v) :: Json.printedMembers rest = _
      rw [hv, ih fun x hx => h x (by simp [hx])]

/-- A Lua that reads the objects JavaScript reads, but no lone surrogate in a member. -/
def strictLua : Lua where
  decode raw :=
    match Json.parse raw with
    | some (.obj ms) => if unicodeMembers ms then some (.obj ms) else none
    | _ => none
  toNumber s :=
    match NumberText.readNumber s with
    | some (d, []) => some (.finite d)
    | _ => none
  toNumber_numberText n _ := by
    have hread := NumberText.readNumber_numberText (Decimal.ofInt n) (r := [])
      (by simp [NumberText.NoNumberHead])
    rw [List.append_nil] at hread
    rw [hread]
    rfl
  decode_agrees raw v ms n hdecode hparse hget := by
    rw [hparse] at hdecode
    dsimp only at hdecode
    split at hdecode
    · exact ⟨ms, (Option.some.inj hdecode).symm, hget⟩
    · exact absurd hdecode (by simp)
  decode_plain ms h := by
    refine ⟨ms, ?_, fun k => rfl⟩
    rw [Json.parse_stringify]
    show (match some (Json.obj (Json.printedMembers ms)) with
      | some (.obj ms) => if unicodeMembers ms then some (Json.obj ms) else none
      | _ => none) = _
    rw [printedMembers_of_plain fun m hm => (h m hm).2]
    exact if_pos (unicodeMembers_of_plain h)

/-- A signing key, and a signature that is always the same. -/
def fixedSigning : Signing where
  secret := js "secret"
  hmac := fun _ _ => List.replicate 32 0
  hmac_length := fun _ _ => List.length_replicate

/-- A command without a reason. -/
def stopAt (n : ℕ) (h : 0 < n ∧ n ≤ 9007199254740991) : StopAllCommand where
  commandId := js "stop"
  issuedBy := js "operator"
  issuedAt := n
  reason := none
  commandId_size := by decide
  issuedBy_size := by decide
  issuedAt_safe := h
  reason_size := by simp

/-- **An unsigned command with a later moment masks a signed one.** -/
theorem unsigned_stop_masks :
    fixedSigning.secret ≠ [] ∧
    ¬ ∃ found, readLastStop fixedSigning (some (savedAfter fixedSigning strictLua
        (some (stopAt 2 (by decide)).canonical) (stopAt 1 (by decide)))) = some found ∧
      (stopAt 1 (by decide)).issuedAt ≤ found.issuedAt := by
  have hmoment : savedMoment strictLua (stopAt 2 (by decide)).canonical
      = some (JsNumber.ofInt 2) := by
    have hdecode : strictLua.decode (stopAt 2 (by decide)).canonical
        = some (.obj (stopAt 2 (by decide)).members) := by
      show (match Json.parse (stopAt 2 (by decide)).canonical with
        | some (.obj ms) => if unicodeMembers ms then some (Json.obj ms) else none
        | _ => none) = _
      rw [parse_canonical]
      rfl
    unfold savedMoment
    rw [hdecode]
    rfl
  have hkeeps : keeps strictLua (stopAt 2 (by decide)).canonical
      (NumberText.numberText (Decimal.ofInt 1)) = true := by
    unfold keeps
    rw [hmoment, show Decimal.ofInt 1 = Decimal.ofInt (1 : ℕ) from rfl,
      strictLua.toNumber_numberText 1 (by decide)]
    exact atLeast_ofInt.mpr (by decide)
  have hopen : openSavedStopCommand fixedSigning (stopAt 2 (by decide)).canonical = none := by
    unfold openSavedStopCommand
    rw [parse_canonical]
    dsimp only
    rw [filter_members, parseStopAllCommand_members]
    rfl
  have hsaved : savedAfter fixedSigning strictLua (some (stopAt 2 (by decide)).canonical)
      (stopAt 1 (by decide)) = (stopAt 2 (by decide)).canonical := by
    unfold savedAfter saveIfLater
    exact congrArg Prod.fst (if_pos hkeeps)
  refine ⟨by decide, ?_⟩
  rintro ⟨found, hfound, -⟩
  rw [hsaved] at hfound
  exact absurd (hopen.symm.trans hfound) (by simp)

end Kaiban
