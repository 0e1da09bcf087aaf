/-
The emergency stop command: how it is saved, published and read back.

The latest stop is kept under one Redis key.  The writer's script looks at the moment of
the value that is there, and the reader at the command and its signature.  A saved command
carries a signature of its own, and a published one travels in a signed envelope.

Three things are outside the code: HMAC-SHA256, and what Redis's Lua makes of a JSON text
and of a number.
-/
import Kaiban.Lib.Json.Ordered
import Kaiban.Lib.Number

open JsString

namespace Kaiban

/-- A byte. -/
abbrev Byte := Fin 256

instance Byte.neZero : NeZero 256 := ⟨by decide⟩

/-- The secret, empty when `CHANNEL_SIGNING_SECRET` is not set, and HMAC-SHA256. -/
structure Signing where
  secret : JsString
  hmac : JsString → JsString → List Byte
  hmac_length : ∀ key text, (hmac key text).length = 32

/-- A text without lone surrogates. -/
def Unicode (s : JsString) : Prop := ∀ c ∈ codePoints s, isSurrogate c = false

/-- A Unicode text, or a whole number that a float holds exactly. -/
def Plain : Json → Prop
  | .str s => Unicode s
  | .num n => ∃ k : ℕ, k ≤ 9007199254740991 ∧ n = JsNumber.ofInt k
  | _ => False

/-- Redis's Lua: `cjson.decode` under `pcall`, and `tonumber` of a text.  A whole number that a
float holds exactly is read from its numeral; a JSON text that both sides read gives both the
same moment; and the text of plain members is read as they were written. -/
structure Lua where
  decode : JsString → Option Json
  toNumber : JsString → Option JsNumber
  toNumber_numberText : ∀ n : ℕ, n ≤ 9007199254740991 →
    toNumber (NumberText.numberText (Decimal.ofInt n)) = some (JsNumber.ofInt n)
  decode_agrees : ∀ (raw : JsString) (v : Json) (ms : List (JsString × Json)) (n : JsNumber),
    decode raw = some v → Json.parse raw = some (.obj ms) →
    Json.get ms (js "issuedAt") = some (.num n) →
    ∃ ms', v = .obj ms' ∧ Json.get ms' (js "issuedAt") = some (.num n)
  decode_plain : ∀ ms : List (JsString × Json), (∀ m ∈ ms, Unicode m.1 ∧ Plain m.2) →
    ∃ ms', decode (Json.stringify (.obj ms)) = some (.obj ms') ∧
      ∀ k, Json.get ms' k = Json.get ms k

/-! ### Commands -/

/-- `StopAllCommand`. -/
structure StopAllCommand where
  commandId : JsString
  issuedBy : JsString
  issuedAt : ℕ
  reason : Option JsString
  commandId_size : 0 < commandId.length ∧ commandId.length ≤ 100
  issuedBy_size : 0 < issuedBy.length ∧ issuedBy.length ≤ 200
  issuedAt_safe : 0 < issuedAt ∧ issuedAt ≤ 9007199254740991
  reason_size : ∀ r ∈ reason, r.length ≤ 500

namespace StopAllCommand

/-- The members of a command, in the order of the schema. -/
def members (cmd : StopAllCommand) : List (JsString × Json) :=
  [(js "commandId", .str cmd.commandId), (js "command", .str (js "STOP_ALL")),
    (js "issuedBy", .str cmd.issuedBy), (js "issuedAt", .num (JsNumber.ofInt cmd.issuedAt))]
  ++ match cmd.reason with
    | none => []
    | some r => [(js "reason", .str r)]

/-- `JSON.stringify(cmd)`. -/
def canonical (cmd : StopAllCommand) : JsString := Json.stringify (.obj cmd.members)

end StopAllCommand

/-- The names the schema knows; it is strict. -/
def commandFields : List JsString :=
  ["commandId", "command", "issuedBy", "issuedAt", "reason"].map js

/-- A member that is a text. -/
def textMember (ms : List (JsString × Json)) (k : JsString) : Option JsString :=
  match Json.get ms k with
  | some (.str s) => some s
  | _ => none

/-- A member that is a whole number above zero. -/
def momentMember (ms : List (JsString × Json)) (k : JsString) : Option ℕ :=
  match Json.get ms k with
  | some (.num (.finite d)) =>
      if (d : ℚ).den = 1 ∧ 0 < (d : ℚ).num then some (d : ℚ).num.toNat else none
  | _ => none

/-- A member that is a text or is not there. -/
def optionalMember (ms : List (JsString × Json)) (k : JsString) : Option (Option JsString) :=
  match Json.get ms k with
  | none => some none
  | some (.str s) => some (some s)
  | some _ => none

/-- `parseStopAllCommand(value)`. -/
def parseStopAllCommand : Json → Option StopAllCommand
  | .obj ms =>
      if (ms.all fun m => m.1 ∈ commandFields) = true ∧
          textMember ms (js "command") = some (js "STOP_ALL") then
        match textMember ms (js "commandId"), textMember ms (js "issuedBy"),
          momentMember ms (js "issuedAt"), optionalMember ms (js "reason") with
        | some commandId, some issuedBy, some issuedAt, some reason =>
            if h : (0 < commandId.length ∧ commandId.length ≤ 100) ∧
                (0 < issuedBy.length ∧ issuedBy.length ≤ 200) ∧
                (0 < issuedAt ∧ issuedAt ≤ 9007199254740991) ∧
                (∀ r ∈ reason, r.length ≤ 500) then
              some ⟨commandId, issuedBy, issuedAt, reason, h.1, h.2.1, h.2.2.1, h.2.2.2⟩
            else none
        | _, _, _, _ => none
      else none
  | _ => none

/-! ### Hex -/

/-- `digest("hex")`. -/
def hexText (bs : List Byte) : JsString :=
  bs.flatMap fun b => [Json.hexUnit (b.val / 16), Json.hexUnit (b.val % 16)]

/-- `Buffer.from(s, "hex")`: it ends at the first pair that is no byte. -/
def hexBytes : JsString → List Byte
  | u :: v :: rest =>
      match Json.hexValue u, Json.hexValue v with
      | some a, some b => Fin.ofNat 256 (16 * a + b) :: hexBytes rest
      | _, _ => []
  | _ => []

/-- `sameHex(a, b)`. -/
def sameHex (a b : JsString) : Bool := hexBytes a = hexBytes b ∧ hexBytes a ≠ []

/-! ### The saved command -/

/-- `SAVED_SIGNATURE_DOMAIN`. -/
def savedSignatureDomain : JsString := js "kaiban-control-saved."

/-- `savedSignature(canonical, secret)`. -/
def savedSignature (sg : Signing) (canonical : JsString) : JsString :=
  hexText (sg.hmac sg.secret (savedSignatureDomain ++ canonical))

/-- The members that are saved with a secret. -/
def sealedMembers (sg : Signing) (cmd : StopAllCommand) : List (JsString × Json) :=
  cmd.members ++ [(js "sig", .str (savedSignature sg cmd.canonical))]

/-- `sealStopCommand(cmd)`. -/
def sealStopCommand (sg : Signing) (cmd : StopAllCommand) : JsString :=
  if sg.secret = [] then cmd.canonical else Json.stringify (.obj (sealedMembers sg cmd))

/-- `sealStopCommand(cmd)`, of a command whose members were written in any order; `none` when
the schema refuses it. -/
def sealMembers (sg : Signing) (ms : List (JsString × Json)) : Option JsString :=
  (parseStopAllCommand (.obj ms)).map (sealStopCommand sg)

/-- `openSavedStopCommand(raw)`. -/
def openSavedStopCommand (sg : Signing) (raw : JsString) : Option StopAllCommand :=
  match Json.parse raw with
  | some (.obj ms) =>
      match parseStopAllCommand (.obj (ms.filter fun m => m.1 ≠ js "sig")) with
      | none => none
      | some cmd =>
          if sg.secret = [] then some cmd
          else
            match textMember ms (js "sig") with
            | none => none
            | some sig => if sameHex sig (savedSignature sg cmd.canonical) then some cmd else none
  | _ => none

/-- `readLastStop(redis)`, of what the key holds. -/
def readLastStop (sg : Signing) (stored : Option JsString) : Option StopAllCommand :=
  stored.bind (openSavedStopCommand sg)

/-- `a >= b`. -/
def atLeast : JsNumber → JsNumber → Bool
  | .nan, _ => false
  | _, .nan => false
  | .posInfinity, _ => true
  | _, .negInfinity => true
  | _, .posInfinity => false
  | .negInfinity, _ => false
  | .finite a, .finite b => b ≤ a

/-- `tonumber(saved.issuedAt)` of a table that `cjson.decode` gives. -/
def savedMoment (lua : Lua) (current : JsString) : Option JsNumber :=
  match lua.decode current with
  | some (.obj ms) =>
      match Json.get ms (js "issuedAt") with
      | some (.num n) => some n
      | some (.str s) => lua.toNumber s
      | _ => none
  | _ => none

/-- The value there is kept by the script: its moment is not before the given one. -/
def keeps (lua : Lua) (current : JsString) (moment : JsString) : Bool :=
  match savedMoment lua current, lua.toNumber moment with
  | some saved, some given => atLeast saved given
  | _, _ => false

/-- `SAVE_IF_LATER`: what the key holds afterwards, and whether the value was saved. -/
def saveIfLater (lua : Lua) (stored : Option JsString) (moment value : JsString) :
    JsString × Bool :=
  match stored with
  | none => (value, true)
  | some current => if keeps lua current moment then (current, false) else (value, true)

/-- What the key holds after `issueStopAll(cmd)`. -/
def savedAfter (sg : Signing) (lua : Lua) (stored : Option JsString) (cmd : StopAllCommand) :
    JsString :=
  (saveIfLater lua stored (NumberText.numberText (Decimal.ofInt cmd.issuedAt))
    (sealStopCommand sg cmd)).1

/-! ### The published command -/

/-- The text an envelope signs. -/
def envelopeBody (ts : JsNumber) (payload : Json) : JsString :=
  ts.text ++ js "." ++ Json.stringify payload

/-- `wrapSigned(payload)` at the time `ts`. -/
def wrapSigned (sg : Signing) (ts : ℕ) (payload : Json) : JsString :=
  if sg.secret = [] then Json.stringify payload
  else
    Json.stringify (.obj [(js "payload", payload),
      (js "sig", .str (hexText (sg.hmac sg.secret (envelopeBody (JsNumber.ofInt ts) payload)))),
      (js "ts", .num (JsNumber.ofInt ts))])

/-- `Boolean(v)`. -/
def truthy : Json → Bool
  | .null => false
  | .bool b => b
  | .num n => n ≠ .nan ∧ n ≠ JsNumber.ofInt 0
  | .str s => s ≠ []
  | .arr _ => true
  | .obj _ => true

/-- The check of an envelope's age: the clock and `maxSkewMs`, or `none` where that is
`Infinity`. -/
abbrev Freshness := Option (ℕ × Decimal)

/-- `Math.abs(Date.now() - ts) > maxSkew`. -/
def stale : Freshness → JsNumber → Bool
  | none, _ => false
  | some _, .nan => false
  | some _, .posInfinity => true
  | some _, .negInfinity => true
  | some (now, maxSkew), .finite ts => maxSkew < |Decimal.ofInt now - ts|

/-- `JSON.parse(raw)`, with the members of its objects in the order `JSON.stringify` writes
them in. -/
def parseJson (raw : JsString) : Option Json := (Json.parse raw).map Json.ordered

/-- `isEnvelope(value)`, with the fields of the envelope. -/
def envelope : Json → Option (Json × JsString × JsNumber)
  | .obj ms =>
      match Json.get ms (js "payload"), textMember ms (js "sig"), Json.get ms (js "ts") with
      | some payload, some sig, some (.num ts) =>
          if truthy payload = true then some (payload, sig, ts) else none
      | _, _, _ => none
  | _ => none

/-- `unwrapVerified(raw, opts)`. -/
def unwrapVerified (sg : Signing) (fresh : Freshness) (raw : JsString) : Option Json :=
  if sg.secret = [] then parseJson raw
  else
    match (parseJson raw).bind envelope with
    | some (payload, sig, ts) =>
        if stale fresh ts = true then none
        else if sg.hmac sg.secret (envelopeBody ts payload) = hexBytes sig then some payload
        else none
    | none => none

/-- `onMessage(raw)`: the command it delivers, whatever the age of its envelope. -/
def commandOfMessage (sg : Signing) (raw : JsString) : Option StopAllCommand :=
  (unwrapVerified sg none raw).bind parseStopAllCommand

/-- The message `issueStopAll(cmd)` publishes at the time `ts`. -/
def publishedStop (sg : Signing) (ts : ℕ) (cmd : StopAllCommand) : JsString :=
  wrapSigned sg ts (.obj cmd.members)

end Kaiban
