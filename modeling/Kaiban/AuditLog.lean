/-
The audit log: a chain of gate decisions in which each record's hash is taken over the
hash before it and the record's own content.
-/
import Kaiban.Lib.Number

open JsString

namespace Kaiban

/-- `createHash("sha256").update(text).digest("hex")`, of the bytes of the text.  As an
idealisation no two inputs have one digest. -/
structure Sha256 where
  hexDigest : List ℕ → JsString
  injective : Function.Injective hexDigest
  isHex : ∀ input, ∀ u ∈ hexDigest input, (Json.hexValue u).isSome = true

/-- `AuditRecord`. -/
structure AuditRecord where
  index : JsNumber
  timestamp : JsString
  decision : Json
  prevHash : JsString
  hash : JsString

inductive AuditVerification where
  | valid
  | brokenAt (i : ℕ)
  deriving DecidableEq

/-- `canonical({ index, timestamp, decision })`. -/
def canonical (index : JsNumber) (timestamp : JsString) (decision : Json) : JsString :=
  Json.stringify (.obj [(js "index", .num index), (js "timestamp", .str timestamp),
    (js "decision", decision)])

/-- `computeHash(prevHash, index, timestamp, decision)`. -/
def computeHash (sha : Sha256) (prevHash : JsString) (index : JsNumber) (timestamp : JsString)
    (decision : Json) : JsString :=
  sha.hexDigest (bytes (prevHash ++ canonical index timestamp decision))

/-- The chain of an `AuditLog`. -/
abbrev AuditLog := List AuditRecord

namespace AuditLog

/-- The hash the next record is chained to. -/
def lastHash (chain : AuditLog) : JsString := (chain.getLast?.map AuditRecord.hash).getD []

/-- `append(decision, timestamp)`. -/
def append (sha : Sha256) (chain : AuditLog) (decision : Json) (timestamp : JsString) : AuditLog :=
  let index := JsNumber.ofInt chain.length
  let prevHash := chain.lastHash
  let hash := computeHash sha prevHash index timestamp decision
  chain ++ [⟨index, timestamp, decision, prevHash, hash⟩]

/-- The loop of `verify()`, from the record `i`, which `expectedPrev` comes before. -/
def verifyFrom (sha : Sha256) (i : ℕ) (expectedPrev : JsString) : AuditLog → AuditVerification
  | [] => .valid
  | record :: rest =>
      let expectedHash :=
        computeHash sha record.prevHash record.index record.timestamp record.decision
      if record.prevHash ≠ expectedPrev ∨ record.hash ≠ expectedHash then .brokenAt i
      else verifyFrom sha (i + 1) record.hash rest

/-- `verify()`. -/
def verify (sha : Sha256) (chain : AuditLog) : AuditVerification := verifyFrom sha 0 [] chain

/-- The chain after a sequence of appends. -/
def appendAll (sha : Sha256) (entries : List (Json × JsString)) : AuditLog :=
  entries.foldl (fun chain entry => append sha chain entry.1 entry.2) []

end AuditLog

end Kaiban
