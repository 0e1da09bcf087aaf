/-
The hardened memory store.

Entries are kept by tenant and key, the JSON of the pair.  An entry is withheld from a
caller whose role or trust floor it does not meet, and evicted once it has expired: by the
`get` that finds it, or by a `sweep`.  Every operation is told the time.
-/
import Kaiban.Lib.Arithmetic
import Kaiban.Lib.OrderedMap
import Kaiban.Lib.Json.RoundTrip

open JsString

namespace Kaiban

inductive TrustLevel where
  | untrusted
  | low
  | high
  deriving DecidableEq

inductive Classification where
  | «public»
  | internal
  | confidential
  deriving DecidableEq

inductive MemoryRole where
  | viewer
  | operator
  | admin
  deriving DecidableEq

structure MemoryProvenance where
  source : JsString
  trust : TrustLevel
  deriving DecidableEq

structure MemoryEntry (υ : Type) where
  value : υ
  provenance : MemoryProvenance
  classification : Classification
  storedAt : JsNumber
  ttlMs : Option JsNumber
  deriving DecidableEq

structure PutOptions where
  provenance : MemoryProvenance
  classification : Option Classification
  ttlMs : Option JsNumber
  now : JsNumber

structure GetOptions where
  now : JsNumber
  role : Option MemoryRole
  minTrust : Option TrustLevel

/-- `TRUST_RANK`. -/
def TrustLevel.rank : TrustLevel → ℕ
  | untrusted => 0
  | low => 1
  | high => 2

/-- `CLASSIFICATION_RANK`. -/
def Classification.rank : Classification → ℕ
  | «public» => 0
  | internal => 1
  | confidential => 2

/-- `ROLE_CEILING`. -/
def MemoryRole.ceiling : MemoryRole → Classification
  | viewer => .public
  | operator => .internal
  | admin => .confidential

variable {υ : Type}

/-- `canRead(role, classification)`. -/
def canRead (role : Option MemoryRole) (classification : Classification) : Bool :=
  decide (classification.rank ≤ (role.getD .viewer).ceiling.rank)

/-- `isExpired(entry, now)`. -/
def MemoryEntry.isExpired (entry : MemoryEntry υ) (now : JsNumber) : Bool :=
  match entry.ttlMs with
  | none => false
  | some ttlMs => JsNumber.le (JsNumber.add entry.storedAt ttlMs) now

/-- `meetsTrust(entry, minTrust)`. -/
def MemoryEntry.meetsTrust (entry : MemoryEntry υ) : Option TrustLevel → Bool
  | none => true
  | some floor => decide (floor.rank ≤ entry.provenance.trust.rank)

/-- `compositeKey(tenantId, key)`. -/
def compositeKey (tenantId key : JsString) : JsString :=
  Json.stringify (.arr [.str tenantId, .str key])

/-- The entry a `put` stores. -/
def MemoryEntry.ofPut (value : υ) (opts : PutOptions) : MemoryEntry υ where
  value := value
  provenance := opts.provenance
  classification := opts.classification.getD .internal
  storedAt := opts.now
  ttlMs := opts.ttlMs

/-- `SecureMemoryStore`. -/
abbrev SecureMemoryStore (υ : Type) := OrderedMap JsString (MemoryEntry υ)

namespace SecureMemoryStore

/-- `put(tenantId, key, value, opts)`. -/
def put (s : SecureMemoryStore υ) (tenantId key : JsString) (value : υ) (opts : PutOptions) :
    SecureMemoryStore υ :=
  s.set (compositeKey tenantId key) (.ofPut value opts)

/-- `get(tenantId, key, opts)`. -/
def get (s : SecureMemoryStore υ) (tenantId key : JsString) (opts : GetOptions) :
    Option (MemoryEntry υ) × SecureMemoryStore υ :=
  match OrderedMap.get s (compositeKey tenantId key) with
  | none => (none, s)
  | some entry =>
      if entry.isExpired opts.now = true then (none, s.erase (compositeKey tenantId key))
      else if ¬ canRead opts.role entry.classification = true then (none, s)
      else if ¬ entry.meetsTrust opts.minTrust = true then (none, s)
      else (some entry, s)

/-- `revoke(tenantId, key)`. -/
def revoke (s : SecureMemoryStore υ) (tenantId key : JsString) : Bool × SecureMemoryStore υ :=
  ((OrderedMap.get s (compositeKey tenantId key)).isSome, s.erase (compositeKey tenantId key))

/-- `sweep(now)`. -/
def sweep (s : SecureMemoryStore υ) (now : JsNumber) : ℕ × SecureMemoryStore υ :=
  ((s.entries.filter fun e => e.2.isExpired now).length,
    s.filter fun _ entry => !entry.isExpired now)

end SecureMemoryStore

/-! ### A history -/

inductive MemoryOp (υ : Type) where
  | put (tenantId key : JsString) (value : υ) (opts : PutOptions)
  | get (tenantId key : JsString) (opts : GetOptions)
  | revoke (tenantId key : JsString)
  | sweep (now : JsNumber)

namespace MemoryOp

/-- The store after an operation. -/
def apply (s : SecureMemoryStore υ) : MemoryOp υ → SecureMemoryStore υ
  | put tenantId key value opts => s.put tenantId key value opts
  | get tenantId key opts => (SecureMemoryStore.get s tenantId key opts).2
  | revoke tenantId key => (s.revoke tenantId key).2
  | sweep now => (s.sweep now).2

/-- The time an operation is told. -/
def now : MemoryOp υ → Option JsNumber
  | put _ _ _ opts => some opts.now
  | get _ _ opts => some opts.now
  | revoke _ _ => none
  | sweep t => some t

end MemoryOp

/-- The store after a history. -/
def SecureMemoryStore.after (history : List (MemoryOp υ)) : SecureMemoryStore υ :=
  history.foldl MemoryOp.apply .empty

end Kaiban
