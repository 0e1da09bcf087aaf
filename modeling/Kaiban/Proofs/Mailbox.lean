/-
What is put on the mailbox of an agent reaches its handler.

A payload comes back off its text as it was, up to the order of the properties and to what
JSON cannot write, and every other text is a payload or is skipped.

The run of the consumer keeps that every payload before its offset was handled.  A crash takes
it back to the offset it committed, so a payload is handled at least once, and a record that
is not a payload holds nothing up.
-/
import Kaiban.Mailbox
import Kaiban.Proofs.JsonBytes
import Kaiban.Proofs.TaskInput
import Kaiban.Lib.Json.RoundTrip
import Kaiban.Lib.Json.Ordered

open JsString

namespace Kaiban

/-! ### A payload there and back -/

theorem parseJson_sent (v : Json) :
    parseJson (decode (bytes (Json.stringify v))) = some (Json.ordered (Json.printed v)) := by
  rw [(stringify_encodable v).decode_bytes]
  unfold parseJson
  rw [Json.parse_stringify]
  rfl

theorem get_resent (ms : MessageData) (k : JsString) :
    Json.get (Json.propertyOrder (Json.orderedMembers (Json.printedMembers ms))) k =
      (Json.get ms k).map fun v => Json.ordered (Json.printed v) := by
  rw [Json.get_ordered, Json.printedMembers_eq, Json.get_map, Option.map_map]
  rfl

/-- The members of an object that was written and read back. -/
def resentMembers (ms : MessageData) : MessageData :=
  Json.propertyOrder (Json.orderedMembers (Json.printedMembers ms))

/-- What the handler is called with for a payload that was sent. -/
def sentCall (p : Payload) (headers : TraceHeaders) : HandlerCall :=
  ⟨{ p with data := resentMembers p.data },
    (resentMembers (headers.map fun m => (m.1, .str m.2))).filterMap safeHeader⟩

/-- **A payload comes back off its text.** -/
theorem eachMessage_sent {p : Payload} {headers : TraceHeaders} {d : Decimal}
    (h : p.timestamp = .finite d) :
    eachMessage (some (sentValue p headers)) = some (sentCall p headers) := by
  let sent : Json := .obj (resentMembers [(js "taskId", .str p.taskId),
    (js "agentId", .str p.agentId), (js "data", .obj p.data), (js "timestamp", .num p.timestamp),
    (js "traceHeaders", .obj (headers.map fun m => (m.1, .str m.2)))])
  have hparsed : parseJson (sentValue p headers) = some sent := parseJson_sent _
  have hpayload : messagePayload sent = some { p with data := resentMembers p.data } := by
    unfold messagePayload
    simp only [sent, resentMembers, get_resent, h]
    rfl
  have hheaders : traceHeadersOf sent =
      some (.obj (resentMembers (headers.map fun m => (m.1, .str m.2)))) := by
    unfold traceHeadersOf
    simp only [sent, resentMembers, get_resent]
    rfl
  unfold eachMessage consumed
  rw [Option.bind_some, hparsed, Option.bind_some, hpayload, hheaders]
  rfl

/-- What a call of the handler keeps of a payload that was sent with some headers. -/
structure Delivered (p : Payload) (headers : TraceHeaders) (call : HandlerCall) : Prop where
  taskId : call.payload.taskId = p.taskId
  agentId : call.payload.agentId = p.agentId
  timestamp : call.payload.timestamp = p.timestamp
  data : ∀ k, Json.get call.payload.data k =
    (Json.get p.data k).map fun v => Json.ordered (Json.printed v)
  /-- The headers that are safe come through, and no other. -/
  headers : ∀ k v, (k, v) ∈ call.headers ↔
    Json.get (headers.map fun m => (m.1, .str m.2)) k = some (.str v) ∧
      (k = js "traceparent" → isTraceparent v = true) ∧ k ≠ js "__proto__"

theorem safeHeader_eq_some {entry : JsString × Json} {k v : JsString} :
    safeHeader entry = some (k, v) ↔ entry = (k, .str v) ∧
      (k = js "traceparent" → isTraceparent v = true) ∧ k ≠ js "__proto__" := by
  obtain ⟨name, value⟩ := entry
  cases value with
  | str text =>
      unfold safeHeader
      dsimp only
      split
      · next hbad =>
          refine iff_of_false (by simp) ?_
          rintro ⟨heq, htrace, -⟩
          obtain ⟨rfl, rfl⟩ : name = k ∧ text = v := by simpa using heq
          exact absurd (htrace hbad.1) (by simp [hbad.2])
      · next hgood =>
          split
          · next hproto =>
              refine iff_of_false (by simp) ?_
              rintro ⟨heq, -, hne⟩
              obtain ⟨rfl, -⟩ : name = k ∧ text = v := by simpa using heq
              exact hne hproto
          · next hne =>
              constructor
              · intro h
                obtain ⟨rfl, rfl⟩ : name = k ∧ text = v := by simpa using h
                exact ⟨rfl, fun htrace => by simpa using fun hbad => hgood ⟨htrace, hbad⟩, hne⟩
              · rintro ⟨heq, -, -⟩
                obtain ⟨rfl, rfl⟩ : name = k ∧ text = v := by simpa using heq
                rfl
  | _ => simp [safeHeader]

theorem mem_resentMembers {ms : MessageData} {m : JsString × Json} :
    m ∈ resentMembers ms ↔
      ((Json.get ms m.1).map fun v => Json.ordered (Json.printed v)) = some m.2 := by
  have hnodup : ((resentMembers ms).map Prod.fst).Nodup :=
    ((Json.propertyOrder_perm _).map Prod.fst).nodup_iff.mpr (OrderedMap.nodup _)
  rw [← get_resent, ← resentMembers, Json.get_eq_some_iff hnodup]

theorem sentCall_delivered (p : Payload) (headers : TraceHeaders) :
    Delivered p headers (sentCall p headers) := by
  refine ⟨rfl, rfl, rfl, get_resent p.data, fun k v => ?_⟩
  unfold sentCall
  simp only [List.mem_filterMap, safeHeader_eq_some]
  constructor
  · rintro ⟨entry, hmem, rfl, hsafe⟩
    obtain ⟨x, hx, hxv⟩ := Option.map_eq_some_iff.mp (mem_resentMembers.mp hmem)
    refine ⟨?_, hsafe⟩
    -- every header is a text
    obtain ⟨m, -, hm⟩ := List.mem_map.mp (mem_of_get hx)
    obtain ⟨-, rfl⟩ := Prod.mk.inj hm
    rw [hx]
    exact congrArg some hxv
  · rintro ⟨hget, hsafe⟩
    refine ⟨(k, .str v), mem_resentMembers.mpr ?_, rfl, hsafe⟩
    rw [hget]
    rfl

/-! ### Attempts of a publish -/

namespace SendCall

/-- The record of the call has been stored. -/
def Stored (call : SendCall) : Prop :=
  (∃ attempt, call.phase = .sending attempt true) ∨ call.phase = .resolved

/-- The sends and the waits of a call, by what it is at. -/
def Paced (call : SendCall) : Prop :=
  match call.phase with
  | .connecting => call.sends = 0 ∧ call.waited = 0
  | .sending attempt _ =>
      attempt < publishRetries ∧ call.sends = attempt + 1 ∧
        call.waited + 100 = 2 ^ attempt * 100
  | .waiting attempt =>
      attempt + 1 < publishRetries ∧ call.sends = attempt + 1 ∧
        call.waited + 100 = 2 ^ (attempt + 1) * 100
  | .resolved | .rejected => call.sends ≤ 5 ∧ call.waited ≤ 1500

/-- A call makes five sends at most and waits 100, 200, 400 and 800 milliseconds between. -/
theorem Paced.bounds {call : SendCall} (h : call.Paced) : call.sends ≤ 5 ∧ call.waited ≤ 1500 := by
  have hpow : ∀ n < publishRetries, 2 ^ n * 100 ≤ 1600 := by decide
  unfold Paced at h
  split at h
  · omega
  · next attempt _ _ =>
      have hbound := hpow attempt h.1
      unfold publishRetries at h
      omega
  · next attempt _ =>
      have hbound := hpow (attempt + 1) h.1
      unfold publishRetries at h
      omega
  · exact h
  · exact h

theorem Paced.first {call : SendCall} (h : call.Paced) (hphase : call.phase = .connecting) :
    (Mailbox.attempted call 0).Paced := by
  unfold Paced at h
  rw [hphase] at h
  exact ⟨by decide, congrArg (· + 1) h.1, congrArg (· + 100) h.2⟩

theorem Paced.again {call : SendCall} (h : call.Paced) {attempt : ℕ}
    (hphase : call.phase = .waiting attempt) : (Mailbox.attempted call (attempt + 1)).Paced := by
  unfold Paced at h
  rw [hphase] at h
  exact ⟨h.1, congrArg (· + 1) h.2.1, h.2.2⟩

theorem Paced.failed {call : SendCall} (h : call.Paced) {attempt : ℕ} {stored : Bool}
    (hphase : call.phase = .sending attempt stored) (err : SendError) :
    (Mailbox.afterError call attempt err).Paced := by
  have hbounds := h.bounds
  unfold Paced at h
  rw [hphase] at h
  obtain ⟨hless, hsends, hwaited⟩ := h
  unfold Mailbox.afterError
  split
  · split
    · exact hbounds
    · refine ⟨by omega, hsends, ?_⟩
      dsimp only
      unfold retryDelay
      rw [pow_succ]
      omega
  · exact hbounds

end SendCall

namespace Mailbox

variable {s t : Mailbox}

/-! ### What holds of a mailbox -/

structure Sound (s : Mailbox) : Prop where
  bounds : s.committed ≤ s.offset ∧ s.offset ≤ s.log.length
  /-- Every payload before the offset was handled. -/
  handled : ∀ i < s.offset, ∀ call, s.message i = some call → (i, call) ∈ s.handled
  called : ∀ x ∈ s.called, s.message x.1 = some x.2
  resolved : ∀ x ∈ s.handled, x ∈ s.called
  running : ∀ call, s.running = some call →
    s.offset < s.log.length ∧ s.message s.offset = some call ∧ (s.offset, call) ∈ s.called
  origins : ∀ r ∈ s.log, ∀ k, r.origin = some k → ∃ call, s.publishes k = some call ∧
    r.value = some (sentValue call.payload call.headers)
  stored : ∀ k call, s.publishes k = some call → call.Stored → ∃ r ∈ s.log, r.origin = some k
  paced : ∀ k call, s.publishes k = some call → call.Paced

theorem init_sound : init.Sound :=
  ⟨⟨le_rfl, le_rfl⟩, by simp [init], by simp [init], by simp [init], by simp [init],
    by simp [init], by simp [init], by simp [init]⟩

/-- What was read of a record stays when records are added. -/
theorem message_added {log more : List TopicRecord} {i : ℕ} (h : i < log.length) :
    ((log ++ more)[i]?.bind fun r => eachMessage r.value)
      = log[i]?.bind fun r => eachMessage r.value := by
  rw [List.getElem?_append_left h]

theorem message_lt {i : ℕ} {call : HandlerCall} (h : s.message i = some call) :
    i < s.log.length := by
  obtain ⟨r, hr, -⟩ := Option.bind_eq_some_iff.mp h
  exact (List.getElem?_eq_some_iff.mp hr).1

/-- A publish goes on, with the records it has put on the topic meanwhile. -/
theorem Sound.published (h : s.Sound) {k : ℕ} {call : SendCall} (more : List TopicRecord)
    (hpaced : call.Paced)
    (hsame : ∀ old, s.publishes k = some old →
      old.payload = call.payload ∧ old.headers = call.headers)
    (hmore : ∀ r ∈ more, r = ⟨some (sentValue call.payload call.headers), some k⟩)
    (hstored : call.Stored → ∃ r ∈ s.log ++ more, r.origin = some k) :
    Sound { s.setPublish k call with log := s.log ++ more } := by
  have hmessage (i : ℕ) (hi : i < s.log.length) :
      message { s.setPublish k call with log := s.log ++ more } i = s.message i :=
    message_added hi
  refine ⟨⟨h.bounds.1, ?_⟩, ?_, ?_, h.resolved, ?_, ?_, ?_, ?_⟩
  · show s.offset ≤ (s.log ++ more).length
    have hle := h.bounds.2
    rw [List.length_append]
    omega
  · intro i hi c hc
    rw [hmessage i (lt_of_lt_of_le hi h.bounds.2)] at hc
    exact h.handled i hi c hc
  · intro x hx
    have hx' := h.called x hx
    rw [hmessage x.1 (message_lt hx')]
    exact hx'
  · intro c hc
    obtain ⟨hlt, hm, hcalled⟩ := h.running c hc
    refine ⟨?_, (hmessage _ hlt).trans hm, hcalled⟩
    show s.offset < (s.log ++ more).length
    rw [List.length_append]
    omega
  · intro r hr j hj
    unfold setPublish
    dsimp only
    rcases List.mem_append.mp hr with hold | hnew
    · obtain ⟨old, hold', hvalue⟩ := h.origins r hold j hj
      by_cases hjk : j = k
      · rw [if_pos hjk]
        rw [hjk] at hold'
        obtain ⟨hpayload, hheaders⟩ := hsame old hold'
        exact ⟨call, rfl, by rw [hvalue, hpayload, hheaders]⟩
      · rw [if_neg hjk]
        exact ⟨old, hold', hvalue⟩
    · obtain rfl := hmore r hnew
      obtain rfl : k = j := Option.some.inj hj
      exact ⟨call, if_pos rfl, rfl⟩
  · intro j c hc hs
    unfold setPublish at hc
    dsimp only at hc
    split at hc
    · next hjk =>
        obtain rfl := Option.some.inj hc
        rw [hjk]
        exact hstored hs
    · obtain ⟨r, hr, horigin⟩ := h.stored j c hc hs
      exact ⟨r, List.mem_append_left more hr, horigin⟩
  · intro j c hc
    unfold setPublish at hc
    dsimp only at hc
    split at hc
    · obtain rfl := Option.some.inj hc
      exact hpaced
    · exact h.paced j c hc

/-- A publish goes on without a record. -/
theorem Sound.setPublish (h : s.Sound) {k : ℕ} {call : SendCall} (hpaced : call.Paced)
    (hsame : ∀ old, s.publishes k = some old →
      old.payload = call.payload ∧ old.headers = call.headers)
    (hstored : call.Stored → ∃ r ∈ s.log, r.origin = some k) : (s.setPublish k call).Sound := by
  have hpublished := h.published [] hpaced hsame (by simp)
    (by rw [List.append_nil]; exact hstored)
  rw [List.append_nil] at hpublished
  exact hpublished

/-- The offset moves on over a record that is no payload, or that was handled. -/
theorem Sound.advance (h : s.Sound) (hlt : s.offset < s.log.length)
    (calls : List (ℕ × HandlerCall)) (hcalls : ∀ x ∈ calls, x ∈ s.called)
    (hmessage : ∀ call, s.message s.offset = some call → (s.offset, call) ∈ calls) :
    Sound { s with running := none, offset := s.offset + 1, handled := s.handled ++ calls } := by
  refine ⟨⟨h.bounds.1.trans (Nat.le_succ _), hlt⟩, fun i hi call hcall => ?_, h.called,
    fun x hx => ?_, fun call hcall => ?_, h.origins, h.stored, h.paced⟩
  · apply List.mem_append.mpr
    rcases Nat.lt_succ_iff_lt_or_eq.mp hi with hbefore | rfl
    · exact .inl (h.handled i hbefore call hcall)
    · exact .inr (hmessage call hcall)
  · exact (List.mem_append.mp hx).elim (h.resolved x) (hcalls x)
  · exact absurd hcall (by simp)

/-! ### One step -/

theorem not_stored {call : SendCall}
    (h : (∃ attempt, call.phase = .sending attempt false) ∨ call.phase = .connecting ∨
      call.phase = .rejected ∨ ∃ attempt, call.phase = .waiting attempt) : ¬ call.Stored := by
  unfold SendCall.Stored
  rintro (⟨a, ha⟩ | ha) <;> rcases h with ⟨b, hb⟩ | hb | hb | ⟨b, hb⟩ <;> simp [ha] at hb

theorem afterError_same (call : SendCall) (attempt : ℕ) (err : SendError) :
    (afterError call attempt err).payload = call.payload ∧
      (afterError call attempt err).headers = call.headers ∧
      ¬ (afterError call attempt err).Stored := by
  unfold afterError
  split
  · split
    · exact ⟨rfl, rfl, not_stored (.inr (.inr (.inl rfl)))⟩
    · exact ⟨rfl, rfl, not_stored (.inr (.inr (.inr ⟨attempt, rfl⟩)))⟩
  · exact ⟨rfl, rfl, not_stored (.inr (.inr (.inl rfl)))⟩

/-- A step of a publish that is called. -/
theorem Sound.goesOn (h : s.Sound) {k : ℕ} {old call : SendCall} (hold : s.publishes k = some old)
    (hpayload : call.payload = old.payload) (hheaders : call.headers = old.headers)
    (hpaced : call.Paced) (hstored : call.Stored → old.Stored) : (s.setPublish k call).Sound := by
  refine h.setPublish hpaced (fun x hx => ?_) fun hs => h.stored k old hold (hstored hs)
  obtain rfl := Option.some.inj (hold.symm.trans hx)
  exact ⟨hpayload.symm, hheaders.symm⟩

theorem Sound.stores (h : s.Sound) {k : ℕ} {call : SendCall} {attempt : ℕ} {stored : Bool}
    (hcall : s.publishes k = some call) (hphase : call.phase = .sending attempt stored) :
    Sound { s.setPublish k { call with phase := .sending attempt true } with
      log := s.log ++ [⟨some (sentValue call.payload call.headers), some k⟩] } := by
  have hpaced : SendCall.Paced { call with phase := .sending attempt true } := by
    have hold := h.paced k call hcall
    unfold SendCall.Paced at hold
    rw [hphase] at hold
    exact hold
  refine h.published _ hpaced (fun x hx => ?_) (by simp)
    fun _ => ⟨_, List.mem_append_right _ (List.mem_singleton_self _), rfl⟩
  obtain rfl := Option.some.inj (hcall.symm.trans hx)
  exact ⟨rfl, rfl⟩

theorem Sound.foreign (h : s.Sound) (value : Option JsString) :
    Sound { s with log := s.log ++ [⟨value, none⟩] } := by
  have hmessage (i : ℕ) (hi : i < s.log.length) :
      message { s with log := s.log ++ [⟨value, none⟩] } i = s.message i := message_added hi
  refine ⟨⟨h.bounds.1, ?_⟩, ?_, ?_, h.resolved, ?_, ?_, ?_, h.paced⟩
  · exact h.bounds.2.trans (by simp)
  · intro i hi c hc
    rw [hmessage i (lt_of_lt_of_le hi h.bounds.2)] at hc
    exact h.handled i hi c hc
  · intro x hx
    have hx' := h.called x hx
    rw [hmessage x.1 (message_lt hx')]
    exact hx'
  · intro c hc
    obtain ⟨hlt, hm, hcalled⟩ := h.running c hc
    exact ⟨hlt.trans (by simp), (hmessage _ hlt).trans hm, hcalled⟩
  · intro r hr j hj
    rcases List.mem_append.mp hr with hold | hnew
    · exact h.origins r hold j hj
    · rw [List.mem_singleton.mp hnew] at hj
      exact absurd hj (by simp)
  · intro j c hc hs
    obtain ⟨r, hr, horigin⟩ := h.stored j c hc hs
    exact ⟨r, List.mem_append_left _ hr, horigin⟩

theorem Sound.fetches (h : s.Sound) (hstep : s.step .fetches = some t) : t.Sound := by
  rw [step] at hstep
  split at hstep
  · next hready =>
      obtain ⟨hnone, hlt⟩ := hready
      rw [Option.isNone_iff_eq_none] at hnone
      cases hmessage : s.message s.offset with
      | none =>
          -- the record is skipped
          rw [hmessage] at hstep
          obtain rfl := Option.some.inj hstep
          have hadvance := h.advance hlt [] (by simp)
            (fun call hcall => absurd (hmessage.symm.trans hcall) (by simp))
          rw [List.append_nil, ← hnone] at hadvance
          exact hadvance
      | some call =>
          rw [hmessage] at hstep
          obtain rfl := Option.some.inj hstep
          refine ⟨h.bounds, h.handled, fun x hx => ?_, fun x hx => ?_, fun c hc => ?_, h.origins,
            h.stored, h.paced⟩
          · rcases List.mem_append.mp hx with hold | hnew
            · exact h.called x hold
            · rw [List.mem_singleton.mp hnew]
              exact hmessage
          · exact List.mem_append_left _ (h.resolved x hx)
          · obtain rfl := Option.some.inj hc
            exact ⟨hlt, hmessage, by simp⟩
  · exact absurd hstep (by simp)

theorem Sound.handlerResolves (h : s.Sound) (hstep : s.step .handlerResolves = some t) :
    t.Sound := by
  rw [step] at hstep
  split at hstep
  · next call hrunning =>
      obtain ⟨hlt, hmessage, hcalled⟩ := h.running call hrunning
      obtain rfl := Option.some.inj hstep
      refine h.advance hlt [(s.offset, call)] (by simpa using hcalled) fun c hc => ?_
      obtain rfl := Option.some.inj (hmessage.symm.trans hc)
      exact List.mem_singleton_self _
  · exact absurd hstep (by simp)

/-- The consumer gives a record up and goes back to an offset it had before. -/
theorem Sound.back (h : s.Sound) {offset : ℕ} (hoffset : s.committed ≤ offset)
    (hle : offset ≤ s.offset) : Sound { s with running := none, offset } :=
  ⟨⟨hoffset, hle.trans h.bounds.2⟩, fun i hi => h.handled i (lt_of_lt_of_le hi hle), h.called,
    h.resolved, fun c hc => absurd hc (by simp), h.origins, h.stored, h.paced⟩

theorem Sound.step (h : s.Sound) {e : MailboxEvent} (hstep : s.step e = some t) : t.Sound := by
  cases e with
  | publish k p headers =>
      rw [Mailbox.step] at hstep
      split at hstep
      · next hnone =>
          obtain rfl := Option.some.inj hstep
          refine h.setPublish ⟨rfl, rfl⟩ (fun x hx => ?_) fun hs => ?_
          · exact absurd (hnone.symm.trans hx) (by simp)
          · exact absurd hs (not_stored (.inr (.inl rfl)))
      · exact absurd hstep (by simp)
  | foreign value =>
      obtain rfl := Option.some.inj hstep
      exact h.foreign value
  | fetches => exact h.fetches hstep
  | handlerResolves => exact h.handlerResolves hstep
  | handlerRejects =>
      rw [Mailbox.step] at hstep
      split at hstep
      · obtain rfl := Option.some.inj hstep
        exact h.back h.bounds.1 le_rfl
      · exact absurd hstep (by simp)
  | commits =>
      obtain rfl := Option.some.inj hstep
      exact ⟨⟨le_rfl, h.bounds.2⟩, h.handled, h.called, h.resolved, h.running, h.origins, h.stored,
        h.paced⟩
  | restarts =>
      obtain rfl := Option.some.inj hstep
      exact h.back le_rfl h.bounds.1
  | connected k =>
      rw [Mailbox.step] at hstep
      split at hstep
      · next call hcall =>
          split at hstep
          · next hphase =>
              obtain rfl := Option.some.inj hstep
              exact h.goesOn hcall rfl rfl ((h.paced k call hcall).first hphase)
                fun hs => absurd hs (not_stored (.inl ⟨0, rfl⟩))
          · exact absurd hstep (by simp)
      · exact absurd hstep (by simp)
  | connectFails k =>
      rw [Mailbox.step] at hstep
      split at hstep
      · next call hcall =>
          split at hstep
          · obtain rfl := Option.some.inj hstep
            exact h.goesOn hcall rfl rfl (h.paced k call hcall).bounds
              fun hs => absurd hs (not_stored (.inr (.inr (.inl rfl))))
          · exact absurd hstep (by simp)
      · exact absurd hstep (by simp)
  | stores k =>
      rw [Mailbox.step] at hstep
      split at hstep
      · next call hcall =>
          split at hstep
          · next hphase =>
              obtain rfl := Option.some.inj hstep
              exact h.stores hcall hphase
          · exact absurd hstep (by simp)
      · exact absurd hstep (by simp)
  | sendResolves k =>
      rw [Mailbox.step] at hstep
      split at hstep
      · next call hcall =>
          split at hstep
          · next hphase =>
              obtain rfl := Option.some.inj hstep
              exact h.goesOn hcall rfl rfl (h.paced k call hcall).bounds fun _ => .inl ⟨_, hphase⟩
          · exact absurd hstep (by simp)
      · exact absurd hstep (by simp)
  | sendRejects k err =>
      rw [Mailbox.step] at hstep
      split at hstep
      · next call hcall =>
          split at hstep
          · next hphase =>
              obtain rfl := Option.some.inj hstep
              obtain ⟨hpayload, hheaders, hnot⟩ := afterError_same call _ err
              exact h.goesOn hcall hpayload hheaders ((h.paced k call hcall).failed hphase err)
                fun hs => absurd hs hnot
          · exact absurd hstep (by simp)
      · exact absurd hstep (by simp)
  | retries k =>
      rw [Mailbox.step] at hstep
      split at hstep
      · next call hcall =>
          split at hstep
          · next hphase =>
              obtain rfl := Option.some.inj hstep
              exact h.goesOn hcall rfl rfl ((h.paced k call hcall).again hphase)
                fun hs => absurd hs (not_stored (.inl ⟨_, rfl⟩))
          · exact absurd hstep (by simp)
      · exact absurd hstep (by simp)

/-! ### Going on -/

/-- The consumer alone, with a handler that resolves. -/
def Consumes : MailboxEvent → Prop
  | .fetches | .handlerResolves | .commits => True
  | _ => False

/-- The next record is over, whatever it is. -/
theorem passes_next (hnone : s.running = none) (hlt : s.offset < s.log.length) :
    ∃ fs t, (∀ e ∈ fs, Consumes e) ∧ Steps.run Mailbox.step s fs = some t ∧ t.log = s.log ∧
      t.running = none ∧ t.offset = s.offset + 1 := by
  have hready : s.running.isNone = true ∧ s.offset < s.log.length := ⟨by simp [hnone], hlt⟩
  cases hmessage : s.message s.offset with
  | none =>
      refine ⟨[.fetches], { s with offset := s.offset + 1 }, by simp [Consumes], ?_, rfl, hnone,
        rfl⟩
      rw [Steps.run_cons, Mailbox.step, if_pos hready, hmessage]
      rfl
  | some call =>
      refine ⟨[.fetches, .handlerResolves], { s with
          running := none
          offset := s.offset + 1
          called := s.called ++ [(s.offset, call)]
          handled := s.handled ++ [(s.offset, call)] },
        by simp [Consumes], ?_, rfl, rfl, rfl⟩
      rw [Steps.run_cons, Mailbox.step, if_pos hready, hmessage]
      rfl

/-- By induction on the records that are left: the consumer comes to the end. -/
theorem reaches_end (n : ℕ) : ∀ {s : Mailbox}, s.running = none → s.offset + n = s.log.length →
    ∃ fs t, (∀ e ∈ fs, Consumes e) ∧ Steps.run Mailbox.step s fs = some t ∧ t.log = s.log ∧
      t.offset = s.log.length := by
  induction n with
  | zero =>
      intro s _ hend
      exact ⟨[], s, by simp, rfl, rfl, hend⟩
  | succ n ih =>
      intro s hnone hleft
      obtain ⟨fs, m, hfs, hrun, hlog, hidle, hoffset⟩ := passes_next hnone (by omega)
      obtain ⟨gs, t, hgs, hrest, hsame, hend⟩ := ih hidle (by rw [hoffset, hlog]; omega)
      refine ⟨fs ++ gs, t, ?_, ?_, hsame.trans hlog, hend.trans (congrArg _ hlog)⟩
      · intro e he
        exact (List.mem_append.mp he).elim (hfs e) (hgs e)
      · exact Steps.run_append_some.mpr ⟨m, hrun, hrest⟩

/-- A call that runs settles first. -/
theorem settles (h : s.Sound) : ∃ fs t, (∀ e ∈ fs, Consumes e) ∧
    Steps.run Mailbox.step s fs = some t ∧ t.log = s.log ∧ t.running = none ∧
      t.offset ≤ t.log.length := by
  cases hrunning : s.running with
  | none => exact ⟨[], s, by simp, rfl, rfl, hrunning, h.bounds.2⟩
  | some call =>
      obtain ⟨hlt, -, -⟩ := h.running call hrunning
      refine ⟨[.handlerResolves], { s with
          running := none
          offset := s.offset + 1
          handled := s.handled ++ [(s.offset, call)] },
        by simp [Consumes], ?_, rfl, rfl, hlt⟩
      rw [Steps.run_cons, Mailbox.step, hrunning]
      rfl

/-- The consumer commits the end of the topic. -/
theorem commits_end (h : s.Sound) : ∃ fs t, (∀ e ∈ fs, Consumes e) ∧
    Steps.run Mailbox.step s fs = some t ∧ t.log = s.log ∧ t.committed = s.log.length := by
  obtain ⟨fs, m, hfs, hrun, hlog, hnone, hle⟩ := settles h
  obtain ⟨gs, u, hgs, hrest, hsame, hend⟩ := reaches_end (m.log.length - m.offset) hnone (by omega)
  refine ⟨fs ++ (gs ++ [.commits]), { u with committed := u.offset }, ?_, ?_, hsame.trans hlog,
    hend.trans (congrArg _ hlog)⟩
  · intro e he
    rcases List.mem_append.mp he with hfirst | he
    · exact hfs e hfirst
    · rcases List.mem_append.mp he with hsecond | hlast
      · exact hgs e hsecond
      · rw [List.mem_singleton.mp hlast]
        trivial
  · refine Steps.run_append_some.mpr ⟨m, hrun, ?_⟩
    exact Steps.run_append_some.mpr ⟨u, hrest, rfl⟩

/-- **What is published is handled.**  Of every run: what lies below the committed offset was
handled, a handler is called with nothing but payloads of the topic, the record of a publish
that resolved is there and carries its payload, and no record keeps the consumer from the
end of the topic. -/
theorem published_handled {es : List MailboxEvent} {s : Mailbox}
    (hrun : Steps.run Mailbox.step init es = some s) :
    (∀ i < s.committed, ∀ call, s.message i = some call → (i, call) ∈ s.handled) ∧
    (∀ x ∈ s.called ++ s.handled, s.message x.1 = some x.2) ∧
    (∀ k call, s.publishes k = some call →
      call.sends ≤ 5 ∧ call.waited ≤ 1500 ∧
        (call.phase = .resolved → ∃ (i : ℕ) (r : TopicRecord), s.log[i]? = some r ∧
          r.origin = some k)) ∧
    (∀ i (r : TopicRecord) k, s.log[i]? = some r → r.origin = some k →
      ∃ call, s.publishes k = some call ∧ ∀ d, call.payload.timestamp = .finite d →
        ∃ c, s.message i = some c ∧ Delivered call.payload call.headers c) ∧
    ∃ fs t, (∀ e ∈ fs, Consumes e) ∧ Steps.run Mailbox.step s fs = some t ∧ t.log = s.log ∧
      t.committed = s.log.length := by
  have h : s.Sound := Steps.invariant (fun _ _ _ hs hstep => hs.step hstep) init_sound hrun
  refine ⟨fun i hi call hcall => h.handled i (lt_of_lt_of_le hi h.bounds.1) call hcall,
    fun x hx => ?_, fun k call hcall => ?_, fun i r k hr hk => ?_, commits_end h⟩
  · rcases List.mem_append.mp hx with hcalled | hhandled
    · exact h.called x hcalled
    · exact h.called x (h.resolved x hhandled)
  · obtain ⟨hsends, hwaited⟩ := (h.paced k call hcall).bounds
    refine ⟨hsends, hwaited, fun hphase => ?_⟩
    obtain ⟨r, hr, horigin⟩ := h.stored k call hcall (.inr hphase)
    obtain ⟨i, hi⟩ := List.getElem?_of_mem hr
    exact ⟨i, r, hi, horigin⟩
  · obtain ⟨call, hcall, hvalue⟩ := h.origins r (List.mem_of_getElem? hr) k hk
    refine ⟨call, hcall, fun d hd => ⟨sentCall call.payload call.headers, ?_, ?_⟩⟩
    · unfold message
      rw [hr, Option.bind_some, hvalue]
      exact eachMessage_sent hd
    · exact sentCall_delivered call.payload call.headers

/-- A task. -/
def mailboxTask : Payload := ⟨js "t", js "w", [(js "a", .bool true)], .finite (Decimal.ofInt 1)⟩

/-- A send whose record is stored before it fails and is tried again, two records that are no
payloads, a handler that rejects, and a crash. -/
def mailboxRun : List MailboxEvent :=
  [.publish 0 mailboxTask [], .foreign (some (js "x")), .connected 0, .stores 0,
    .sendRejects 0 ⟨some (js "UNKNOWN_TOPIC_OR_PARTITION"), none⟩, .retries 0, .stores 0,
    .sendResolves 0, .foreign none, .fetches, .fetches, .handlerRejects, .fetches,
    .handlerResolves, .commits, .fetches, .restarts, .fetches, .handlerResolves, .fetches]

theorem published_handled_twice : ∃ s, Steps.run Mailbox.step init mailboxRun = some s ∧
    s.offset = 4 ∧ s.committed = 2 ∧ s.handled.map Prod.fst = [1, 2] ∧
    s.called.map Prod.fst = [1, 1, 2, 2] ∧
    ∃ fs t, (∀ e ∈ fs, Consumes e) ∧ Steps.run Mailbox.step s fs = some t ∧ t.log = s.log ∧
      t.committed = s.log.length := by
  have hends : ((Steps.run Mailbox.step init mailboxRun).map fun s =>
      (s.offset, s.committed, s.handled.map Prod.fst, s.called.map Prod.fst))
        = some (4, 2, [1, 2], [1, 1, 2, 2]) := by decide +kernel
  obtain ⟨s, hrun, hshape⟩ := Option.map_eq_some_iff.mp hends
  simp only [Prod.mk.injEq] at hshape
  exact ⟨s, hrun, hshape.1, hshape.2.1, hshape.2.2.1, hshape.2.2.2,
    (published_handled hrun).2.2.2.2⟩

end Mailbox

end Kaiban
