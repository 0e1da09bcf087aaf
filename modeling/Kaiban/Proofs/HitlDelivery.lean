/-
What becomes of a decision on the list of its task.

The list is the path that may not lose a decision.  Each one that was pushed is in one place
at a time: on the list of its task, popped by a poll, handed to an open wait for the task, or
gone, because it expired, or because the wait or the connection that popped it had ended.

A decision that is on the list of an open wait ends it: the poll comes to it in its turn, and
takes it as long as its envelope is not older than the list may get.
-/
import Kaiban.Proofs.HitlRounds

open JsString

namespace Kaiban

variable {ρ : Type} {sg : Signing}

/-! ### The places of a decision -/

/-- The rounds, with what became of the decisions that were pushed. -/
structure Deliveries (ρ : Type) where
  rounds : HitlRounds ρ
  pushed : List ℕ
  /-- Handed to an open wait by its poll, each with the task of the wait. -/
  handed : List (ℕ × JsString)
  expired : List ℕ
  /-- Popped for a wait or a connection that had ended. -/
  dropped : List ℕ

inductive DeliveryEvent (ρ : Type) where
  | rounds (e : HitlRoundsEvent ρ)
  /-- The connection of the poll ends before the reply has come. -/
  | replyLost

namespace Deliveries

def init (ρ : Type) : Deliveries ρ := ⟨.init ρ, [], [], [], []⟩

/-- The decision a command pushes. -/
def pushes (s : HitlRounds ρ) (i : ℕ) : List ℕ :=
  match s.forwards[i]? with
  | some ⟨_, _, _, .push⟩ => [i]
  | _ => []

/-- What a reply that has come to the loop is: handed to the wait, if it is still open. -/
def received (d : Deliveries ρ) : Deliveries ρ :=
  match d.rounds.wait, d.rounds.reply with
  | some w, some i =>
      if w.resolved then { d with dropped := d.dropped ++ [i] }
      else { d with handed := d.handed ++ [(i, w.taskId)] }
  | _, _ => d

/-- What an event of the rounds does to the decisions. -/
def note (d : Deliveries ρ) : HitlRoundsEvent ρ → Deliveries ρ
  | .command i => { d with pushed := d.pushed ++ pushes d.rounds i }
  | .forgotten taskId left =>
      { d with expired := d.expired ++ (d.rounds.lists taskId).drop left }
  | .begins _ => { d with dropped := d.dropped ++ d.rounds.reply.toList }
  | .popped _ => d.received
  | .forward .. | .fails _ | .subscribed | .brpop | .message _ | .waits _ => d

def step (sg : Signing) (d : Deliveries ρ) : DeliveryEvent ρ → Option (Deliveries ρ)
  | .rounds e => (d.rounds.step sg e).map fun rounds => { d.note e with rounds }
  | .replyLost =>
      match d.rounds.reply with
      | none => none
      | some i =>
          some { d with rounds := { d.rounds with reply := none }, dropped := d.dropped ++ [i] }

/-- In how many places a decision for a task is. -/
def places (d : Deliveries ρ) (taskId : JsString) (i : ℕ) : ℕ :=
  (d.rounds.lists taskId).count i + d.rounds.reply.toList.count i +
    (d.handed.map Prod.fst).count i + d.expired.count i + d.dropped.count i

/-- The task of a decision. -/
def taskOf (s : HitlRounds ρ) (i : ℕ) : Option JsString := s.forwards[i]?.map HitlForward.taskId

/-- The invariant. -/
structure Placed (d : Deliveries ρ) : Prop where
  /-- A list holds decisions for its own task. -/
  listed : ∀ taskId, ∀ i ∈ d.rounds.lists taskId, taskOf d.rounds i = some taskId
  /-- A reply was popped from the list of the wait. -/
  reply : ∀ i, d.rounds.reply = some i →
    ∃ w, d.rounds.wait = some w ∧ taskOf d.rounds i = some w.taskId
  handed : ∀ h ∈ d.handed, taskOf d.rounds h.1 = some h.2
  known : ∀ i ∈ d.pushed ++ (d.expired ++ d.dropped), (taskOf d.rounds i).isSome
  /-- A decision that was not pushed is nowhere, and one that was is in one place. -/
  places : ∀ i taskId, taskOf d.rounds i = some taskId →
    d.places taskId i = d.pushed.count i ∧ d.pushed.count i ≤ 1
  unpushed : ∀ i f, d.rounds.forwards[i]? = some f → f.stage = .push → i ∉ d.pushed

theorem init_placed : (init ρ).Placed := by
  refine ⟨?_, ?_, ?_, ?_, ?_, ?_⟩ <;> simp [init, HitlRounds.init, taskOf]

variable {d : Deliveries ρ} {s' : HitlRounds ρ}

theorem taskOf_setStage (s : HitlRounds ρ) (i : ℕ) (stage : ForwardStage) (j : ℕ) :
    taskOf (s.setStage i stage) j = taskOf s j := by
  unfold taskOf HitlRounds.setStage
  dsimp only
  rw [List.getElem?_modify]
  split
  · cases s.forwards[j]? <;> rfl
  · cases s.forwards[j]? <;> rfl

theorem stage_of_setStage {s : HitlRounds ρ} {i : ℕ} {stage : ForwardStage} {f : HitlForward}
    (h : (s.setStage i stage).forwards[i]? = some f) : f.stage = stage := by
  unfold HitlRounds.setStage at h
  dsimp only at h
  rw [List.getElem?_modify] at h
  obtain ⟨g, -, rfl⟩ := Option.map_eq_some_iff.mp h
  rw [if_pos rfl]

/-- An unknown decision is nowhere. -/
theorem Placed.nowhere (h : d.Placed) {i : ℕ} (hnone : taskOf d.rounds i = none)
    (taskId : JsString) : d.places taskId i = 0 ∧ d.pushed.count i = 0 := by
  have hknown : i ∉ d.pushed ++ (d.expired ++ d.dropped) := fun hmem => by
    have := h.known i hmem
    rw [hnone] at this
    exact absurd this (by simp)
  have hlist : i ∉ d.rounds.lists taskId := fun hmem => by
    rw [h.listed taskId i hmem] at hnone
    exact absurd hnone (by simp)
  have hreply : i ∉ d.rounds.reply.toList := fun hmem => by
    obtain ⟨w, -, htask⟩ := h.reply i (by simpa using hmem)
    rw [htask] at hnone
    exact absurd hnone (by simp)
  have hhanded : i ∉ d.handed.map Prod.fst := fun hmem => by
    obtain ⟨x, hx, rfl⟩ := List.mem_map.mp hmem
    rw [h.handed x hx] at hnone
    exact absurd hnone (by simp)
  simp only [List.mem_append, not_or] at hknown
  obtain ⟨hpushed, hexpired, hdropped⟩ := hknown
  unfold Deliveries.places
  simp only [List.count_eq_zero_of_not_mem hlist, List.count_eq_zero_of_not_mem hreply,
    List.count_eq_zero_of_not_mem hhanded, List.count_eq_zero_of_not_mem hexpired,
    List.count_eq_zero_of_not_mem hdropped, List.count_eq_zero_of_not_mem hpushed]
  exact ⟨trivial, trivial⟩

/-! ### One event -/

/-- A decision is submitted. -/
theorem Placed.forward (h : d.Placed) (taskId decision : JsString) (signedAt : ℕ) :
    Placed { d with rounds := { d.rounds with
      forwards := d.rounds.forwards ++ [⟨taskId, decision, signedAt, .push⟩] } } := by
  set forwards := d.rounds.forwards ++ [⟨taskId, decision, signedAt, .push⟩] with hforwards
  have hold {i : ℕ} {T : JsString} (htask : taskOf d.rounds i = some T) :
      taskOf { d.rounds with forwards := forwards } i = some T := by
    obtain ⟨f, hf, rfl⟩ := Option.map_eq_some_iff.mp htask
    obtain ⟨hlt, -⟩ := List.getElem?_eq_some_iff.mp hf
    rw [taskOf, hforwards]
    dsimp only
    rw [List.getElem?_append_left hlt, hf]
    rfl
  refine ⟨fun T i hi => hold (h.listed T i hi), fun i hi => ?_,
    fun x hx => hold (h.handed x hx), fun i hi => ?_, fun i T hT => ?_,
    fun i f hf hstage hmem => ?_⟩
  · obtain ⟨w, hw, htask⟩ := h.reply i hi
    exact ⟨w, hw, hold htask⟩
  · obtain ⟨T, hT⟩ := Option.isSome_iff_exists.mp (h.known i hi)
    rw [hold hT]
    rfl
  · cases htask : taskOf d.rounds i with
    | none =>
        obtain ⟨hplaces, hpushed⟩ := h.nowhere htask T
        exact ⟨hplaces.trans hpushed.symm, by rw [hpushed]; omega⟩
    | some U =>
        obtain rfl : U = T := Option.some.inj ((hold htask).symm.trans hT)
        exact h.places i U htask
  · obtain ⟨T, hT⟩ := Option.isSome_iff_exists.mp (h.known i (List.mem_append_left _ hmem))
    obtain ⟨g, hg, -⟩ := Option.map_eq_some_iff.mp hT
    obtain ⟨hlt, -⟩ := List.getElem?_eq_some_iff.mp hg
    dsimp only at hf
    rw [hforwards, List.getElem?_append_left hlt] at hf
    exact h.unpushed i f hf hstage hmem

/-- Nothing that was pushed moves. -/
theorem Placed.of_same (h : d.Placed) (htask : ∀ i, taskOf s' i = taskOf d.rounds i)
    (hlists : s'.lists = d.rounds.lists) (hreply : s'.reply = d.rounds.reply)
    (hwait : ∀ w, d.rounds.wait = some w → ∃ w', s'.wait = some w' ∧ w'.taskId = w.taskId)
    (hpush : ∀ (i : ℕ) (f : HitlForward), s'.forwards[i]? = some f → f.stage = .push →
      ∃ g : HitlForward, d.rounds.forwards[i]? = some g ∧ g.stage = .push) :
    Placed { d with rounds := s' } := by
  refine ⟨fun T i hi => ?_, fun i hi => ?_, fun x hx => (htask _).trans (h.handed x hx),
    fun i hi => ?_, fun i T hT => ?_, fun i f hf hstage => ?_⟩
  · dsimp only at hi
    rw [hlists] at hi
    exact (htask i).trans (h.listed T i hi)
  · obtain ⟨w, hw, hown⟩ := h.reply i (hreply ▸ hi)
    obtain ⟨w', hw', hsame⟩ := hwait w hw
    exact ⟨w', hw', by rw [htask, hown, hsame]⟩
  · rw [htask]
    exact h.known i hi
  · have hat := h.places i T ((htask i).symm.trans hT)
    unfold Deliveries.places at hat ⊢
    dsimp only
    rw [hlists, hreply]
    exact hat
  · obtain ⟨g, hg, hwas⟩ := hpush i f hf hstage
    exact h.unpushed i g hg hwas

/-- A call goes on to a stage after its push. -/
theorem Placed.setStage (h : d.Placed) (i : ℕ) {stage : ForwardStage} (hstage : stage ≠ .push)
    (inbox : List ℕ) :
    Placed { d with rounds := { d.rounds.setStage i stage with inbox } } := by
  refine h.of_same (taskOf_setStage d.rounds i stage) rfl rfl (fun w hw => ⟨w, hw, rfl⟩) ?_
  intro j f hf hpush
  obtain ⟨g, hg, -, hsame | ⟨-, hnow⟩⟩ := HitlRounds.setStage_get hf
  · exact ⟨g, hg, hsame.symm.trans hpush⟩
  · exact absurd (hnow.symm.trans hpush) hstage

/-- A decision is pushed at the head of the list of its task. -/
theorem Placed.push (h : d.Placed) {i : ℕ} {f : HitlForward}
    (hf : d.rounds.forwards[i]? = some f) (hstage : f.stage = .push) :
    Placed { d with
      pushed := d.pushed ++ [i]
      rounds := (d.rounds.setStage i .expire).setList f.taskId
        (i :: d.rounds.lists f.taskId) } := by
  have hown : taskOf d.rounds i = some f.taskId := by rw [taskOf, hf]; rfl
  have hnot := h.unpushed i f hf hstage
  have htask (j : ℕ) : taskOf ((d.rounds.setStage i .expire).setList f.taskId
      (i :: d.rounds.lists f.taskId)) j = taskOf d.rounds j := taskOf_setStage d.rounds i .expire j
  refine ⟨fun T j hj => ?_, fun j hj => ?_, fun x hx => (htask _).trans (h.handed x hx),
    fun j hj => ?_, fun j T hT => ?_, fun j g hg hpush hmem => ?_⟩
  · rw [htask]
    unfold HitlRounds.setList HitlRounds.setStage at hj
    dsimp only at hj
    split at hj
    · next heq =>
        rcases List.mem_cons.mp hj with rfl | hold
        · rw [heq, hown]
        · rw [heq]
          exact h.listed f.taskId j hold
    · exact h.listed T j hj
  · obtain ⟨w, hw, hown⟩ := h.reply j hj
    exact ⟨w, hw, (htask j).trans hown⟩
  · rw [htask]
    rcases List.mem_append.mp hj with hpushed | hgone
    · rcases List.mem_append.mp hpushed with hold | hnew
      · exact h.known j (List.mem_append_left _ hold)
      · rw [List.mem_singleton.mp hnew, hown]
        rfl
    · exact h.known j (List.mem_append_right _ hgone)
  · rw [htask] at hT
    have hat := h.places j T hT
    by_cases hji : j = i
    · subst hji
      obtain rfl : f.taskId = T := Option.some.inj (hown.symm.trans hT)
      have hzero := List.count_eq_zero_of_not_mem hnot
      unfold Deliveries.places at hat ⊢
      dsimp only [HitlRounds.setStage, HitlRounds.setList]
      rw [if_pos rfl, List.count_cons_self, List.count_append, List.count_singleton_self]
      omega
    · unfold Deliveries.places at hat ⊢
      dsimp only [HitlRounds.setStage, HitlRounds.setList]
      have hnew : ([i] : List ℕ).count j = 0 :=
        List.count_eq_zero_of_not_mem fun hmem => hji (List.mem_singleton.mp hmem)
      rw [List.count_append, hnew, Nat.add_zero]
      split
      · next heq =>
          rw [List.count_cons_of_ne (fun hij => hji hij.symm), ← heq]
          exact hat
      · exact hat
  · obtain ⟨g', hg', -, hsame | ⟨-, hnow⟩⟩ := HitlRounds.setStage_get hg
    · rcases List.mem_append.mp hmem with hold | hnew
      · exact h.unpushed j g' hg' (hsame.symm.trans hpush) hold
      · obtain rfl := List.mem_singleton.mp hnew
        exact absurd ((stage_of_setStage hg).symm.trans hpush) (by simp)
    · exact absurd (hnow.symm.trans hpush) (by simp)

/-- Only the newest decisions of a list are left. -/
theorem Placed.forgotten (h : d.Placed) (taskId : JsString) (left : ℕ) :
    Placed { d with
      expired := d.expired ++ (d.rounds.lists taskId).drop left
      rounds := d.rounds.setList taskId ((d.rounds.lists taskId).take left) } := by
  refine ⟨fun T j hj => ?_, h.reply, h.handed, fun j hj => ?_, fun j T hT => ?_, h.unpushed⟩
  · unfold HitlRounds.setList at hj
    dsimp only at hj
    split at hj
    · next heq =>
        rw [heq]
        exact h.listed taskId j (List.mem_of_mem_take hj)
    · exact h.listed T j hj
  · dsimp only at hj
    simp only [List.mem_append] at hj
    rcases hj with hpushed | (hexpired | hdrop) | hdropped
    · exact h.known j (by simp [hpushed])
    · exact h.known j (by simp [hexpired])
    · have htask := h.listed taskId j (List.mem_of_mem_drop hdrop)
      show (taskOf d.rounds j).isSome
      rw [htask]
      rfl
    · exact h.known j (by simp [hdropped])
  · have hat := h.places j T hT
    have hsplit : (d.rounds.lists taskId).count j =
        ((d.rounds.lists taskId).take left).count j +
          ((d.rounds.lists taskId).drop left).count j := by
      rw [← List.count_append, List.take_append_drop]
    unfold Deliveries.places at hat ⊢
    dsimp only [HitlRounds.setList]
    rw [List.count_append]
    split
    · next heq =>
        rw [heq] at hat
        omega
    · next hne =>
        have hnone : ((d.rounds.lists taskId).drop left).count j = 0 := by
          refine List.count_eq_zero_of_not_mem fun hmem => hne ?_
          have htask := h.listed taskId j (List.mem_of_mem_drop hmem)
          exact Option.some.inj (hT.symm.trans htask)
        omega

/-- The reply goes to a place of its own: a wait was handed it, or nobody. -/
theorem Placed.replied (h : d.Placed) {i : ℕ} (hreply : d.rounds.reply = some i)
    {wait : Option (HitlWait ρ)} {rounds : ℕ} {uses : List (ℕ × ℕ)} {subscribed : Bool}
    {inbox : List ℕ} {handed : List (ℕ × JsString)} {dropped : List ℕ}
    (hplace : handed = d.handed ∧ dropped = d.dropped ++ [i] ∨
      (∃ taskId, taskOf d.rounds i = some taskId ∧ handed = d.handed ++ [(i, taskId)]) ∧
        dropped = d.dropped) :
    Placed { d with
      rounds := { d.rounds with reply := none, wait, rounds, uses, subscribed, inbox }
      handed, dropped } := by
  have hknown : (taskOf d.rounds i).isSome := by
    obtain ⟨w, -, htask⟩ := h.reply i hreply
    rw [htask]
    rfl
  refine ⟨h.listed, fun j hj => absurd hj (by simp), fun x hx => ?_, fun j hj => ?_,
    fun j T hT => ?_, h.unpushed⟩
  · rcases hplace with ⟨rfl, -⟩ | ⟨⟨taskId, htask, rfl⟩, -⟩
    · exact h.handed x hx
    · rcases List.mem_append.mp hx with hold | hnew
      · exact h.handed x hold
      · rw [List.mem_singleton.mp hnew]
        exact htask
  · rcases hplace with ⟨-, rfl⟩ | ⟨-, rfl⟩
    · simp only [← List.append_assoc] at hj
      rcases List.mem_append.mp hj with hold | hnew
      · exact h.known j (by simpa using hold)
      · rw [List.mem_singleton.mp hnew]
        exact hknown
    · exact h.known j hj
  · have hat := h.places j T hT
    unfold Deliveries.places at hat ⊢
    rw [hreply] at hat
    dsimp only
    rcases hplace with ⟨rfl, rfl⟩ | ⟨⟨taskId, -, rfl⟩, rfl⟩
    · rw [List.count_append]
      simp only [Option.toList_some, Option.toList_none, List.count_nil] at hat ⊢
      omega
    · rw [List.map_append, List.count_append]
      simp only [Option.toList_some, Option.toList_none, List.count_nil, List.map_cons,
        List.map_nil] at hat ⊢
      omega

/-- A wait begins, and a reply of the one before goes to nobody. -/
theorem Placed.begins (h : d.Placed) (wait : Option (HitlWait ρ)) (rounds : ℕ) :
    Placed { d with
      dropped := d.dropped ++ d.rounds.reply.toList
      rounds := { d.rounds with
        wait, subscribed := false, inbox := [], reply := none, rounds } } := by
  cases hreply : d.rounds.reply with
  | some i => exact h.replied hreply (.inl ⟨rfl, rfl⟩)
  | none =>
      refine ⟨h.listed, fun j hj => absurd hj (by simp), h.handed, fun j hj => ?_,
        fun j T hT => ?_, h.unpushed⟩
      · exact h.known j (by simpa using hj)
      · have hat := h.places j T hT
        unfold Deliveries.places at hat ⊢
        rw [hreply] at hat
        simpa using hat

/-- The poll pops the oldest decision of the list. -/
theorem Placed.brpop (h : d.Placed) {w : HitlWait ρ} {i : ℕ} (hw : d.rounds.wait = some w)
    (hnone : d.rounds.reply = none) (hlast : (d.rounds.lists w.taskId).getLast? = some i) :
    Placed { d with rounds := { d.rounds.setList w.taskId (d.rounds.lists w.taskId).dropLast with
      reply := some i } } := by
  have htask := h.listed w.taskId i (List.mem_of_getLast? hlast)
  refine ⟨fun T j hj => ?_, fun j hj => ?_, h.handed, h.known, fun j T hT => ?_, h.unpushed⟩
  · unfold HitlRounds.setList at hj
    dsimp only at hj
    split at hj
    · next heq =>
        rw [heq]
        exact h.listed w.taskId j (List.mem_of_mem_dropLast hj)
    · exact h.listed T j hj
  · obtain rfl := Option.some.inj hj
    exact ⟨w, hw, htask⟩
  · have hat := h.places j T hT
    have hlist : (d.rounds.lists w.taskId).count j =
        (d.rounds.lists w.taskId).dropLast.count j + [i].count j := by
      rw [← List.count_append]
      congr 1
      exact (List.dropLast_append_getLast? i hlast).symm
    unfold Deliveries.places at hat ⊢
    rw [hnone] at hat
    dsimp only [HitlRounds.setList]
    simp only [Option.toList_none, List.count_nil, Option.toList_some] at hat ⊢
    split
    · next heq =>
        rw [heq] at hat
        omega
    · next hne =>
        have hother : ([i] : List ℕ).count j = 0 := by
          refine List.count_eq_zero_of_not_mem fun hmem => hne ?_
          rw [List.mem_singleton.mp hmem] at hT
          exact Option.some.inj (hT.symm.trans htask)
        omega

/-- The wait goes on with its task. -/
theorem Placed.setWait (h : d.Placed) {w w' : HitlWait ρ} (hw : d.rounds.wait = some w)
    (htask : w'.taskId = w.taskId) (inbox : List ℕ) (uses : List (ℕ × ℕ)) :
    Placed { d with rounds := { d.rounds with wait := some w', inbox, uses } } := by
  refine h.of_same (fun _ => rfl) rfl rfl (fun v hv => ⟨w', rfl, ?_⟩) fun i f hf hpush =>
    ⟨f, hf, hpush⟩
  obtain rfl := Option.some.inj (hw.symm.trans hv)
  exact htask

theorem Placed.message (h : d.Placed) {i now : ℕ} {rest : List ℕ}
    (hgoes : HitlRounds.handed sg { d.rounds with inbox := rest } i (fun raw => .message raw now)
      = some s') : Placed { d with rounds := s' } := by
  obtain ⟨w, w', f, hw, -, htask, -, hwhat⟩ :=
    HitlRounds.handed_cases (fun _ _ _ => HitlRounds.says_of_message) hgoes
  rcases hwhat with rfl | ⟨-, -, -, rfl⟩
  · exact h.setWait hw htask rest d.rounds.uses
  · exact h.setWait hw htask rest (d.rounds.uses ++ [(d.rounds.rounds, i)])

/-- The reply of the poll reaches the loop. -/
theorem Placed.popped (h : d.Placed) {i now : ℕ} (hreply : d.rounds.reply = some i)
    (hgoes : HitlRounds.handed sg { d.rounds with reply := none } i (fun raw => .popped raw now)
      = some s') : Placed { d.received with rounds := s' } := by
  obtain ⟨w, w', f, hw, -, -, -, hwhat⟩ :=
    HitlRounds.handed_cases (fun _ _ _ => HitlRounds.says_of_popped) hgoes
  have hw : d.rounds.wait = some w := hw
  obtain ⟨v, hv, hown⟩ := h.reply i hreply
  obtain rfl := Option.some.inj (hw.symm.trans hv)
  unfold received
  rw [hw, hreply]
  dsimp only
  split
  · rcases hwhat with rfl | ⟨-, -, -, rfl⟩
    · exact h.replied hreply (.inl ⟨rfl, rfl⟩)
    · exact h.replied hreply (.inl ⟨rfl, rfl⟩)
  · rcases hwhat with rfl | ⟨-, -, -, rfl⟩
    · exact h.replied hreply (.inr ⟨⟨w.taskId, hown, rfl⟩, rfl⟩)
    · exact h.replied hreply (.inr ⟨⟨w.taskId, hown, rfl⟩, rfl⟩)

/-- A command of a call is carried out. -/
theorem Placed.command (h : d.Placed) {i : ℕ} {f : HitlForward}
    (hf : d.rounds.forwards[i]? = some f) (hgoes : d.rounds.command i f = some s') :
    Placed { d with pushed := d.pushed ++ pushes d.rounds i, rounds := s' } := by
  have hnothing (hstage : f.stage ≠ .push) :
      d.pushed ++ pushes d.rounds i = d.pushed := by
    unfold pushes
    rw [hf]
    obtain ⟨taskId, decision, signedAt, stage⟩ := f
    cases stage with
    | push => exact absurd rfl hstage
    | expire => exact List.append_nil _
    | publish => exact List.append_nil _
    | ended => exact List.append_nil _
  unfold HitlRounds.command at hgoes
  split at hgoes
  · next hstage =>
      have hone : pushes d.rounds i = [i] := by
        unfold pushes
        rw [hf]
        obtain ⟨taskId, decision, signedAt, stage⟩ := f
        obtain rfl : stage = .push := hstage
        rfl
      obtain rfl := Option.some.inj hgoes
      rw [hone]
      exact h.push hf hstage
  · next hstage =>
      obtain rfl := Option.some.inj hgoes
      rw [hnothing (by simp [hstage])]
      exact h.setStage i (by simp) d.rounds.inbox
  · next hstage =>
      obtain rfl := Option.some.inj hgoes
      rw [hnothing (by simp [hstage])]
      exact h.setStage i (by simp) _
  · exact absurd hgoes (by simp)

theorem rounds_placed (h : d.Placed) {e : HitlRoundsEvent ρ}
    (hstep : d.rounds.step sg e = some s') : Placed { d.note e with rounds := s' } := by
  unfold HitlRounds.step at hstep
  cases e with
  | forward taskId decision signedAt =>
      obtain rfl := Option.some.inj hstep
      exact h.forward taskId decision signedAt
  | command i =>
      dsimp only at hstep
      split at hstep
      · exact absurd hstep (by simp)
      · next f hf => exact h.command hf hstep
  | fails i =>
      dsimp only at hstep
      split at hstep
      · exact absurd hstep (by simp)
      · obtain rfl := Option.some.inj hstep
        exact h.setStage i (by simp) d.rounds.inbox
  | forgotten taskId left =>
      obtain rfl := Option.some.inj hstep
      exact h.forgotten taskId left
  | begins opts =>
      dsimp only at hstep
      split at hstep
      · obtain rfl := Option.some.inj hstep
        exact h.begins _ _
      · exact absurd hstep (by simp)
  | subscribed =>
      obtain rfl := Option.some.inj hstep
      exact h.of_same (fun _ => rfl) rfl rfl (fun w hw => ⟨w, hw, rfl⟩)
        fun i f hf hpush => ⟨f, hf, hpush⟩
  | brpop =>
      dsimp only at hstep
      split at hstep
      · next w hw hnone =>
          split at hstep
          · split at hstep
            · exact absurd hstep (by simp)
            · next i hlast =>
                obtain rfl := Option.some.inj hstep
                exact h.brpop hw hnone hlast
          · exact absurd hstep (by simp)
      · exact absurd hstep (by simp)
  | message now =>
      dsimp only at hstep
      split at hstep
      · exact absurd hstep (by simp)
      · exact h.message hstep
  | popped now =>
      dsimp only at hstep
      split at hstep
      · exact absurd hstep (by simp)
      · next i hreply => exact h.popped hreply hstep
  | waits e =>
      dsimp only at hstep
      split at hstep
      · exact absurd hstep (by simp)
      · split at hstep
        · exact absurd hstep (by simp)
        · next w hw =>
            obtain ⟨w', hgoes, rfl⟩ := Option.map_eq_some_iff.mp hstep
            exact h.setWait hw (HitlWait.step_kept hgoes).taskId d.rounds.inbox d.rounds.uses

theorem step_placed {d' : Deliveries ρ} {e : DeliveryEvent ρ} (h : d.Placed)
    (hstep : step sg d e = some d') : d'.Placed := by
  unfold step at hstep
  cases e with
  | rounds e =>
      obtain ⟨s', hgoes, rfl⟩ := Option.map_eq_some_iff.mp hstep
      exact rounds_placed h hgoes
  | replyLost =>
      dsimp only at hstep
      split at hstep
      · exact absurd hstep (by simp)
      · next i hreply =>
          obtain rfl := Option.some.inj hstep
          exact h.replied hreply (.inl ⟨rfl, rfl⟩)

/-- **No decision on the list path is lost, doubled or handed to another task**: each one that
was pushed is in one place, and what a list, a poll or a wait holds is for its own task. -/
theorem decisions_placed :
    ∀ (sg : Signing) (es : List (DeliveryEvent ρ)) (d : Deliveries ρ),
      Steps.run (step sg) (init ρ) es = some d →
      (∀ i ∈ d.pushed, ∃ taskId, taskOf d.rounds i = some taskId ∧ d.places taskId i = 1) ∧
      (∀ taskId, ∀ i ∈ d.rounds.lists taskId, taskOf d.rounds i = some taskId) ∧
      (∀ h ∈ d.handed, taskOf d.rounds h.1 = some h.2) ∧ (d.handed.map Prod.fst).Nodup := by
  intro sg es d hrun
  have h : d.Placed := Steps.invariant (fun _ _ _ => step_placed) init_placed hrun
  refine ⟨fun i hi => ?_, h.listed, h.handed, ?_⟩
  · obtain ⟨taskId, htask⟩ := Option.isSome_iff_exists.mp (h.known i (List.mem_append_left _ hi))
    obtain ⟨hplaces, hone⟩ := h.places i taskId htask
    have hpos := List.count_pos_iff.mpr hi
    exact ⟨taskId, htask, by omega⟩
  · rw [List.nodup_iff_count_le_one]
    intro i
    cases htask : taskOf d.rounds i with
    | none =>
        have hnowhere := (h.nowhere htask []).1
        unfold Deliveries.places at hnowhere
        omega
    | some taskId =>
        obtain ⟨hplaces, hone⟩ := h.places i taskId htask
        unfold Deliveries.places at hplaces
        omega

end Deliveries

namespace Deliveries

/-- Two decisions are pushed before the wait, which is handed the older one. -/
def twoDecisions : List (DeliveryEvent ℕ) :=
  [.rounds (.forward (js "t") (js "REVISE") 0), .rounds (.command 0),
    .rounds (.forward (js "t") (js "PUBLISH") 0), .rounds (.command 1),
    .rounds (.begins HitlWait.boardOnly), .rounds .brpop, .rounds (.popped 0)]

theorem decisions_placed_two :
    ∃ d, Steps.run (step HitlWait.unsignedChannel) (init ℕ) twoDecisions = some d ∧
      d.pushed = [0, 1] ∧ d.handed = [(0, js "t")] ∧ d.rounds.lists (js "t") = [1] ∧
      ∀ i ∈ d.pushed, ∃ taskId, taskOf d.rounds i = some taskId ∧ d.places taskId i = 1 := by
  refine ⟨_, rfl, rfl, rfl, rfl, ?_⟩
  exact (decisions_placed HitlWait.unsignedChannel twoDecisions _ rfl).1

end Deliveries

namespace HitlRounds

/-! ### A listed decision -/

/-- The time is within the age a message on a list may get. -/
def Fresh (now : ℕ) (f : HitlForward) : Prop :=
  now ≤ f.signedAt + 300000 ∧ f.signedAt ≤ now + 300000

theorem not_stale {now : ℕ} {f : HitlForward} (h : Fresh now f) :
    stale (some (now, hitlListMaxAgeMs)) (JsNumber.ofInt f.signedAt) = false := by
  obtain ⟨hold, hnew⟩ := h
  have hbound : |Decimal.ofInt now - Decimal.ofInt f.signedAt| ≤ hitlListMaxAgeMs := by
    rw [abs_le]
    constructor
    · show -((Decimal.ofInt 300000 : Decimal) : ℚ)
        ≤ (Decimal.ofInt now : ℚ) - (Decimal.ofInt f.signedAt : ℚ)
      rw [Decimal.coe_ofInt, Decimal.coe_ofInt, Decimal.coe_ofInt]
      have : (f.signedAt : ℚ) ≤ now + 300000 := by exact_mod_cast hnew
      push_cast
      linarith
    · show (Decimal.ofInt now : ℚ) - (Decimal.ofInt f.signedAt : ℚ)
        ≤ ((Decimal.ofInt 300000 : Decimal) : ℚ)
      rw [Decimal.coe_ofInt, Decimal.coe_ofInt, Decimal.coe_ofInt]
      have : (now : ℚ) ≤ f.signedAt + 300000 := by exact_mod_cast hold
      push_cast
      linarith
  unfold stale JsNumber.ofInt
  simpa using hbound

/-- A fresh message with a decision is taken by a wait for its task. -/
theorem handled_of_fresh {now : ℕ} {f : HitlForward} {a : HitlAnswer} (hfresh : Fresh now f)
    (hword : boardDecision f.decision = some a) :
    handleBoardMessage sg (some (now, hitlListMaxAgeMs)) f.taskId (f.msg sg) = some a := by
  refine handleBoardMessage_eq_some.mpr ⟨f.decision,
    ⟨[(js "taskId", .str f.taskId), (js "decision", .str f.decision)], ?_, rfl, rfl⟩, hword⟩
  exact unwrapVerified_wrapSigned rfl (not_stale hfresh)

end HitlRounds

namespace HitlWait

variable {w w' : HitlWait ρ}

/-! ### The loop -/

theorem board_poller (w : HitlWait ρ) (answer : Option HitlAnswer) :
    (w.board answer).poller = w.poller := by
  unfold board
  split
  · rfl
  · unfold finish
    split <;> rfl

theorem ask_poller (w : HitlWait ρ) : w.ask.poller = w.poller := by
  unfold ask
  split
  · rfl
  · split <;> rfl

theorem answered_poller (w : HitlWait ρ) (answer : JsString) :
    (w.answered answer).poller = w.poller := by
  unfold answered
  split
  · rfl
  · split
    · unfold finish
      split <;> rfl
    · exact ask_poller w

/-- The loop ends only after the wait is resolved. -/
def Polled (w : HitlWait ρ) : Prop := w.poller = .ended → w.resolved = true

theorem poll_polled (w : HitlWait ρ) : w.poll.Polled := by
  unfold poll Polled
  dsimp only
  split
  · next hresolved => exact fun _ => hresolved
  · intro h
    exact absurd h (by simp)

theorem start_polled (opts : HitlOptions ρ) : (start opts).Polled := by
  unfold start
  split
  · exact fun _ => rfl
  · intro h
    rw [ask_poller] at h
    exact absurd h (by simp)

theorem step_polled {e : HitlEvent ρ} (hw : w.Polled) (h : step sg w e = some w') :
    w'.Polled := by
  have hsame (heq : w'.poller = w.poller) : w'.Polled := fun hended =>
    ((step_kept h).settled (hw (heq.symm.trans hended))).1
  unfold step at h
  cases e with
  | message raw now =>
      dsimp only at h
      split at h
      · obtain rfl := Option.some.inj h
        exact hw
      · obtain rfl := Option.some.inj h
        exact hsame (board_poller w _)
  | popped raw now =>
      dsimp only at h
      split at h
      · split at h
        · obtain rfl := Option.some.inj h
          exact poll_polled w
        · obtain rfl := Option.some.inj h
          exact poll_polled _
      · exact absurd h (by simp)
  | timedOut =>
      dsimp only at h
      split at h
      · obtain rfl := Option.some.inj h
        exact poll_polled w
      · exact absurd h (by simp)
  | brpopFailed =>
      dsimp only at h
      split at h
      · obtain rfl := Option.some.inj h
        unfold Polled
        dsimp only
        split
        · next hresolved => exact fun _ => hresolved
        · intro hended
          exact absurd hended (by simp)
      · exact absurd h (by simp)
  | retries =>
      dsimp only at h
      split at h
      · obtain rfl := Option.some.inj h
        exact poll_polled w
      · exact absurd h (by simp)
  | redisError =>
      obtain rfl := Option.some.inj h
      exact hw
  | line answer =>
      dsimp only at h
      split at h
      · exact absurd h (by simp)
      · split at h
        · obtain rfl := Option.some.inj h
          exact hsame (answered_poller _ answer)
        · obtain rfl := Option.some.inj h
          exact hw
  | inputEnds =>
      dsimp only at h
      split at h
      · exact absurd h (by simp)
      · split at h
        · exact absurd h (by simp)
        · obtain rfl := Option.some.inj h
          exact hw
  | abort reason =>
      dsimp only at h
      split at h
      · obtain rfl := Option.some.inj h
        split
        · next hresolved => exact fun _ => hresolved
        · exact fun _ => rfl
      · exact absurd h (by simp)

end HitlWait

namespace HitlRounds

/-- The loop of the last wait ends only after it. -/
def Polled (s : HitlRounds ρ) : Prop := ∀ w, s.wait = some w → w.Polled

theorem step_polled {s s' : HitlRounds ρ} {e : HitlRoundsEvent ρ} (hs : s.Polled)
    (h : step sg s e = some s') : s'.Polled := by
  have hwait (heq : s'.wait = s.wait) : s'.Polled := fun w hw => hs w (heq.symm.trans hw)
  have hhanded {u : HitlRounds ρ} {i : ℕ} {event : JsString → HitlEvent ρ}
      (hgoes : handed sg u i event = some s') (hu : u.wait = s.wait) : s'.Polled := by
    unfold handed at hgoes
    split at hgoes
    · next w f hw hf =>
        obtain ⟨w', hstep, rfl⟩ := Option.map_eq_some_iff.mp hgoes
        intro v hv
        obtain rfl := Option.some.inj hv
        exact HitlWait.step_polled (hs w (hu.symm.trans hw)) hstep
    · exact absurd hgoes (by simp)
  unfold step at h
  cases e with
  | forward taskId decision signedAt =>
      obtain rfl := Option.some.inj h
      exact hs
  | command i =>
      dsimp only at h
      split at h
      · exact absurd h (by simp)
      · unfold command at h
        split at h
        · obtain rfl := Option.some.inj h
          exact hs
        · obtain rfl := Option.some.inj h
          exact hs
        · obtain rfl := Option.some.inj h
          exact hs
        · exact absurd h (by simp)
  | fails i =>
      dsimp only at h
      split at h
      · exact absurd h (by simp)
      · obtain rfl := Option.some.inj h
        exact hs
  | forgotten taskId left =>
      obtain rfl := Option.some.inj h
      exact hs
  | begins opts =>
      dsimp only at h
      split at h
      · obtain rfl := Option.some.inj h
        intro w hw
        obtain rfl := Option.some.inj hw
        exact HitlWait.start_polled opts
      · exact absurd h (by simp)
  | subscribed =>
      obtain rfl := Option.some.inj h
      exact hs
  | brpop =>
      dsimp only at h
      split at h
      · split at h
        · split at h
          · exact absurd h (by simp)
          · obtain rfl := Option.some.inj h
            exact hwait rfl
        · exact absurd h (by simp)
      · exact absurd h (by simp)
  | message now =>
      dsimp only at h
      split at h
      · exact absurd h (by simp)
      · exact hhanded h rfl
  | popped now =>
      dsimp only at h
      split at h
      · exact absurd h (by simp)
      · exact hhanded h rfl
  | waits e =>
      dsimp only at h
      split at h
      · exact absurd h (by simp)
      · split at h
        · exact absurd h (by simp)
        · next w hw =>
            obtain ⟨w', hstep, rfl⟩ := Option.map_eq_some_iff.mp h
            intro v hv
            obtain rfl := Option.some.inj hv
            exact HitlWait.step_polled (hs w hw) hstep

/-! ### The poll comes to a decision -/

/-- What the loop of a wait does at a time: it goes on after an error, polls, and gets a
reply. -/
def Polls (now : ℕ) : HitlRoundsEvent ρ → Prop
  | .waits .retries | .brpop => True
  | .popped at_ => at_ = now
  | _ => False

/-- What the wait makes of the message of a decision from the list. -/
def verdict (sg : Signing) (now : ℕ) (taskId : JsString) (f : HitlForward) : Option HitlAnswer :=
  handleBoardMessage sg (some (now, hitlListMaxAgeMs)) taskId (f.msg sg)

/-- A decision has ended the wait. -/
structure DecidedBy (s t : HitlRounds ρ) (j : ℕ) : Prop where
  wait : ∃ w, t.wait = some w ∧ w.resolved = true
  uses : t.uses = s.uses ++ [(s.rounds, j)]

variable {s : HitlRounds ρ} {w : HitlWait ρ} {j now : ℕ} {f : HitlForward}

/-- The loop of an open wait polls, at the latest after an error. -/
theorem polls_again (hw : s.wait = some w) (hopen : w.resolved = false)
    (hpolled : w.Polled) :
    ∃ fs, (∀ e ∈ fs, Polls now e) ∧
      Steps.run (step sg) s fs = some { s with wait := some { w with poller := .polling } } := by
  cases hpoller : w.poller with
  | ended => exact absurd (hpolled hpoller) (by simp [hopen])
  | polling =>
      refine ⟨[], by simp, ?_⟩
      have hsame : { w with poller := .polling } = w := by rw [← hpoller]
      rw [hsame, ← hw]
      rfl
  | pausing =>
      refine ⟨[.waits .retries], by simp [Polls], ?_⟩
      have hgoes : w.step sg .retries = some { w with poller := .polling } := by
        simp [HitlWait.step, hpoller, HitlWait.poll, hopen]
      rw [Steps.run_cons, step]
      simp [boardEvent, hw, hgoes]

/-- A reply that the wait takes ends it. -/
theorem popped_accepted (hw : s.wait = some w) (hopen : w.resolved = false)
    (hpolling : w.poller = .polling) (hreply : s.reply = some j)
    (hf : s.forwards[j]? = some f) {a : HitlAnswer}
    (hverdict : verdict sg now w.taskId f = some a) :
    ∃ t, step sg s (.popped now) = some t ∧ DecidedBy s t j := by
  have hgoes : w.step sg (.popped (f.msg sg) now) = some (w.settle (.resolves a)).poll := by
    unfold verdict at hverdict
    simp [HitlWait.step, hpolling, hopen, hverdict, HitlWait.board, HitlWait.finish]
  let t : HitlRounds ρ := { s with
    reply := none
    wait := some (w.settle (.resolves a)).poll
    uses := s.uses ++ [(s.rounds, j)] }
  refine ⟨t, ?_, ⟨_, rfl, rfl⟩, rfl⟩
  rw [step, hreply]
  dsimp only
  unfold handed
  dsimp only
  rw [hw, hf]
  dsimp only
  rw [hgoes, Option.map_some, hopen]
  rfl

/-- A reply that it does not take leaves it polling. -/
theorem popped_refused (hw : s.wait = some w) (hopen : w.resolved = false)
    (hpolling : w.poller = .polling) (hreply : s.reply = some j)
    (hf : s.forwards[j]? = some f) (hverdict : verdict sg now w.taskId f = none) :
    step sg s (.popped now) = some { s with reply := none } := by
  have hgoes : w.step sg (.popped (f.msg sg) now) = some w := by
    have hsame : w.poll = w := by
      unfold HitlWait.poll
      rw [if_neg (by simp [hopen]), ← hpolling]
    unfold verdict at hverdict
    simp [HitlWait.step, hpolling, hopen, hverdict, HitlWait.board, hsame]
  rw [step, hreply]
  dsimp only
  unfold handed
  dsimp only
  rw [hw, hf]
  dsimp only
  rw [hgoes, Option.map_some, hopen]
  rfl

/-- The poll pops the oldest decision. -/
theorem brpop_step (hw : s.wait = some w) (hpolling : w.poller = .polling)
    (hreply : s.reply = none) {newer : List ℕ} (hlist : s.lists w.taskId = newer ++ [j]) :
    step sg s .brpop = some { s.setList w.taskId newer with reply := some j } := by
  rw [step, hw, hreply]
  dsimp only
  rw [if_pos hpolling, hlist, List.getLast?_concat, List.dropLast_concat]

/-- The decision is the oldest one on the list that the wait takes, and the one asked about
came no earlier. -/
structure InTurn (sg : Signing) (s : HitlRounds ρ) (taskId : JsString) (now i j : ℕ) : Prop where
  list : ∃ newer older, s.lists taskId = newer ++ j :: older ∧ i ∈ newer ++ [j] ∧
    ∀ k ∈ older, ∀ f, s.forwards[k]? = some f → verdict sg now taskId f = none
  taken : ∃ f a, s.forwards[j]? = some f ∧ verdict sg now taskId f = some a

/-- By induction on the list: the poll takes the oldest decision off it and ends the wait with
it, or goes on. -/
theorem list_decides {i : ℕ} {a : HitlAnswer} : ∀ (n : ℕ) {s : HitlRounds ρ},
    s.wait = some w → w.resolved = false → w.poller = .polling → s.reply = none →
    (s.lists w.taskId).length = n → (∀ k ∈ s.lists w.taskId, ∃ g, s.forwards[k]? = some g) →
    i ∈ s.lists w.taskId → s.forwards[i]? = some f → verdict sg now w.taskId f = some a →
    ∃ fs t j, Steps.run (step sg) s fs = some t ∧ (∀ e ∈ fs, Polls now e) ∧ DecidedBy s t j ∧
      InTurn sg s w.taskId now i j := by
  intro n
  induction n with
  | zero =>
      intro s _ _ _ _ hlength _ hi _ _
      rw [List.length_eq_zero_iff.mp hlength] at hi
      exact absurd hi (by simp)
  | succ n ih =>
      intro s hw hopen hpolling hreply hlength hknown hi hf hverdict
      obtain ⟨newer, k, hlist⟩ : ∃ newer k, s.lists w.taskId = newer ++ [k] := by
        refine ⟨_, _, (List.dropLast_append_getLast (List.ne_nil_of_mem hi)).symm⟩
      obtain ⟨g, hg⟩ := hknown k (by simp [hlist])
      let m : HitlRounds ρ := { s.setList w.taskId newer with reply := some k }
      have hpops : step sg s .brpop = some m := brpop_step hw hpolling hreply hlist
      cases htakes : verdict sg now w.taskId g with
      | some b =>
          obtain ⟨t, ht, hdecided⟩ :=
            popped_accepted (s := m) hw hopen hpolling rfl hg htakes
          refine ⟨[.brpop, .popped now], t, k, ?_, by simp [Polls], ⟨hdecided.wait, hdecided.uses⟩,
            ⟨newer, [], hlist, hlist ▸ hi, by simp⟩, g, b, hg, htakes⟩
          rw [Steps.run_cons, hpops]
          show Steps.run (step sg) m [.popped now] = some t
          rw [Steps.run_cons, ht]
          rfl
      | none =>
          have hother : i ≠ k := by
            rintro rfl
            obtain rfl := Option.some.inj (hf.symm.trans hg)
            rw [htakes] at hverdict
            exact absurd hverdict (by simp)
          let u : HitlRounds ρ := { m with reply := none }
          have hrefused : step sg m (.popped now) = some u :=
            popped_refused (s := m) hw hopen hpolling rfl hg htakes
          have hshorter : u.lists w.taskId = newer := if_pos rfl
          have hin : i ∈ newer := by
            rw [hlist] at hi
            exact (List.mem_append.mp hi).resolve_right (by simpa using hother)
          obtain ⟨fs, t, j, hrun, hpolls, hdecided, ⟨fresher, older, hrest, hturn, hold⟩, htaken⟩ :=
            ih (s := u) hw hopen hpolling rfl
              (by rw [hshorter]; simpa [hlist] using hlength)
              (by rw [hshorter]; exact fun x hx => hknown x (by simp [hlist, hx]))
              (by rw [hshorter]; exact hin) hf hverdict
          rw [hshorter] at hrest
          refine ⟨.brpop :: .popped now :: fs, t, j, ?_, ?_, ⟨hdecided.wait, hdecided.uses⟩,
            ⟨fresher, older ++ [k], ?_, hturn, ?_⟩, htaken⟩
          · rw [Steps.run_cons, hpops]
            show Steps.run (step sg) m (.popped now :: fs) = some t
            rw [Steps.run_cons, hrefused]
            exact hrun
          · intro e he
            rcases List.mem_cons.mp he with rfl | he
            · trivial
            · rcases List.mem_cons.mp he with rfl | he
              · rfl
              · exact hpolls e he
          · rw [hlist, hrest, List.append_assoc]
            rfl
          · intro x hx y hy
            rcases List.mem_append.mp hx with hx | hx
            · exact hold x hx y hy
            · rw [List.mem_singleton.mp hx] at hy
              obtain rfl := Option.some.inj (hg.symm.trans hy)
              exact htakes

end HitlRounds

namespace Deliveries

open HitlRounds

theorem step_polled {d d' : Deliveries ρ} {e : DeliveryEvent ρ} (h : d.rounds.Polled)
    (hstep : step sg d e = some d') : d'.rounds.Polled := by
  unfold step at hstep
  cases e with
  | rounds e =>
      obtain ⟨s', hgoes, rfl⟩ := Option.map_eq_some_iff.mp hstep
      exact HitlRounds.step_polled h hgoes
  | replyLost =>
      dsimp only at hstep
      split at hstep
      · exact absurd hstep (by simp)
      · obtain rfl := Option.some.inj hstep
        exact h

/-- **A decision on the list of an open wait ends it**: the poll alone comes to a decision of
the task, which is the one it had popped, or the oldest on the list that verifies and has a
word the board may send. -/
theorem listed_decision_ends_wait :
    ∀ (sg : Signing) (es : List (DeliveryEvent ρ)) (d : Deliveries ρ) (w : HitlWait ρ)
      (i now : ℕ) (f : HitlForward),
      Steps.run (step sg) (init ρ) es = some d → d.rounds.wait = some w → w.resolved = false →
      i ∈ d.rounds.lists w.taskId → d.rounds.forwards[i]? = some f →
      (boardDecision f.decision).isSome = true → Fresh now f →
      ∃ fs t j, Steps.run (HitlRounds.step sg) d.rounds fs = some t ∧ (∀ e ∈ fs, Polls now e) ∧
        DecidedBy d.rounds t j ∧
        (d.rounds.reply = some j ∨ InTurn sg d.rounds w.taskId now i j) := by
  intro sg es d w i now f hrun hw hopen hi hf hword hfresh
  have hplaced : d.Placed := Steps.invariant (fun _ _ _ => step_placed) init_placed hrun
  have hpolled : d.rounds.Polled := Steps.invariant (P := fun d => d.rounds.Polled)
    (fun _ _ _ => step_polled) (fun w hw => absurd hw (by simp [init, HitlRounds.init])) hrun
  have hforward {k : ℕ} {taskId : JsString} (htask : taskOf d.rounds k = some taskId) :
      ∃ g, d.rounds.forwards[k]? = some g := by
    obtain ⟨g, hg, -⟩ := Option.map_eq_some_iff.mp htask
    exact ⟨g, hg⟩
  obtain ⟨a, ha⟩ := Option.isSome_iff_exists.mp hword
  have hverdict : verdict sg now w.taskId f = some a := by
    have htask := hplaced.listed w.taskId i hi
    rw [taskOf, hf] at htask
    have hown : f.taskId = w.taskId := Option.some.inj htask
    unfold verdict
    rw [← hown]
    exact handled_of_fresh hfresh ha
  obtain ⟨fs₀, hpolls₀, hready⟩ :=
    polls_again hw hopen (hpolled w hw)
  let v : HitlWait ρ := { w with poller := .polling }
  let m : HitlRounds ρ := { d.rounds with wait := some v }
  have hrest (u : HitlRounds ρ) (hwait : u.wait = some v) (hnone : u.reply = none)
      (hlists : u.lists = d.rounds.lists) (hforwards : u.forwards = d.rounds.forwards) :
      ∃ fs t j, Steps.run (HitlRounds.step sg) u fs = some t ∧ (∀ e ∈ fs, Polls now e) ∧
        DecidedBy u t j ∧ InTurn sg d.rounds w.taskId now i j := by
    obtain ⟨fs, t, j, hgoes, hpolls, hdecided, ⟨newer, older, hlist, hturn, hold⟩, htaken⟩ :=
      list_decides (w := v) (a := a) _ hwait hopen rfl hnone rfl
        (by rw [hlists, hforwards]; exact fun k hk => hforward (hplaced.listed w.taskId k hk))
        (by rw [hlists]; exact hi) (by rw [hforwards]; exact hf) hverdict
    rw [hlists] at hlist
    rw [hforwards] at hold htaken
    exact ⟨fs, t, j, hgoes, hpolls, hdecided, ⟨newer, older, hlist, hturn, hold⟩, htaken⟩
  have hcompose {fs : List (HitlRoundsEvent ρ)} {t : HitlRounds ρ}
      (hgoes : Steps.run (HitlRounds.step sg) m fs = some t) :
      Steps.run (HitlRounds.step sg) d.rounds (fs₀ ++ fs) = some t :=
    Steps.run_append_some.mpr ⟨m, hready, hgoes⟩
  have hall {fs : List (HitlRoundsEvent ρ)} (hpolls : ∀ e ∈ fs, Polls now e) :
      ∀ e ∈ fs₀ ++ fs, Polls now e := by
    intro e he
    rcases List.mem_append.mp he with he | he
    · exact hpolls₀ e he
    · exact hpolls e he
  cases hreply : d.rounds.reply with
  | none =>
      obtain ⟨fs, t, j, hgoes, hpolls, hdecided, hturn⟩ := hrest m rfl hreply rfl rfl
      exact ⟨fs₀ ++ fs, t, j, hcompose hgoes, hall hpolls, ⟨hdecided.wait, hdecided.uses⟩,
        .inr hturn⟩
  | some k =>
      obtain ⟨w', hw', htask⟩ := hplaced.reply k hreply
      obtain rfl := Option.some.inj (hw.symm.trans hw')
      obtain ⟨g, hg⟩ := hforward htask
      cases htakes : verdict sg now w.taskId g with
      | some b =>
          obtain ⟨t, ht, hdecided⟩ :=
            popped_accepted (s := m) (w := v) rfl hopen rfl hreply hg htakes
          refine ⟨fs₀ ++ [.popped now], t, k, hcompose ?_, hall (by simp [Polls]),
            ⟨hdecided.wait, hdecided.uses⟩, .inl rfl⟩
          rw [Steps.run_cons, ht]
          rfl
      | none =>
          have hrefused :=
            popped_refused (s := m) (w := v) rfl hopen rfl hreply hg htakes
          obtain ⟨fs, t, j, hgoes, hpolls, hdecided, hturn⟩ :=
            hrest { m with reply := none } rfl rfl rfl rfl
          refine ⟨fs₀ ++ .popped now :: fs, t, j, hcompose ?_, hall ?_,
            ⟨hdecided.wait, hdecided.uses⟩, .inr hturn⟩
          · rw [Steps.run_cons, hrefused]
            exact hgoes
          · intro e he
            rcases List.mem_cons.mp he with rfl | he
            · rfl
            · exact hpolls e he

/-- A decision that was pushed before the wait began. -/
def pushedFirst : List (DeliveryEvent ℕ) :=
  [.rounds (.forward (js "t") (js "PUBLISH") 0), .rounds (.command 0),
    .rounds (.begins HitlWait.boardOnly)]

theorem listed_decision_ends_wait_late :
    ∃ d w, Steps.run (step HitlWait.unsignedChannel) (init ℕ) pushedFirst = some d ∧
      d.rounds.wait = some w ∧ ∃ fs t j,
        Steps.run (HitlRounds.step HitlWait.unsignedChannel) d.rounds fs = some t ∧
        (∀ e ∈ fs, Polls 300000 e) ∧ DecidedBy d.rounds t j ∧
        (d.rounds.reply = some j ∨
          InTurn HitlWait.unsignedChannel d.rounds w.taskId 300000 0 j) := by
  refine ⟨_, _, rfl, rfl, ?_⟩
  exact listed_decision_ends_wait HitlWait.unsignedChannel pushedFirst _ _ 0 300000
    ⟨js "t", js "PUBLISH", 0, .expire⟩ rfl rfl rfl List.mem_cons_self rfl rfl
    ⟨Nat.le_refl _, Nat.zero_le _⟩

end Deliveries

end Kaiban
