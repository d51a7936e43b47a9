import DlnTaker.Library.Journal
import DlnTaker.Processor.Step

/-! # Scheduling

No order is lost and none is taken without its metadata: a tracked order is in
progress, waits, or was rejected, and what waits is tracked. A free processor
has nothing to do, and events that need no take are worked off in their order
of arrival.
-/

namespace DlnTaker

open OrderProcessor Journal

/-- The event of an input that is not a creation. -/
def Input.other? : Input → Option IncomingOrderContext
  | .event context => if context.status.isCreation then none else some context
  | _ => none

/-- The event, not a creation, whose processing starts. -/
def Effect.other? : Effect → Option IncomingOrderContext
  | .processing context => if context.status.isCreation then none else some context
  | _ => none

/-- Whether a take attempt for the order starts here (`false`) or ends in a rejection (`true`). -/
def Effect.rejection? (id : OrderId) : Effect → Option Bool
  | .takeOrder orderId _ => if orderId = id then some false else none
  | .orderRejected params => if params.orderId = id then some true else none
  | _ => none

/-- The most recent take attempt for the order ended in a rejection. -/
def EndedInRejection (log : List Effect) (id : OrderId) : Prop :=
  latest (Effect.rejection? id) log = some true

variable {network : Network} {t : List Input} {s : Except Crash OrderProcessor}
  {p p' : OrderProcessor} {i : Input} {context : IncomingOrderContext} {id x : OrderId}
  {metadata : CreatedOrderMetadata id} {finalization : Finalization}

section Order

@[simp] theorem other?_received : (Effect.received context).other? = none := rfl

@[simp] theorem other?_processing : (Effect.processing context).other? =
    if context.status.isCreation then none else some context := rfl

theorem other?_of_isOutput {e : Effect} (h : e.isOutput = true) : e.other? = none := by
  cases e <;> simp_all [Effect.isOutput, Effect.other?]

theorem filterMap_outputs : context.outputs.filterMap Effect.other? = [] :=
  List.filterMap_eq_nil_iff.mpr fun _ he => other?_of_isOutput (isOutput_of_mem_outputs he)

theorem other?_begun (hc : context.status.isCreation = true) :
    (p.begun context metadata finalization).effects.filterMap Effect.other? =
      p.effects.filterMap Effect.other? := by
  obtain ⟨last, he, hlast⟩ := @begun_effects p context id metadata finalization
  have hl : last.other? = none := by
    rcases hlast with ⟨_, _, rfl, _⟩ | ⟨_, rfl, _⟩ <;> rfl
  rw [he, List.filterMap_append, List.filterMap_cons, List.filterMap_cons, List.filterMap_cons, hl]
  simp [Effect.other?, hc]

theorem other?_ended {take : PendingTake} {outcome : TakeOutcome} :
    (p.ended network take outcome).effects.filterMap Effect.other? =
      p.effects.filterMap Effect.other? := by
  rcases @ended_effects p network take outcome with h | ⟨params, h⟩ | ⟨params, _, h⟩ <;>
    simp [h, Effect.other?]

/-- What is tracked was announced, and the other events are processed or wait, in order. -/
structure Announced (t : List Input) (p : OrderProcessor) : Prop where
  tracked : ∀ id, p.Tracked id → ∃ context, Input.event context ∈ t ∧ context.orderId = id
  events : p.effects.filterMap Effect.other? ++ p.eventsQueue = t.filterMap Input.other?

theorem Announced.enter (h : Announced t p) (hset : Settled p) (he : Enter network p i p') :
    Announced (t ++ [i]) p' := by
  have hold : ∀ x, p.Tracked x → ∃ context, Input.event context ∈ t ++ [i] ∧
      context.orderId = x := by
    intro x hx
    obtain ⟨context, hm, hid⟩ := h.tracked x hx
    exact ⟨context, List.mem_append_left _ hm, hid⟩
  have hev := h.events
  cases he with
  | park context hl =>
    constructor
    · intro x hx
      rw [Tracked, park_createdOrdersMetadata] at hx
      rcases tracked_receive.mp hx with hx | ⟨_, rfl⟩
      · exact hold x hx
      · exact ⟨context, by simp, rfl⟩
    · by_cases hc : context.status.isCreation = true <;>
        simp [park_eventsQueue, hc, Input.other?, ← hev]
  | process context hf hc =>
    constructor
    · intro x hx
      rcases tracked_receive.mp (tracked_processed.mp hx).1 with hx | ⟨_, rfl⟩
      · exact hold x hx
      · exact ⟨context, by simp, rfl⟩
    · rw [(hset hf).1, List.append_nil] at hev
      simp [List.filterMap_cons, filterMap_outputs, hc, Input.other?, (hset hf).1, hev]
  | begin context metadata finalization hf hc hm hi =>
    constructor
    · intro x hx
      rcases tracked_receive.mp ((tracked_begun_iff hm).mp hx) with hx | ⟨_, rfl⟩
      · exact hold x hx
      · exact ⟨context, by simp, rfl⟩
    · simp [other?_begun hc, Input.other?, hc, ← hev]
  | parkOrder timer ht metadata hl hm =>
    refine ⟨fun x hx => hold x ?_, ?_⟩
    · rwa [Tracked, park_createdOrdersMetadata] at hx
    · have hc : metadata.context.status.isCreation = true := metadata.creation
      simp [park_eventsQueue, hc, OrderProcessor.expire, Input.other?, ← hev]
  | beginOrder timer ht metadata finalization hf hm hi =>
    refine ⟨fun x hx => hold x ?_, ?_⟩
    · exact (tracked_begun_iff (p := p.expire timer ht) hm).mp hx
    · simp [other?_begun metadata.creation, OrderProcessor.expire, Input.other?, ← hev]
  | settle take outcome ht he =>
    refine ⟨fun x hx => hold x (tracked_ended.mp hx), ?_⟩
    simp [other?_ended, Input.other?, ← hev]
  | release take ht he => exact ⟨hold, by simp [released, Input.other?, ← hev]⟩
  | tick ms => exact ⟨hold, by simp [Input.other?, ← hev]⟩

theorem Announced.round (h : Announced t p) (hr : Round p p') : Announced t p' := by
  cases hr with
  | process context events hf he hc =>
    refine ⟨fun x hx => h.tracked x (tracked_processed.mp hx).1, ?_⟩
    rw [← h.events, he]
    simp [filterMap_outputs, hc]
  | begin id metadata finalization hf he hq hm hi =>
    refine ⟨fun x hx => h.tracked x ?_, ?_⟩
    · exact (tracked_begun_iff (p := p.picked id) hm).mp hx
    · rw [other?_begun metadata.creation, begun_eventsQueue]
      exact h.events

/-- One take at a time, nothing waits while the processor is free, and the events without a
take are processed in the order of their arrival, each once. -/
theorem scheduled (h : (processor network).Run t s)
    (hid : ∀ context, Input.event context ∈ t → context.orderId ≠ "") :
    ∃ p, s = .ok p ∧
      (p.takes.length ≤ 1 ∧ (p.isLocked = true → p.takes ≠ [])) ∧
      (p.isLocked = false →
        p.eventsQueue = [] ∧ (∀ id, id ∉ p.priorityQueue) ∧ ∀ id, id ∉ p.queue) ∧
      p.effects.filterMap Effect.other? ++ p.eventsQueue = t.filterMap Input.other? := by
  obtain ⟨p, rfl, hs, hset, ha⟩ := run_induct (J := Announced)
    ⟨fun id hx => by simp [Tracked, OrderProcessor.initial] at hx, rfl⟩
    (fun _ _ _ _ _ _ hset ha he => ha.enter hset he) (fun _ _ _ _ ha hr => ha.round hr) h
  have hl := hs.takes_length
  refine ⟨p, rfl, ⟨by split at hl <;> omega, fun hlock hnil => ?_⟩, fun hf => ?_, ha.events⟩
  · simp [hlock, hnil] at hl
  have hproper : ∀ id, p.Queued id → id ≠ "" := by
    intro id hq
    obtain ⟨context, hm, rfl⟩ := ha.tracked id (hs.tracked id (.inl hq))
    exact hid context hm
  obtain ⟨hnil, hnext⟩ := hset hf
  refine ⟨hnil, InsertionSet.first?_eq_none.mp ?_, InsertionSet.first?_eq_none.mp ?_⟩
  · refine Option.eq_none_iff_forall_not_mem.mpr fun id hfirst => ?_
    have hq : p.Queued id := .inr (.inl (InsertionSet.mem_of_first?_eq_some hfirst))
    exact hproper id hq (hnext id (.inl hfirst))
  · refine Option.eq_none_iff_forall_not_mem.mpr fun id hfirst => ?_
    have hq : p.Queued id := .inl (InsertionSet.mem_of_first?_eq_some hfirst)
    exact hproper id hq (hnext id (.inr hfirst))

/-- The cancellation of an order that is being taken waits until the take has settled. -/
theorem scheduled_cancelled_while_taken :
    ∃ s, (processor Sample.network).Run
      [.event (Sample.created "a" (.finalized "")), .event (Sample.cancelled "a"),
        .settled 0 .success, .returned 0] s ∧
    ∃ p, s = .ok p ∧
      (p.takes.length ≤ 1 ∧ (p.isLocked = true → p.takes ≠ [])) ∧
      (p.isLocked = false →
        p.eventsQueue = [] ∧ (∀ id, id ∉ p.priorityQueue) ∧ ∀ id, id ∉ p.queue) ∧
      p.effects.filterMap Effect.other? ++ p.eventsQueue = [Sample.cancelled "a"] := by
  apply Machine.exists_run_and
  · decide +kernel
  · intro s hr
    refine scheduled hr fun context hm => ?_
    have hid : context.orderId = "a" := by
      simp only [List.mem_cons, Input.event.injEq, reduceCtorEq, List.not_mem_nil, or_false] at hm
      rcases hm with rfl | rfl <;> rfl
    simp [hid]

end Order

section Waiting

/-- A tracked order is with a taker, waits, or was rejected. -/
def Kept (p : OrderProcessor) : Prop := ∀ id, p.Tracked id →
  (∃ take ∈ p.takes, take.ended = false ∧ take.orderId = id) ∨ p.Queued id ∨
    EndedInRejection p.effects id

theorem endedInRejection_append {es : List Effect} {log : List Effect}
    (hes : ∀ e ∈ es, e.rejection? x = none) :
    EndedInRejection (log ++ es) x ↔ EndedInRejection log x := by
  rw [EndedInRejection, latest_append_of_none hes, EndedInRejection]

theorem rejection?_of_isOutput {e : Effect} (h : e.isOutput = true) : e.rejection? x = none := by
  cases e <;> simp_all [Effect.isOutput, Effect.rejection?]

/-- Outside of a take, a tracked order waits or was rejected. -/
theorem Kept.free (h : Kept p) (hf : p.takes = []) (hx : p.Tracked x) :
    p.Queued x ∨ EndedInRejection p.effects x := by
  rcases h x hx with ⟨take, hm, _⟩ | hw
  · simp [hf] at hm
  · exact hw

/-- Processing without a take keeps every order that stays tracked. -/
theorem Kept.processed (h : Kept p) (hf : p.takes = []) : Kept (p.processed context) := by
  intro x hx
  obtain ⟨hx, hn⟩ := tracked_processed.mp hx
  rcases h.free hf hx with hq | hr
  · exact .inr (.inl (queued_processed.mpr ⟨hq, hn⟩))
  · refine .inr (.inr ?_)
    rw [processed_effects, endedInRejection_append]
    · exact hr
    · intro e he
      rcases List.mem_cons.mp he with rfl | he
      · rfl
      · exact rejection?_of_isOutput (isOutput_of_mem_outputs he)

/-- An attempt accounts for its own order and leaves the others where they are. -/
theorem Kept.begun (h : ∀ x, x ≠ id → p.Tracked x → p.Queued x ∨ EndedInRejection p.effects x) :
    Kept (p.begun context metadata finalization) := by
  intro x hx
  obtain ⟨last, he, hlast⟩ := @begun_effects p context id metadata finalization
  obtain ⟨take, htid, hended, htakes⟩ := @begun_takes p context id metadata finalization
  by_cases hid : x = id
  · subst hid
    cases finalization with
    | revoked =>
      obtain ⟨params, rfl, hp⟩ : ∃ params : OrderRejected,
          last = .orderRejected params ∧ params.orderId = x := by simpa using hlast
      right; right
      rw [EndedInRejection, he]
      simp [latest, Effect.rejection?, hp]
    | reached finality => exact .inl ⟨take, by simp [htakes], hended, htid⟩
  · right
    apply (h x hid ((tracked_begun.mp hx).resolve_left hid)).imp (queued_begun_of_ne hid)
    rw [he, endedInRejection_append]
    · exact fun hr => hr
    · have hne : id ≠ x := Ne.symm hid
      rcases hlast with ⟨_, params, rfl, rfl⟩ | ⟨order, rfl, rfl, _⟩ <;>
        simp [Effect.rejection?, hne]

/-- The end of a take queues its order again or rejects it. -/
theorem Kept.ended {take : PendingTake} {outcome : TakeOutcome} (h : Kept p)
    (ht : p.takes = [take]) : Kept (p.ended network take outcome) := by
  intro x hx
  have hw : (x = take.orderId ∨ p.Queued x) ∨ EndedInRejection p.effects x := by
    rcases h x (tracked_ended.mp hx) with ⟨u, hm, _, rfl⟩ | hq | hr
    · simp only [ht, List.mem_singleton] at hm
      exact .inl (.inl (by rw [hm]))
    · exact .inl (.inr hq)
    · exact .inr hr
  by_cases hq : x = take.orderId ∨ p.Queued x
  · have hq' := @queued_ended p x network take outcome hq
    rcases hq' with hq | ⟨_, params, hp, he⟩
    · exact .inr (.inl hq)
    · right; right
      rw [EndedInRejection, he, latest_concat]
      simp [Effect.rejection?, hp]
  · have hr := hw.resolve_left hq
    have hne : take.orderId ≠ x := fun h => hq (.inl h.symm)
    right; right
    rcases @ended_effects p network take outcome with he | ⟨params, he⟩ | ⟨params, hp, he⟩
    · rwa [he]
    · rwa [he, endedInRejection_append (by simp [Effect.rejection?])]
    · rwa [he, endedInRejection_append (by simp [Effect.rejection?, hp, hne])]

theorem Kept.enter (h : Kept p) (hs : Sound p) (he : Enter network p i p') : Kept p' := by
  have hreceive : ∀ context x, EndedInRejection p.effects x →
      EndedInRejection (p.receive context).effects x := by
    intro context x hr
    rw [receive_effects, endedInRejection_append (by simp [Effect.rejection?])]
    exact hr
  cases he with
  | park context hl =>
    intro x hx
    rw [park_takes, receive_takes, queued_park, queued_receive, park_effects]
    rw [Tracked, park_createdOrdersMetadata] at hx
    rcases tracked_receive.mp hx with hx | hx
    · rcases h x hx with ht | hq | hr
      · exact .inl ht
      · exact .inr (.inl (.inl hq))
      · exact .inr (.inr (hreceive context x hr))
    · exact .inr (.inl (.inr hx))
  | process context hf hc =>
    refine Kept.processed (fun x hx => ?_) (by simp [hs.takes_nil hf])
    have hx' : p.Tracked x := by simpa [tracked_receive, hc] using hx
    rw [queued_receive]
    exact .inr ((h.free (hs.takes_nil hf) hx').imp_right (hreceive context x))
  | begin context metadata finalization hf hc hm hi =>
    refine Kept.begun fun x hne hx => ?_
    have hx' : p.Tracked x := by simpa [tracked_receive, hne] using hx
    rw [queued_receive]
    exact (h.free (hs.takes_nil hf) hx').imp_right (hreceive context x)
  | parkOrder timer ht metadata hl hm =>
    intro x hx
    rw [park_takes, queued_park, park_effects]
    rw [Tracked, park_createdOrdersMetadata] at hx
    by_cases hid : x = timer.orderId
    · have ho : metadata.context.orderId = timer.orderId := metadata.orderId_eq
      exact .inr (.inl (.inr ⟨metadata.creation, by rw [hid, ho]⟩))
    · rcases h x hx with ht | hq | hr
      · exact .inl ht
      · exact .inr (.inl (.inl (queued_expire_of_ne hid hq)))
      · exact .inr (.inr hr)
  | beginOrder timer ht metadata finalization hf hm hi =>
    refine Kept.begun fun x hne hx => ?_
    exact (h.free (hs.takes_nil hf) hx).imp_left (queued_expire_of_ne hne)
  | settle take outcome ht he => exact h.ended ht
  | release take ht he =>
    intro x hx
    rcases h x hx with ⟨u, hm, hu, _⟩ | hw
    · simp only [ht, List.mem_singleton] at hm
      simp [hm, he] at hu
    · exact .inr hw
  | tick ms => exact h

theorem Kept.round (h : Kept p) (hs : Sound p) (hr : Round p p') : Kept p' := by
  cases hr with
  | process context events hf he hc => exact Kept.processed h (hs.takes_nil hf)
  | begin id metadata finalization hf he hq hm hi =>
    refine Kept.begun fun x hne hx => ?_
    exact (h.free (hs.takes_nil hf) hx).imp_left (queued_picked_of_ne hne)

/-- No tracked order is lost. -/
theorem tracked_kept (h : (processor network).Run t s) : ∃ p, s = .ok p ∧
    ∀ id, p.Tracked id → p.Taking id ∨ (id ∈ p.priorityQueue ∨ id ∈ p.queue) ∨
      p.mempoolService.Armed id ∨ EndedInRejection p.effects id := by
  obtain ⟨p, rfl, -, -, hk⟩ := run_induct (J := fun _ => Kept)
    (fun id hx => by simp [Tracked, OrderProcessor.initial] at hx)
    (fun _ _ _ _ _ hs _ hk he => hk.enter hs he) (fun _ _ _ hs hk hr => hk.round hs hr) h
  refine ⟨p, rfl, fun id hx => ?_⟩
  rcases hk id hx with ⟨take, hm, _, hid⟩ | (hq | hq | hq) | hr
  · exact .inl ⟨take, hm, hid⟩
  · exact .inr (.inl (.inr hq))
  · exact .inr (.inl (.inl hq))
  · exact .inr (.inr (.inl hq))
  · exact .inr (.inr (.inr hr))

/-- An order that failed once waits for its timer. -/
theorem tracked_kept_after_failure :
    ∃ s, (processor Sample.network).Run [.event (Sample.created "a" (.finalized "")),
      .settled 0 (.thrown "timeout"), .returned 0] s ∧
    ∃ p, s = .ok p ∧ ∀ id, p.Tracked id →
      p.Taking id ∨ (id ∈ p.priorityQueue ∨ id ∈ p.queue) ∨
        p.mempoolService.Armed id ∨ EndedInRejection p.effects id := by
  apply Machine.exists_run_and
  · decide +kernel
  · intro s hr
    exact tracked_kept hr

/-- The assertion of `getCreatedOrderMetadata` never fails: no run crashes, and all that is
waiting or being taken has its metadata. -/
theorem metadata_present (h : (processor network).Run t s) : ∃ p, s = .ok p ∧
    ∀ id, id ∈ p.queue ∨ id ∈ p.priorityQueue ∨ p.mempoolService.Armed id ∨ p.Taking id →
      ∃ metadata, p.getCreatedOrderMetadata id = .ok metadata := by
  obtain ⟨p, rfl, hs, -, -⟩ := run_induct (J := fun _ _ => True) trivial
    (fun _ _ _ _ _ _ _ _ _ => trivial) (fun _ _ _ _ _ _ => trivial) h
  refine ⟨p, rfl, fun id hw => ?_⟩
  have ht : p.Tracked id := hs.tracked id (by simp only [Queued]; tauto)
  obtain ⟨metadata, hm⟩ := Option.isSome_iff_exists.mp ht
  exact ⟨metadata, by simp [getCreatedOrderMetadata, hm]⟩

/-- The timer of a fulfilled order fires while another order is being taken. -/
theorem metadata_present_on_timer :
    ∃ s, (processor Sample.network).Run [.event (Sample.created "a" (.finalized "")),
      .settled 0 .success, .returned 0, .event (Sample.archivalCreated "b"), .timer 0] s ∧
    ∃ p, s = .ok p ∧
      ∀ id, id ∈ p.queue ∨ id ∈ p.priorityQueue ∨ p.mempoolService.Armed id ∨ p.Taking id →
        ∃ metadata, p.getCreatedOrderMetadata id = .ok metadata := by
  apply Machine.exists_run_and
  · decide +kernel
  · intro s hr
    exact metadata_present hr

end Waiting

end DlnTaker
