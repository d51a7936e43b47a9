import Mathlib.Logic.Relation
import DlnTaker.Processor.Operations

/-! # What one section of the processor does

A section enters the processor once and then works off what waits for it. The
two relations below list everything either part can do, with its guards, and
`run_induct` reduces a fact about every run to these cases. The base invariant
`Sound` shows on the way that no section ends in a crash.
-/

namespace DlnTaker

open OrderProcessor Relation

/-- One section's first part: how an input enters the processor. -/
inductive Enter (network : Network) (p : OrderProcessor) : Input → OrderProcessor → Prop
  | park (context : IncomingOrderContext) :
      p.isLocked = true → Enter network p (.event context) ((p.receive context).park context)
  | process (context : IncomingOrderContext) :
      p.isLocked = false → context.status.isCreation = false →
      Enter network p (.event context) ((p.receive context).processed context)
  | begin (context : IncomingOrderContext) (metadata : CreatedOrderMetadata context.orderId)
      (finalization : Finalization) :
      p.isLocked = false → context.status.isCreation = true →
      (p.receive context).createdOrdersMetadata context.orderId = some metadata →
      getFinalizationInfo metadata.context.status metadata.context.orderInfo.finalizationInfo =
        some finalization →
      Enter network p (.event context) ((p.receive context).begun context metadata finalization)
  | parkOrder (timer : Timer) (ht : timer ∈ p.mempoolService.timers)
      (metadata : CreatedOrderMetadata timer.orderId) :
      p.isLocked = true → p.createdOrdersMetadata timer.orderId = some metadata →
      Enter network p (.timer timer.id) ((p.expire timer ht).park metadata.context)
  | beginOrder (timer : Timer) (ht : timer ∈ p.mempoolService.timers)
      (metadata : CreatedOrderMetadata timer.orderId) (finalization : Finalization) :
      p.isLocked = false → p.createdOrdersMetadata timer.orderId = some metadata →
      getFinalizationInfo metadata.context.status metadata.context.orderInfo.finalizationInfo =
        some finalization →
      Enter network p (.timer timer.id)
        ((p.expire timer ht).begun metadata.context metadata finalization)
  | settle (take : PendingTake) (outcome : TakeOutcome) :
      p.takes = [take] → take.ended = false →
      Enter network p (.settled 0 outcome) (p.ended network take outcome)
  | release (take : PendingTake) :
      p.takes = [take] → take.ended = true → Enter network p (.returned 0) p.released
  | tick (ms : ℕ) : Enter network p (.tick ms) { p with clock := p.clock + ms }

/-- One round of a section's second part, taken by a free processor only. -/
inductive Round (p : OrderProcessor) : OrderProcessor → Prop
  | process (context : IncomingOrderContext) (events : List IncomingOrderContext) :
      p.isLocked = false → p.eventsQueue = context :: events →
      context.status.isCreation = false →
      Round p (processed { p with eventsQueue := events } context)
  | begin (id : OrderId) (metadata : CreatedOrderMetadata id) (finalization : Finalization) :
      p.isLocked = false → p.eventsQueue = [] → p.Queued id →
      p.createdOrdersMetadata id = some metadata →
      getFinalizationInfo metadata.context.status metadata.context.orderInfo.finalizationInfo =
        some finalization →
      Round p ((p.picked id).begun metadata.context metadata finalization)

/-- Holds between the rounds of a section as well as between sections. -/
structure Sound (p : OrderProcessor) : Prop where
  takes_length : p.takes.length = if p.isLocked then 1 else 0
  tracked : ∀ id, p.Queued id ∨ p.Taking id → p.Tracked id
  events : ∀ context ∈ p.eventsQueue, context.status.isCreation = false

/-- Between sections a free processor has nothing left to process. -/
def Settled (p : OrderProcessor) : Prop :=
  p.isLocked = false → p.eventsQueue = [] ∧
    ∀ id, p.priorityQueue.first? = some id ∨ p.queue.first? = some id → id = ""

namespace Sound

variable {p p' : OrderProcessor} {i : Input} {network : Network}

theorem initial : Sound .initial where
  takes_length := rfl
  tracked id h := by simp [Queued, Taking, OrderProcessor.initial] at h
  events := by simp [OrderProcessor.initial]

theorem takes_nil (hs : Sound p) (h : p.isLocked = false) : p.takes = [] := by
  have := hs.takes_length
  rw [h] at this
  exact List.eq_nil_of_length_eq_zero this

theorem isLocked_of_takes (hs : Sound p) {take : PendingTake} (h : p.takes = [take]) :
    p.isLocked = true := by
  have := hs.takes_length
  rw [h] at this
  cases hl : p.isLocked
  · simp [hl] at this
  · rfl

theorem eq_of_takes_get (hs : Sound p) {n : ℕ} {take : PendingTake}
    (h : p.takes[n]? = some take) : n = 0 ∧ p.takes = [take] := by
  have hl := hs.takes_length
  obtain ⟨hn, rfl⟩ := List.getElem?_eq_some_iff.mp h
  have h1 : p.takes.length = 1 := by split at hl <;> omega
  obtain ⟨t, ht⟩ := List.length_eq_one_iff.mp h1
  have h0 : n = 0 := by omega
  subst h0
  simp [ht]

theorem receive (hs : Sound p) (context : IncomingOrderContext) : Sound (p.receive context) where
  takes_length := by simpa using hs.takes_length
  tracked id h := by
    rw [queued_receive, taking_receive] at h
    exact tracked_receive.mpr (.inl (hs.tracked id h))
  events := by simpa using hs.events

theorem expire (hs : Sound p) {timer : Timer} (ht : timer ∈ p.mempoolService.timers) :
    Sound (p.expire timer ht) where
  takes_length := hs.takes_length
  tracked id h := hs.tracked id (h.imp_left queued_expire)
  events := hs.events

theorem picked (hs : Sound p) (id : OrderId) : Sound (p.picked id) where
  takes_length := hs.takes_length
  tracked x h := hs.tracked x (h.imp_left queued_of_picked)
  events := hs.events

theorem park (hs : Sound p) {context : IncomingOrderContext}
    (hc : context.status.isCreation = true → p.Tracked context.orderId) :
    Sound (p.park context) where
  takes_length := by simpa using hs.takes_length
  tracked id h := by
    rw [Tracked, park_createdOrdersMetadata]
    rw [queued_park, Taking, park_takes] at h
    rcases h with (h | ⟨hc', rfl⟩) | h
    · exact hs.tracked id (.inl h)
    · exact hc hc'
    · exact hs.tracked id (.inr h)
  events := by
    rw [park_eventsQueue]
    split
    · exact hs.events
    · rename_i hc'
      intro c hm
      rcases List.mem_append.mp hm with hm | hm
      · exact hs.events c hm
      · obtain rfl := List.mem_singleton.mp hm
        simpa using hc'

theorem processed (hs : Sound p) (hf : p.isLocked = false) (context : IncomingOrderContext) :
    Sound (p.processed context) where
  takes_length := by simpa [hf] using hs.takes_length
  tracked id h := by
    have hn : ¬ (p.processed context).Taking id := by simp [Taking, hs.takes_nil hf]
    have hq := queued_processed.mp (h.resolve_right hn)
    exact tracked_processed.mpr ⟨hs.tracked id (.inl hq.1), hq.2⟩
  events := by simpa using hs.events

theorem begun (hs : Sound p) (hf : p.isLocked = false) {context : IncomingOrderContext}
    {id : OrderId} {metadata : CreatedOrderMetadata id} {finalization : Finalization} :
    Sound (p.begun context metadata finalization) where
  takes_length := by
    obtain ⟨take, _, _, ht⟩ := @begun_takes p context id metadata finalization
    simp [ht, hs.takes_nil hf]
  tracked x h := by
    rw [tracked_begun]
    rw [taking_begun] at h
    rcases h with h | h | h
    · exact .inr (hs.tracked x (.inl (queued_of_begun h)))
    · exact .inr (hs.tracked x (.inr h))
    · exact .inl h
  events := by simpa using hs.events

theorem ended (hs : Sound p) {take : PendingTake} (ht : p.takes = [take])
    {outcome : TakeOutcome} : Sound (p.ended network take outcome) where
  takes_length := by simp [hs.isLocked_of_takes ht]
  tracked id h := by
    have htake : p.Taking take.orderId := ⟨take, by simp [ht], rfl⟩
    rw [tracked_ended]
    rcases h with h | ⟨t, hm, rfl⟩
    · rcases queued_of_ended h with rfl | h
      · exact hs.tracked _ (.inr htake)
      · exact hs.tracked id (.inl h)
    · obtain rfl := List.mem_singleton.mp hm
      exact hs.tracked _ (.inr htake)
  events := by simpa using hs.events

theorem released (hs : Sound p) : Sound p.released where
  takes_length := rfl
  tracked id h := hs.tracked id (h.imp_right (by simp [Taking, OrderProcessor.released]))
  events := hs.events

theorem enter (hs : Sound p) (he : Enter network p i p') : Sound p' := by
  cases he with
  | park context hl =>
    exact (hs.receive context).park fun hc => tracked_receive.mpr (.inr ⟨hc, rfl⟩)
  | process context hf hc => exact (hs.receive context).processed (by simpa using hf) context
  | begin context metadata finalization hf hc hm hi =>
    exact (hs.receive context).begun (by simpa using hf)
  | parkOrder timer ht metadata hl hm =>
    refine (hs.expire ht).park fun _ => ?_
    change (p.createdOrdersMetadata metadata.context.orderId).isSome = true
    rw [show metadata.context.orderId = timer.orderId from metadata.orderId_eq, hm]
    rfl
  | beginOrder timer ht metadata finalization hf hm hi => exact (hs.expire ht).begun hf
  | settle take outcome ht he => exact hs.ended ht
  | release take ht he => exact hs.released
  | tick ms => exact ⟨hs.takes_length, hs.tracked, hs.events⟩

theorem round (hs : Sound p) (hr : Round p p') : Sound p' := by
  cases hr with
  | process context events hf he hc =>
    refine processed (p := { p with eventsQueue := events }) ?_ hf context
    refine ⟨hs.takes_length, hs.tracked, fun c hm => hs.events c ?_⟩
    rw [he]
    exact List.mem_cons_of_mem _ hm
  | begin id metadata finalization hf he hq hm hi => exact (hs.picked id).begun hf

end Sound

/-- The second part of a section always comes to an end without a crash. -/
theorem drain_ok {events : List IncomingOrderContext} {p : OrderProcessor} (hs : Sound p)
    (hf : p.isLocked = false) (he : p.eventsQueue = events) :
    ∃ p', drain events p = .ok p' ∧ ReflTransGen Round p p' ∧ Sound p' ∧ Settled p' := by
  induction events generalizing p with
  | nil =>
    rcases hk : p.pickNextOrderId with ⟨_ | id, q⟩
    · obtain ⟨rfl, hnone⟩ := pickNextOrderId_eq_none hk
      exact ⟨q, by simp [drain, hk], .refl, hs, fun _ => ⟨he, hnone⟩⟩
    · obtain ⟨rfl, hq⟩ := pickNextOrderId_eq_some hk
      obtain ⟨metadata, hm⟩ := Option.isSome_iff_exists.mp (hs.tracked id (.inl hq))
      obtain ⟨finalization, hi, hh⟩ := handleOrder_free (p := p.picked id) .ok hm hf
      have hr : Round p _ := .begin id metadata finalization hf he hq hm hi
      exact ⟨_, by simpa [drain, hk] using hh, .single hr, hs.round hr, fun h => by simp at h⟩
  | cons context events ih =>
    have hc := hs.events context (by simp [he])
    have hr : Round p _ := .process context events hf he hc
    obtain ⟨p', hd, ht, hs', hset⟩ := ih (hs.round hr) (by simp) (by simp)
    refine ⟨p', ?_, .head hr ht, hs', hset⟩
    rw [drain, handleEvent, trackCreation_of_other hc]
    exact (process_other (p := { p with eventsQueue := events }) hf hc).trans hd

/-- Every step of the machine is an entry and a number of rounds; none crashes. -/
theorem step_ok {network : Network} {p : OrderProcessor} {i : Input}
    {s : Except Crash OrderProcessor} (hs : Sound p) (hset : Settled p)
    (h : processorStep network (.ok p) i = some s) :
    ∃ q p', s = .ok p' ∧ Enter network p i q ∧ ReflTransGen Round q p' ∧ Sound p' ∧ Settled p' := by
  cases i with
  | event context =>
    obtain rfl := Option.some.inj h
    change ∃ q p', (p.receive context).process resume context = .ok p' ∧ _
    have hr := hs.receive context
    by_cases hl : p.isLocked = true
    · have he : Enter network p _ _ := .park context hl
      exact ⟨_, _, process_locked (by simpa using hl), he, .refl, hs.enter he,
        fun hf => by simp [hl] at hf⟩
    have hf : p.isLocked = false := by simpa using hl
    by_cases hc : context.status.isCreation = true
    · have ht : (p.receive context).Tracked context.orderId := tracked_receive.mpr (.inr ⟨hc, rfl⟩)
      obtain ⟨metadata, hm⟩ := Option.isSome_iff_exists.mp ht
      obtain ⟨finalization, hi, hp⟩ := process_creation resume (by simpa using hf) hc hm
      have he : Enter network p _ _ := .begin context metadata finalization hf hc hm hi
      exact ⟨_, _, hp, he, .refl, hs.enter he, fun h => by simp at h⟩
    · have hc : context.status.isCreation = false := by simpa using hc
      have he : Enter network p _ _ := .process context hf hc
      obtain ⟨p', hd, ht, hs', hset'⟩ := drain_ok (hs.enter he) (by simp) rfl
      refine ⟨_, p', ?_, he, ht, hs', hset'⟩
      rw [process_other (by simpa using hf) hc]
      exact hd
  | timer n =>
    simp only [processorStep] at h
    rcases hk : p.mempoolService.fire n with _ | ⟨m, consumed⟩
    · simp [hk] at h
    obtain ⟨timer, ht, rfl, rfl, rfl⟩ := MempoolService.fire_eq_some hk
    simp only [hk, Option.some.injEq] at h
    subst h
    change ∃ q p', (p.expire timer ht).handleOrder resume timer.orderId = .ok p' ∧ _
    have htr := hs.tracked timer.orderId (.inl (.inr (.inr ⟨timer, ht, rfl⟩)))
    obtain ⟨metadata, hm⟩ := Option.isSome_iff_exists.mp htr
    by_cases hl : p.isLocked = true
    · have he : Enter network p _ _ := .parkOrder timer ht metadata hl hm
      exact ⟨_, _, handleOrder_locked hm hl, he, .refl, hs.enter he, fun hf => by
        simp [OrderProcessor.expire, hl] at hf⟩
    · have hf : p.isLocked = false := by simpa using hl
      obtain ⟨finalization, hi, hp⟩ :=
        handleOrder_free (p := p.expire timer ht) resume hm hf
      have he : Enter network p _ _ := .beginOrder timer ht metadata finalization hf hm hi
      exact ⟨_, _, hp, he, .refl, hs.enter he, fun h => by simp at h⟩
  | settled n outcome =>
    simp only [processorStep] at h
    rcases hk : p.takes[n]? with _ | take
    · simp [hk] at h
    obtain ⟨rfl, ht⟩ := hs.eq_of_takes_get hk
    cases htake : take.ended <;> simp only [hk, htake, Bool.false_eq_true, if_true, if_false,
      Option.some.injEq, reduceCtorEq] at h
    have he : Enter network p _ _ := .settle take outcome ht htake
    refine ⟨_, _, ?_, he, .refl, hs.enter he, fun hf => ?_⟩
    · rw [← h, ht]
      rfl
    · simp [hs.isLocked_of_takes ht] at hf
  | returned n =>
    simp only [processorStep] at h
    rcases hk : p.takes[n]? with _ | take
    · simp [hk] at h
    obtain ⟨rfl, ht⟩ := hs.eq_of_takes_get hk
    cases htake : take.ended <;> simp only [hk, htake, Bool.false_eq_true, if_true, if_false,
      Option.some.injEq, reduceCtorEq] at h
    have he : Enter network p _ _ := .release take ht htake
    obtain ⟨p', hd, hr, hs', hset'⟩ := drain_ok (hs.enter he) rfl rfl
    refine ⟨_, p', ?_, he, hr, hs', hset'⟩
    rw [← h, ht]
    exact hd
  | tick ms =>
    obtain rfl := Option.some.inj h
    have he : Enter network p _ _ := .tick ms
    exact ⟨_, _, rfl, he, .refl, hs.enter he, hset⟩

theorem Settled.initial : Settled .initial := by
  refine fun _ => ⟨rfl, fun id h => ?_⟩
  simp [OrderProcessor.initial, InsertionSet.first?, InsertionSet.empty] at h

section Rule

variable {network : Network} {t : List Input} {s : Except Crash OrderProcessor}

/-- A fact about every run follows from its initial case, the entries and the rounds. -/
theorem run_induct {J : List Input → OrderProcessor → Prop} (init : J [] .initial)
    (enter : ∀ t p i p', (processor network).Run t (.ok p) → Sound p → Settled p → J t p →
      Enter network p i p' → J (t ++ [i]) p')
    (round : ∀ t p p', Sound p → J t p → Round p p' → J t p')
    (h : (processor network).Run t s) : ∃ p, s = .ok p ∧ Sound p ∧ Settled p ∧ J t p := by
  refine h.history (P := fun t s => ∃ p, s = .ok p ∧ Sound p ∧ Settled p ∧ J t p)
    ⟨.initial, rfl, .initial, .initial, init⟩ ?_
  rintro t _ i s' hr ⟨p, rfl, hs, hset, hj⟩ hstep
  obtain ⟨q, p', rfl, he, hrounds, hs', hset'⟩ := step_ok hs hset hstep
  refine ⟨p', rfl, hs', hset', ?_⟩
  have hq : Sound q ∧ J (t ++ [i]) q := ⟨hs.enter he, enter t p i q hr hs hset hj he⟩
  clear hs' hset' hstep
  suffices h : Sound p' ∧ J (t ++ [i]) p' from h.2
  induction hrounds with
  | refl => exact hq
  | tail _ hround ih => exact ⟨ih.1.round hround, round _ _ _ ih.1 ih.2 hround⟩

end Rule

end DlnTaker
