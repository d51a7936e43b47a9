import DlnTaker.Processor.Basic

/-! # What the operations of the processor change

For each operation the fields it leaves alone, and for the three places an
order can be in (tracked, queued, taking) what becomes of it. Later modules use
these facts and never unfold an operation.
-/

namespace DlnTaker

open OrderProcessor

namespace CreatedOrderMetadata

variable {id : OrderId} (metadata : CreatedOrderMetadata id)

@[simp] theorem context_orderId : metadata.context.orderInfo.orderId = id := metadata.orderId_eq

@[simp] theorem countAttempt_context : metadata.countAttempt.context = metadata.context := rfl

/-- The finalization `takeOrder` works with is defined: a stored context is a creation event. -/
theorem exists_finalization : ∃ finalization, getFinalizationInfo metadata.context.status
    metadata.context.orderInfo.finalizationInfo = some finalization := by
  obtain ⟨_, _, context, _, creation⟩ := metadata
  cases hs : context.status <;> simp [hs, OrderInfoStatus.isCreation] at creation
  · have hi := context.orderInfo.created_has_info hs
    obtain ⟨info, hinfo⟩ := Option.isSome_iff_exists.mp hi
    cases info <;> simp [hinfo, getFinalizationInfo]
  · simp [getFinalizationInfo]

end CreatedOrderMetadata

/-- What the processing of an event without `await` asks of the other components. -/
def IncomingOrderContext.outputs (context : IncomingOrderContext) : List Effect :=
  match context.status with
  | .archivalFulfilled => [.unlockOrder context.orderId context.orderInfo.order]
  | .unlockSent | .unlockClaim =>
    [.flushCache context.giveChain, .flushCache context.takeChain,
      .removeUnlock context.takeChain context.orderId]
  | .fulfilled =>
    [.flushCache context.giveChain, .flushCache context.takeChain,
      .unlockOrder context.orderId context.orderInfo.order]
  | _ => []

/-- An effect on another component, which says nothing about events and takes. -/
def Effect.isOutput : Effect → Bool
  | .unlockOrder .. | .removeUnlock .. | .flushCache _ => true
  | _ => false

theorem isOutput_of_mem_outputs {context : IncomingOrderContext} {e : Effect}
    (h : e ∈ context.outputs) : e.isOutput = true := by
  unfold IncomingOrderContext.outputs at h
  split at h
  all_goals simp only [List.mem_cons, List.not_mem_nil, or_false] at h
  · subst h; rfl
  all_goals rcases h with rfl | rfl | rfl <;> rfl

namespace OrderProcessor

variable {p p' : OrderProcessor} {context : IncomingOrderContext} {id x : OrderId}
  {metadata : CreatedOrderMetadata id} {finalization : Finalization}
  {finish : OrderProcessor → Except Crash OrderProcessor} {events : List IncomingOrderContext}
  {timer : Timer} {network : Network}

/-- The order has an entry in `createdOrdersMetadata`. -/
def Tracked (p : OrderProcessor) (id : OrderId) : Prop :=
  (p.createdOrdersMetadata id).isSome = true

/-- The order waits in a queue or for its mempool timer. -/
def Queued (p : OrderProcessor) (id : OrderId) : Prop :=
  id ∈ p.queue ∨ id ∈ p.priorityQueue ∨ p.mempoolService.Armed id

/-- A call of `takeOrder` for the order is in progress. -/
def Taking (p : OrderProcessor) (id : OrderId) : Prop := ∃ take ∈ p.takes, take.orderId = id

/-- An event is handed over, before it is processed. -/
def receive (p : OrderProcessor) (context : IncomingOrderContext) : OrderProcessor :=
  (p.emit (.received context)).trackCreation context

/-- A timer of the mempool fires, before its order is processed. -/
def expire (p : OrderProcessor) (timer : Timer) (ht : timer ∈ p.mempoolService.timers) :
    OrderProcessor :=
  { p with mempoolService := p.mempoolService.expire timer ht }

/-- An event that needs no `await` is processed by a free processor. -/
def processed (p : OrderProcessor) (context : IncomingOrderContext) : OrderProcessor :=
  { { p.emit (.processing context) with isLocked := true }.dispatch context with
    isLocked := false }

/-- The processing of a stored order by a free processor, up to the `await`. -/
def begun (p : OrderProcessor) (context : IncomingOrderContext)
    (metadata : CreatedOrderMetadata id) (finalization : Finalization) : OrderProcessor :=
  ({ p.emit (.processing context) with isLocked := true }.setMetadata
    metadata.countAttempt).startTake metadata.countAttempt finalization

/-- A suspended call of `takeOrder` ends and the lock is released. -/
def released (p : OrderProcessor) : OrderProcessor := { p with takes := [], isLocked := false }

section Fields

@[simp] theorem trackCreation_isLocked : (p.trackCreation context).isLocked = p.isLocked := by
  unfold trackCreation; repeat' split
  all_goals rfl

@[simp] theorem trackCreation_takes : (p.trackCreation context).takes = p.takes := by
  unfold trackCreation; repeat' split
  all_goals rfl

@[simp] theorem trackCreation_eventsQueue :
    (p.trackCreation context).eventsQueue = p.eventsQueue := by
  unfold trackCreation; repeat' split
  all_goals rfl

@[simp] theorem trackCreation_effects : (p.trackCreation context).effects = p.effects := by
  unfold trackCreation; repeat' split
  all_goals rfl

@[simp] theorem queued_trackCreation : (p.trackCreation context).Queued x ↔ p.Queued x := by
  unfold trackCreation; repeat' split
  all_goals rfl

theorem trackCreation_of_other (h : context.status.isCreation = false) :
    p.trackCreation context = p := by
  simp [trackCreation, h]

@[simp] theorem tracked_setMetadata :
    (p.setMetadata metadata).Tracked x ↔ x = id ∨ p.Tracked x := by
  by_cases h : x = id
  · subst h; simp [Tracked, setMetadata]
  · simp [Tracked, setMetadata, h]

theorem tracked_trackCreation : (p.trackCreation context).Tracked x ↔
    p.Tracked x ∨ context.status.isCreation = true ∧ x = context.orderId := by
  unfold trackCreation
  split
  · rename_i h
    split
    · simp [h, or_comm]
    · rename_i known hk
      have hc : x = context.orderId → p.Tracked x := by rintro rfl; simp [Tracked, hk]
      split
      · simp only [tracked_setMetadata, h, true_and]; tauto
      · simp only [h, true_and]; tauto
  · simp_all

@[simp] theorem receive_isLocked : (p.receive context).isLocked = p.isLocked := by
  simp [receive, emit]

@[simp] theorem receive_takes : (p.receive context).takes = p.takes := by simp [receive, emit]

@[simp] theorem receive_eventsQueue : (p.receive context).eventsQueue = p.eventsQueue := by
  simp [receive, emit]

@[simp] theorem receive_effects :
    (p.receive context).effects = p.effects ++ [.received context] := by simp [receive, emit]

@[simp] theorem queued_receive : (p.receive context).Queued x ↔ p.Queued x := by
  rw [receive, queued_trackCreation]; rfl

theorem tracked_receive : (p.receive context).Tracked x ↔
    p.Tracked x ∨ context.status.isCreation = true ∧ x = context.orderId := by
  rw [receive, tracked_trackCreation]; rfl

@[simp] theorem taking_receive : (p.receive context).Taking x ↔ p.Taking x := by simp [Taking]

@[simp] theorem park_isLocked : (p.park context).isLocked = p.isLocked := by
  unfold park; split <;> rfl

@[simp] theorem park_takes : (p.park context).takes = p.takes := by unfold park; split <;> rfl

@[simp] theorem park_effects : (p.park context).effects = p.effects := by
  unfold park; split <;> rfl

@[simp] theorem park_createdOrdersMetadata :
    (p.park context).createdOrdersMetadata = p.createdOrdersMetadata := by
  unfold park; split <;> rfl

theorem park_eventsQueue : (p.park context).eventsQueue =
    if context.status.isCreation then p.eventsQueue else p.eventsQueue ++ [context] := by
  unfold park; split <;> simp_all [OrderInfoStatus.isCreation]

theorem queued_park : (p.park context).Queued x ↔
    p.Queued x ∨ context.status.isCreation = true ∧ x = context.orderId := by
  unfold park Queued
  split <;> simp_all only [OrderInfoStatus.isCreation, InsertionSet.mem_add, true_and] <;> tauto

/-- A terminal event makes the processor forget the order; nothing else of it changes. -/
theorem dispatch_eq : p.dispatch context =
    { (if context.status.isTerminal
        then (p.clearInternalQueues context.orderId).clearOrderStore context.orderId else p) with
      effects := p.effects ++ context.outputs } := by
  unfold dispatch IncomingOrderContext.outputs
  cases context.status <;>
    simp [OrderInfoStatus.isTerminal, emit, clearOrderStore, clearInternalQueues]

@[simp] theorem dispatch_effects :
    (p.dispatch context).effects = p.effects ++ context.outputs := by rw [dispatch_eq]

@[simp] theorem dispatch_takes : (p.dispatch context).takes = p.takes := by
  rw [dispatch_eq]; split <;> rfl

@[simp] theorem dispatch_eventsQueue : (p.dispatch context).eventsQueue = p.eventsQueue := by
  rw [dispatch_eq]; split <;> rfl

@[simp] theorem queued_clearInternalQueues :
    (p.clearInternalQueues id).Queued x ↔ x ≠ id ∧ p.Queued x := by
  simp only [Queued, clearInternalQueues, InsertionSet.mem_delete, MempoolService.armed_delete]
  tauto

theorem queued_dispatch : (p.dispatch context).Queued x ↔
    p.Queued x ∧ ¬ (context.status.isTerminal = true ∧ x = context.orderId) := by
  rw [dispatch_eq]
  split
  · change ((p.clearInternalQueues context.orderId).Queued x) ↔ _
    simp_all [and_comm]
  · simp_all [Queued]

@[simp] theorem processed_isLocked : (p.processed context).isLocked = false := rfl

@[simp] theorem processed_takes : (p.processed context).takes = p.takes := by
  simp [processed, emit]

@[simp] theorem processed_eventsQueue : (p.processed context).eventsQueue = p.eventsQueue := by
  simp [processed, emit]

@[simp] theorem processed_effects :
    (p.processed context).effects = p.effects ++ (.processing context :: context.outputs) := by
  simp [processed, emit]

theorem processed_createdOrdersMetadata : (p.processed context).createdOrdersMetadata x =
    if context.status.isTerminal ∧ x = context.orderId then none
    else p.createdOrdersMetadata x := by
  change (dispatch { p.emit (.processing context) with isLocked := true }
    context).createdOrdersMetadata x = _
  rw [dispatch_eq]
  by_cases hx : x = context.orderId
  · subst hx
    cases context.status.isTerminal <;> simp [clearOrderStore, emit]
  · cases context.status.isTerminal <;> simp [clearOrderStore, clearInternalQueues, emit, hx]

theorem queued_processed : (p.processed context).Queued x ↔
    p.Queued x ∧ ¬ (context.status.isTerminal = true ∧ x = context.orderId) :=
  queued_dispatch (p := { p.emit (.processing context) with isLocked := true })

theorem tracked_processed : (p.processed context).Tracked x ↔
    p.Tracked x ∧ ¬ (context.status.isTerminal = true ∧ x = context.orderId) := by
  rw [Tracked, processed_createdOrdersMetadata]
  split <;> simp_all [Tracked]

@[simp] theorem begun_isLocked : (p.begun context metadata finalization).isLocked = true := by
  cases finalization <;> rfl

@[simp] theorem begun_eventsQueue :
    (p.begun context metadata finalization).eventsQueue = p.eventsQueue := by
  cases finalization <;> rfl

@[simp] theorem begun_createdOrdersMetadata :
    (p.begun context metadata finalization).createdOrdersMetadata =
      Function.update p.createdOrdersMetadata id (some metadata.countAttempt) := by
  cases finalization <;> rfl

theorem begun_takes : ∃ take : PendingTake, take.orderId = id ∧
    take.ended = (finalization == .revoked) ∧
    (p.begun context metadata finalization).takes = p.takes ++ [take] := by
  cases finalization <;> exact ⟨_, rfl, rfl, rfl⟩

/-- A take of a revoked order is rejected at once, any other goes to a taker. -/
theorem begun_effects : ∃ last : Effect,
    (p.begun context metadata finalization).effects =
      p.effects ++ [.processing context, .takeOrder id finalization, last] ∧
    ((finalization = .revoked ∧ ∃ params : OrderRejected,
        last = .orderRejected params ∧ params.orderId = id) ∨
      ∃ order : CreatedOrder, last = .take order ∧ order.orderId = id ∧
        finalization = .reached order.finalization) := by
  cases finalization with
  | revoked =>
    exact ⟨_, by simp [begun, startTake, emit, setMetadata, rejectOrder, clearInternalQueues]; rfl,
      .inl ⟨rfl, _, rfl, rfl⟩⟩
  | reached finality =>
    exact ⟨_, by simp [begun, startTake, emit, setMetadata]; rfl,
      .inr ⟨_, rfl, rfl, rfl⟩⟩

theorem queued_of_begun (h : (p.begun context metadata finalization).Queued x) : p.Queued x := by
  cases finalization with
  | revoked =>
    change (p.clearInternalQueues metadata.countAttempt.context.orderInfo.orderId).Queued x at h
    exact (queued_clearInternalQueues.mp h).2
  | reached finality => exact h

theorem queued_begun_of_ne (hx : x ≠ id) (h : p.Queued x) :
    (p.begun context metadata finalization).Queued x := by
  cases finalization with
  | revoked =>
    change (p.clearInternalQueues metadata.countAttempt.context.orderInfo.orderId).Queued x
    exact queued_clearInternalQueues.mpr ⟨by simpa using hx, h⟩
  | reached finality => exact h

theorem tracked_begun : (p.begun context metadata finalization).Tracked x ↔
    x = id ∨ p.Tracked x := by
  rw [Tracked, begun_createdOrdersMetadata]
  exact @tracked_setMetadata p id x metadata.countAttempt

/-- A take of a tracked order tracks no other. -/
theorem tracked_begun_iff (hm : p.createdOrdersMetadata id = some metadata) :
    (p.begun context metadata finalization).Tracked x ↔ p.Tracked x := by
  rw [tracked_begun]
  refine ⟨?_, .inr⟩
  rintro (rfl | hx)
  · exact Option.isSome_iff_exists.mpr ⟨_, hm⟩
  · exact hx

theorem taking_begun : (p.begun context metadata finalization).Taking x ↔ p.Taking x ∨ x = id := by
  obtain ⟨take, rfl, _, ht⟩ := @begun_takes p context id metadata finalization
  simp [Taking, ht, eq_comm, or_and_right, exists_or]

end Fields

section Picking

/-- The next order leaves the two queues. -/
def picked (p : OrderProcessor) (id : OrderId) : OrderProcessor :=
  { p with priorityQueue := p.priorityQueue.delete id, queue := p.queue.delete id }

/-- No order with a proper id is the next of one of the two queues. -/
theorem pickNextOrderId_eq_none {q : OrderProcessor} (h : p.pickNextOrderId = (none, q)) :
    q = p ∧ ∀ id, p.priorityQueue.first? = some id ∨ p.queue.first? = some id → id = "" := by
  simp only [pickNextOrderId] at h
  split at h
  · rename_i hnone
    refine ⟨(Prod.mk.inj h).2.symm, fun id hid => ?_⟩
    by_contra hne
    have hall := Option.filter_eq_none_iff.mp hnone
    cases hp : p.priorityQueue.first?.filter (· ≠ "") with
    | some a =>
      have ha := (Option.filter_eq_some_iff.mp hp).2
      exact hall a (by rw [hp]; rfl) ha
    | none =>
      rcases hid with hid | hid
      · exact Option.filter_eq_none_iff.mp hp id hid (by simpa using hne)
      · exact hall id (by rw [hp, hid]; rfl) (by simpa using hne)
  · simp at h

theorem pickNextOrderId_eq_some {q : OrderProcessor} (h : p.pickNextOrderId = (some id, q)) :
    q = p.picked id ∧ p.Queued id := by
  simp only [pickNextOrderId] at h
  split at h
  · simp at h
  · rename_i next hnext
    obtain ⟨rfl, rfl⟩ : next = id ∧ p.picked next = q := by simpa [picked] using h
    refine ⟨rfl, ?_⟩
    rcases Option.or_eq_some_iff.mp (Option.filter_eq_some_iff.mp hnext).1 with hp | ⟨_, hq⟩
    · exact .inr (.inl (InsertionSet.mem_of_first?_eq_some (Option.filter_eq_some_iff.mp hp).1))
    · exact .inl (InsertionSet.mem_of_first?_eq_some hq)

theorem queued_of_picked (h : (p.picked id).Queued x) : p.Queued x := by
  simp only [Queued, picked, InsertionSet.mem_delete] at h ⊢
  tauto

theorem queued_picked_of_ne (hx : x ≠ id) (h : p.Queued x) : (p.picked id).Queued x := by
  simp only [Queued, picked, InsertionSet.mem_delete] at h ⊢
  tauto

theorem queued_expire {ht : timer ∈ p.mempoolService.timers} (h : (p.expire timer ht).Queued x) :
    p.Queued x := by
  simp only [Queued, expire, MempoolService.armed_expire] at h ⊢
  tauto

theorem queued_expire_of_ne {ht : timer ∈ p.mempoolService.timers} (hx : x ≠ timer.orderId)
    (h : p.Queued x) : (p.expire timer ht).Queued x := by
  simp only [Queued, expire, MempoolService.armed_expire] at h ⊢
  tauto

end Picking

section Settling

/-- A take attempt settles; its caller has still to go on. -/
def ended (p : OrderProcessor) (network : Network) (take : PendingTake) (outcome : TakeOutcome) :
    OrderProcessor :=
  { p.settleTake network take outcome with takes := [{ take with ended := true }] }

theorem postponeOrder_eq {order : OrderData} {isLive : Bool} {attempt : ℕ} {message : String}
    {reason : PostponingReason} {remainingDelay : Option ℚ} : ∃ params delay,
    p.postponeOrder id order isLive attempt message reason remainingDelay =
      { p.emit (.orderPostponed params) with
        mempoolService := p.mempoolService.addOrder id delay } := by
  unfold postponeOrder
  split
  · exact ⟨_, _, rfl⟩
  · split
    · exact ⟨_, _, rfl⟩
    · exact ⟨_, _, rfl⟩

variable {take : PendingTake} {outcome : TakeOutcome}

/-- A settled attempt rejects the order, or leaves its timer armed. -/
theorem settleTake_cases :
    (∃ params : OrderRejected, params.orderId = take.orderId ∧
      p.settleTake network take outcome = p.emit (.orderRejected params)) ∨
    (∃ delay, p.settleTake network take outcome = { p.clearInternalQueues take.orderId with
      mempoolService := (p.mempoolService.delete take.orderId).addOrder take.orderId delay }) ∨
    ∃ params delay, p.settleTake network take outcome =
      { p.emit (.orderPostponed params) with
        mempoolService := p.mempoolService.addOrder take.orderId delay } := by
  have hid : take.metadata.context.orderInfo.orderId = take.orderId := take.metadata.context_orderId
  cases outcome with
  | success =>
    refine .inr (.inl ⟨network.avgBlockSpeed * network.finalizedBlockCount, ?_⟩)
    rw [settleTake, markOrderAsFulfilled, hid]
    rfl
  | reject rejection message => exact .inl ⟨_, hid, rfl⟩
  | postpone postpone message delay =>
    right; right
    simp only [settleTake, hid]
    exact postponeOrder_eq
  | thrown error =>
    right; right
    simp only [settleTake, hid]
    exact postponeOrder_eq

@[simp] theorem ended_takes :
    (p.ended network take outcome).takes = [{ take with ended := true }] := rfl

@[simp] theorem ended_isLocked : (p.ended network take outcome).isLocked = p.isLocked := by
  rcases @settleTake_cases p network take outcome with ⟨_, _, h⟩ | ⟨_, h⟩ | ⟨_, _, h⟩ <;>
    rw [ended, h] <;> rfl

@[simp] theorem ended_eventsQueue :
    (p.ended network take outcome).eventsQueue = p.eventsQueue := by
  rcases @settleTake_cases p network take outcome with ⟨_, _, h⟩ | ⟨_, h⟩ | ⟨_, _, h⟩ <;>
    rw [ended, h] <;> rfl

@[simp] theorem ended_createdOrdersMetadata :
    (p.ended network take outcome).createdOrdersMetadata = p.createdOrdersMetadata := by
  rcases @settleTake_cases p network take outcome with ⟨_, _, h⟩ | ⟨_, h⟩ | ⟨_, _, h⟩ <;>
    rw [ended, h] <;> rfl

@[simp] theorem tracked_ended : (p.ended network take outcome).Tracked x ↔ p.Tracked x := by
  rw [Tracked, ended_createdOrdersMetadata, Tracked]

/-- A settled attempt is reported to the hooks or not at all. -/
theorem ended_effects : (p.ended network take outcome).effects = p.effects ∨
    (∃ params, (p.ended network take outcome).effects = p.effects ++ [.orderPostponed params]) ∨
    ∃ params : OrderRejected, params.orderId = take.orderId ∧
      (p.ended network take outcome).effects = p.effects ++ [.orderRejected params] := by
  rcases @settleTake_cases p network take outcome with ⟨params, hp, h⟩ | ⟨_, h⟩ | ⟨params, _, h⟩
  · right; right
    exact ⟨params, hp, by rw [ended, h]; rfl⟩
  · left
    rw [ended, h]
    rfl
  · right; left
    exact ⟨params, by rw [ended, h]; rfl⟩

theorem queued_of_ended (h : (p.ended network take outcome).Queued x) :
    x = take.orderId ∨ p.Queued x := by
  rcases @settleTake_cases p network take outcome with ⟨params, _, he⟩ | ⟨_, he⟩ | ⟨params, _, he⟩
  all_goals
    rw [ended, he] at h
    simp only [Queued, emit, clearInternalQueues, InsertionSet.mem_delete,
      MempoolService.armed_addOrder, MempoolService.armed_delete] at h ⊢
    tauto

/-- Only a rejected order may be left without a queue or a timer. -/
theorem queued_ended (h : x = take.orderId ∨ p.Queued x) :
    (p.ended network take outcome).Queued x ∨ x = take.orderId ∧ ∃ params : OrderRejected,
      params.orderId = x ∧
      (p.ended network take outcome).effects = p.effects ++ [.orderRejected params] := by
  rcases @settleTake_cases p network take outcome with ⟨params, hp, he⟩ | ⟨_, he⟩ | ⟨params, _, he⟩
  · rcases h with rfl | h
    · exact .inr ⟨rfl, params, hp, by rw [ended, he]; rfl⟩
    · left
      rw [ended, he]
      exact h
  all_goals
    left
    rw [ended, he]
    simp only [Queued, emit, clearInternalQueues, InsertionSet.mem_delete,
      MempoolService.armed_addOrder, MempoolService.armed_delete] at h ⊢
    tauto

end Settling

section Entering

theorem process_locked (h : p.isLocked = true) :
    p.process finish context = .ok (p.park context) := by simp [process, h]

theorem process_other (h : p.isLocked = false) (hc : context.status.isCreation = false) :
    p.process finish context = finish (p.processed context) := by
  simp [process, h, hc, processed]

theorem process_creation (finish : OrderProcessor → Except Crash OrderProcessor)
    {metadata : CreatedOrderMetadata context.orderId}
    (h : p.isLocked = false) (hc : context.status.isCreation = true)
    (hm : p.createdOrdersMetadata context.orderId = some metadata) :
    ∃ finalization, getFinalizationInfo metadata.context.status
        metadata.context.orderInfo.finalizationInfo = some finalization ∧
      p.process finish context = .ok (p.begun context metadata finalization) := by
  obtain ⟨finalization, hf⟩ := metadata.exists_finalization
  refine ⟨finalization, hf, ?_⟩
  have hg : ({ p.emit (.processing context) with isLocked := true }).getCreatedOrderMetadata
      context.orderId = .ok metadata := by simp [getCreatedOrderMetadata, emit, hm]
  simp only [process, h, hc, hg, Bool.false_eq_true, if_true, if_false]
  change takeOrder _ metadata.countAttempt = _
  simp only [takeOrder, CreatedOrderMetadata.countAttempt_context]
  rw [hf]
  rfl

theorem handleOrder_locked (hm : p.createdOrdersMetadata id = some metadata)
    (h : p.isLocked = true) : p.handleOrder finish id = .ok (p.park metadata.context) := by
  have hg : p.getCreatedOrderMetadata id = .ok metadata := by simp [getCreatedOrderMetadata, hm]
  rw [handleOrder, hg]
  exact process_locked h

theorem handleOrder_free (finish : OrderProcessor → Except Crash OrderProcessor)
    (hm : p.createdOrdersMetadata id = some metadata)
    (h : p.isLocked = false) :
    ∃ finalization, getFinalizationInfo metadata.context.status
        metadata.context.orderInfo.finalizationInfo = some finalization ∧
      p.handleOrder finish id = .ok (p.begun metadata.context metadata finalization) := by
  have hg : p.getCreatedOrderMetadata id = .ok metadata := by simp [getCreatedOrderMetadata, hm]
  rw [handleOrder, hg]
  obtain ⟨arrivedAt, attempts, context, rfl, creation⟩ := metadata
  exact process_creation finish h creation hm

end Entering

end OrderProcessor

end DlnTaker
