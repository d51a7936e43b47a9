import DlnTaker.Library.InsertionSet
import DlnTaker.Library.Machine
import DlnTaker.Processor.Mempool

/-! # The order processor

`OrderProcessor` is single-threaded: between two `await` points its code runs
to the end. A step of the machine below is one such section, entered by an
event of the feed, a timer of the mempool, the settling of a take attempt or
the return of `takeOrder` to its caller. Calls of `takeOrder` in progress are
kept in a list, so nothing in the model limits their number.
-/

namespace DlnTaker

/-- What is stored of a created order, under its own id. -/
structure CreatedOrderMetadata (id : OrderId) where
  arrivedAt : ℕ
  attempts : ℕ
  context : IncomingOrderContext
  orderId_eq : context.orderId = id
  creation : context.status.isCreation = true

namespace CreatedOrderMetadata

variable {id : OrderId}

/-- Overwrite the finalization info of the stored context, and nothing else of it. -/
def patchFinalization (metadata : CreatedOrderMetadata id) (context : IncomingOrderContext)
    (h : context.status = .created) : CreatedOrderMetadata id :=
  { metadata with
    context := { metadata.context with
      orderInfo := { metadata.context.orderInfo with
        finalizationInfo := context.orderInfo.finalizationInfo
        created_has_info := fun _ => context.orderInfo.created_has_info h } }
    orderId_eq := metadata.orderId_eq
    creation := metadata.creation }

def countAttempt (metadata : CreatedOrderMetadata id) : CreatedOrderMetadata id :=
  { metadata with attempts := metadata.attempts + 1 }

end CreatedOrderMetadata

/-- A call of `takeOrder` that `process` awaits: it waits for the taker, or it has come to its
end and only the caller has not gone on yet. -/
structure PendingTake where
  orderId : OrderId
  metadata : CreatedOrderMetadata orderId
  isLive : Bool
  ended : Bool

structure OrderPostponed where
  orderId : OrderId
  order : OrderData
  message : String
  reason : PostponingReason
  isLive : Bool
  attempts : ℕ
  deriving DecidableEq

structure OrderRejected where
  orderId : OrderId
  order : OrderData
  isLive : Bool
  message : String
  reason : RejectionReason
  attempts : ℕ
  deriving DecidableEq

/-- What the processor does to its environment, and the points of its code a run is judged by:
an event handed to it, the start of its processing, the start of `takeOrder`. -/
inductive Effect
  | received (context : IncomingOrderContext)
  | processing (context : IncomingOrderContext)
  | takeOrder (orderId : OrderId) (finalization : Finalization)
  | take (order : CreatedOrder)
  | orderRejected (params : OrderRejected)
  | orderPostponed (params : OrderPostponed)
  | unlockOrder (orderId : OrderId) (order : OrderData)
  | removeUnlock (takeChain : ChainId) (orderId : OrderId)
  | flushCache (chain : ChainId)
  deriving DecidableEq

/-- The network parameters of the take chain. -/
structure Network where
  avgBlockSpeed : ℚ
  finalizedBlockCount : ℕ

structure OrderProcessor where
  priorityQueue : InsertionSet OrderId
  queue : InsertionSet OrderId
  eventsQueue : List IncomingOrderContext
  isLocked : Bool
  createdOrdersMetadata : (id : OrderId) → Option (CreatedOrderMetadata id)
  mempoolService : MempoolService
  takes : List PendingTake
  clock : ℕ
  effects : List Effect

/-- `'Revoked' | 'Finalized' | number`; `none` is the exception of `in` applied to `undefined`. -/
def getFinalizationInfo : OrderInfoStatus → Option FinalizationInfo → Option Finalization
  | .archivalCreated, _ => some (.reached .finalized)
  | _, some .revoked => some .revoked
  | _, some (.finalized _) => some (.reached .finalized)
  | _, some (.confirmed count _) => some (.reached (.confirmations count))
  | _, none => none

namespace OrderProcessor

def initial : OrderProcessor where
  priorityQueue := .empty
  queue := .empty
  eventsQueue := []
  isLocked := false
  createdOrdersMetadata _ := none
  mempoolService := .empty
  takes := []
  clock := 0
  effects := []

variable (p : OrderProcessor)

def emit (e : Effect) : OrderProcessor := { p with effects := p.effects ++ [e] }

def setMetadata {id : OrderId} (metadata : CreatedOrderMetadata id) : OrderProcessor :=
  { p with createdOrdersMetadata := Function.update p.createdOrdersMetadata id (some metadata) }

def clearInternalQueues (orderId : OrderId) : OrderProcessor :=
  { p with
    queue := p.queue.delete orderId
    priorityQueue := p.priorityQueue.delete orderId
    mempoolService := p.mempoolService.delete orderId }

def clearOrderStore (orderId : OrderId) : OrderProcessor :=
  { p with createdOrdersMetadata := Function.update p.createdOrdersMetadata orderId none }

/-- An empty id is falsy, as a missing one. -/
def pickNextOrderId : Option OrderId × OrderProcessor :=
  let nextOrderId := (p.priorityQueue.first?.filter (· ≠ "")).or p.queue.first?
  match nextOrderId.filter (· ≠ "") with
  | none => (none, p)
  | some nextOrderId =>
    (some nextOrderId,
      { p with
        priorityQueue := p.priorityQueue.delete nextOrderId
        queue := p.queue.delete nextOrderId })

def getCreatedOrderMetadata (orderId : OrderId) : Except Crash (CreatedOrderMetadata orderId) :=
  match p.createdOrdersMetadata orderId with
  | some metadata => .ok metadata
  | none => .error (.die s!"Unexpected: missing created order data (orderId: {orderId})")

def postponeOrder (orderId : OrderId) (order : OrderData) (isLive : Bool) (attempt : ℕ)
    (message : String) (reason : PostponingReason) (remainingDelay : Option ℚ) :
    OrderProcessor :=
  let p := p.emit (.orderPostponed
    { orderId, order, message, reason, isLive, attempts := attempt })
  match remainingDelay.filter (· ≠ 0) with
  | some delay => { p with mempoolService := p.mempoolService.addOrder orderId delay }
  | none =>
    if isLive then { p with mempoolService := p.mempoolService.delayOrder orderId attempt }
    else { p with mempoolService := p.mempoolService.delayArchivalOrder orderId attempt }

def rejectOrder (orderId : OrderId) (order : OrderData) (isLive : Bool) (attempt : ℕ)
    (message : String) (reason : RejectionReason) : OrderProcessor :=
  p.emit (.orderRejected { orderId, order, isLive, message, reason, attempts := attempt })

def markOrderAsFulfilled (network : Network) (orderId : OrderId) : OrderProcessor :=
  let p := p.clearInternalQueues orderId
  let fulfillCheckDelay := network.avgBlockSpeed * network.finalizedBlockCount
  { p with mempoolService := p.mempoolService.addOrder orderId fulfillCheckDelay }

/-- `takeOrder` up to its `await`, once the finalization is known. -/
def startTake {id : OrderId} (metadata : CreatedOrderMetadata id) (finalization : Finalization) :
    OrderProcessor :=
  let orderInfo := metadata.context.orderInfo
  let isLive := orderInfo.status == .created
  let p := p.emit (.takeOrder id finalization)
  match finalization with
  | .revoked =>
    let p := p.clearInternalQueues orderInfo.orderId
    let message := "order has been revoked by the order feed due to chain reorganization"
    let p := p.rejectOrder orderInfo.orderId orderInfo.order isLive metadata.attempts message
      .revoked
    { p with takes := p.takes ++ [⟨id, metadata, isLive, true⟩] }
  | .reached finality =>
    let order : CreatedOrder :=
      { orderId := orderInfo.orderId
        orderData := orderInfo.order
        finalization := finality
        arrivedAt := metadata.arrivedAt
        attempt := metadata.attempts
        giveChain := metadata.context.giveChain
        takeChain := metadata.context.takeChain }
    let p := p.emit (.take order)
    { p with takes := p.takes ++ [⟨id, metadata, isLive, false⟩] }

def takeOrder {id : OrderId} (metadata : CreatedOrderMetadata id) :
    Except Crash OrderProcessor :=
  let orderInfo := metadata.context.orderInfo
  match getFinalizationInfo orderInfo.status orderInfo.finalizationInfo with
  | none => .error .typeError
  | some finalization => .ok (p.startTake metadata finalization)

/-- `takeOrder` after its `await`: the handling of how `take` settled. -/
def settleTake (network : Network) (take : PendingTake) (outcome : TakeOutcome) :
    OrderProcessor :=
  let orderInfo := take.metadata.context.orderInfo
  match outcome with
  | .success => p.markOrderAsFulfilled network orderInfo.orderId
  | .reject rejection message =>
    p.rejectOrder orderInfo.orderId orderInfo.order take.isLive take.metadata.attempts message
      rejection
  | .postpone postpone message delay =>
    p.postponeOrder orderInfo.orderId orderInfo.order take.isLive take.metadata.attempts message
      postpone delay
  | .thrown error =>
    p.postponeOrder orderInfo.orderId orderInfo.order take.isLive take.metadata.attempts error
      .unhandledError none

/-- The branch of `process` taken while the processor is busy. -/
def park (context : IncomingOrderContext) : OrderProcessor :=
  match context.status with
  | .archivalCreated => { p with queue := p.queue.add context.orderId }
  | .created => { p with priorityQueue := p.priorityQueue.add context.orderId }
  | _ => { p with eventsQueue := p.eventsQueue ++ [context] }

/-- The cases of `process` that do not await: all but the creation statuses. -/
def dispatch (context : IncomingOrderContext) : OrderProcessor :=
  let orderId := context.orderId
  match context.status with
  | .archivalFulfilled => p.emit (.unlockOrder orderId context.orderInfo.order)
  | .cancelled => (p.clearInternalQueues orderId).clearOrderStore orderId
  | .unlockSent | .unlockClaim =>
    ((((p.clearInternalQueues orderId).clearOrderStore orderId).emit
      (.flushCache context.giveChain)).emit (.flushCache context.takeChain)).emit
        (.removeUnlock context.takeChain orderId)
  | .fulfilled =>
    ((((p.clearInternalQueues orderId).clearOrderStore orderId).emit
      (.flushCache context.giveChain)).emit (.flushCache context.takeChain)).emit
        (.unlockOrder orderId context.orderInfo.order)
  | _ => p

/-- `process`; the argument `finish` is its end, from the release of the lock on, which
a creation event reaches only after the `await`. -/
def process (finish : OrderProcessor → Except Crash OrderProcessor)
    (context : IncomingOrderContext) : Except Crash OrderProcessor :=
  if p.isLocked then .ok (p.park context)
  else
    let p := { p.emit (.processing context) with isLocked := true }
    if context.status.isCreation then do
      let metadata ← p.getCreatedOrderMetadata context.orderId
      (p.setMetadata metadata.countAttempt).takeOrder metadata.countAttempt
    else finish { p.dispatch context with isLocked := false }

def handleOrder (finish : OrderProcessor → Except Crash OrderProcessor) (orderId : OrderId) :
    Except Crash OrderProcessor := do
  let metadata ← p.getCreatedOrderMetadata orderId
  p.process finish metadata.context

/-- The separate storage of creation events, updated on arrival. -/
def trackCreation (context : IncomingOrderContext) : OrderProcessor :=
  if creation : context.status.isCreation = true then
    match p.createdOrdersMetadata context.orderId with
    | none =>
      p.setMetadata { arrivedAt := p.clock, attempts := 0, context, orderId_eq := rfl, creation }
    | some known =>
      -- archival orders do not override data
      if live : context.status = .created then p.setMetadata (known.patchFinalization context live)
      else p
  else p

def handleEvent (finish : OrderProcessor → Except Crash OrderProcessor)
    (context : IncomingOrderContext) : Except Crash OrderProcessor :=
  (p.trackCreation context).process finish context

/-- The end of `process`: the waiting events one after the other, then the next order. The
processing of a stored order suspends, so it has no end in this section. -/
def drain : List IncomingOrderContext → OrderProcessor → Except Crash OrderProcessor
  | [], p =>
    match p.pickNextOrderId with
    | (none, p) => .ok p
    | (some nextOrderId, p) => p.handleOrder .ok nextOrderId
  | context :: events, p => { p with eventsQueue := events }.handleEvent (drain events) context

/-- Release the lock and go on with what waits. -/
def resume : Except Crash OrderProcessor := drain p.eventsQueue p

end OrderProcessor

/-- What enters a synchronous section of the processor: `settled` and `returned` name the
suspended call of `takeOrder` by its position. -/
inductive Input
  | event (context : IncomingOrderContext)
  | timer (n : ℕ)
  | settled (n : ℕ) (outcome : TakeOutcome)
  | returned (n : ℕ)
  | tick (ms : ℕ)
  deriving DecidableEq

open OrderProcessor in
/-- One synchronous section; a crashed daemon takes no more steps. -/
def processorStep (network : Network) :
    Except Crash OrderProcessor → Input → Option (Except Crash OrderProcessor)
  | .error _, _ => none
  | .ok p, .event context => some ((p.emit (.received context)).handleEvent resume context)
  | .ok p, .timer n =>
    match p.mempoolService.fire n with
    | none => none
    | some (mempoolService, none) => some (.ok { p with mempoolService })
    | some (mempoolService, some orderId) =>
      some ({ p with mempoolService }.handleOrder resume orderId)
  | .ok p, .settled n outcome =>
    match p.takes[n]? with
    | none => none
    | some take =>
      if take.ended then none
      else some (.ok { p.settleTake network take outcome with
        takes := p.takes.set n { take with ended := true } })
  | .ok p, .returned n =>
    match p.takes[n]? with
    | none => none
    | some take =>
      if take.ended then some (resume { p with
        takes := p.takes.eraseIdx n, isLocked := false })
      else none
  | .ok p, .tick ms => some (.ok { p with clock := p.clock + ms })

/-- The processor of a take chain, from its construction on. -/
def processor (network : Network) : Machine (Except Crash OrderProcessor) Input where
  init := .ok .initial
  step := processorStep network

/-! Small events and a network for runs on fixed inputs. -/

namespace Sample

def network : Network := ⟨2, 10⟩

def order : OrderData := orderData ⟨1, [], 100⟩ ⟨2, [], 99⟩

def created (orderId : OrderId) (info : FinalizationInfo) : IncomingOrderContext :=
  ⟨⟨orderId, .created, order, some info, fun _ => rfl⟩, 1, 2⟩

def archivalCreated (orderId : OrderId) : IncomingOrderContext :=
  ⟨⟨orderId, .archivalCreated, order, none, nofun⟩, 1, 2⟩

def cancelled (orderId : OrderId) : IncomingOrderContext :=
  ⟨⟨orderId, .cancelled, order, none, nofun⟩, 1, 2⟩

end Sample

end DlnTaker
