import Mathlib.Algebra.Order.Floor.Semiring
import Mathlib.Data.Rat.Floor
import DlnTaker.Library.InsertionMap
import DlnTaker.Library.Machine
import DlnTaker.Orders.Worth

/-! # The batch unlocker

`BatchUnlocker` collects fulfilled orders by give chain and unlocks them in
batches, one batch at a time. A step of the machine below is what runs between
two `await` points: a call from outside, the settling of a promise that the
unlocker waits for, or a continuation that was queued by one.
-/

namespace DlnTaker

/-- `orderState?.status === OrderState.Fulfilled`. -/
def isFulfilled (orderState : Option TakeOrderState) : Bool :=
  orderState.any (·.status = .fulfilled)

/-- `ChainId.Solana`. -/
def solana : ChainId := 7565164

/-- The size of a batch is a number, not necessarily a whole one. -/
def getBatchSize (chainName : ChainId → String) (chainId : ChainId)
    (chainConstraint sharedConstraint : Option ℚ) : Except String ℚ :=
  let maxBatchSize : ℚ := 10
  let maxBatchSizeToSolana := 7
  -- zero is falsy, as an absent size
  let size := ((chainConstraint.filter (· ≠ 0)).or (sharedConstraint.filter (· ≠ 0))).getD
    maxBatchSize
  if size < 1 ∨ size > maxBatchSize then
    .error (s!"Unlock batch size is out of bounds: expected [1,{maxBatchSize}]; " ++
      s!"actual: {size} for {chainName chainId}")
  else if chainId = solana ∧ size > maxBatchSizeToSolana then .ok maxBatchSizeToSolana
  else .ok size

theorem one_le_of_getBatchSize {chainName : ChainId → String} {chainId : ChainId}
    {chainConstraint sharedConstraint : Option ℚ} {size : ℚ}
    (h : getBatchSize chainName chainId chainConstraint sharedConstraint = .ok size) :
    1 ≤ size := by
  simp only [getBatchSize] at h
  split at h
  · simp at h
  · rename_i hb
    split at h
    · obtain rfl := Except.ok.inj h
      norm_num
    · obtain rfl := Except.ok.inj h
      exact not_lt.mp fun hlt => hb (.inl hlt)

/-- The chain the orders are taken on, and the accepted batch size of every give chain. Orders
of a give chain that is not configured never reach an unlocker. The names of the chains are those
of the client's enumeration. -/
structure UnlockerConfig where
  chainName : ChainId → String
  takeChain : ChainId
  unlockAuthority : Address
  chainConstraint : ChainId → Option ℚ
  sharedConstraint : Option ℚ
  batchUnlockSize : ChainId → ℚ
  accepted : ∀ chainId,
    getBatchSize chainName chainId (chainConstraint chainId) sharedConstraint =
      .ok (batchUnlockSize chainId)

/-- An order as it is handed over for an unlock: spreading data that is not there adds nothing. -/
structure OrderDataWithId where
  orderId : OrderId
  data : Option OrderData
  deriving DecidableEq, Repr

/-- A call of `unlockOrder` that waits for the state of its order. -/
structure UnlockOrderCall where
  orderId : OrderId
  order : OrderData
  deriving DecidableEq

/-- How far a call of `tryUnlock` is with its batch: it waits for the states of the picked orders
(an inner `none` is a state the client does not have), it waits for the sender, or a function has
returned and its caller has not gone on yet. -/
inductive BatchStage
  | filtering (states : List (Option (Option TakeOrderState)))
  | sending (orderIds unlockedOrders : List OrderId)
  | unlocked (unlockedOrders : List OrderId)
  | performed (batchSucceeded : Bool)
  | finished
  deriving DecidableEq

/-- A call of `tryUnlock` in progress; `nested` if the batch was started by `unlockAny`. -/
structure BatchUnlock where
  giveChainId : ChainId
  orderIds : List OrderId
  nested : Bool
  stage : BatchStage
  deriving DecidableEq

/-- The picked orders that their lookups showed fulfilled, or those they did not. -/
def BatchUnlock.filtered (batch : BatchUnlock) (states : List (Option (Option TakeOrderState)))
    (fulfilled : Bool) : List OrderId :=
  ((batch.orderIds.zip states).filter fun x => isFulfilled x.2.join == fulfilled).map Prod.fst

/-- What the unlocker does and learns, for the properties of whole runs. -/
inductive UnlockEntry
  | added (giveChainId : ChainId) (orderId : OrderId)
  | removed (takeChain : ChainId) (orderId : OrderId)
  | picked (giveChainId : ChainId) (orderIds : List OrderId)
  | lookedUp (orderId : OrderId) (orderState : Option TakeOrderState)
  | handed (giveChainId : ChainId) (orders : List OrderDataWithId)
  | orderUnlockSent (fromChainId toChainId : ChainId) (txHash : String) (orderIds : List OrderId)
  | orderUnlockFailed (fromChainId toChainId : ChainId) (message : String)
      (orderIds : List OrderId)
  deriving DecidableEq

/-- The unlocker of a take chain. The process has `exited` when an empty batch was handed over:
`createBatchOrderUnlockTx` asserts that there is an order before it does anything else. -/
structure BatchUnlocker where
  ordersDataMap : OrderId → Option OrderData
  unlockBatchesOrderIdMap : InsertionMap ChainId (InsertionSet OrderId)
  isBatchUnlockLocked : Bool
  calls : List UnlockOrderCall
  batches : List BatchUnlock
  exited : Bool
  journal : List UnlockEntry

namespace BatchUnlocker

variable (config : UnlockerConfig) (u : BatchUnlocker)

def initial : BatchUnlocker where
  ordersDataMap _ := none
  unlockBatchesOrderIdMap := .empty
  isBatchUnlockLocked := false
  calls := []
  batches := []
  exited := false
  journal := []

def emit (e : UnlockEntry) : BatchUnlocker := { u with journal := u.journal ++ [e] }

/-- The orders that wait for the unlock on a give chain. -/
def pending (giveChainId : ChainId) : InsertionSet OrderId :=
  (u.unlockBatchesOrderIdMap.get? giveChainId).getD .empty

def remove (takeChain : ChainId) (orderId : OrderId) : BatchUnlocker :=
  let u := u.emit (.removed takeChain orderId)
  match u.unlockBatchesOrderIdMap.get? takeChain with
  | some orderIds =>
    { u with
      unlockBatchesOrderIdMap := u.unlockBatchesOrderIdMap.set takeChain (orderIds.delete orderId)
      ordersDataMap := Function.update u.ordersDataMap orderId none }
  | none => u

/-- `performBatchUnlock` up to its first `await`: pick the orders and ask for their states. The
end of `slice` is truncated to a whole number. -/
def performBatchUnlock (giveChainId : ChainId) (nested : Bool) : BatchUnlock :=
  let orderIds :=
    (u.pending giveChainId).toList.take ⌊config.batchUnlockSize giveChainId⌋₊
  { giveChainId, orderIds, nested, stage := .filtering (orderIds.map fun _ => none) }

def tryUnlock (giveChainId : ChainId) : BatchUnlocker :=
  if u.isBatchUnlockLocked then u
  else if ((u.pending giveChainId).size : ℚ) < config.batchUnlockSize giveChainId then u
  else
    let batch := u.performBatchUnlock config giveChainId false
    { u with
      isBatchUnlockLocked := true
      batches := u.batches ++ [batch] }.emit (.picked giveChainId batch.orderIds)

/-- `addOrder` without the call of `tryUnlock` at its end. -/
def pool (orderId : OrderId) (order : OrderData) : BatchUnlocker :=
  let orderIds := u.pending order.give.chainId
  { u with
    unlockBatchesOrderIdMap :=
      u.unlockBatchesOrderIdMap.set order.give.chainId (orderIds.add orderId)
    ordersDataMap := Function.update u.ordersDataMap orderId (some order) }.emit
      (.added order.give.chainId orderId)

def addOrder (orderId : OrderId) (order : OrderData) : BatchUnlocker :=
  (u.pool orderId order).tryUnlock config order.give.chainId

/-- An order to be unlocked is fulfilled, and by this taker. -/
def isUnlockable (orderState : Option TakeOrderState) : Bool :=
  orderState.any fun orderState =>
    orderState.status = .fulfilled ∧ orderState.takerAddress = config.unlockAuthority

/-- The first give chain with a full batch; chain ids are positive, so none is falsy. -/
def peekNextBatch : Option ChainId :=
  (u.unlockBatchesOrderIdMap.entries.find? fun entry =>
    config.batchUnlockSize entry.1 ≤ (entry.2.size : ℚ)).map Prod.fst

/-- The n-th call of `tryUnlock` goes on to another stage. -/
def moved (n : ℕ) (batch : BatchUnlock) (stage : BatchStage) : BatchUnlocker :=
  { u with batches := u.batches.set n { batch with stage } }

/-- The state of the i-th picked order is known. -/
def lookedUp (n i : ℕ) (batch : BatchUnlock) (states : List (Option (Option TakeOrderState)))
    (orderId : OrderId) (orderState : Option TakeOrderState) : BatchUnlocker :=
  (u.moved n batch (.filtering (states.set i (some orderState)))).emit
    (.lookedUp orderId orderState)

/-- The n-th call of `tryUnlock` rejects: nothing releases the lock. -/
def rejected (n : ℕ) : BatchUnlocker := { u with batches := u.batches.eraseIdx n }

/-- The n-th call of `tryUnlock` resolves. -/
def released (n : ℕ) : BatchUnlocker :=
  { u with isBatchUnlockLocked := false, batches := u.batches.eraseIdx n }

/-- `orderIds.map` in `sendBatchUnlock`. -/
def withData (orderIds : List OrderId) : List OrderDataWithId :=
  orderIds.map fun orderId => ⟨orderId, u.ordersDataMap orderId⟩

/-- `unlockOrders` from the filter on: hand over the orders that are still fulfilled. -/
def sendBatchUnlock (n : ℕ) (batch : BatchUnlock)
    (states : List (Option (Option TakeOrderState))) : BatchUnlocker :=
  let orderIds := batch.filtered states true
  { u.moved n batch (.sending orderIds (batch.filtered states false)) with
    exited := orderIds.isEmpty }.emit (.handed batch.giveChainId (u.withData orderIds))

/-- The end of `unlockOrders`, with the hook that tells how the sender settled. -/
def unlockOrders (n : ℕ) (batch : BatchUnlock) (orderIds unlockedOrders : List OrderId) :
    Except String String → BatchUnlocker
  | .ok txHash =>
    (u.moved n batch (.unlocked (unlockedOrders ++ orderIds))).emit
      (.orderUnlockSent config.takeChain batch.giveChainId txHash orderIds)
  | .error message =>
    (u.moved n batch (.unlocked unlockedOrders)).emit
      (.orderUnlockFailed config.takeChain batch.giveChainId
        (s!"trying to unlock {orderIds.length} orders from " ++
          s!"{config.chainName config.takeChain} to " ++
          s!"{config.chainName batch.giveChainId} failed: {message}") orderIds)

/-- The end of `performBatchUnlock`. -/
def cleanUp (n : ℕ) (batch : BatchUnlock) (unlockedOrders : List OrderId) : BatchUnlocker :=
  let orderIds := u.pending batch.giveChainId
  { u.moved n batch
      (.performed (unlockedOrders.length = config.batchUnlockSize batch.giveChainId)) with
    unlockBatchesOrderIdMap :=
      u.unlockBatchesOrderIdMap.set batch.giveChainId (orderIds.deleteAll unlockedOrders)
    ordersDataMap := fun orderId =>
      if orderId ∈ unlockedOrders then none else u.ordersDataMap orderId }

/-- A round of the loop in `unlockAny`, of which the first is reached from `tryUnlock`. -/
def unlockAny (n : ℕ) (batch : BatchUnlock) : BatchUnlocker :=
  match u.peekNextBatch config with
  | some giveChainId =>
    let next := u.performBatchUnlock config giveChainId true
    { u with batches := u.batches.set n next }.emit (.picked giveChainId next.orderIds)
  | none => u.moved n batch .finished

/-- The continuation of what the n-th call of `tryUnlock` awaited last. -/
def resume (n : ℕ) (batch : BatchUnlock) : Option BatchUnlocker :=
  match batch.stage with
  | .filtering states =>
    if states.all Option.isSome then some (u.sendBatchUnlock n batch states) else none
  | .sending _ _ => none
  | .unlocked unlockedOrders => some (u.cleanUp config n batch unlockedOrders)
  | .performed true => some (u.unlockAny config n batch)
  | .performed false =>
    if batch.nested then some (u.moved n batch .finished) else some (u.released n)
  | .finished => some (u.released n)

end BatchUnlocker

/-- What a section of the unlocker begins with: a call, the settling of a lookup or of the sender,
or a queued continuation. -/
inductive UnlockerInput
  | unlockOrder (orderId : OrderId) (order : OrderData)
  | remove (takeChain : ChainId) (orderId : OrderId)
  | tryUnlock (giveChainId : ChainId)
  | orderState (n : ℕ) (answer : Except String (Option TakeOrderState))
  | lookup (n i : ℕ) (answer : Except String (Option TakeOrderState))
  | sender (n : ℕ) (answer : Except String String)
  | resume (n : ℕ)
  deriving DecidableEq

open BatchUnlocker in
/-- One section; an exited process takes no more steps. -/
def unlockerStep (config : UnlockerConfig) (u : BatchUnlocker) (i : UnlockerInput) :
    Option BatchUnlocker :=
  if u.exited then none
  else match i with
  | .unlockOrder orderId order => some { u with calls := u.calls ++ [⟨orderId, order⟩] }
  | .remove takeChain orderId => some (u.remove takeChain orderId)
  | .tryUnlock giveChainId =>
    match u.unlockBatchesOrderIdMap.get? giveChainId with
    | some _ => some (u.tryUnlock config giveChainId)
    -- the size of a missing set is a TypeError, which rejects the call
    | none => some u
  | .orderState n answer =>
    match u.calls[n]?, answer with
    | none, _ => none
    | some call, .ok orderState =>
      let u := { u with calls := u.calls.eraseIdx n }
      if isUnlockable config orderState then some (u.addOrder config call.orderId call.order)
      else some u
    | some _, .error _ => some { u with calls := u.calls.eraseIdx n }
  | .lookup n i answer =>
    match u.batches[n]? with
    | none => none
    | some batch =>
      match batch.stage with
      | .filtering states =>
        match batch.orderIds[i]?, states[i]?, answer with
        | some orderId, some none, .ok orderState =>
          some (u.lookedUp n i batch states orderId orderState)
        | some _, some none, .error _ => some (u.rejected n)
        | _, _, _ => none
      | _ => none
  | .sender n answer =>
    match u.batches[n]? with
    | none => none
    | some batch =>
      match batch.stage with
      | .sending orderIds unlockedOrders =>
        some (u.unlockOrders config n batch orderIds unlockedOrders answer)
      | _ => none
  | .resume n => u.batches[n]?.bind fun batch => u.resume config n batch

/-- The unlocker of a take chain, from its construction on. -/
def unlocker (config : UnlockerConfig) : Machine BatchUnlocker UnlockerInput where
  init := .initial
  step := unlockerStep config

/-! A configuration and calls for runs on fixed inputs. -/

namespace BatchUnlocker.Sample

theorem getBatchSize_self {chainName : ChainId → String} {chainId : ChainId} {size : ℚ}
    (h : 1 ≤ size ∧ size ≤ 7) : getBatchSize chainName chainId (some size) none = .ok size := by
  have h0 : size ≠ 0 := by linarith
  have h1 : ¬ (size < 1 ∨ 10 < size) := by
    rintro (hlt | hlt) <;> linarith
  simp [getBatchSize, Option.filter, h0, h1, not_lt.mpr h.2]

/-- The unlocker of chain 2, with batches of one size. -/
def config (size : ℚ) (h : 1 ≤ size ∧ size ≤ 7) : UnlockerConfig where
  chainName chain := s!"chain {chain}"
  takeChain := 2
  unlockAuthority := [7]
  chainConstraint _ := some size
  sharedConstraint := none
  batchUnlockSize _ := size
  accepted _ := getBatchSize_self h

/-- Every order is a batch of its own. -/
def single : UnlockerConfig := config 1 (by norm_num)

def pairs : UnlockerConfig := config 2 (by norm_num)

def order (giveChainId : ChainId) : OrderData :=
  DlnTaker.Sample.orderData ⟨giveChainId, [], 100⟩ ⟨2, [], 99⟩

/-- Fulfilled by the taker. -/
def ours : Option TakeOrderState := some ⟨.fulfilled, [7]⟩

/-- The unlock has been sent. -/
def sentUnlock : Option TakeOrderState := some ⟨.past 3, [7]⟩

/-- An order is announced as fulfilled and found so. -/
def announced (giveChainId : ChainId) (orderId : OrderId) : List UnlockerInput :=
  [.unlockOrder orderId (order giveChainId), .orderState 0 (.ok ours)]

/-- The batch of one order from its lookup to the end of `performBatchUnlock`. -/
def sentAs (answer : Except String String) : List UnlockerInput :=
  [.lookup 0 0 (.ok ours), .resume 0, .sender 0 answer, .resume 0]

/-- The lookups of a batch of two show both fulfilled, and the batch is handed over. -/
def bothFulfilled : List UnlockerInput :=
  [.lookup 0 0 (.ok ours), .lookup 0 1 (.ok ours), .resume 0]

end BatchUnlocker.Sample

end DlnTaker
