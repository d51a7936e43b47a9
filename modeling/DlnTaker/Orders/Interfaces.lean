import Mathlib.Data.Rat.Defs

/-! # Orders and their events

The order feed reports the life of an order as events of several statuses. A
`created` event is live and carries finalization info, the archival statuses
describe the past. The module also fixes what a take attempt can end in.
-/

namespace DlnTaker

abbrev ChainId := ℕ

abbrev OrderId := String

abbrev Address := List UInt8

structure Offer where
  chainId : ChainId
  tokenAddress : Address
  amount : ℕ
  deriving DecidableEq, Repr

structure ExternalCall where
  externalCallData : List UInt8
  externalCallHash : Option (List UInt8)
  deriving DecidableEq, Repr

structure OrderData where
  nonce : ℕ
  maker : Address
  give : Offer
  take : Offer
  receiver : Address
  givePatchAuthority : Address
  orderAuthorityDstAddress : Address
  allowedTaker : Option Address
  allowedCancelBeneficiary : Option Address
  externalCall : Option ExternalCall
  deriving DecidableEq, Repr

/-- The code tells the first three states apart; the client's enumeration has more after them,
which an order reaches once it is no longer to be unlocked. -/
inductive OrderState
  | notSet | created | fulfilled
  | past (status : ℕ)
  deriving DecidableEq, Repr

structure TakeOrderState where
  status : OrderState
  takerAddress : Address
  deriving DecidableEq, Repr

inductive OrderInfoStatus
  | created | archivalCreated | archivalFulfilled | fulfilled | cancelled | unlockSent
  | unlockClaim | takeOfferDecreased | giveOfferIncreased
  deriving DecidableEq, Repr

/-- The statuses that announce an order to be taken. -/
def OrderInfoStatus.isCreation : OrderInfoStatus → Bool
  | created | archivalCreated => true
  | _ => false

/-- The statuses after which an order is no longer to be taken. -/
def OrderInfoStatus.isTerminal : OrderInfoStatus → Bool
  | cancelled | fulfilled | unlockSent | unlockClaim => true
  | _ => false

theorem OrderInfoStatus.not_creation_of_terminal {status : OrderInfoStatus}
    (h : status.isTerminal = true) : status.isCreation = false := by
  cases status <;> simp_all [isTerminal, isCreation]

inductive FinalizationInfo
  | finalized (transactionHash : String)
  | confirmed (confirmationBlocksCount : ℕ) (transactionHash : String)
  | revoked
  deriving DecidableEq, Repr

/-- An event as the feed delivers it; a live creation always has its finalization info. -/
structure IncomingOrder where
  orderId : OrderId
  status : OrderInfoStatus
  order : OrderData
  finalizationInfo : Option FinalizationInfo
  created_has_info : status = .created → finalizationInfo.isSome
  deriving DecidableEq

structure IncomingOrderContext where
  orderInfo : IncomingOrder
  giveChain : ChainId
  takeChain : ChainId
  deriving DecidableEq

namespace IncomingOrderContext

abbrev orderId (context : IncomingOrderContext) : OrderId := context.orderInfo.orderId

abbrev status (context : IncomingOrderContext) : OrderInfoStatus := context.orderInfo.status

end IncomingOrderContext

/-- What an order is known to have reached: `'Finalized'` or a number of block confirmations. -/
inductive Finality
  | finalized
  | confirmations (count : ℕ)
  deriving DecidableEq, Repr

/-- The finalization a take attempt works with. -/
inductive Finalization
  | revoked
  | reached (finality : Finality)
  deriving DecidableEq, Repr

def FinalizationInfo.finalization : FinalizationInfo → Finalization
  | finalized _ => .reached .finalized
  | confirmed count _ => .reached (.confirmations count)
  | revoked => .revoked

inductive PostponingReason
  | notEnoughBalance | notProfitable | fulfillmentTxFailed | fulfillmentEvmTxPreestimationFailed
  | unhandledError | forcedDelay | tvlBudgetExceeded | cappedThroughput | missing
  deriving DecidableEq, Repr

inductive RejectionReason
  | unexpectedGiveToken | alreadyFulfilledOrCancelled | unexpectedGiveStatus | revoked
  | notEnoughBlockConfirmationsForOrderWorth | notYetFinalized | unavailablePreFulfillSwap
  | malformedOrder | wrongTaker | filteredOff
  deriving DecidableEq, Repr

/-- How the promise of `CreatedOrderTaker.take` settles: it resolves, one of the two short
circuits rejects it, or an `Error` object is thrown. -/
inductive TakeOutcome
  | success
  | reject (rejection : RejectionReason) (message : String)
  | postpone (postpone : PostponingReason) (message : String) (delay : Option ℚ)
  | thrown (error : String)
  deriving DecidableEq

/-- The order a taker is built for. -/
structure CreatedOrder where
  orderId : OrderId
  orderData : OrderData
  finalization : Finality
  arrivedAt : ℕ
  attempt : ℕ
  giveChain : ChainId
  takeChain : ChainId
  deriving DecidableEq

/-- The daemon stops: an assertion calls `process.exit`, or an exception escapes. -/
inductive Crash
  | die (message : String)
  | typeError
  deriving DecidableEq, Repr

/-- An order for runs on fixed inputs, of which only the two offers matter. -/
def Sample.orderData (give take : Offer) : OrderData :=
  ⟨0, [], give, take, [], [], [], none, none, none⟩

end DlnTaker
