import DlnTaker.Evm.Signer
import DlnTaker.Library.Dialogue
import DlnTaker.Limits.Throughput
import DlnTaker.Processor.Basic

/-! # What a take attempt works with

An attempt is a dialogue of the taker with its environment: the clients of the
chains, the prices, swaps and filters, the clock and the controllers of the give
chain, which other attempts change at the same time. A lookup may fail at any
time. The pure functions of the client's packages are a parameter.
-/

namespace DlnTaker

inductive ChainEngine
  | evm | other
  deriving DecidableEq, Repr

/-- The tokens of a bucket by chain. -/
structure TokensBucket where
  tokens : List (ChainId × List Address)
  deriving DecidableEq, Repr

/-- The functions and constants of the client's packages that an attempt uses, and how a number
is shown in a text. An error is an exception that the function throws. -/
structure Toolkit where
  calculateId : OrderData → Except String OrderId
  getVerified : OrderId → OrderData → Except String Unit
  getExternalCallHash : List UInt8 → Except String (List UInt8)
  hexToBuffer : String → List UInt8
  bufferToHex : List UInt8 → String
  tokenAddressToString : ChainId → Address → Except String String
  isOneOf : TokensBucket → ChainId → Address → Bool
  findFirstToken : TokensBucket → ChainId → Option Address
  findExpectedBucket : OrderData → List TokensBucket → Except String Address
  getForwarderAddress : ChainId → Except String Address
  getEngineByChainId : ChainId → ChainEngine
  chainName : ChainId → String
  showState : OrderState → String
  showNumber : ℚ → String
  optimism : ChainId
  linea : ChainId
  neon : ChainId

structure SrcOrderConstraints where
  fulfillmentDelay : ℚ
  maxFulfillThroughputUSD : ℚ
  throughputTimeWindowSec : ℚ
  deriving DecidableEq

structure SrcConstraintsPerOrderValue extends SrcOrderConstraints where
  upperThreshold : ℚ
  minBlockConfirmations : ℕ
  deriving DecidableEq

structure SrcConstraints extends SrcOrderConstraints where
  profitability : ℚ
  batchUnlockSize : ℚ
  perOrderValue : List SrcConstraintsPerOrderValue

inductive ChangeRecipient
  | taker | maker
  deriving DecidableEq, Repr

structure DstOrderConstraints where
  fulfillmentDelay : ℚ
  preFulfillSwapChangeRecipient : ChangeRecipient
  deriving DecidableEq

structure DstConstraintsPerOrderValue extends DstOrderConstraints where
  minBlockConfirmations : ℕ
  deriving DecidableEq

structure DstConstraints extends DstOrderConstraints where
  perOrderValue : List DstConstraintsPerOrderValue

structure Authority where
  address : String
  bytesAddress : Address
  deriving DecidableEq

/-- A filter is code of the operator, known by a name here. -/
structure OrderFilter where
  name : String
  deriving DecidableEq, Repr

/-- A configured chain; `budget` is that of its `TVLBudgetController`. -/
structure ExecutorSupportedChain where
  network : Network
  srcFilters : List OrderFilter
  dstFilters : List OrderFilter
  budget : ℚ
  srcConstraints : SrcConstraints
  dstConstraints : DstConstraints
  unlockAuthority : Authority
  fulfillAuthority : Authority
  unlockBeneficiary : Address

structure Executor where
  toolkit : Toolkit
  chains : ChainId → ExecutorSupportedChain
  buckets : List TokensBucket
  allowSubsidy : Bool
  hasSubsidizationRules : Bool
  disableOpHorizonCampaign : Bool

/-- The stable sort by block confirmations, in descending order. -/
def sortRanges {α : Type*} (minBlockConfirmations : α → ℕ) (ranges : List α) : List α :=
  ranges.insertionSort fun b a => minBlockConfirmations a ≤ minBlockConfirmations b

structure Route where
  reserveDstToken : Address
  requiresSwap : Bool
  deriving DecidableEq, Repr

namespace CreatedOrder

variable (executor : Executor) (order : CreatedOrder)

def giveTokenAsString : Except String String :=
  executor.toolkit.tokenAddressToString order.orderData.give.chainId
    order.orderData.give.tokenAddress

def route : Except String Route := do
  let reserveDstToken ← executor.toolkit.findExpectedBucket order.orderData executor.buckets
  return ⟨reserveDstToken, reserveDstToken ≠ order.orderData.take.tokenAddress⟩

def blockConfirmations : ℕ :=
  match order.finalization with
  | .finalized => (executor.chains order.giveChain).network.finalizedBlockCount
  | .confirmations count => count

def legacyRequiredMargin : ℚ := (executor.chains order.giveChain).srcConstraints.profitability

def requiredMargin : ℚ :=
  let margin := order.legacyRequiredMargin executor
  if executor.disableOpHorizonCampaign then margin
  else
    let margin :=
      if order.takeChain = executor.toolkit.optimism then margin - 4
      else if order.giveChain = executor.toolkit.optimism then margin - 2
      else margin
    if margin < 0 then 0 else margin

def srcConstraintsRange : Option SrcConstraintsPerOrderValue :=
  (sortRanges (·.minBlockConfirmations)
    (executor.chains order.giveChain).srcConstraints.perOrderValue).find? fun range =>
      range.minBlockConfirmations ≤ order.blockConfirmations executor

def srcConstraints : SrcOrderConstraints :=
  match order.srcConstraintsRange executor with
  | some range => range.toSrcOrderConstraints
  | none => (executor.chains order.giveChain).srcConstraints.toSrcOrderConstraints

def dstConstraintsRange : Option DstConstraintsPerOrderValue :=
  (sortRanges (·.minBlockConfirmations)
    (executor.chains order.takeChain).dstConstraints.perOrderValue).find? fun range =>
      range.minBlockConfirmations ≤ order.blockConfirmations executor

def dstConstraints : DstOrderConstraints :=
  match order.dstConstraintsRange executor with
  | some range => range.toDstOrderConstraints
  | none => (executor.chains order.takeChain).dstConstraints.toDstOrderConstraints

end CreatedOrder

/-! ### The environment -/

structure SwapConnectorResult where
  amountOut : ℤ
  deriving DecidableEq, Repr

structure SwapConnectorRequest where
  amountIn : ℤ
  chainId : ChainId
  fromTokenAddress : Address
  toTokenAddress : Address
  slippageBps : ℤ
  routeHint : Option SwapConnectorResult
  fromAddress : Address
  destReceiver : Address
  deriving DecidableEq, Repr

structure OrderEvaluationPayload where
  preFulfillSwap : Option SwapConnectorResult
  validationPreFulfillSwap : Option SwapConnectorResult
  evmFulfillGasLimit : Option ℤ
  evmFulfillDisableTxCappedFee : Option Bool
  evmEstimatedGasPrice : Option ℤ
  evmEstimatedFee : Option ℤ
  deriving DecidableEq, Repr

def OrderEvaluationPayload.empty : OrderEvaluationPayload := ⟨none, none, none, none, none, none⟩

structure OrderEstimation where
  order : CreatedOrder
  isProfitable : Bool
  requiredReserveAmount : ℤ
  projectedFulfillAmount : ℤ
  payload : OrderEvaluationPayload
  deriving DecidableEq

structure ExpectedTakeAmountContext where
  batchSize : ℚ
  swapEstimationPreference : Option SwapConnectorResult
  isFeatureEnableOpHorizon : Bool
  allowSubsidy : Bool
  evmFulfillGasLimit : Option ℤ
  evmFulfillCappedGasPrice : Option ℤ
  deriving DecidableEq

structure ExpectedTakeAmount where
  isProfitable : Bool
  reserveDstToken : Address
  requiredReserveDstAmount : ℤ
  profitableTakeAmount : ℤ
  deriving DecidableEq, Repr

structure EvmInstruction where
  «to» : String
  data : String
  value : ℤ
  deriving DecidableEq, Repr

structure PreswapAndFulfillOrder where
  order : OrderData
  taker : Address
  swapResult : SwapConnectorResult
  unlockAuthority : Address
  externalCallRewardBeneficiary : Address
  preswapChangeRecipient : Option Address
  deriving DecidableEq, Repr

structure FulfillOrder where
  order : OrderData
  permit : String
  unlockAuthority : Address
  externalCallRewardBeneficiary : Address
  deriving DecidableEq, Repr

/-- The calls of an attempt that may fail; `fulfill` is the call of the fulfil transaction
sender. -/
inductive Lookup
  | getTakeOrderState (orderId : OrderId) (takeChain : ChainId)
  | getGiveOrderState (orderId : OrderId) (giveChain : ChainId)
  | filter (filter : OrderFilter) (order : OrderData)
  | getDecimals (chain : ChainId) (token : Address)
  | getPrice (chain : ChainId) (token : Address)
  | calculateSubsidization (order : OrderData) (reserveDstTokenAddress : Address)
  | getBalance (chain : ChainId) (token account : Address)
  | getCurrentTVL (chain : ChainId)
  | getSwap (request : SwapConnectorRequest)
  | calculateExpectedTakeAmount (order : OrderData) (margin : ℚ)
      (context : ExpectedTakeAmountContext)
  | preswapAndFulfillOrder (params : PreswapAndFulfillOrder)
  | fulfillOrder (params : FulfillOrder)
  | estimateTx (chain : ChainId) (tx : Evm.InputTx)
  | getGasPrice (chain : ChainId)
  | fulfill (estimation : OrderEstimation)

/-- What a lookup finds. -/
@[reducible] def Lookup.Found : Lookup → Type
  | getTakeOrderState .. => Option TakeOrderState
  | getGiveOrderState .. => Option OrderState
  | filter .. => Bool
  | getDecimals .. => ℕ
  | getPrice .. | getCurrentTVL .. => ℚ
  | calculateSubsidization .. | getBalance .. | estimateTx .. | getGasPrice .. => ℤ
  | getSwap .. => SwapConnectorResult
  | calculateExpectedTakeAmount .. => ExpectedTakeAmount
  | preswapAndFulfillOrder .. | fulfillOrder .. => EvmInstruction
  | fulfill .. => String

structure OrderFulfilled where
  orderId : OrderId
  order : OrderData
  txHash : String
  deriving DecidableEq

/-- What an attempt asks for: a lookup, the time, the throughput controller of a give chain as it
is or as it shall be, an empty TVL cache, or the call of a hook. -/
inductive Request
  | lookup (lookup : Lookup)
  | now
  | throughput (chain : ChainId)
  | setThroughput (chain : ChainId) (throughput : ThroughputController)
  | flushCache (chain : ChainId)
  | orderFulfilled (params : OrderFulfilled)

@[reducible] def Answer : Request → Type
  | .lookup lookup => Except String lookup.Found
  | .now => ℕ
  | .throughput _ => { throughput : ThroughputController // throughput.Accounted }
  | .setThroughput .. | .flushCache _ | .orderFulfilled _ => Unit

/-- Why an attempt stops: a short circuit, an exception, or the end of the process. -/
inductive Stop
  | reject (rejection : RejectionReason) (message : String)
  | postpone (postpone : PostponingReason) (message : String) (delay : Option ℚ)
  | thrown (error : String)
  | died (message : String)
  deriving DecidableEq

/-- A part of an attempt. -/
abbrev Taking := Dialogue Request Answer Stop

/-- What was said in an attempt. -/
abbrev Talk := List (Dialogue.Exchange Answer)

namespace Taking

variable {α : Type}

def ask (query : Request) : Taking (Answer query) := Dialogue.request query

/-- `await`: a failure is thrown. -/
def lookup (l : Lookup) : Taking l.Found :=
  Dialogue.ask (.lookup l) fun
    | .ok found => .done found
    | .error err => .stop (.thrown err)

/-- A call of a function that may throw. -/
def call : Except String α → Taking α
  | .ok value => .done value
  | .error err => .stop (.thrown err)

def reject (rejection : RejectionReason) (message : String) : Taking α :=
  .stop (.reject rejection message)

def postpone (reason : PostponingReason) (message : String) (delay : Option ℚ) : Taking α :=
  .stop (.postpone reason message delay)

def die (message : String) : Taking α := .stop (.died message)

def assert (validation : Bool) (message : String) : Taking Unit :=
  if validation then .done () else die message

/-- The payload entry must not be there yet. -/
def setPayloadEntry {β : Type} (key : String) (entry : Option β)
    (payload : OrderEvaluationPayload) : Taking OrderEvaluationPayload := do
  assert entry.isNone s!"accidentally overwriting the {key} payload entry"
  return payload

end Taking

namespace Executor

open Taking

variable (executor : Executor)

def usdValueOfAsset (chain : ChainId) (token : Address) (amount : ℕ) : Taking ℚ := do
  let tokenPrice : ℚ ← lookup (.getPrice chain token)
  let tokenDecimals : ℕ ← lookup (.getDecimals chain token)
  return amount * tokenPrice / 10 ^ tokenDecimals

def usdValueOfOrder (order : OrderData) : Taking ℚ :=
  usdValueOfAsset order.give.chainId order.give.tokenAddress order.give.amount

def formatTokenValue (chain : ChainId) (token : Address) (amount : ℤ) : Taking ℚ := do
  let tokenDecimals : ℕ ← lookup (.getDecimals chain token)
  return amount / 10 ^ tokenDecimals

/-- The amount of one token in the decimals of the other. -/
def alignDecimals (decimalsIn decimalsOut amountIn : ℕ) : ℕ :=
  if decimalsIn = decimalsOut then amountIn
  else if decimalsOut < decimalsIn then amountIn / 10 ^ (decimalsIn - decimalsOut)
  else amountIn * 10 ^ (decimalsOut - decimalsIn)

def resyncDecimals (chainIn : ChainId) (tokenIn : Address) (amountIn : ℕ) (chainOut : ChainId)
    (tokenOut : Address) : Taking ℕ := do
  let decimalsIn : ℕ ← lookup (.getDecimals chainIn tokenIn)
  let decimalsOut : ℕ ← lookup (.getDecimals chainOut tokenOut)
  return alignDecimals decimalsIn decimalsOut amountIn

end Executor

namespace CreatedOrder

open Taking

variable (executor : Executor) (order : CreatedOrder)

/-- `Math.round(value * 100) / 100`, halves being rounded up. -/
def roundUsd (value : ℚ) : ℚ := ⌊value * 100 + 1 / 2⌋ / 100

def getUsdValue : Taking ℚ := do
  let value ← Executor.usdValueOfOrder order.orderData
  return roundUsd value

def getGiveAmountInReserveToken : Taking ℕ := do
  let route ← call (order.route executor)
  let give := order.orderData.give
  Executor.resyncDecimals give.chainId give.tokenAddress give.amount order.orderData.take.chainId
    route.reserveDstToken

/-- `BigInt(margin)`. -/
def toBigInt (margin : ℚ) : Except String ℤ :=
  if margin.isInt then .ok margin.num
  else .error "RangeError: The number cannot be converted to a BigInt because it is not an integer"

/-- The amount without the margin; the division of big integers truncates. -/
def subtractMargin (amount margin : ℤ) : ℤ := (amount * (10000 - margin)).tdiv 10000

def getMaxProfitableReserveAmountWithoutOperatingExpenses : Taking ℤ := do
  let reserveDstAmount ← order.getGiveAmountInReserveToken executor
  let margin ← call (toBigInt (order.requiredMargin executor))
  let reserveDstAmount := subtractMargin reserveDstAmount margin
  if executor.allowSubsidy && executor.hasSubsidizationRules then
    let route ← call (order.route executor)
    let subsidyAmount : ℤ ←
      lookup (.calculateSubsidization order.orderData route.reserveDstToken)
    return reserveDstAmount + subsidyAmount
  else return reserveDstAmount

/-- The order data with a verified id. -/
def getWithId : Taking OrderData := do
  call (executor.toolkit.getVerified order.orderId order.orderData)
  return order.orderData

end CreatedOrder

end DlnTaker
