import Mathlib.Data.List.Basic
import DlnTaker.Library.Journal
import DlnTaker.Library.Machine
import DlnTaker.Limits.Throughput
import DlnTaker.Limits.TVLBudget

/-! # Take runs that share a give chain

The order processors of the take chains work on one order each, and the runs for
the orders of one give chain share its two controllers. A run is suspended at
every await, so the machine interleaves its sections with those of the other
runs, with the controllers' own work and with what happens on the chains.
-/

namespace DlnTaker

structure FleetConfig extends TVLBudgetConfig where
  finalizedBlockCount : ℕ
  thresholds : List Threshold

namespace FleetConfig

variable (config : FleetConfig)

/-- Constant prices make the worth of an order a function of its id. -/
def usdValue (orderId : OrderId) : ℚ := config.market.getUsdValue (config.orderOf orderId)

def blockConfirmations (order : CreatedOrder) : ℕ :=
  match order.finalization with
  | .finalized => config.finalizedBlockCount
  | .confirmations count => count

def ranges : List Threshold := sortThresholds config.thresholds

/-- The active range that the confirmations fall in. -/
def rangeOf (confirmationBlocksCount : ℕ) : Option (Threshold × ℕ) :=
  getRange config.ranges confirmationBlocksCount

end FleetConfig

/-- Where `CreatedOrderTaker.take` is suspended. -/
inductive TakeStage
  | validating
  | awaitingTVL (calculation : ℕ)
  | withinBudget
  | notThrottled
  | fulfilling
  | broadcast
  | fulfilled
  deriving DecidableEq, Repr

namespace TakeStage

/-- `checkTVLBudget` is behind. -/
def pastBudget : TakeStage → Bool
  | validating | awaitingTVL _ => false
  | _ => true

/-- `checkThroughput` is behind. -/
def pastThroughput : TakeStage → Bool
  | validating | awaitingTVL _ | withinBudget => false
  | _ => true

end TakeStage

structure TakeRun where
  order : CreatedOrder
  stage : TakeStage
  deriving DecidableEq

/-- A fulfil transaction leaves for the node. -/
structure Send where
  orderId : OrderId
  confirmationBlocksCount : ℕ
  sentAt : ℕ
  deriving DecidableEq

/-- `submitted` are the orders whose fulfil transaction the take chain may still include, `sends`
notes what was sent and when. -/
structure Fleet where
  now : ℕ
  throughput : ThroughputController
  tvlBudget : TVLBudgetController
  chain : GiveChainState
  takes : List TakeRun
  submitted : List OrderId
  sends : List Send

inductive TakeInput
  | checkTVLBudget | compareTVL | checkThroughput | attemptFulfil | send | confirm | addOrder
  | abort
  deriving DecidableEq, Repr

inductive FleetInput
  | tick (ms : ℕ)
  | take (order : CreatedOrder)
  | run (n : ℕ) (input : TakeInput)
  | calculate (n : ℕ) (input : CalculationInput)
  | flushCache
  | throughputTimer (n : ℕ)
  | fulfilled (orderId : OrderId)
  | dropped (orderId : OrderId)
  | claimed (orderId : OrderId)
  | spent (account token : Address) (amount : ℕ)
  deriving DecidableEq

namespace Fleet

variable (config : FleetConfig) (s : Fleet)

def initial (chain : GiveChainState) : Fleet where
  now := 0
  throughput := .create config.thresholds
  tvlBudget := ⟨none, []⟩
  chain := chain
  takes := []
  submitted := []
  sends := []

/-- The n-th run goes on to another stage. -/
def moved (n : ℕ) (run : TakeRun) (stage : TakeStage) : Fleet :=
  { s with takes := s.takes.set n { run with stage } }

/-- The n-th run is over. -/
def ended (n : ℕ) : Fleet := { s with takes := s.takes.eraseIdx n }

def takeStep (n : ℕ) (run : TakeRun) : TakeInput → Option Fleet
  | .checkTVLBudget =>
    match run.stage with
    | .validating =>
      if 0 < config.budget then
        let (calculation, tvlBudget) :=
          s.tvlBudget.getCurrentTVL config.toTVLBudgetConfig s.chain s.now
        some ({ s with tvlBudget }.moved n run (.awaitingTVL calculation))
      else some (s.moved n run .withinBudget)
    | _ => none
  | .compareTVL =>
    match run.stage with
    | .awaitingTVL calculation =>
      match s.tvlBudget.calculations[calculation]?.map Calculation.stage with
      | some (.resolved tvl) =>
        if config.budget < tvl + config.usdValue run.order.orderId then some (s.ended n)
        else some (s.moved n run .withinBudget)
      | _ => none
    | _ => none
  | .checkThroughput =>
    match run.stage with
    | .withinBudget =>
      if s.throughput.isThrottled (config.blockConfirmations run.order)
          (config.usdValue run.order.orderId) then some (s.ended n)
      else some (s.moved n run .notThrottled)
    | _ => none
  | .attemptFulfil =>
    match run.stage with
    | .notThrottled => some (s.moved n run .fulfilling)
    | _ => none
  | .send =>
    match run.stage with
    | .fulfilling | .broadcast =>
      let send := ⟨run.order.orderId, config.blockConfirmations run.order, s.now⟩
      some { s.moved n run .broadcast with
        submitted := s.submitted ++ [run.order.orderId]
        sends := s.sends ++ [send] }
    | _ => none
  | .confirm =>
    match run.stage with
    | .broadcast => some (s.moved n run .fulfilled)
    | _ => none
  | .addOrder =>
    match run.stage with
    | .fulfilled =>
      match s.throughput.addOrder s.now run.order.orderId (config.blockConfirmations run.order)
          (config.usdValue run.order.orderId) with
      | .ok throughput =>
        some { s.ended n with throughput, tvlBudget := s.tvlBudget.flushCache }
      | .error _ => none
    | _ => none
  | .abort => some (s.ended n)

/-- A processor takes an order that is checked against its id. -/
def Accepts (order : CreatedOrder) : Prop :=
  (∀ run ∈ s.takes, run.order.takeChain ≠ order.takeChain) ∧
    order.orderData = config.orderOf order.orderId ∧ order.giveChain = config.chain ∧
    order.orderData.give.chainId = order.giveChain ∧
    order.orderData.take.chainId = order.takeChain

instance (order : CreatedOrder) : Decidable (s.Accepts config order) := by
  unfold Accepts; infer_instance

/-- One section of the program or one event outside. A failed assertion ends the program. -/
def step (s : Fleet) : FleetInput → Option Fleet
  | .tick ms => some { s with now := s.now + ms }
  | .take order =>
    if s.Accepts config order then some { s with takes := s.takes ++ [⟨order, .validating⟩] }
    else none
  | .run n input => s.takes[n]?.bind fun run => s.takeStep config n run input
  | .calculate n input =>
    (s.tvlBudget.calculate config.toTVLBudgetConfig s.chain n input).map fun tvlBudget =>
      { s with tvlBudget }
  | .flushCache => some { s with tvlBudget := s.tvlBudget.flushCache }
  | .throughputTimer n =>
    match s.throughput.onTimer s.now n with
    | some (.ok throughput) => some { s with throughput }
    | _ => none
  | .fulfilled orderId =>
    if orderId ∈ s.submitted ∧ orderId ∉ s.chain.fulfilled then
      some { s with chain := s.chain.fulfil orderId }
    else none
  | .dropped orderId => some { s with submitted := s.submitted.filter (· ≠ orderId) }
  | .claimed orderId =>
    if orderId ∈ s.chain.pending ∧ (config.orderOf orderId).give.chainId = config.chain then
      some { s with chain := s.chain.claim config.toTVLBudgetConfig orderId }
    else none
  | .spent account token amount => some { s with chain := s.chain.spend account token amount }

end Fleet

/-- The take runs of one give chain, which is initially in the given state. -/
def fleet (config : FleetConfig) (chain : GiveChainState) : Machine Fleet FleetInput where
  init := .initial config chain
  step := Fleet.step config

namespace Fleet.Sample

def token : Address := [1]

/-- Orders worth 60 dollars each, one for every take chain. -/
def orderOf (orderId : OrderId) : OrderData :=
  DlnTaker.Sample.orderData ⟨1, token, 60⟩ ⟨if orderId = "0xa" then 10 else 56, token, 60⟩

def config (budget cap : ℚ) : FleetConfig where
  chain := 1
  budget := budget
  fulfillAuthority := [2]
  unlockBeneficiary := [2]
  trackedTokens := [token]
  market := ⟨fun _ _ => 1, fun _ _ => 0, fun _ _ => zero_le_one⟩
  orderOf := orderOf
  finalizedBlockCount := 12
  thresholds := [⟨1, cap, 30⟩, ⟨12, 0, 0⟩]

def order (orderId : OrderId) : CreatedOrder where
  orderId := orderId
  orderData := orderOf orderId
  finalization := .confirmations 1
  arrivedAt := 0
  attempt := 1
  giveChain := 1
  takeChain := (orderOf orderId).take.chainId

def emptyChain : GiveChainState := ⟨fun _ _ => 0, [], [], 0⟩

/-- Both orders are taken up and reach the check of the budget. -/
def start : List FleetInput :=
  [.take (order "0xa"), .take (order "0xb"), .run 0 .checkTVLBudget, .run 1 .checkTVLBudget]

/-- The n-th run, of the given order, from its estimation to its end. -/
def fulfilment (n : ℕ) (orderId : OrderId) : List FleetInput :=
  [.run n .attemptFulfil, .run n .send, .fulfilled orderId, .run n .confirm, .run n .addOrder]

/-- The n-th calculation from its start to its end. -/
def calculation (n : ℕ) : List FleetInput :=
  [.calculate n (.balance token), .calculate n .balances, .calculate n .pendingOrders]

end Fleet.Sample

end DlnTaker
