import Mathlib.Algebra.BigOperators.Group.Finset.Defs
import Mathlib.Logic.Function.Basic
import DlnTaker.Orders.Worth

/-! # The TVL budget controller

The controller caches the promise of a calculation, and the calculation reads the
balances and the pending orders of the give chain at different moments. The
module also says what the give chain holds and how that changes.
-/

namespace DlnTaker

structure TVLBudgetConfig where
  chain : ChainId
  budget : ℚ
  fulfillAuthority : Address
  unlockBeneficiary : Address
  trackedTokens : List Address
  market : TokenMarket
  orderOf : OrderId → OrderData

/-- What the give chain holds: balances of accounts by token, the orders fulfilled so far, those
that wait for their unlock, and how many have been claimed. -/
structure GiveChainState where
  balance : Address → Address → ℕ
  fulfilled : List OrderId
  pending : List OrderId
  claims : ℕ

inductive Account
  | fulfillAuthority | unlockBeneficiary
  deriving DecidableEq, Repr

/-- How far `calculateCurrentTVL` is: reading one account, reading the pending orders, or over.
The reads of the tokens of an account complete in any order. -/
inductive CalculationStage
  | account (account : Account) (taker : ℚ) (values : List (Address × ℚ))
      (remaining : List Address)
  | pending (balances : ℚ)
  | resolved (tvl : ℚ)
  | rejected
  deriving DecidableEq

/-- A started calculation. The code has the stage only; `claims` notes the claims when the reads
of the last account began, `countedAt` the fulfilments at a pending read that no claim preceded. -/
structure Calculation where
  stage : CalculationStage
  claims : ℕ
  countedAt : Option ℕ
  deriving DecidableEq

inductive CalculationInput
  | balance (token : Address)
  | balances
  | pendingOrders
  | failed
  deriving DecidableEq

/-- The cached promise is a position in the list of calculations and the time it was stored. -/
structure TVLBudgetController where
  cache : Option (ℕ × ℕ)
  calculations : List Calculation

namespace TVLBudgetConfig

variable (config : TVLBudgetConfig)

def hasSeparateUnlockBeneficiary : Bool := config.fulfillAuthority ≠ config.unlockBeneficiary

def address : Account → Address
  | .fulfillAuthority => config.fulfillAuthority
  | .unlockBeneficiary => config.unlockBeneficiary

def getAssetValueAtAccount (chain : GiveChainState) (account token : Address) : ℚ :=
  config.market.usdValueOfAsset config.chain token (chain.balance account token)

def worth (orderId : OrderId) : ℚ := config.market.usdValueOfOrder (config.orderOf orderId)

def getPendingUnlockOrdersValue (chain : GiveChainState) : ℚ :=
  (chain.pending.map config.worth).sum

/-- One step of `calculateCurrentTVL`. -/
def calculationStep (chain : GiveChainState) (calculation : Calculation) :
    CalculationInput → Option Calculation
  | .balance token =>
    match calculation.stage with
    | .account account taker values remaining =>
      if token ∈ remaining then
        let value := config.getAssetValueAtAccount chain (config.address account) token
        some { calculation with
          stage := .account account taker (values ++ [(token, value)]) (remaining.erase token) }
      else none
    | _ => none
  | .balances =>
    match calculation.stage with
    | .account .fulfillAuthority taker values [] =>
      let taker := taker + (values.map Prod.snd).sum
      if config.hasSeparateUnlockBeneficiary then
        some { calculation with
          stage := .account .unlockBeneficiary taker [] config.trackedTokens
          claims := chain.claims }
      else some { calculation with stage := .pending taker }
    | .account .unlockBeneficiary taker values [] =>
      some { calculation with stage := .pending (taker + (values.map Prod.snd).sum) }
    | _ => none
  | .pendingOrders =>
    match calculation.stage with
    | .pending balances =>
      some { calculation with
        stage := .resolved (balances + config.getPendingUnlockOrdersValue chain)
        countedAt := if calculation.claims = chain.claims then some chain.fulfilled.length
          else none }
    | _ => none
  | .failed =>
    match calculation.stage with
    | .resolved _ | .rejected => none
    | _ => some { calculation with stage := .rejected }

def calculateCurrentTVL (chain : GiveChainState) : Calculation where
  stage := .account .fulfillAuthority 0 [] config.trackedTokens
  claims := chain.claims
  countedAt := none

end TVLBudgetConfig

namespace TVLBudgetController

/-- The time the cache keeps a promise, in milliseconds. -/
def cacheTTL : ℕ := 30 * 60 * 1000

def flushCache (c : TVLBudgetController) : TVLBudgetController := { c with cache := none }

/-- `cache.get`: a promise that is older than its time to live is deleted. -/
def cached (c : TVLBudgetController) (now : ℕ) : Option ℕ :=
  (c.cache.filter fun stored => now ≤ stored.2 + cacheTTL).map Prod.fst

/-- The calculation that the caller awaits, cached or started now. -/
def getCurrentTVL (c : TVLBudgetController) (config : TVLBudgetConfig) (chain : GiveChainState)
    (now : ℕ) : ℕ × TVLBudgetController :=
  match c.cached now with
  | some n => (n, c)
  | none =>
    (c.calculations.length,
      { cache := some (c.calculations.length, now)
        calculations := c.calculations ++ [config.calculateCurrentTVL chain] })

/-- A step of the n-th calculation. -/
def calculate (c : TVLBudgetController) (config : TVLBudgetConfig) (chain : GiveChainState)
    (n : ℕ) (input : CalculationInput) : Option TVLBudgetController :=
  (c.calculations[n]?.bind (config.calculationStep chain · input)).map fun calculation =>
    { c with calculations := c.calculations.set n calculation }

end TVLBudgetController

/-! ### The give chain -/

namespace GiveChainState

variable (config : TVLBudgetConfig) (chain : GiveChainState)

/-- The order is fulfilled and waits for its unlock. -/
def fulfil (orderId : OrderId) : GiveChainState :=
  { chain with fulfilled := chain.fulfilled ++ [orderId], pending := chain.pending ++ [orderId] }

/-- The unlock is executed: the given amount goes to the unlock beneficiary. -/
def claim (orderId : OrderId) : GiveChainState :=
  let give := (config.orderOf orderId).give
  let beneficiary := config.unlockBeneficiary
  { chain with
    balance := Function.update chain.balance beneficiary
      (Function.update (chain.balance beneficiary) give.tokenAddress
        (chain.balance beneficiary give.tokenAddress + give.amount))
    pending := chain.pending.erase orderId
    claims := chain.claims + 1 }

/-- Some of an account's tokens are spent. -/
def spend (account token : Address) (amount : ℕ) : GiveChainState :=
  { chain with
    balance := Function.update chain.balance account
      (Function.update (chain.balance account) token (chain.balance account token - amount)) }

/-- The worth of the tracked tokens of an account, each token counted once. -/
def accountWorth (account : Address) : ℚ :=
  ∑ token ∈ config.trackedTokens.toFinset, config.getAssetValueAtAccount chain account token

def balancesWorth : ℚ :=
  chain.accountWorth config config.fulfillAuthority +
    if config.hasSeparateUnlockBeneficiary then chain.accountWorth config config.unlockBeneficiary
    else 0

/-- What is deployed and locked on the give chain. -/
def tvl : ℚ := chain.balancesWorth config + config.getPendingUnlockOrdersValue chain

end GiveChainState

end DlnTaker
