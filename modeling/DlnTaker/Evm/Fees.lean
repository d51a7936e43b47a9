import Mathlib.Data.Rat.Floor

/-! # Transaction fees of EVM chains

`EvmFeeManager` prices a transaction from what the node reports, bumps the fees
of a transaction it replaces and checks the fee against a cap. Fees are indexed
by the kind of chain, so that a legacy fee cannot meet an EIP-1559 one. Bigints
are integers with truncating division, numbers are rationals.
-/

namespace DlnTaker

namespace Evm

/-- Whether a chain is `isLegacy` or `isEip1559Compatible`. -/
inductive FeeMarket
  | legacy | eip1559
  deriving DecidableEq, Repr

inductive GasCategory
  | projected | normal | aggressive
  deriving DecidableEq, Repr

structure EvmFeeManagerOpts where
  gasLimitMultiplier : ℚ
  legacyGasPriceProjectedMultiplier : ℚ
  legacyGasPriceNormalMultiplier : ℚ
  legacyGasPriceAggressiveMultiplier : ℚ
  legacyEnforceAggressive : Bool
  eip1559BaseFeeProjectedMultiplier : ℚ
  eip1559BaseFeeNormalMultiplier : ℚ
  eip1559BaseFeeAggressiveMultiplier : ℚ
  eip1559PriorityFeeProjectedPercentile : ℚ
  eip1559PriorityFeeNormalPercentile : ℚ
  eip1559PriorityFeeAggressivePercentile : ℚ
  eip1559PriorityFeeIncreaseBoundary : ℚ
  eip1559EnforceAggressive : Bool
  replaceBumperNormalMultiplier : ℚ
  replaceBumperAggressiveMultiplier : ℚ
  replaceBumperEnforceAggressive : Bool
  overcappingAllowed : Bool
  overcappingAllowance : ℚ

def defaultFeeManagerOpts : EvmFeeManagerOpts where
  gasLimitMultiplier := 1.1
  legacyGasPriceProjectedMultiplier := 1.1
  legacyGasPriceNormalMultiplier := 1.1
  legacyGasPriceAggressiveMultiplier := 1.3
  legacyEnforceAggressive := false
  eip1559BaseFeeProjectedMultiplier := 1.075
  eip1559BaseFeeNormalMultiplier := 1.075
  eip1559BaseFeeAggressiveMultiplier := 1.125
  eip1559PriorityFeeProjectedPercentile := 50
  eip1559PriorityFeeNormalPercentile := 50
  eip1559PriorityFeeAggressivePercentile := 75
  eip1559PriorityFeeIncreaseBoundary := 200
  eip1559EnforceAggressive := false
  replaceBumperNormalMultiplier := 1.11
  replaceBumperAggressiveMultiplier := 1.3
  replaceBumperEnforceAggressive := true
  overcappingAllowed := true
  overcappingAllowance := 3

structure TransactionTemplate where
  «from» : String
  «to» : String
  data : String
  value : Option String
  gas : ℤ
  nonce : ℕ
  deriving DecidableEq, Repr

inductive GasExtension : FeeMarket → Type
  | legacy (gasPrice : ℤ) : GasExtension .legacy
  | eip1559 (maxPriorityFeePerGas maxFeePerGas : ℤ) : GasExtension .eip1559
  deriving DecidableEq, Repr

/-- The price of a unit of gas that the cap is checked with. -/
def GasExtension.price {market : FeeMarket} : GasExtension market → ℤ
  | legacy gasPrice => gasPrice
  | eip1559 _ maxFeePerGas => maxFeePerGas

structure PopulatedTxn (market : FeeMarket) extends TransactionTemplate where
  extension : GasExtension market
  deriving DecidableEq, Repr

/-- `BigInt(Math.trunc(v))`. -/
def safeIntToBigInt (v : ℚ) : ℤ := if 0 ≤ v then ⌊v⌋ else ⌈v⌉

def findMaxBigInt (bigInts : List ℤ) : ℤ :=
  bigInts.foldl (fun max curr => if curr > max then curr else max) 0

/-- The amount times the multiplier, of which four decimals count. -/
def multiplied (amount : ℤ) (multiplier : ℚ) : ℤ :=
  (amount * safeIntToBigInt (multiplier * 10000)).tdiv 10000

/-- The tips are sorted as strings, the default order of `sort`. -/
def priorityFeeEstimator (history : List ℕ) (increaseBoundary : ℚ) : ℤ :=
  let tips := (history.filter (· ≠ 0)).mergeSort (fun a b => toString a ≤ toString b)
  match tips with
  | [] => 0
  | [tip] => tip
  | _ =>
    let percentageIncreases := tips.zipWith
      (fun (cur next : ℕ) => (((next : ℤ) - cur) * 100).tdiv cur) tips.tail
    let highestIncrease := findMaxBigInt percentageIncreases
    let values := match percentageIncreases.findIdx? (· = highestIncrease) with
      | some highestIncreaseIndex =>
        if increaseBoundary ≤ highestIncrease ∧ tips.length / 2 ≤ highestIncreaseIndex
        then tips.drop highestIncreaseIndex else tips
      | none => tips
    values.getD (values.length / 2) 0

/-- The answer to `getFeeHistory` for one percentile. -/
structure FeeHistory where
  reward : List ℕ
  baseFeePerGas : List ℕ
  deriving DecidableEq, Repr

structure EIP1551Fee where
  baseFee : ℤ
  maxFeePerGas : ℤ
  maxPriorityFeePerGas : ℤ
  deriving DecidableEq, Repr

/-- What the node answers to a fee fetcher. -/
inductive NodeFees : FeeMarket → Type
  | gasPrice (gasPrice : ℕ) : NodeFees .legacy
  | feeHistory (history : FeeHistory) : NodeFees .eip1559
  deriving DecidableEq, Repr

structure EvmFeeManager (market : FeeMarket) where
  opts : EvmFeeManagerOpts

namespace EvmFeeManager

variable {market : FeeMarket} (m : EvmFeeManager market)

def legacyGasPriceMultiplier : GasCategory → ℚ
  | .projected => m.opts.legacyGasPriceProjectedMultiplier
  | .normal => m.opts.legacyGasPriceNormalMultiplier
  | .aggressive => m.opts.legacyGasPriceAggressiveMultiplier

def baseFeeMultiplier : GasCategory → ℚ
  | .projected => m.opts.eip1559BaseFeeProjectedMultiplier
  | .normal => m.opts.eip1559BaseFeeNormalMultiplier
  | .aggressive => m.opts.eip1559BaseFeeAggressiveMultiplier

/-- The percentile asked of `getFeeHistory`; the constructor passes the multiplier of the base
fee for the aggressive category. -/
def priorityFeePercentile : GasCategory → ℚ
  | .projected => m.opts.eip1559PriorityFeeProjectedPercentile
  | .normal => m.opts.eip1559PriorityFeeNormalPercentile
  | .aggressive => m.opts.eip1559BaseFeeAggressiveMultiplier

def legacyFeeFetcher (gasCategory : GasCategory) (gasPrice : ℕ) : ℤ :=
  multiplied gasPrice (m.legacyGasPriceMultiplier gasCategory)

def feeFetcher (gasCategory : GasCategory) (history : FeeHistory) : EIP1551Fee :=
  let maxPriorityFeePerGas :=
    priorityFeeEstimator history.reward m.opts.eip1559PriorityFeeIncreaseBoundary
  let lastTwo := history.baseFeePerGas.drop (history.baseFeePerGas.length - 2)
  let baseFee := findMaxBigInt (lastTwo.map fun r => (r : ℤ))
  let targetBaseFee := multiplied baseFee (m.baseFeeMultiplier gasCategory)
  { baseFee := targetBaseFee
    maxFeePerGas := targetBaseFee + maxPriorityFeePerGas
    maxPriorityFeePerGas }

/-- The gas limit for the gas that the node estimated; `Math.round` rounds halves up. -/
def estimateTx (gas : ℕ) : ℤ := ⌊(gas : ℚ) * m.opts.gasLimitMultiplier + 1 / 2⌋

def effectiveGasCategory (gasCategory : Option GasCategory) : GasCategory :=
  gasCategory.getD <|
    match market with
    | .eip1559 => if m.opts.eip1559EnforceAggressive then .aggressive else .normal
    | .legacy => if m.opts.legacyEnforceAggressive then .aggressive else .normal

/-- `populateTx` without the check of the cap. -/
def populateTx (tx : TransactionTemplate) (gasCategory : GasCategory) :
    NodeFees market → PopulatedTxn market
  | .gasPrice gasPrice => { tx with extension := .legacy (m.legacyFeeFetcher gasCategory gasPrice) }
  | .feeHistory history =>
    let fee := m.feeFetcher gasCategory history
    { tx with extension := .eip1559 fee.maxPriorityFeePerGas fee.maxFeePerGas }

def bumper : ℚ :=
  if m.opts.replaceBumperEnforceAggressive then m.opts.replaceBumperAggressiveMultiplier
  else m.opts.replaceBumperNormalMultiplier

/-- `populateReplacementTx` without the check of the cap. -/
def populateReplacementTx (tx : TransactionTemplate) (replaceTx : PopulatedTxn market)
    (gasCategory : GasCategory) (fees : NodeFees market) : PopulatedTxn market :=
  match fees, replaceTx.extension with
  | .gasPrice gasPrice, .legacy replaced =>
    let gasPrice := findMaxBigInt
      [m.legacyFeeFetcher gasCategory gasPrice, multiplied replaced m.bumper]
    { tx with extension := .legacy gasPrice }
  | .feeHistory history, .eip1559 replacedPriority replacedMax =>
    let fee := m.feeFetcher gasCategory history
    let maxPriorityFeePerGas := findMaxBigInt
      [fee.maxPriorityFeePerGas, multiplied replacedPriority m.bumper]
    let maxFeePerGas := findMaxBigInt
      [fee.baseFee + maxPriorityFeePerGas, multiplied replacedMax m.bumper]
    { tx with extension := .eip1559 maxPriorityFeePerGas maxFeePerGas }

/-- A cap that is absent, zero or negative is no cap. -/
def effectiveCap (cappedFee : Option ℤ) : Option ℤ := cappedFee.filter (0 < ·)

/-- `checkCapping` for a known gas limit. -/
def checkCapping (gasLimit gasPrice : ℤ) (cappedFee : Option ℤ) : Except String Unit :=
  match effectiveCap cappedFee with
  | none => .ok ()
  | some cappedFee =>
    let txFee := gasPrice * gasLimit
    if txFee > cappedFee then
      if !m.opts.overcappingAllowed then .error "Error: Overcapping disabled"
      else
        let maxAllowedCap := multiplied cappedFee m.opts.overcappingAllowance
        if txFee > maxAllowedCap then
          .error (s!"Error: Unable to populate pricing: transaction fee (txFee={txFee}, " ++
            s!"gasPrice={gasPrice}, gasLimit={gasLimit}) is greater than cappedFee " ++
            s!"({maxAllowedCap}, overcap: {m.opts.overcappingAllowance})")
        else .ok ()
    else .ok ()

end EvmFeeManager

end Evm

end DlnTaker
