import DlnTaker.Library.Fallible
import DlnTaker.Library.RangeSearch
import DlnTaker.Taking.Validator
import DlnTaker.Unlocker.Basic

/-! # The launch of an executor

The configuration of a chain may leave numbers out, and zero is falsy as an
absent number is. When the executor starts it resolves the constraints of every
chain, from the chain's own values, those shared by all chains, and defaults.
-/

namespace DlnTaker

open Fallible

/-! ### The configuration -/

structure RawSrcConstraints where
  TVLBudget : Option ℚ
  minProfitabilityBps : Option ℚ
  batchUnlockSize : Option ℚ
  deriving DecidableEq

structure RawSrcOrderConstraints where
  fulfillmentDelay : Option ℚ
  maxFulfillThroughputUSD : Option ℚ
  throughputTimeWindowSec : Option ℚ
  deriving DecidableEq

structure RequiredConfirmationsThreshold extends RawSrcOrderConstraints where
  thresholdAmountInUSD : ℚ
  minBlockConfirmations : Option ℕ
  deriving DecidableEq

structure ChainConstraints extends RawSrcConstraints, RawSrcOrderConstraints where
  requiredConfirmationsThresholds : List RequiredConfirmationsThreshold
  deriving DecidableEq

structure RawDstOrderConstraints where
  fulfillmentDelay : Option ℚ
  preFulfillSwapChangeRecipient : Option ChangeRecipient
  deriving DecidableEq

structure PerOrderValueUpperThreshold extends RawDstOrderConstraints where
  minBlockConfirmations : ℕ
  deriving DecidableEq

structure ChainDstConstraints extends RawDstOrderConstraints where
  perOrderValueUpperThreshold : List PerOrderValueUpperThreshold
  deriving DecidableEq

/-- A chain of the configuration. Constraints and lists that are left out are empty here, and the
authorities and the beneficiary are those made of the given keys and address. -/
structure ChainDefinition where
  chain : ChainId
  disabled : Bool
  constraints : ChainConstraints
  dstConstraints : ChainDstConstraints
  srcFilters : List OrderFilter
  dstFilters : List OrderFilter
  unlockAuthority : Authority
  fulfillAuthority : Authority
  beneficiary : Address

structure ExecutorLaunchConfig where
  filters : List OrderFilter
  srcConstraints : RawSrcConstraints
  chains : List ChainDefinition

/-- The definition of a chain; of several ones the last counts. -/
def ExecutorLaunchConfig.definition (config : ExecutorLaunchConfig) (chainId : ChainId) :
    Option ChainDefinition :=
  config.chains.reverse.find? (·.chain = chainId)

inductive SupportedChain
  | arbitrum | avalanche | bsc | ethereum | fantom | linea | polygon | solana | base | optimism
  deriving DecidableEq, Repr

namespace SupportedChain

def name : SupportedChain → String
  | arbitrum => "Arbitrum"
  | avalanche => "Avalanche"
  | bsc => "BSC"
  | ethereum => "Ethereum"
  | fantom => "Fantom"
  | linea => "Linea"
  | polygon => "Polygon"
  | solana => "Solana"
  | base => "Base"
  | optimism => "Optimism"

def blockConfirmationsHardCap : SupportedChain → ℕ
  | polygon => 256
  | solana => 32
  | _ => 12

def avgBlockSpeed : SupportedChain → ℚ
  | arbitrum | solana => 0.4
  | avalanche | fantom | base | optimism => 2
  | bsc => 3
  | ethereum | linea => 12
  | polygon => 2.3

end SupportedChain

/-! ### The resolution -/

/-- Why a launch fails: an exception, or the end of the process. -/
inductive LaunchError
  | thrown (message : String)
  | died (message : String)
  deriving DecidableEq, Repr

/-- `value || …` goes on if there is no value or if it is zero. -/
def truthy (value : Option ℚ) : Option ℚ := value.filter (· ≠ 0)

/-- `own || shared || default`. -/
def effective (own shared : Option ℚ) (default : ℚ) : ℚ :=
  ((truthy own).or (truthy shared)).getD default

/-- What `getSrcConstraints` returns. -/
structure ChainSrcConstraints where
  TVLBudget : ℚ
  profitability : ℚ
  batchUnlockSize : ℚ
  deriving DecidableEq

/-- A chain with the budget of its resolved source constraints, which nothing else reads, and with
its throughput controller as it starts. -/
structure LaunchedChain extends ExecutorSupportedChain where
  TVLBudget : ℚ
  throughput : ThroughputController

/-- An executor and its configured chains. -/
structure LaunchedExecutor where
  executor : Executor
  chains : ChainId → Option LaunchedChain

namespace Executor

def defaultMinProfitabilityBps : ℚ := 4

def getSrcOrderConstraints (constraints : RawSrcOrderConstraints) : SrcOrderConstraints where
  fulfillmentDelay := (truthy constraints.fulfillmentDelay).getD 0
  throughputTimeWindowSec := (truthy constraints.throughputTimeWindowSec).getD 0
  maxFulfillThroughputUSD := (truthy constraints.maxFulfillThroughputUSD).getD 0

def getDstConstraints (chainConstraint : RawDstOrderConstraints)
    (sharedConstraint : Option RawDstOrderConstraints) : DstOrderConstraints where
  fulfillmentDelay :=
    effective chainConstraint.fulfillmentDelay (sharedConstraint.bind (·.fulfillmentDelay)) 0
  preFulfillSwapChangeRecipient :=
    (chainConstraint.preFulfillSwapChangeRecipient.or
      (sharedConstraint.bind (·.preFulfillSwapChangeRecipient))).getD .taker

def getDstConstraintsPerOrderValue (configDstConstraints : ChainDstConstraints) :
    List DstConstraintsPerOrderValue :=
  sortRanges (·.minBlockConfirmations) <|
    configDstConstraints.perOrderValueUpperThreshold.map fun constraint =>
      { toDstOrderConstraints := getDstConstraints constraint.toRawDstOrderConstraints
          (some configDstConstraints.toRawDstOrderConstraints)
        minBlockConfirmations := constraint.minBlockConfirmations }

/-- The constraints of a threshold; nothing is inherited from those of the chain. -/
def toRange (constraint : RequiredConfirmationsThreshold) : SrcConstraintsPerOrderValue where
  upperThreshold := constraint.thresholdAmountInUSD
  minBlockConfirmations := constraint.minBlockConfirmations.getD 0
  toSrcOrderConstraints := getSrcOrderConstraints constraint.toRawSrcOrderConstraints

/-- The stable sort by upper threshold, in ascending order. -/
def sortByWorth (ranges : List SrcConstraintsPerOrderValue) : List SrcConstraintsPerOrderValue :=
  ranges.insertionSort fun a b => a.upperThreshold ≤ b.upperThreshold

variable (toolkit : Toolkit) (supportedChain : ChainId → Option SupportedChain)

def getFinalizedBlockConfirmations (chainId : ChainId) : Except LaunchError ℕ :=
  match supportedChain chainId with
  | some chain => .ok chain.blockConfirmationsHardCap
  | none => .error (.died s!"unknown chain: {toolkit.chainName chainId}")

def getAvgBlockSpeed (chainId : ChainId) : Except LaunchError ℚ :=
  match supportedChain chainId with
  | some chain => .ok chain.avgBlockSpeed
  | none => .error (.died s!"unknown chain: {toolkit.chainName chainId}")

def getSrcConstraints (chainId : ChainId) (chainConstraint sharedConstraint : RawSrcConstraints) :
    Except LaunchError ChainSrcConstraints := do
  let batchUnlockSize ← (getBatchSize toolkit.chainName chainId chainConstraint.batchUnlockSize
    sharedConstraint.batchUnlockSize).mapError .thrown
  return {
    TVLBudget := effective chainConstraint.TVLBudget sharedConstraint.TVLBudget 0
    profitability := effective chainConstraint.minProfitabilityBps
      sharedConstraint.minProfitabilityBps defaultMinProfitabilityBps
    batchUnlockSize }

/-- The text of a number that may be undefined. -/
def showConfirmations : Option ℕ → String
  | some count => toString count
  | none => "undefined"

/-- The range of a threshold, which must lie below the finality of the chain. -/
def resolveThreshold (chain : ChainId) (constraint : RequiredConfirmationsThreshold) :
    Except LaunchError SrcConstraintsPerOrderValue := do
  let finalizedBlockConfirmations ← getFinalizedBlockConfirmations toolkit supportedChain chain
  if finalizedBlockConfirmations ≤ constraint.minBlockConfirmations.getD 0 then
    let amount := toolkit.showNumber constraint.thresholdAmountInUSD
    let name := ((supportedChain chain).map SupportedChain.name).getD "undefined"
    let actual := showConfirmations constraint.minBlockConfirmations
    .error (.thrown (s!"Unable to set required confirmation threshold for ${amount} on " ++
      s!"{name}: minBlockConfirmations ({actual}) must be less than max block confirmations " ++
      s!"({finalizedBlockConfirmations})"))
  else return toRange constraint

def getSrcOrderConstraintsPerOrderValue (chain : ChainId)
    (configSrcConstraints : ChainConstraints) :
    Except LaunchError (List SrcConstraintsPerOrderValue) := do
  let ranges ← configSrcConstraints.requiredConfirmationsThresholds.mapM
    (resolveThreshold toolkit supportedChain chain)
  -- important to sort by upper bound ASC for easier finding of the corresponding range
  return sortByWorth ranges

/-- The ranges of the throughput controller: those of the thresholds, and the final range covering
the finalization. -/
def throughputThresholds (constraints : SrcOrderConstraints)
    (perOrderValue : List SrcConstraintsPerOrderValue) (finalizedBlockCount : ℕ) : List Threshold :=
  perOrderValue.map (fun constraint =>
    { minBlockConfirmations := constraint.minBlockConfirmations
      maxFulfillThroughputUSD := constraint.maxFulfillThroughputUSD
      throughputTimeWindowSec := constraint.throughputTimeWindowSec }) ++
  [{ minBlockConfirmations := finalizedBlockCount
     maxFulfillThroughputUSD := constraints.maxFulfillThroughputUSD
     throughputTimeWindowSec := constraints.throughputTimeWindowSec }]

variable (config : ExecutorLaunchConfig)

def initChain (chain : ChainDefinition) : Except LaunchError LaunchedChain := do
  let srcConstraints ← getSrcConstraints toolkit chain.chain
    chain.constraints.toRawSrcConstraints config.srcConstraints
  let perOrderValue ← getSrcOrderConstraintsPerOrderValue toolkit supportedChain chain.chain
    chain.constraints
  let orderConstraints := getSrcOrderConstraints chain.constraints.toRawSrcOrderConstraints
  let avgBlockSpeed ← getAvgBlockSpeed toolkit supportedChain chain.chain
  let finalizedBlockCount ← getFinalizedBlockConfirmations toolkit supportedChain chain.chain
  return {
    network := { avgBlockSpeed, finalizedBlockCount }
    srcFilters := chain.srcFilters
    dstFilters := chain.dstFilters ++ (if chain.disabled then [⟨"disableFulfill"⟩] else []) ++
      config.filters
    -- the budget of the chain itself, not that of the resolved constraints
    budget := (truthy chain.constraints.TVLBudget).getD 0
    srcConstraints :=
      { toSrcOrderConstraints := orderConstraints
        profitability := srcConstraints.profitability
        batchUnlockSize := srcConstraints.batchUnlockSize
        perOrderValue }
    dstConstraints :=
      { toDstOrderConstraints :=
          getDstConstraints chain.dstConstraints.toRawDstOrderConstraints none
        perOrderValue := getDstConstraintsPerOrderValue chain.dstConstraints }
    unlockAuthority := chain.unlockAuthority
    fulfillAuthority := chain.fulfillAuthority
    unlockBeneficiary := chain.beneficiary
    TVLBudget := srcConstraints.TVLBudget
    throughput :=
      .create (throughputThresholds orderConstraints perOrderValue finalizedBlockCount) }

/-- Launch the chains one after the other. What is not about chains is that of the given executor,
whose chains stand for those that are not configured; no order of them is processed. -/
def init (executor : Executor) : Except LaunchError LaunchedExecutor := do
  let launched ← config.chains.mapM fun chain => do
    let launchedChain ← initChain executor.toolkit supportedChain config chain
    return (chain.chain, launchedChain)
  let chains chainId := launched.reverse.lookup chainId
  return {
    chains
    executor := { executor with
      chains := fun chainId =>
        ((chains chainId).map (·.toExecutorSupportedChain)).getD (executor.chains chainId) } }

end Executor

/-! ### What a launch makes of a chain -/

namespace ChainConstraints

/-- The thresholds by their amount. -/
def byAmount (constraints : ChainConstraints) : List RequiredConfirmationsThreshold :=
  constraints.requiredConfirmationsThresholds.insertionSort fun a b =>
    a.thresholdAmountInUSD ≤ b.thresholdAmountInUSD

/-- The threshold whose range is searched out for a number of confirmations. -/
def matchedThreshold (constraints : ChainConstraints) (count : ℕ) :
    Option RequiredConfirmationsThreshold :=
  RangeSearch.search (·.minBlockConfirmations.getD 0) count constraints.byAmount

end ChainConstraints

variable {toolkit : Toolkit} {supportedChain : ChainId → Option SupportedChain}
  {config : ExecutorLaunchConfig} {chain : ChainDefinition} {launched : LaunchedChain}
  {executor : Executor} {l : LaunchedExecutor} {chainId : ChainId}

@[simp] theorem truthy_getD_zero (value : Option ℚ) : (truthy value).getD 0 = value.getD 0 := by
  rcases value with _ | value
  · rfl
  · by_cases h : value = 0 <;> simp [truthy, Option.filter, h]

theorem truthy_eq (value : Option ℚ) :
    truthy value = if value.getD 0 = 0 then none else value := by
  rcases value with _ | value
  · rfl
  · by_cases h : value = 0 <;> simp [truthy, Option.filter, h]

/-- The chain's own value if it is not zero, or else the shared one, or else the default. -/
theorem effective_eq (own shared : Option ℚ) (default : ℚ) :
    effective own shared default =
      if own.getD 0 = 0 then if shared.getD 0 = 0 then default else shared.getD 0
      else own.getD 0 := by
  rw [effective, truthy_eq, truthy_eq]
  split
  · split
    · rfl
    · rename_i hshared
      rcases shared with _ | shared
      · exact absurd rfl hshared
      · rfl
  · rename_i hown
    rcases own with _ | own
    · exact absurd rfl hown
    · rfl

theorem sortByWorth_map (thresholds : List RequiredConfirmationsThreshold) :
    Executor.sortByWorth (thresholds.map Executor.toRange) =
      (thresholds.insertionSort fun a b =>
        a.thresholdAmountInUSD ≤ b.thresholdAmountInUSD).map Executor.toRange := by
  rw [Executor.sortByWorth, eq_comm]
  exact List.map_insertionSort _ _ _ _ fun a _ b _ => Iff.rfl

theorem resolveThreshold_eq_ok {constraint : RequiredConfirmationsThreshold} {count : ℕ}
    {range : SrcConstraintsPerOrderValue}
    (hc : Executor.getFinalizedBlockConfirmations toolkit supportedChain chainId = .ok count)
    (h : Executor.resolveThreshold toolkit supportedChain chainId constraint = .ok range) :
    constraint.minBlockConfirmations.getD 0 < count ∧ Executor.toRange constraint = range := by
  unfold Executor.resolveThreshold at h
  obtain ⟨count', hc', h⟩ := bind_eq_ok.mp h
  obtain rfl := Except.ok.inj (hc.symm.trans hc')
  split at h
  · cases h
  · rename_i hlt
    exact ⟨not_le.mp hlt, Except.ok.inj h⟩

/-- The ranges are those of the thresholds by their amount, and all of them are below the finality
of the chain. -/
theorem getSrcOrderConstraintsPerOrderValue_eq_ok {constraints : ChainConstraints} {count : ℕ}
    {ranges : List SrcConstraintsPerOrderValue}
    (hc : Executor.getFinalizedBlockConfirmations toolkit supportedChain chainId = .ok count)
    (h : Executor.getSrcOrderConstraintsPerOrderValue toolkit supportedChain chainId constraints =
      .ok ranges) :
    ranges = constraints.byAmount.map Executor.toRange ∧
      ∀ t ∈ constraints.requiredConfirmationsThresholds,
        t.minBlockConfirmations.getD 0 < count := by
  unfold Executor.getSrcOrderConstraintsPerOrderValue at h
  obtain ⟨unsorted, hu, h⟩ := bind_eq_ok.mp h
  obtain rfl := Except.ok.inj h
  have hall := (mapM_eq_ok hu).imp fun t range hrange => resolveThreshold_eq_ok hc hrange
  obtain ⟨hlt, hmap⟩ := List.forall₂_and_left _ _ |>.mp hall
  have hmap : constraints.requiredConfirmationsThresholds.map Executor.toRange = unsorted := by
    rw [← List.forall₂_eq_eq_eq, List.forall₂_map_left_iff]
    exact hmap
  refine ⟨?_, hlt⟩
  rw [← hmap, sortByWorth_map, ChainConstraints.byAmount]

/-- How a launched chain comes from its definition. -/
structure LaunchedFrom (toolkit : Toolkit) (supportedChain : ChainId → Option SupportedChain)
    (config : ExecutorLaunchConfig) (chain : ChainDefinition) (launched : LaunchedChain) :
    Prop where
  finalizedBlockCount :
    (supportedChain chain.chain).map SupportedChain.blockConfirmationsHardCap =
      some launched.network.finalizedBlockCount
  belowFinality : ∀ t ∈ chain.constraints.requiredConfirmationsThresholds,
    t.minBlockConfirmations.getD 0 < launched.network.finalizedBlockCount
  srcConstraints : launched.srcConstraints.toSrcOrderConstraints =
    Executor.getSrcOrderConstraints chain.constraints.toRawSrcOrderConstraints
  perOrderValue : launched.srcConstraints.perOrderValue =
    chain.constraints.byAmount.map Executor.toRange
  profitability : launched.srcConstraints.profitability =
    effective chain.constraints.minProfitabilityBps config.srcConstraints.minProfitabilityBps 4
  batchUnlockSize : getBatchSize toolkit.chainName chain.chain chain.constraints.batchUnlockSize
    config.srcConstraints.batchUnlockSize = .ok launched.srcConstraints.batchUnlockSize
  budget : launched.budget = chain.constraints.TVLBudget.getD 0
  TVLBudget : launched.TVLBudget =
    effective chain.constraints.TVLBudget config.srcConstraints.TVLBudget 0
  dstConstraints : launched.dstConstraints.toDstOrderConstraints =
    Executor.getDstConstraints chain.dstConstraints.toRawDstOrderConstraints none
  dstPerOrderValue : launched.dstConstraints.perOrderValue =
    Executor.getDstConstraintsPerOrderValue chain.dstConstraints
  throughput : launched.throughput = .create (Executor.throughputThresholds
    launched.srcConstraints.toSrcOrderConstraints launched.srcConstraints.perOrderValue
    launched.network.finalizedBlockCount)

theorem launchedFrom_of_initChain
    (h : Executor.initChain toolkit supportedChain config chain = .ok launched) :
    LaunchedFrom toolkit supportedChain config chain launched := by
  unfold Executor.initChain at h
  obtain ⟨srcConstraints, hsrc, h⟩ := bind_eq_ok.mp h
  obtain ⟨perOrderValue, hranges, h⟩ := bind_eq_ok.mp h
  obtain ⟨avgBlockSpeed, -, h⟩ := bind_eq_ok.mp h
  obtain ⟨count, hcount, h⟩ := bind_eq_ok.mp h
  obtain rfl := Except.ok.inj h
  unfold Executor.getSrcConstraints at hsrc
  obtain ⟨batchUnlockSize, hbatch, hsrc⟩ := bind_eq_ok.mp hsrc
  obtain rfl := Except.ok.inj hsrc
  obtain ⟨hranges, hbelow⟩ := getSrcOrderConstraintsPerOrderValue_eq_ok hcount hranges
  have hcap : (supportedChain chain.chain).map SupportedChain.blockConfirmationsHardCap =
      some count := by
    unfold Executor.getFinalizedBlockConfirmations at hcount
    cases hs : supportedChain chain.chain with
    | none =>
      simp only [hs] at hcount
      cases hcount
    | some known =>
      simp only [hs] at hcount
      exact congrArg some (Except.ok.inj hcount)
  exact
    { finalizedBlockCount := hcap
      belowFinality := hbelow
      srcConstraints := rfl
      perOrderValue := hranges
      profitability := rfl
      batchUnlockSize := mapError_eq_ok hbatch
      budget := truthy_getD_zero _
      TVLBudget := rfl
      dstConstraints := rfl
      dstPerOrderValue := rfl
      throughput := rfl }

/-- The last of the launched chains with an id is that of the last definition with it. -/
theorem lookup_of_forall₂ {P : ChainDefinition → LaunchedChain → Prop}
    {chains : List ChainDefinition} {pairs : List (ChainId × LaunchedChain)}
    (h : List.Forall₂ (fun chain pair => pair.1 = chain.chain ∧ P chain pair.2) chains pairs)
    (hc : chains.find? (·.chain = chainId) = some chain) :
    ∃ launched, pairs.lookup chainId = some launched ∧ P chain launched := by
  induction h with
  | nil => cases hc
  | @cons d pair chains pairs hd _ ih =>
    obtain ⟨id, launched⟩ := pair
    obtain ⟨rfl, hp⟩ := hd
    rw [List.find?_cons] at hc
    by_cases heq : d.chain = chainId
    · subst heq
      simp only [decide_true] at hc
      obtain rfl := Option.some.inj hc
      exact ⟨launched, List.lookup_cons_self, hp⟩
    · simp only [heq, decide_false] at hc
      have hne : (chainId == d.chain) = false := beq_eq_false_iff_ne.mpr (Ne.symm heq)
      simp only [List.lookup_cons, hne]
      exact ih hc

theorem toolkit_of_init (h : Executor.init supportedChain config executor = .ok l) :
    l.executor.toolkit = executor.toolkit := by
  obtain ⟨pairs, -, h⟩ := bind_eq_ok.mp h
  obtain rfl := Except.ok.inj h
  rfl

/-- Every configured chain is launched from its definition. -/
theorem launchedFrom_of_init (h : Executor.init supportedChain config executor = .ok l)
    (hc : config.definition chainId = some chain) :
    ∃ launched, l.chains chainId = some launched ∧
      l.executor.chains chainId = launched.toExecutorSupportedChain ∧
      LaunchedFrom executor.toolkit supportedChain config chain launched := by
  unfold Executor.init at h
  obtain ⟨pairs, hpairs, h⟩ := bind_eq_ok.mp h
  obtain rfl := Except.ok.inj h
  have hall : List.Forall₂ (fun chain pair => pair.1 = chain.chain ∧
      LaunchedFrom executor.toolkit supportedChain config chain pair.2) config.chains pairs := by
    apply (mapM_eq_ok hpairs).imp
    intro chain pair hpair
    obtain ⟨launched, hlaunched, hpair⟩ := bind_eq_ok.mp hpair
    obtain rfl := Except.ok.inj hpair
    exact ⟨rfl, launchedFrom_of_initChain hlaunched⟩
  obtain ⟨launched, hlookup, hfrom⟩ := lookup_of_forall₂ (List.forall₂_reverse_iff.mpr hall) hc
  refine ⟨launched, hlookup, ?_, hfrom⟩
  simp [hlookup]

end DlnTaker
