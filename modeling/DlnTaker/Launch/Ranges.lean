import DlnTaker.Launch.Config
import DlnTaker.Limits.ThroughputRuns
import DlnTaker.Taking.Fulfilment

/-! # The range of an order

An order is judged by the threshold that asks for the most confirmations the
order has, and by no other. The throughput controller searches a list with one
range more, so the two agree on an order until it has reached finality.
-/

namespace DlnTaker

open Dialogue OrderValidator

namespace RequiredConfirmationsThreshold

variable (t : RequiredConfirmationsThreshold) (thresholds : List RequiredConfirmationsThreshold)
  (count : ℕ) (usdValue : ℚ)

def Reached : Prop := t.minBlockConfirmations.getD 0 ≤ count

/-- The threshold allows an order of this worth with so many confirmations. -/
def Allows : Prop := t.Reached count ∧ usdValue ≤ t.thresholdAmountInUSD

/-- No threshold that is reached asks for more confirmations. -/
structure IsHighest : Prop where
  mem : t ∈ thresholds
  reached : t.Reached count
  highest : ∀ u ∈ thresholds, u.Reached count →
    u.minBlockConfirmations.getD 0 ≤ t.minBlockConfirmations.getD 0

/-- No threshold allows the order, or all of the highest ones reached do. -/
def HighestDecide : Prop :=
  (∀ t ∈ thresholds, ¬ t.Allows count usdValue) ∨
    ∀ t, IsHighest t thresholds count → usdValue ≤ t.thresholdAmountInUSD

end RequiredConfirmationsThreshold

/-- Where the constraints of an order come from. -/
inductive ConstraintsSource
  | range (range : SrcConstraintsPerOrderValue)
  | chain
  deriving DecidableEq

namespace ConstraintsSource

def minBlockConfirmations (finalizedBlockCount : ℕ) : ConstraintsSource → ℕ
  | range r => r.minBlockConfirmations
  | chain => finalizedBlockCount

/-- The constraints of the source, given those of the chain. -/
def constraints (chainConstraints : SrcOrderConstraints) : ConstraintsSource → SrcOrderConstraints
  | range r => r.toSrcOrderConstraints
  | chain => chainConstraints

/-- The throughput range that is built from the source. -/
def threshold (chainConstraints : SrcOrderConstraints) (finalizedBlockCount : ℕ)
    (source : ConstraintsSource) : Threshold where
  minBlockConfirmations := source.minBlockConfirmations finalizedBlockCount
  maxFulfillThroughputUSD := (source.constraints chainConstraints).maxFulfillThroughputUSD
  throughputTimeWindowSec := (source.constraints chainConstraints).throughputTimeWindowSec

end ConstraintsSource

/-- The sources of the throughput ranges of a chain. -/
def throughputSources (perOrderValue : List SrcConstraintsPerOrderValue) :
    List ConstraintsSource :=
  perOrderValue.map .range ++ [.chain]

/-- The source of the throughput range that is searched out for a number of confirmations. -/
def LaunchedChain.throughputSource (launched : LaunchedChain) (count : ℕ) :
    Option ConstraintsSource :=
  RangeSearch.search (·.minBlockConfirmations launched.network.finalizedBlockCount) count
    (throughputSources launched.srcConstraints.perOrderValue)

/-- The source of the constraints of an order. -/
def CreatedOrder.constraintsSource (executor : Executor) (order : CreatedOrder) :
    ConstraintsSource :=
  match order.srcConstraintsRange executor with
  | some range => .range range
  | none => .chain

variable {supportedChain : ChainId → Option SupportedChain} {toolkit : Toolkit}
  {config : ExecutorLaunchConfig} {chain : ChainDefinition} {launched : LaunchedChain}
  {executor : Executor} {l : LaunchedExecutor} {order : CreatedOrder} {count : ℕ} {usdValue : ℚ}
  {constraints : ChainConstraints} {t : RequiredConfirmationsThreshold}
  {env : Talk → (query : Request) → Answer query} {said : Talk}

open RequiredConfirmationsThreshold

/-! ### The threshold of an order -/

theorem byAmount_sorted : constraints.byAmount.Pairwise fun a b =>
    a.thresholdAmountInUSD ≤ b.thresholdAmountInUSD := by
  have htotal : Std.Total fun a b : RequiredConfirmationsThreshold =>
    a.thresholdAmountInUSD ≤ b.thresholdAmountInUSD := ⟨fun a b => le_total _ _⟩
  have htrans : IsTrans RequiredConfirmationsThreshold fun a b =>
    a.thresholdAmountInUSD ≤ b.thresholdAmountInUSD := ⟨fun _ _ _ h h' => h.trans h'⟩
  exact List.pairwise_insertionSort _ _

@[simp] theorem mem_byAmount :
    t ∈ constraints.byAmount ↔ t ∈ constraints.requiredConfirmationsThresholds :=
  List.mem_insertionSort _

/-- The threshold that is searched out is one of the highest, and of these one of the smallest
amount. -/
theorem isHighest_of_matched (h : constraints.matchedThreshold count = some t) :
    t.IsHighest constraints.requiredConfirmationsThresholds count ∧
      ∀ u, IsHighest u constraints.requiredConfirmationsThresholds count →
        t.thresholdAmountInUSD ≤ u.thresholdAmountInUSD := by
  have hreached : t.minBlockConfirmations.getD 0 ≤ count := (RangeSearch.key_le_of_search h :)
  have hhighest : t.IsHighest constraints.requiredConfirmationsThresholds count := by
    constructor
    · exact mem_byAmount.mp (RangeSearch.mem_of_search h)
    · exact hreached
    · intro u hu hreached
      exact RangeSearch.le_key_of_search h (mem_byAmount.mpr hu) hreached
  refine ⟨hhighest, fun u hu => ?_⟩
  apply RangeSearch.first_of_search byAmount_sorted h (mem_byAmount.mpr hu.mem)
  apply le_antisymm
  · exact hhighest.highest u hu.mem hu.reached
  · exact hu.highest t hhighest.mem hhighest.reached

theorem matched_eq_none_iff : constraints.matchedThreshold count = none ↔
    ∀ t ∈ constraints.requiredConfirmationsThresholds, ¬ t.Reached count := by
  simp only [ChainConstraints.matchedThreshold, RangeSearch.search_eq_none_iff, mem_byAmount,
    Reached, not_le]

/-- The range of an order is that of the threshold which is searched out. -/
theorem LaunchedFrom.srcConstraintsRange_eq
    (hf : LaunchedFrom toolkit supportedChain config chain launched)
    (hl : executor.chains order.giveChain = launched.toExecutorSupportedChain) :
    order.srcConstraintsRange executor =
      (chain.constraints.matchedThreshold (order.blockConfirmations executor)).map
        Executor.toRange := by
  have hsearch : order.srcConstraintsRange executor =
      RangeSearch.search (·.minBlockConfirmations) (order.blockConfirmations executor)
        (executor.chains order.giveChain).srcConstraints.perOrderValue := rfl
  rw [hsearch, hl, hf.perOrderValue, RangeSearch.search_map]
  rfl

/-! ### Finalization -/

/-- A non-finalized order of a known worth passes if and only if it has a range that allows it. -/
theorem checkFinalization_iff (hf : order.finalization = .confirmations count)
    (hv : (play env said order.getUsdValue).2 = .inr usdValue) :
    (play env said (checkFinalization executor order)).2 = .inr () ↔
      ∃ range, order.srcConstraintsRange executor = some range ∧
        usdValue ≤ range.upperThreshold := by
  simp only [checkFinalization, hf]
  cases hr : order.srcConstraintsRange executor with
  | none =>
    apply iff_of_false
    · intro h
      cases h
    · rintro ⟨range, h, -⟩
      cases h
  | some range =>
    rw [play_bind hv]
    split
    · rename_i hlt
      apply iff_of_false
      · intro h
        cases h
      · rintro ⟨range', h, hle⟩
        obtain rfl := Option.some.inj h
        exact absurd hlt (not_lt.mpr hle)
    · rename_i hle
      exact iff_of_true rfl ⟨range, rfl, not_lt.mp hle⟩

/-- It passes if and only if a threshold is reached and all of the highest ones allow it. -/
theorem checkFinalization_iff_highest
    (h : Executor.init supportedChain config executor = .ok l)
    (hc : config.definition order.giveChain = some chain)
    (hf : order.finalization = .confirmations count)
    (hv : (play env said order.getUsdValue).2 = .inr usdValue) :
    (play env said (checkFinalization l.executor order)).2 = .inr () ↔
      (∃ t ∈ chain.constraints.requiredConfirmationsThresholds, t.Reached count) ∧
        ∀ t, IsHighest t chain.constraints.requiredConfirmationsThresholds count →
          usdValue ≤ t.thresholdAmountInUSD := by
  obtain ⟨launched, -, hl, hfrom⟩ := launchedFrom_of_init h hc
  have hcount : order.blockConfirmations l.executor = count := by
    rw [CreatedOrder.blockConfirmations, hf]
  rw [checkFinalization_iff hf hv, hfrom.srcConstraintsRange_eq hl, hcount]
  cases hm : chain.constraints.matchedThreshold count with
  | none =>
    apply iff_of_false
    · rintro ⟨range, hr, -⟩
      cases hr
    · rintro ⟨⟨t, ht, hreached⟩, -⟩
      exact matched_eq_none_iff.mp hm t ht hreached
  | some t =>
    obtain ⟨hhighest, hsmallest⟩ := isHighest_of_matched hm
    constructor
    · rintro ⟨range, hr, hle⟩
      obtain rfl := Option.some.inj hr
      exact ⟨⟨t, hhighest.mem, hhighest.reached⟩, fun u hu => hle.trans (hsmallest u hu)⟩
    · rintro ⟨-, hall⟩
      exact ⟨_, rfl, hall t hhighest⟩

/-- The order as it is seen with a number of confirmations. -/
def CreatedOrder.confirmed (order : CreatedOrder) (count : ℕ) : CreatedOrder :=
  { order with finalization := .confirmations count }

theorem Allows.mono {count' : ℕ} (h : t.Allows count usdValue) (hle : count ≤ count') :
    t.Allows count' usdValue :=
  ⟨h.1.trans hle, h.2⟩

theorem exists_isHighest
    (h : ∃ t ∈ constraints.requiredConfirmationsThresholds, t.Reached count) :
    ∃ t, IsHighest t constraints.requiredConfirmationsThresholds count := by
  obtain ⟨t, ht, hreached⟩ := h
  cases hm : constraints.matchedThreshold count with
  | none => exact absurd hreached (matched_eq_none_iff.mp hm t ht)
  | some t => exact ⟨t, (isHighest_of_matched hm).1⟩

/-- What the highest thresholds reached say is what all thresholds say, where they decide. -/
theorem highest_iff_allows :
    ((∃ t ∈ constraints.requiredConfirmationsThresholds, t.Reached count) ∧
          (∀ t, IsHighest t constraints.requiredConfirmationsThresholds count →
            usdValue ≤ t.thresholdAmountInUSD) ↔
        ∃ t ∈ constraints.requiredConfirmationsThresholds, t.Allows count usdValue) ↔
      HighestDecide constraints.requiredConfirmationsThresholds count usdValue := by
  have hsufficient : (∃ t ∈ constraints.requiredConfirmationsThresholds, t.Reached count) →
      (∀ t, IsHighest t constraints.requiredConfirmationsThresholds count →
        usdValue ≤ t.thresholdAmountInUSD) →
      ∃ t ∈ constraints.requiredConfirmationsThresholds, t.Allows count usdValue := by
    intro hreached hall
    obtain ⟨t, ht⟩ := exists_isHighest hreached
    exact ⟨t, ht.mem, ht.reached, hall t ht⟩
  constructor
  · intro hiff
    by_cases hallowed : ∃ t ∈ constraints.requiredConfirmationsThresholds, t.Allows count usdValue
    · exact .inr (hiff.mpr hallowed).2
    · left
      intro t ht hallows
      exact hallowed ⟨t, ht, hallows⟩
  · rintro (hnone | hall)
    · apply iff_of_false
      · rintro ⟨hreached, hall⟩
        obtain ⟨t, ht, hallows⟩ := hsufficient hreached hall
        exact hnone t ht hallows
      · rintro ⟨t, ht, hallows⟩
        exact hnone t ht hallows
    · constructor
      · rintro ⟨hreached, -⟩
        exact hsufficient hreached hall
      · rintro ⟨t, ht, hreached, -⟩
        exact ⟨⟨t, ht, hreached⟩, hall⟩

/-- An order passes with the confirmations that some threshold asks for, and no others, if and only
if the highest thresholds decide; and then it passes with more where they decide as well. -/
theorem necessary_and_sufficient_iff
    (h : Executor.init supportedChain config executor = .ok l)
    (hc : config.definition order.giveChain = some chain)
    (hv : (play env said order.getUsdValue).2 = .inr usdValue) :
    (∀ count,
      ((play env said (checkFinalization l.executor (order.confirmed count))).2 = .inr () ↔
          ∃ t ∈ chain.constraints.requiredConfirmationsThresholds, t.Allows count usdValue) ↔
        HighestDecide chain.constraints.requiredConfirmationsThresholds count usdValue) ∧
    ∀ count count', count ≤ count' →
      HighestDecide chain.constraints.requiredConfirmationsThresholds count' usdValue →
      (play env said (checkFinalization l.executor (order.confirmed count))).2 = .inr () →
      (play env said (checkFinalization l.executor (order.confirmed count'))).2 = .inr () := by
  have hpass : ∀ count,
      (play env said (checkFinalization l.executor (order.confirmed count))).2 = .inr () ↔
        (∃ t ∈ chain.constraints.requiredConfirmationsThresholds, t.Reached count) ∧
          ∀ t, IsHighest t chain.constraints.requiredConfirmationsThresholds count →
            usdValue ≤ t.thresholdAmountInUSD :=
    fun count => checkFinalization_iff_highest h hc rfl hv
  have hdecide : ∀ count,
      ((play env said (checkFinalization l.executor (order.confirmed count))).2 = .inr () ↔
          ∃ t ∈ chain.constraints.requiredConfirmationsThresholds, t.Allows count usdValue) ↔
        HighestDecide chain.constraints.requiredConfirmationsThresholds count usdValue := by
    intro count
    rw [hpass count]
    exact highest_iff_allows
  refine ⟨hdecide, ?_⟩
  intro count count' hle hmore hpassed
  obtain ⟨hreached, hall⟩ := (hpass count).mp hpassed
  obtain ⟨t, ht⟩ := exists_isHighest hreached
  have hallows : t.Allows count' usdValue := Allows.mono ⟨ht.reached, hall t ht⟩ hle
  exact ((hdecide count').mpr hmore).mpr ⟨t, ht.mem, hallows⟩

theorem exists_ok_of_any {ε α : Type} {x : Except ε α} {p : α → Bool}
    (h : x.toOption.any p = true) : ∃ a, x = .ok a ∧ p a = true := by
  cases x with
  | error e => cases h
  | ok a => exact ⟨a, rfl, h⟩

theorem exists_ok_of_isSome {ε α : Type} {x : Except ε α} (h : x.toOption.isSome = true) :
    ∃ a, x = .ok a := by
  cases x with
  | error e => cases h
  | ok a => exact ⟨a, rfl⟩

namespace Sample

def threshold (thresholdAmountInUSD : ℚ) (minBlockConfirmations : ℕ)
    (fulfillmentDelay : Option ℚ) : RequiredConfirmationsThreshold :=
  ⟨⟨fulfillmentDelay, none, none⟩, thresholdAmountInUSD, some minBlockConfirmations⟩

def chainDefinition (chain : ChainId) (constraints : ChainConstraints) : ChainDefinition where
  chain := chain
  disabled := false
  constraints := constraints
  dstConstraints := ⟨⟨none, none⟩, []⟩
  srcFilters := []
  dstFilters := []
  unlockAuthority := ⟨"0x7", [7]⟩
  fulfillAuthority := ⟨"0x7", [7]⟩
  beneficiary := [7]

/-- Orders from chain 1 to chain 2, with a delay of the give chain and with its thresholds. -/
def launchConfig (fulfillmentDelay : Option ℚ)
    (thresholds : List RequiredConfirmationsThreshold) : ExecutorLaunchConfig where
  filters := []
  srcConstraints := ⟨some 100, none, none⟩
  chains := [chainDefinition 1 ⟨⟨none, none, none⟩, ⟨fulfillmentDelay, none, none⟩, thresholds⟩,
    chainDefinition 2 ⟨⟨none, none, none⟩, ⟨none, none, none⟩, []⟩]

theorem definition_launchConfig (fulfillmentDelay : Option ℚ)
    (thresholds : List RequiredConfirmationsThreshold) :
    (launchConfig fulfillmentDelay thresholds).definition takenOrder.giveChain =
      some (chainDefinition 1
        ⟨⟨none, none, none⟩, ⟨fulfillmentDelay, none, none⟩, thresholds⟩) := rfl

def launch (config : ExecutorLaunchConfig) : Except LaunchError LaunchedExecutor :=
  Executor.init (fun _ => some .ethereum) config daemon

/-- More confirmations are asked for a smaller amount. -/
def declining : List RequiredConfirmationsThreshold := [threshold 1000 1 none, threshold 50 6 none]

end Sample

theorem necessary_and_sufficient_iff_declining :
    ∃ l, Sample.launch (Sample.launchConfig none Sample.declining) = .ok l ∧
      (∀ count,
        ((play (Sample.answer true fun _ => true) []
            (checkFinalization l.executor (Sample.takenOrder.confirmed count))).2 = .inr () ↔
            ∃ t ∈ Sample.declining, t.Allows count 100) ↔
          HighestDecide Sample.declining count 100) ∧
      ∀ count count', count ≤ count' → HighestDecide Sample.declining count' 100 →
        (play (Sample.answer true fun _ => true) []
          (checkFinalization l.executor (Sample.takenOrder.confirmed count))).2 = .inr () →
        (play (Sample.answer true fun _ => true) []
          (checkFinalization l.executor (Sample.takenOrder.confirmed count'))).2 = .inr () := by
  have hok : (Sample.launch
      (Sample.launchConfig none Sample.declining)).toOption.isSome = true := by
    decide +kernel
  obtain ⟨l, h⟩ := exists_ok_of_isSome hok
  refine ⟨l, h, ?_⟩
  have hworth : (play (Sample.answer true fun _ => true) [] Sample.takenOrder.getUsdValue).2 =
      .inr 100 := by
    decide +kernel
  exact necessary_and_sufficient_iff h (Sample.definition_launchConfig none _) hworth

/-- The order passes with one confirmation and not with six. -/
theorem rejected_with_more_confirmations :
    ∃ l, Sample.launch (Sample.launchConfig none Sample.declining) = .ok l ∧
      (play (Sample.answer true fun _ => true) []
        (checkFinalization l.executor (Sample.takenOrder.confirmed 1))).2 = .inr () ∧
      (∃ t ∈ Sample.declining, t.Allows 6 100) ∧
      (play (Sample.answer true fun _ => true) []
        (checkFinalization l.executor (Sample.takenOrder.confirmed 6))).2 ≠ .inr () := by
  have hruns : (Sample.launch (Sample.launchConfig none Sample.declining)).toOption.any (fun l =>
      decide ((play (Sample.answer true fun _ => true) []
        (checkFinalization l.executor (Sample.takenOrder.confirmed 1))).2 = .inr ()) &&
      decide ((play (Sample.answer true fun _ => true) []
        (checkFinalization l.executor (Sample.takenOrder.confirmed 6))).2 ≠ .inr ())) = true := by
    decide +kernel
  obtain ⟨l, h, hl⟩ := exists_ok_of_any hruns
  obtain ⟨hone, hsix⟩ := Bool.and_eq_true_iff.mp hl
  refine ⟨l, h, of_decide_eq_true hone, ?_, of_decide_eq_true hsix⟩
  refine ⟨Sample.threshold 1000 1 none, List.mem_cons_self, ?_, ?_⟩
  · change 1 ≤ 6
    omega
  · change (100 : ℚ) ≤ 1000
    norm_num

/-! ### Throughput -/

theorem throughputThresholds_eq (constraints : SrcOrderConstraints)
    (perOrderValue : List SrcConstraintsPerOrderValue) (finalizedBlockCount : ℕ) :
    Executor.throughputThresholds constraints perOrderValue finalizedBlockCount =
      (throughputSources perOrderValue).map
        (ConstraintsSource.threshold constraints finalizedBlockCount) := by
  simp only [Executor.throughputThresholds, throughputSources, List.map_append, List.map_map]
  rfl

/-- What the controller finds is built from the source that is searched out. -/
theorem LaunchedFrom.getMetric_eq
    (hf : LaunchedFrom toolkit supportedChain config chain launched) :
    (launched.throughput.getMetric count).map Prod.fst =
      ((launched.throughputSource count).map (ConstraintsSource.threshold
        launched.srcConstraints.toSrcOrderConstraints
        launched.network.finalizedBlockCount)).filter Threshold.isActualMetric := by
  have hranges : launched.throughput.ranges = sortThresholds (Executor.throughputThresholds
      launched.srcConstraints.toSrcOrderConstraints launched.srcConstraints.perOrderValue
      launched.network.finalizedBlockCount) := by
    rw [hf.throughput, ThroughputController.ranges_create]
  have hsearch : launched.throughput.ranges.find? (·.minBlockConfirmations ≤ count) =
      (launched.throughputSource count).map (ConstraintsSource.threshold
        launched.srcConstraints.toSrcOrderConstraints launched.network.finalizedBlockCount) := by
    rw [hranges, throughputThresholds_eq]
    exact RangeSearch.search_map
  have hfind : (launched.throughput.ranges.zipIdx.find?
        (·.1.minBlockConfirmations ≤ count)).map Prod.fst =
      launched.throughput.ranges.find? (·.minBlockConfirmations ≤ count) :=
    RangeSearch.map_find?_zipIdx (fun range : Threshold => range.minBlockConfirmations ≤ count) 0
  rw [← hsearch, ← hfind, Option.filter_map]
  rfl

theorem CreatedOrder.srcConstraints_eq : order.srcConstraints executor =
    (order.constraintsSource executor).constraints
      (executor.chains order.giveChain).srcConstraints.toSrcOrderConstraints := by
  rw [CreatedOrder.srcConstraints, CreatedOrder.constraintsSource]
  cases order.srcConstraintsRange executor <;> rfl

/-- Below the finality of the chain the two lists are searched alike. -/
theorem throughputSource_of_lt (hlt : count < launched.network.finalizedBlockCount) :
    launched.throughputSource count =
      (RangeSearch.search (·.minBlockConfirmations) count
        launched.srcConstraints.perOrderValue).map .range := by
  have hchain : count <
      ConstraintsSource.chain.minBlockConfirmations launched.network.finalizedBlockCount := hlt
  rw [LaunchedChain.throughputSource, throughputSources]
  rw [RangeSearch.search_concat_of_lt hchain, RangeSearch.search_map]
  rfl

/-- From its finality on the range of the chain is found. -/
theorem LaunchedFrom.throughputSource_of_le
    (hf : LaunchedFrom toolkit supportedChain config chain launched)
    (hle : launched.network.finalizedBlockCount ≤ count) :
    launched.throughputSource count = some .chain := by
  have hchain : ConstraintsSource.chain.minBlockConfirmations
      launched.network.finalizedBlockCount ≤ count := hle
  apply RangeSearch.search_concat_of_top hchain
  intro source hsource
  obtain ⟨range, hrange, rfl⟩ := List.mem_map.mp hsource
  rw [hf.perOrderValue] at hrange
  obtain ⟨t, ht, rfl⟩ := List.mem_map.mp hrange
  exact hf.belowFinality t (mem_byAmount.mp ht)

/-- From the finality of the chain on an order has the constraints of the chain only if no threshold
is configured. -/
theorem LaunchedFrom.constraintsSource_eq_chain_iff
    (hf : LaunchedFrom toolkit supportedChain config chain launched)
    (hl : executor.chains order.giveChain = launched.toExecutorSupportedChain)
    (hle : launched.network.finalizedBlockCount ≤ order.blockConfirmations executor) :
    order.constraintsSource executor = .chain ↔
      chain.constraints.requiredConfirmationsThresholds = [] := by
  rw [CreatedOrder.constraintsSource, hf.srcConstraintsRange_eq hl]
  cases hm : chain.constraints.matchedThreshold (order.blockConfirmations executor) with
  | none =>
    apply iff_of_true rfl
    apply List.eq_nil_iff_forall_not_mem.mpr
    intro t ht
    exact matched_eq_none_iff.mp hm t ht ((hf.belowFinality t ht).le.trans hle)
  | some t =>
    apply iff_of_false
    · intro h
      cases h
    · exact List.ne_nil_of_mem (isHighest_of_matched hm).1.mem

theorem range_of_checkFinalization (hf : order.finalization = .confirmations count)
    (hpass : (play env said (checkFinalization executor order)).2 = .inr ()) :
    ∃ range, order.srcConstraintsRange executor = some range := by
  have hr := reaches_play (p := checkFinalization executor order) env said
  rw [hpass] at hr
  have henough := checkFinalization_done hr
  rw [FinalEnough, hf] at henough
  obtain ⟨range, -, hrange, -⟩ := henough
  exact ⟨range, hrange⟩

/-- For an order that passes the check of its finalization, the constraints and the throughput range
come from the same source if and only if the chain has no thresholds, or the order is seen below
the finality of the chain. -/
theorem sources_agree_iff (h : Executor.init supportedChain config executor = .ok l)
    (hc : config.definition order.giveChain = some chain)
    (hpass : (play env said (checkFinalization l.executor order)).2 = .inr ()) :
    ∃ launched, l.chains order.giveChain = some launched ∧
      (launched.throughput.getMetric (order.blockConfirmations l.executor)).map Prod.fst =
        ((launched.throughputSource (order.blockConfirmations l.executor)).map
          (ConstraintsSource.threshold launched.srcConstraints.toSrcOrderConstraints
            launched.network.finalizedBlockCount)).filter Threshold.isActualMetric ∧
      order.srcConstraints l.executor = (order.constraintsSource l.executor).constraints
        launched.srcConstraints.toSrcOrderConstraints ∧
      (launched.throughputSource (order.blockConfirmations l.executor) =
          some (order.constraintsSource l.executor) ↔
        chain.constraints.requiredConfirmationsThresholds = [] ∨
          ∃ count, order.finalization = .confirmations count ∧
            count < launched.network.finalizedBlockCount) := by
  obtain ⟨launched, hlaunched, hl, hf⟩ := launchedFrom_of_init h hc
  have hconstraints : order.srcConstraints l.executor =
      (order.constraintsSource l.executor).constraints
        launched.srcConstraints.toSrcOrderConstraints := by
    rw [CreatedOrder.srcConstraints_eq, hl]
  refine ⟨launched, hlaunched, hf.getMetric_eq, hconstraints, ?_⟩
  cases hfin : order.finalization with
  | finalized =>
    have hcount : order.blockConfirmations l.executor = launched.network.finalizedBlockCount := by
      rw [CreatedOrder.blockConfirmations, hfin, hl]
    rw [hf.throughputSource_of_le hcount.ge, Option.some_inj, eq_comm,
      hf.constraintsSource_eq_chain_iff hl hcount.ge]
    simp
  | confirmations count =>
    have hcount : order.blockConfirmations l.executor = count := by
      rw [CreatedOrder.blockConfirmations, hfin]
    by_cases hlt : count < launched.network.finalizedBlockCount
    · apply iff_of_true
      · obtain ⟨range, hrange⟩ := range_of_checkFinalization hfin hpass
        have hsearch : RangeSearch.search (·.minBlockConfirmations) count
            launched.srcConstraints.perOrderValue = some range := by
          rw [← hrange, CreatedOrder.srcConstraintsRange, hcount, hl]
          rfl
        rw [hcount, throughputSource_of_lt hlt, hsearch, CreatedOrder.constraintsSource, hrange]
        rfl
      · exact .inr ⟨count, rfl, hlt⟩
    · have hle : launched.network.finalizedBlockCount ≤ order.blockConfirmations l.executor :=
        hcount ▸ not_lt.mp hlt
      rw [hf.throughputSource_of_le hle, Option.some_inj, eq_comm,
        hf.constraintsSource_eq_chain_iff hl hle]
      simp [hlt]

theorem sources_agree_iff_finalized :
    ∃ l, Sample.launch (Sample.launchConfig none Sample.declining) = .ok l ∧
      ∃ launched, l.chains 1 = some launched ∧
        (launched.throughput.getMetric
            (Sample.takenOrder.blockConfirmations l.executor)).map Prod.fst =
          ((launched.throughputSource (Sample.takenOrder.blockConfirmations l.executor)).map
            (ConstraintsSource.threshold launched.srcConstraints.toSrcOrderConstraints
              launched.network.finalizedBlockCount)).filter Threshold.isActualMetric ∧
        Sample.takenOrder.srcConstraints l.executor =
          (Sample.takenOrder.constraintsSource l.executor).constraints
            launched.srcConstraints.toSrcOrderConstraints ∧
        (launched.throughputSource (Sample.takenOrder.blockConfirmations l.executor) =
            some (Sample.takenOrder.constraintsSource l.executor) ↔
          Sample.declining = [] ∨
            ∃ count, Sample.takenOrder.finalization = .confirmations count ∧
              count < launched.network.finalizedBlockCount) := by
  have hok : (Sample.launch
      (Sample.launchConfig none Sample.declining)).toOption.isSome = true := by
    decide +kernel
  obtain ⟨l, h⟩ := exists_ok_of_isSome hok
  refine ⟨l, h, ?_⟩
  have hpass : (play (Sample.answer true fun _ => true) []
      (checkFinalization l.executor Sample.takenOrder)).2 = .inr () := rfl
  exact sources_agree_iff h (Sample.definition_launchConfig none _) hpass

/-- A finalized order has the constraints of a threshold, and counts in the range of the chain. -/
theorem finalized_in_a_threshold :
    ∃ l launched, Sample.launch (Sample.launchConfig none Sample.declining) = .ok l ∧
      l.chains 1 = some launched ∧
      (play (Sample.answer true fun _ => true) []
        (checkFinalization l.executor Sample.takenOrder)).2 = .inr () ∧
      launched.throughputSource (Sample.takenOrder.blockConfirmations l.executor) =
        some .chain ∧
      Sample.takenOrder.constraintsSource l.executor =
        .range (Executor.toRange (Sample.threshold 50 6 none)) := by
  have hruns : (Sample.launch (Sample.launchConfig none Sample.declining)).toOption.any (fun l =>
      (l.chains 1).any (fun launched => decide (launched.throughputSource
        (Sample.takenOrder.blockConfirmations l.executor) = some .chain)) &&
      decide (Sample.takenOrder.constraintsSource l.executor =
        .range (Executor.toRange (Sample.threshold 50 6 none)))) = true := by
    decide +kernel
  obtain ⟨l, h, hl⟩ := exists_ok_of_any hruns
  obtain ⟨hthroughput, hsource⟩ := Bool.and_eq_true_iff.mp hl
  obtain ⟨launched, hlaunched, hthroughput⟩ := Option.any_eq_true _ _ |>.mp hthroughput
  exact ⟨l, launched, h, hlaunched, rfl, of_decide_eq_true hthroughput, of_decide_eq_true hsource⟩

end DlnTaker
