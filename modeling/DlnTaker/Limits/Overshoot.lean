import Mathlib.Algebra.BigOperators.Group.List.Basic
import Mathlib.Algebra.Order.BigOperators.Group.List
import Mathlib.Algebra.Order.Ring.Rat
import Mathlib.Data.Finset.Card
import DlnTaker.Limits.FleetStep
import DlnTaker.Limits.ThroughputRuns

/-! # How far the throughput cap is overshot

Runs for orders of one range may all pass the check before any of them is
recorded. As each of them fits beside what is recorded when it passes, and as no
two runs share a take chain, what is recorded and what is in flight is together
worth at most the cap for every take chain.
-/

namespace DlnTaker

open ThroughputController

namespace Fleet

variable {config : FleetConfig} {s s' : Fleet} {range : Threshold × ℕ} {run : TakeRun}
  {stage : TakeStage} {n : ℕ} {T : Finset ChainId}

/-- What a run adds to the range as long as it is not recorded. -/
def load (config : FleetConfig) (range : Threshold × ℕ) (run : TakeRun) : ℚ :=
  if run.stage.pastThroughput = true ∧
      config.rangeOf (config.blockConfirmations run.order) = some range then
    config.usdValue run.order.orderId
  else 0

/-- What the runs that have passed the check in the range are worth. -/
def inFlight (config : FleetConfig) (range : Threshold × ℕ) (s : Fleet) : ℚ :=
  (s.takes.map (load config range)).sum

theorem load_nonneg : 0 ≤ load config range run := by
  unfold load
  split
  · exact TokenMarket.getUsdValue_nonneg
  · exact le_rfl

theorem load_eq_zero (h : stage.pastThroughput = false) :
    load config range { run with stage } = 0 := by
  rw [load, if_neg]
  rintro ⟨hp, -⟩
  rw [h] at hp
  cases hp

theorem load_congr (h : stage.pastThroughput = run.stage.pastThroughput) :
    load config range { run with stage } = load config range run := by
  simp only [load, h]

/-- The n-th run and the others. -/
theorem inFlight_eq (hn : s.takes[n]? = some run) :
    inFlight config range s = load config range run + inFlight config range (s.ended n) := by
  obtain ⟨hlt, rfl⟩ := List.getElem?_eq_some_iff.mp hn
  have hlt' : n < (s.takes.map (load config range)).length := by rwa [List.length_map]
  rw [inFlight, ← List.CommMonoid.add_sum_eraseIdx hlt', List.getElem_map, inFlight, ended,
    List.eraseIdx_map]

theorem inFlight_moved (hn : s.takes[n]? = some run) :
    inFlight config range (s.moved n run stage) =
      load config range { run with stage } + inFlight config range (s.ended n) := by
  have hlt : n < s.takes.length := (List.getElem?_eq_some_iff.mp hn).1
  have hget : (s.moved n run stage).takes[n]? = some { run with stage } :=
    List.getElem?_set_self hlt
  rw [inFlight_eq hget]
  simp only [inFlight, ended, moved, List.eraseIdx_set_eq]

/-- The take chains of the runs in progress. -/
def takeChains (s : Fleet) : List ChainId := s.takes.map (·.order.takeChain)

theorem takeChains_moved (hn : s.takes[n]? = some run) :
    (s.moved n run stage).takeChains = s.takeChains := by
  obtain ⟨hlt, rfl⟩ := List.getElem?_eq_some_iff.mp hn
  have hlt' : n < (s.takes.map (·.order.takeChain)).length := by rwa [List.length_map]
  have hchain : (s.takes.map (·.order.takeChain))[n] = s.takes[n].order.takeChain :=
    List.getElem_map _
  change (s.takes.set n _).map _ = s.takes.map (·.order.takeChain)
  rw [List.map_set, ← hchain, List.set_getElem_self]

theorem takeChains_ended : (s.ended n).takeChains.Sublist s.takeChains :=
  (List.eraseIdx_sublist s.takes n).map _

/-- The accounts are right, no two runs share a take chain, and the cap of an active range is
overshot at most by the number of take chains. -/
structure Overshot (config : FleetConfig) (T : Finset ChainId) (s : Fleet) : Prop where
  accounted : s.throughput.Accounted
  ranges : s.throughput.ranges = config.ranges
  usdValue : ∀ record ∈ s.throughput.orders, record.usdValue = config.usdValue record.orderId
  nodup : s.takeChains.Nodup
  takeChains : ∀ chain ∈ s.takeChains, chain ∈ T
  fits : ∀ range ∈ config.ranges.zipIdx, range.1.isActualMetric = true →
    ∀ run ∈ s.takes, load config range run ≤ range.1.maxFulfillThroughputUSD
  bounded : ∀ range ∈ config.ranges.zipIdx, range.1.isActualMetric = true →
    lockedIn s.throughput.orders range.2 + inFlight config range s ≤
      T.card * range.1.maxFulfillThroughputUSD

namespace Overshot

theorem cap_nonneg (ha : range.1.isActualMetric = true) :
    0 ≤ range.1.maxFulfillThroughputUSD := by
  simp only [Threshold.isActualMetric, Bool.and_eq_true, decide_eq_true_eq] at ha
  exact ha.1.le

theorem length_le (h : Overshot config T s) : s.takes.length ≤ T.card := by
  have hlength : s.takeChains.length = s.takes.length := List.length_map _
  rw [← hlength, ← List.toFinset_card_of_nodup h.nodup]
  exact Finset.card_le_card fun chain hm => h.takeChains chain (List.mem_toFinset.mp hm)

theorem initial {chain : GiveChainState} : Overshot config T (.initial config chain) where
  accounted := .create _
  ranges := ranges_create _
  usdValue record hm := by cases hm
  nodup := .nil
  takeChains chain hm := by cases hm
  fits range _ _ run hm := by cases hm
  bounded range _ ha := by
    have hcap := cap_nonneg ha
    change (0 : ℚ) + 0 ≤ _
    rw [add_zero]
    positivity

/-- The controller is left alone and the runs are what they were. -/
theorem frame (h : Overshot config T s) (ht : s'.throughput = s.throughput)
    (hr : s'.takes = s.takes) : Overshot config T s' where
  accounted := ht ▸ h.accounted
  ranges := ht ▸ h.ranges
  usdValue := ht ▸ h.usdValue
  nodup := by
    rw [Fleet.takeChains, hr]
    exact h.nodup
  takeChains := by
    rw [Fleet.takeChains, hr]
    exact h.takeChains
  fits := hr ▸ h.fits
  bounded := by
    simp only [inFlight, ht, hr]
    exact h.bounded

/-- A run moves without weighing more. -/
theorem moved (h : Overshot config T s) (hn : s.takes[n]? = some run)
    (hload : ∀ range, load config range { run with stage } ≤ load config range run) :
    Overshot config T (s.moved n run stage) where
  accounted := h.accounted
  ranges := h.ranges
  usdValue := h.usdValue
  nodup := takeChains_moved hn ▸ h.nodup
  takeChains := takeChains_moved hn ▸ h.takeChains
  fits range hr ha other hm := by
    rcases List.mem_or_eq_of_mem_set hm with hm | rfl
    · exact h.fits range hr ha other hm
    · exact (hload range).trans (h.fits range hr ha run (List.mem_of_getElem? hn))
  bounded range hr ha := by
    have hbound := h.bounded range hr ha
    have hle := hload range
    rw [inFlight_eq hn] at hbound
    rw [inFlight_moved hn]
    change lockedIn s.throughput.orders range.2 + _ ≤ _
    linarith

/-- A run ends, and what it leaves in the controller weighs no more. -/
theorem ended (h : Overshot config T s) (hn : s.takes[n]? = some run)
    {throughput : ThroughputController} (hacc : throughput.Accounted)
    (hranges : throughput.ranges = s.throughput.ranges)
    (husd : ∀ record ∈ throughput.orders, record.usdValue = config.usdValue record.orderId)
    (hlocked : ∀ range ∈ config.ranges.zipIdx, lockedIn throughput.orders range.2 ≤
      lockedIn s.throughput.orders range.2 + load config range run) :
    Overshot config T { s.ended n with throughput } where
  accounted := hacc
  ranges := hranges.trans h.ranges
  usdValue := husd
  nodup := h.nodup.sublist takeChains_ended
  takeChains chain hm := h.takeChains chain (takeChains_ended.subset hm)
  fits range hr ha other hm := h.fits range hr ha other (List.mem_of_mem_eraseIdx hm)
  bounded range hr ha := by
    have hbound := h.bounded range hr ha
    have hle := hlocked range hr
    rw [inFlight_eq hn] at hbound
    change lockedIn throughput.orders range.2 + inFlight config range (s.ended n) ≤ _
    linarith

theorem lockedIn_nonneg (h : Overshot config T s) (i : ℕ) :
    0 ≤ lockedIn s.throughput.orders i := by
  apply List.sum_nonneg
  intro value hvalue
  obtain ⟨record, hm, rfl⟩ := List.mem_map.mp hvalue
  rw [h.usdValue record (List.mem_filter.mp hm).1]
  exact TokenMarket.getUsdValue_nonneg

/-- The other runs are each within the cap. -/
theorem others_le (h : Overshot config T s) (hn : s.takes[n]? = some run)
    (hr : range ∈ config.ranges.zipIdx) (ha : range.1.isActualMetric = true) :
    inFlight config range (s.ended n) + range.1.maxFulfillThroughputUSD ≤
      T.card * range.1.maxFulfillThroughputUSD := by
  have hlt : n < s.takes.length := (List.getElem?_eq_some_iff.mp hn).1
  have hsum := List.sum_le_card_nsmul ((s.ended n).takes.map (load config range))
    range.1.maxFulfillThroughputUSD fun value hvalue => by
      obtain ⟨other, hm, rfl⟩ := List.mem_map.mp hvalue
      exact h.fits range hr ha other (List.mem_of_mem_eraseIdx hm)
  have hlength : (s.ended n).takes.length + 1 = s.takes.length := by
    rw [Fleet.ended, List.length_eraseIdx_of_lt hlt]
    omega
  have hcard : (((s.ended n).takes.length + 1 : ℕ) : ℚ) ≤ T.card := by
    rw [hlength]
    exact_mod_cast h.length_le
  have hcap := cap_nonneg ha
  rw [List.length_map, nsmul_eq_mul] at hsum
  push_cast at hcard
  unfold inFlight
  nlinarith

/-- The order of a run fits beside what is recorded, and every other one within the cap. -/
theorem pass (h : Overshot config T s) (hn : s.takes[n]? = some run)
    (ht : s.throughput.isThrottled (config.blockConfirmations run.order)
      (config.usdValue run.order.orderId) = false) :
    Overshot config T (s.moved n run .notThrottled) := by
  have hpass : ∀ range, config.rangeOf (config.blockConfirmations run.order) = some range →
      lockedIn s.throughput.orders range.2 + config.usdValue run.order.orderId ≤
        range.1.maxFulfillThroughputUSD := by
    intro range hrange
    have hget : s.throughput.getMetric (config.blockConfirmations run.order) = some range := by
      rw [getMetric, h.ranges]
      exact hrange
    obtain ⟨metric, hm, -⟩ := exists_metric hget
    rw [← h.accounted.currentlyLocked _ _ hm]
    exact le_of_not_isThrottled ht hget hm
  have hload : ∀ range, load config range { run with stage := .notThrottled } =
      if config.rangeOf (config.blockConfirmations run.order) = some range then
        config.usdValue run.order.orderId
      else 0 := by
    intro range
    simp [load, TakeStage.pastThroughput]
  refine ⟨h.accounted, h.ranges, h.usdValue, takeChains_moved hn ▸ h.nodup,
    takeChains_moved hn ▸ h.takeChains, fun range hr ha other hm => ?_, fun range hr ha => ?_⟩
  · rcases List.mem_or_eq_of_mem_set hm with hm | rfl
    · exact h.fits range hr ha other hm
    · rw [hload]
      split
      · rename_i hrange
        have hlocked := h.lockedIn_nonneg range.2
        linarith [hpass range hrange]
      · exact cap_nonneg ha
  · rw [inFlight_moved hn, hload]
    change lockedIn s.throughput.orders range.2 + _ ≤ _
    split
    · rename_i hrange
      linarith [hpass range hrange, h.others_le hn hr ha]
    · have hbound := h.bounded range hr ha
      rw [inFlight_eq hn] at hbound
      have hload : 0 ≤ load config range run := load_nonneg
      linarith

/-- A record is removed from the range, or none. -/
theorem lockedIn_filter_le (h : Overshot config T s) (orderId : OrderId) (i : ℕ) :
    lockedIn (s.throughput.orders.filter (·.orderId ≠ orderId)) i ≤
      lockedIn s.throughput.orders i := by
  refine List.Sublist.sum_le_sum ((List.filter_sublist.filter _).map _) fun value hvalue => ?_
  obtain ⟨record, hm, rfl⟩ := List.mem_map.mp hvalue
  rw [h.usdValue record (List.mem_filter.mp hm).1]
  exact TokenMarket.getUsdValue_nonneg

/-- The order of a run is recorded. -/
theorem addOrder (h : Overshot config T s) (hn : s.takes[n]? = some run)
    (hs : run.stage.pastThroughput = true) {throughput : ThroughputController}
    (hadd : s.throughput.addOrder s.now run.order.orderId (config.blockConfirmations run.order)
      (config.usdValue run.order.orderId) = .ok throughput) :
    Overshot config T { s.ended n with throughput, tvlBudget := s.tvlBudget.flushCache } := by
  suffices hended : Overshot config T { s.ended n with throughput } from hended.frame rfl rfl
  cases hm : s.throughput.getMetric (config.blockConfirmations run.order) with
  | none =>
    have hsame : s.throughput.addOrder s.now run.order.orderId
        (config.blockConfirmations run.order) (config.usdValue run.order.orderId) =
          .ok s.throughput := by
      simp [ThroughputController.addOrder, hm]
    obtain rfl := Except.ok.inj (hadd.symm.trans hsame)
    refine h.ended hn h.accounted rfl h.usdValue fun range _ => ?_
    exact le_add_of_nonneg_right load_nonneg
  | some active =>
    obtain ⟨threshold, i⟩ := active
    obtain ⟨c, hc, hu⟩ := h.accounted.addOrder_updated s.now run.order.orderId
      (config.usdValue run.order.orderId) hm rfl
    obtain rfl := Except.ok.inj (hadd.symm.trans hc)
    refine h.ended hn hu.accounted hu.ranges (fun record hrecord => ?_) fun range hr => ?_
    · rcases hu.mem_added.mp hrecord with ⟨hrecord, -⟩ | rfl
      · exact h.usdValue record hrecord
      · rfl
    · rw [hu.orders, lockedIn_concat]
      have hle := h.lockedIn_filter_le run.order.orderId range.2
      have hworth : (if i = range.2 then config.usdValue run.order.orderId else 0) ≤
          load config range run := by
        split
        · rename_i hi
          have hrange : config.rangeOf (config.blockConfirmations run.order) = some range := by
            have hget : config.rangeOf (config.blockConfirmations run.order) =
                some (threshold, i) := by
              rw [← hm, getMetric, h.ranges]
              rfl
            have hthreshold := (getRange_eq_some hget).1
            rw [hget]
            obtain ⟨threshold', j⟩ := range
            obtain rfl : i = j := hi
            have hthreshold' := List.mk_mem_zipIdx_iff_getElem?.mp hr
            rw [Option.some.inj (hthreshold.symm.trans hthreshold')]
          rw [load, if_pos ⟨hs, hrange⟩]
        · exact load_nonneg
      linarith

/-- An order is taken on a take chain that no run works for. -/
theorem take {order : CreatedOrder} (h : Overshot config T s) (ha : s.Accepts config order)
    (ht : order.takeChain ∈ T) :
    Overshot config T { s with takes := s.takes ++ [⟨order, .validating⟩] } := by
  have hchains : Fleet.takeChains { s with takes := s.takes ++ [⟨order, .validating⟩] } =
      s.takeChains ++ [order.takeChain] := by
    simp [Fleet.takeChains]
  have hload : ∀ range, load config range ⟨order, .validating⟩ = 0 := fun range =>
    @load_eq_zero config range ⟨order, .validating⟩ .validating rfl
  refine ⟨h.accounted, h.ranges, h.usdValue, ?_, ?_, ?_, ?_⟩
  · rw [hchains, List.nodup_append]
    refine ⟨h.nodup, List.nodup_singleton _, fun chain hm other hm' => ?_⟩
    obtain rfl := List.mem_singleton.mp hm'
    obtain ⟨run, hrun, rfl⟩ := List.mem_map.mp hm
    exact ha.1 run hrun
  · rw [hchains]
    intro chain hm
    rcases List.mem_append.mp hm with hm | hm
    · exact h.takeChains chain hm
    · obtain rfl := List.mem_singleton.mp hm
      exact ht
  · intro range hr hactive run hm
    rcases List.mem_append.mp hm with hm | hm
    · exact h.fits range hr hactive run hm
    · obtain rfl := List.mem_singleton.mp hm
      rw [hload]
      exact cap_nonneg hactive
  · intro range hr hactive
    have hbound := h.bounded range hr hactive
    simpa [inFlight, hload] using hbound

/-- A due timer may remove a record. -/
theorem onTimer (h : Overshot config T s) {k : ℕ} {throughput : ThroughputController}
    (ht : s.throughput.onTimer s.now k = some (.ok throughput)) :
    Overshot config T { s with throughput } := by
  obtain ⟨timer, c, -, -, hc, hu⟩ := h.accounted.onTimer_updated ht
  obtain rfl := Except.ok.inj hc
  refine ⟨hu.accounted, hu.ranges.trans h.ranges, fun record hrecord => ?_, h.nodup, h.takeChains,
    h.fits, fun range hr hactive => ?_⟩
  · exact h.usdValue record (hu.mem_removed.mp hrecord).1
  · have hbound := h.bounded range hr hactive
    have hle := h.lockedIn_filter_le timer.orderId range.2
    rw [← hu.orders] at hle
    change lockedIn throughput.orders range.2 + inFlight config range s ≤ _
    linarith

/-- Only a run whose transaction is confirmed records its order. -/
theorem fulfilled_of_addOrder (hn : s.takes[n]? = some run)
    (hs : s.step config (.run n .addOrder) = some s') : run.stage = .fulfilled := by
  simp only [Fleet.step, hn, Option.bind_some, takeStep] at hs
  split at hs
  · assumption
  · cases hs

theorem step (h : Overshot config T s) {i : FleetInput}
    (ht : ∀ order, i = .take order → order.takeChain ∈ T) (hs : s.step config i = some s') :
    Overshot config T s' := by
  have hzero : ∀ {run : TakeRun} {stage : TakeStage}, stage.pastThroughput = false →
      ∀ range, load config range { run with stage } ≤ load config range run := by
    intro run stage hp range
    rw [load_eq_zero hp]
    exact load_nonneg
  cases change_of_step hs with
  | take order ha => exact h.take ha (ht order rfl)
  | awaitTVL n run calculation tvlBudget hn hb hg =>
    have hframe : Overshot config T { s with tvlBudget } := h.frame rfl rfl
    exact hframe.moved hn (hzero rfl)
  | skipBudget n run hn hb => exact h.moved hn (hzero rfl)
  | withinBudget n run calculation tvl hn => exact h.moved hn (hzero rfl)
  | notThrottled n run hn hst hthrottled => exact h.pass hn hthrottled
  | advance n run input stage hn hp hp' =>
    exact h.moved hn fun _ => (load_congr (hp'.trans hp.symm)).le
  | send n run hn hp =>
    have hbroadcast : TakeStage.broadcast.pastThroughput = run.stage.pastThroughput := hp.symm
    have hmoved : Overshot config T (s.moved n run .broadcast) :=
      h.moved hn fun _ => (load_congr hbroadcast).le
    exact hmoved.frame rfl rfl
  | addOrder n run throughput hn hadd =>
    have hstage : run.stage = .fulfilled := fulfilled_of_addOrder hn hs
    exact h.addOrder hn (by rw [hstage]; rfl) hadd
  | leave n run input hn =>
    exact h.ended hn h.accounted rfl h.usdValue fun _ _ => le_add_of_nonneg_right load_nonneg
  | throughputTimer k throughput hfired => exact h.onTimer hfired
  | tick | calculate | flushCache | fulfilled | dropped | claimed | spent => exact h.frame rfl rfl

end Overshot

/-- In every run, what is recorded in an active range and what is in flight there is together worth
at most the cap for each of the take chains. -/
theorem overshot {chain : GiveChainState} {t : List FleetInput}
    (h : (DlnTaker.fleet config chain).Run t s)
    (ht : ∀ order, .take order ∈ t → order.takeChain ∈ T) : Overshot config T s := by
  refine h.invariant_of_inputs (A := fun i => ∀ order, i = .take order → order.takeChain ∈ T)
    (fun i hi order heq => ht order (heq ▸ hi)) .initial fun s i s' hi hp hs => hp.step hi hs

end Fleet

end DlnTaker
