import DlnTaker.Library.Exposure
import DlnTaker.Limits.FleetStep
import DlnTaker.Limits.TVLCalculation

/-! # The TVL budget of a give chain

Nothing is reserved between the check of the budget and the fulfilment, so an
order that has passed the check is exposed until it is fulfilled. The budget
holds in the runs in which every check that lets an order pass finds no other
order exposed, and a TVL that is still true.
-/

namespace DlnTaker

open Exposure

def Calculation.result (calculation : Calculation) : Option ℚ :=
  match calculation.stage with
  | .resolved tvl => some tvl
  | _ => none

namespace Fleet

variable {config : FleetConfig} {s s' : Fleet} {orderId : OrderId}

/-- The give chain holds at most what the budget allows. -/
def WithinBudget (config : FleetConfig) (s : Fleet) : Prop :=
  s.chain.tvl config.toTVLBudgetConfig ≤ config.budget

/-- The order may be fulfilled without a further check of the budget. -/
def Exposed (s : Fleet) (orderId : OrderId) : Prop :=
  (s.SomeRun (fun run => run.order.orderId = orderId ∧ run.stage.pastBudget = true) ∨
    orderId ∈ s.submitted) ∧ orderId ∉ s.chain.fulfilled

/-- The orders of the runs in progress and those submitted to their take chains. -/
def openOrderIds (s : Fleet) : List OrderId := s.takes.map (·.order.orderId) ++ s.submitted

/-- The calculation whose result a run awaits. -/
def awaited (s : Fleet) (run : TakeRun) : Option Calculation :=
  match run.stage with
  | .awaitingTVL n => s.tvlBudget.calculations[n]?
  | _ => none

/-- An order that passes the check finds no other order exposed and a calculation that no claim
disturbed and no fulfilment has followed, and is not worth more than its rounded value. -/
def ChecksAlone (config : FleetConfig) (s : Fleet) : FleetInput → Prop
  | .run n .compareTVL =>
    ∀ run ∈ s.takes[n]?, ∀ calculation ∈ s.awaited run, ∀ tvl ∈ calculation.result,
      tvl + config.usdValue run.order.orderId ≤ config.budget →
        calculation.countedAt = some s.chain.fulfilled.length ∧
        config.worth run.order.orderId ≤ config.usdValue run.order.orderId ∧
        ∀ orderId ∈ s.openOrderIds, orderId ≠ run.order.orderId → ¬ s.Exposed orderId
  | _ => True

instance : Decidable (s.Exposed orderId) := by
  unfold Exposed; infer_instance

instance (i : FleetInput) : Decidable (ChecksAlone config s i) := by
  unfold ChecksAlone; split <;> infer_instance

/-! ### What a step exposes -/

section Exposed

variable {n : ℕ} {run : TakeRun} {stage : TakeStage}

theorem Exposed.mem_openOrderIds (h : s.Exposed orderId) : orderId ∈ s.openOrderIds := by
  rcases h.1 with ⟨run, hr, rfl, -⟩ | h
  · exact List.mem_append_left _ (List.mem_map.mpr ⟨run, hr, rfl⟩)
  · exact List.mem_append_right _ h

theorem Exposed.of_moved (h : (s.moved n run stage).Exposed orderId) :
    orderId = run.order.orderId ∨ s.Exposed orderId := by
  obtain ⟨h | h, hf⟩ := h
  · rcases h.of_moved with ⟨ho, -⟩ | h
    · exact .inl ho.symm
    · exact .inr ⟨.inl h, hf⟩
  · exact .inr ⟨.inr h, hf⟩

/-- A run that goes on past the check, or stays before it, exposes nothing new. -/
theorem Exposed.of_moved_of_le (hn : s.takes[n]? = some run)
    (hs : stage.pastBudget = true → run.stage.pastBudget = true)
    (h : (s.moved n run stage).Exposed orderId) : s.Exposed orderId := by
  refine ⟨h.1.imp_left fun hr => ?_, h.2⟩
  apply hr.of_moved_of_imp hn
  rintro ⟨ho, hp⟩
  exact ⟨ho, hs hp⟩

theorem Exposed.of_ended (h : (s.ended n).Exposed orderId) : s.Exposed orderId :=
  ⟨h.1.imp_left SomeRun.of_ended, h.2⟩

theorem pastBudget_of_pastThroughput (h : stage.pastThroughput = true) :
    stage.pastBudget = true := by
  cases stage <;> first | rfl | cases h

/-- The order of a run that sends was exposed before. -/
theorem Exposed.of_send (hn : s.takes[n]? = some run) (hp : run.stage.pastThroughput = true)
    {sends : List Send}
    (h : Exposed { s.moved n run .broadcast with
      submitted := s.submitted ++ [run.order.orderId], sends } orderId) :
    s.Exposed orderId := by
  have hpast := pastBudget_of_pastThroughput hp
  obtain ⟨h | h, hf⟩ := h
  · exact .of_moved_of_le hn (fun _ => hpast) ⟨.inl h, hf⟩
  · rcases List.mem_append.mp h with h | h
    · exact ⟨.inr h, hf⟩
    · obtain rfl := List.mem_singleton.mp h
      exact ⟨.inl ⟨run, List.mem_of_getElem? hn, rfl, hpast⟩, hf⟩

end Exposed

/-! ### The invariant -/

/-- No calculation has fallen behind unnoticed, and what is exposed fits beside the TVL. -/
structure Budgeted (config : FleetConfig) (s : Fleet) : Prop where
  covering : s.tvlBudget.Covering config.toTVLBudgetConfig s.chain
  bounded : Bounded config.worth (config.budget - s.chain.tvl config.toTVLBudgetConfig) s.Exposed

namespace Budgeted

variable {n : ℕ} {run : TakeRun}

theorem withinBudget (h : Budgeted config s) : s.WithinBudget config :=
  sub_nonneg.mp h.bounded.nonneg

theorem initial {chain : GiveChainState}
    (h : chain.tvl config.toTVLBudgetConfig ≤ config.budget) :
    Budgeted config (.initial config chain) where
  covering calculation hc := nomatch hc
  bounded := by
    apply bounded_of_forall_not
    · rintro orderId ⟨⟨run, hr, -⟩ | hs, -⟩
      · cases hr
      · cases hs
    · exact sub_nonneg.mpr h

/-- A step that leaves the give chain alone and exposes nothing new. -/
theorem frame (h : Budgeted config s) (hchain : s'.chain = s.chain)
    (hc : s'.tvlBudget.Covering config.toTVLBudgetConfig s.chain)
    (he : ∀ orderId, s'.Exposed orderId → s.Exposed orderId) : Budgeted config s' where
  covering := hchain ▸ hc
  bounded := hchain ▸ h.bounded.mono he le_rfl

/-- A step of the give chain that fulfils no order. -/
theorem follow (h : Budgeted config s) {chain : GiveChainState}
    (hf : s.chain.Follows config.toTVLBudgetConfig chain)
    (hn : chain.fulfilled = s.chain.fulfilled) : Budgeted config { s with chain } where
  covering := Covering.follow h.covering hf
  bounded := by
    apply h.bounded.mono
    · rintro orderId ⟨ho, hnot⟩
      exact ⟨ho, hn ▸ hnot⟩
    · exact sub_le_sub_left (hf.tvl (congrArg List.length hn)) _

/-- A fulfilled order moves from the exposed worth to the TVL. -/
theorem fulfil (h : Budgeted config s) (hs : orderId ∈ s.submitted)
    (hn : orderId ∉ s.chain.fulfilled) :
    Budgeted config { s with chain := s.chain.fulfil orderId } where
  covering := Covering.follow h.covering follows_fulfil
  bounded := by
    apply (h.bounded.settle ⟨.inr hs, hn⟩).mono
    · rintro b ⟨hb, hnot⟩
      have hnot : b ∉ s.chain.fulfilled ++ [orderId] := hnot
      rw [List.mem_append, List.mem_singleton, not_or] at hnot
      exact ⟨⟨hb, hnot.1⟩, hnot.2⟩
    · rw [tvl_fulfil, sub_sub]

/-- An order that passes the check alone, with a TVL that is still true, fits the budget. -/
theorem pass (h : Budgeted config s) (hn : s.takes[n]? = some run) {calculation : ℕ} {tvl : ℚ}
    (hst : run.stage = .awaitingTVL calculation)
    (htvl : s.tvlBudget.calculations[calculation]?.map Calculation.stage = some (.resolved tvl))
    (hle : tvl + config.usdValue run.order.orderId ≤ config.budget)
    (hc : ChecksAlone config s (.run n .compareTVL)) :
    Budgeted config (s.moved n run .withinBudget) := by
  obtain ⟨c, hget, hresolved⟩ := Option.map_eq_some_iff.mp htvl
  have hawaited : s.awaited run = some c := by
    rw [awaited, hst]
    exact hget
  have hresult : tvl ∈ c.result := by simp [Calculation.result, hresolved]
  obtain ⟨hcounted, hround, halone⟩ := hc run hn c hawaited tvl hresult hle
  have htrue : s.chain.tvl config.toTVLBudgetConfig ≤ tvl := by
    have hstage := (h.covering c (List.mem_of_getElem? hget)).stage
    rw [hresolved] at hstage
    exact hstage hcounted
  refine ⟨h.covering, bounded_of_fits (a := run.order.orderId) ∅
    (fun _ => TokenMarket.usdValueOfOrder_nonneg) ?_ ?_⟩
  · intro orderId ho
    rcases ho.of_moved with ho | ho
    · exact .inl ho
    · by_contra hne
      exact halone orderId ho.mem_openOrderIds (fun he => hne (.inl he)) ho
  · rw [Finset.sum_empty, zero_add, le_sub_iff_add_le]
    calc config.worth run.order.orderId + s.chain.tvl config.toTVLBudgetConfig
        ≤ config.usdValue run.order.orderId + tvl := add_le_add hround htrue
      _ = tvl + config.usdValue run.order.orderId := add_comm _ _
      _ ≤ config.budget := hle

theorem step (h : Budgeted config s) (hb : 0 < config.budget) {i : FleetInput}
    (hc : ChecksAlone config s i) (hs : Fleet.step config s i = some s') :
    Budgeted config s' := by
  cases change_of_step hs with
  | tick => exact h.frame rfl h.covering fun _ => id
  | take order =>
    refine h.frame rfl h.covering ?_
    rintro orderId ⟨ho, hf⟩
    exact ⟨ho.imp_left (.of_taken fun ⟨_, hp⟩ => nomatch hp), hf⟩
  | awaitTVL n run calculation tvlBudget hn _ hg =>
    have hcov := Covering.getCurrentTVL h.covering s.now
    rw [hg] at hcov
    exact h.frame rfl hcov fun _ => Exposed.of_moved_of_le (s := { s with tvlBudget }) hn nofun
  | skipBudget n run hn hb' => exact absurd hb hb'
  | withinBudget n run calculation tvl hn hst htvl hle => exact h.pass hn hst htvl hle hc
  | notThrottled n run hn hst _ =>
    exact h.frame rfl h.covering fun _ => .of_moved_of_le hn fun _ => by rw [hst]; rfl
  | advance n run input stage hn hp _ =>
    exact h.frame rfl h.covering fun _ =>
      .of_moved_of_le hn fun _ => pastBudget_of_pastThroughput hp
  | send n run hn hp => exact h.frame rfl h.covering fun _ => .of_send hn hp
  | addOrder n run throughput hn _ =>
    exact h.frame rfl h.covering fun _ => Exposed.of_ended (s := s)
  | leave n run input hn => exact h.frame rfl h.covering fun _ => .of_ended
  | calculate n input tvlBudget hcalc =>
    exact h.frame rfl (Covering.calculate h.covering hcalc) fun _ => id
  | flushCache => exact h.frame rfl h.covering fun _ => id
  | throughputTimer => exact h.frame rfl h.covering fun _ => id
  | fulfilled orderId hsub hnot => exact h.fulfil hsub hnot
  | dropped orderId =>
    refine h.frame rfl h.covering ?_
    rintro b ⟨hb | hb, hf⟩
    · exact ⟨.inl hb, hf⟩
    · exact ⟨.inr (List.mem_filter.mp hb).1, hf⟩
  | claimed orderId hp hg => exact h.follow (follows_claim hg hp) rfl
  | spent account token amount => exact h.follow follows_spend rfl

end Budgeted

/-- With a positive budget and a TVL within it at the start, the TVL stays within the budget in
every run in which each order that passes `checkTVLBudget` is checked alone, with a TVL that is
still true. -/
theorem tvl_within_budget {chain : GiveChainState} {t : List FleetInput}
    (hb : 0 < config.budget) (h0 : chain.tvl config.toTVLBudgetConfig ≤ config.budget)
    (h : ((fleet config chain).guard (ChecksAlone config)).Run t s) : s.WithinBudget config :=
  (h.guarded_invariant (P := Budgeted config) (.initial h0)
    fun _ _ _ hp hc hs => hp.step hb hc hs).withinBudget

/-- The second order is checked with the TVL to which the first one has been added. -/
theorem tvl_within_budget_in_sequence :
    ∃ s, ((fleet (Sample.config 150 0) Sample.emptyChain).guard
      (ChecksAlone (Sample.config 150 0))).Run
      ([.take (Sample.order "0xa"), .run 0 .checkTVLBudget] ++ Sample.calculation 0 ++
        [.run 0 .compareTVL, .run 0 .checkThroughput] ++ Sample.fulfilment 0 "0xa" ++
        [.take (Sample.order "0xb"), .run 0 .checkTVLBudget] ++ Sample.calculation 1 ++
        [.run 0 .compareTVL, .run 0 .checkThroughput] ++ Sample.fulfilment 0 "0xb") s ∧
      s.WithinBudget (Sample.config 150 0) := by
  apply Machine.exists_run_and
  · decide +kernel
  · intro s hr
    exact tvl_within_budget (by decide +kernel) (by decide +kernel) hr

/-- Two orders of different take chains are both compared with the TVL of an empty chain; once
both are fulfilled the budget is exceeded. -/
theorem both_fit_the_same_tvl :
    (Sample.emptyChain.tvl (Sample.config 100 0).toTVLBudgetConfig ≤ (Sample.config 100 0).budget) ∧
    ∃ s, (fleet (Sample.config 100 0) Sample.emptyChain).Run
      (Sample.start ++ Sample.calculation 0 ++
        [.run 0 .compareTVL, .run 1 .compareTVL, .run 0 .checkThroughput,
          .run 1 .checkThroughput] ++
        Sample.fulfilment 0 "0xa" ++ Sample.fulfilment 0 "0xb") s ∧
      ¬ s.WithinBudget (Sample.config 100 0) := by
  refine ⟨by decide +kernel, ?_⟩
  obtain ⟨s, hr, hs⟩ := Machine.exists_run_of_any
    (M := fleet (Sample.config 100 0) Sample.emptyChain)
    (t := Sample.start ++ Sample.calculation 0 ++
      [.run 0 .compareTVL, .run 1 .compareTVL, .run 0 .checkThroughput,
        .run 1 .checkThroughput] ++
      Sample.fulfilment 0 "0xa" ++ Sample.fulfilment 0 "0xb")
    (p := fun s => decide (100 < s.chain.tvl (Sample.config 100 0).toTVLBudgetConfig))
    (by decide +kernel)
  exact ⟨s, hr, not_le.mpr (of_decide_eq_true hs)⟩

end Fleet

end DlnTaker
