import Mathlib.Order.Bounds.Basic
import DlnTaker.Taking.Estimation

/-! # The slippage of the swap upon fulfilment

The swap connector is asked for the largest slippage, between five and four
hundred basis points, that keeps the outcome of the swap at the take amount.
Where even five are too many, five are asked for.
-/

namespace DlnTaker

open Dialogue Taking CreatedOrderTaker

/-- Truncated and exact quotients differ below zero only, and so they have the same positive
bounds. -/
theorem le_tdiv_iff {s a b : ℤ} (hs : 0 < s) (ha : 0 < a) : s ≤ b.tdiv a ↔ s * a ≤ b := by
  rcases le_or_gt 0 b with hb | hb
  · rw [Int.tdiv_eq_ediv_of_nonneg hb]
    exact Int.le_ediv_iff_mul_le ha
  · have hquotient : b.tdiv a ≤ 0 := by
      rw [← neg_neg b, Int.neg_tdiv, Left.neg_nonpos_iff]
      exact Int.tdiv_nonneg (by omega) ha.le
    have hproduct : 0 < s * a := Int.mul_pos hs ha
    constructor <;> intro h <;> omega

namespace OrderEstimator

variable {executor : Executor} {order : CreatedOrder} {raw : ExpectedTakeAmount}
  {payload : OrderEvaluationPayload} {evaluatedTakeAmount takeAmount s : ℤ}

/-- The slippages that may be asked for and leave at least the take amount. -/
def SafeSlippages (evaluatedTakeAmount takeAmount : ℤ) : Set ℤ :=
  {s | 5 ≤ s ∧ s ≤ 400 ∧ takeAmount * 10000 ≤ evaluatedTakeAmount * (10000 - s)}

theorem mem_safeSlippages (hE : 0 < evaluatedTakeAmount) :
    s ∈ SafeSlippages evaluatedTakeAmount takeAmount ↔ 5 ≤ s ∧ s ≤ 400 ∧
      s ≤ ((evaluatedTakeAmount - takeAmount) * 10000).tdiv evaluatedTakeAmount := by
  refine and_congr_right fun hs => and_congr_right fun _ => ?_
  rw [le_tdiv_iff (by omega) hE]
  constructor <;> intro h <;> linarith

/-- The floor is computed where the quotient is below it, and a safe slippage otherwise. -/
theorem getPreFulfillSlippage_cases (hE : 0 < evaluatedTakeAmount) :
    ∃ s, getPreFulfillSlippage evaluatedTakeAmount takeAmount = .ok s ∧
      (SafeSlippages evaluatedTakeAmount takeAmount = ∅ ∧ s = 5 ∨
        IsGreatest (SafeSlippages evaluatedTakeAmount takeAmount) s) := by
  unfold getPreFulfillSlippage
  rw [if_neg hE.ne']
  dsimp only
  split
  · rename_i hfloor
    refine ⟨_, rfl, .inl ⟨Set.eq_empty_of_forall_notMem fun s hs => ?_, rfl⟩⟩
    have := (mem_safeSlippages hE).mp hs
    omega
  · split
    · rename_i hcap
      refine ⟨_, rfl, .inr ⟨(mem_safeSlippages hE).mpr ⟨by norm_num, le_rfl, hcap.le⟩, ?_⟩⟩
      exact fun s hs => hs.2.1
    · rename_i hfloor hcap
      refine ⟨_, rfl, .inr ⟨(mem_safeSlippages hE).mpr ⟨?_, ?_, le_rfl⟩, ?_⟩⟩
      · exact not_lt.mp hfloor
      · exact not_lt.mp hcap
      · exact fun s hs => ((mem_safeSlippages hE).mp hs).2.2

/-- The slippage is the greatest safe one if there is any, and the floor otherwise; above the floor
the swap leaves at least the take amount. -/
theorem getPreFulfillSlippage_isGreatest (hE : 0 < evaluatedTakeAmount) :
    ∃ s, getPreFulfillSlippage evaluatedTakeAmount takeAmount = .ok s ∧
      ((SafeSlippages evaluatedTakeAmount takeAmount).Nonempty →
        IsGreatest (SafeSlippages evaluatedTakeAmount takeAmount) s) ∧
      (¬ (SafeSlippages evaluatedTakeAmount takeAmount).Nonempty → s = 5) ∧
      (s ≠ 5 → takeAmount * 10000 ≤ evaluatedTakeAmount * (10000 - s)) := by
  obtain ⟨s, hs, ⟨hempty, rfl⟩ | hgreatest⟩ := getPreFulfillSlippage_cases hE
  · refine ⟨5, hs, fun hne => ?_, fun _ => rfl, fun hne => absurd rfl hne⟩
    rw [hempty] at hne
    exact absurd hne Set.not_nonempty_empty
  · refine ⟨s, hs, fun _ => hgreatest, fun hnone => ?_, fun _ => hgreatest.1.2.2⟩
    exact absurd ⟨s, hgreatest.1⟩ hnone

theorem getPreFulfillSlippage_isGreatest_thousand :
    ∃ s, getPreFulfillSlippage 1000 990 = .ok s ∧
      ((SafeSlippages 1000 990).Nonempty → IsGreatest (SafeSlippages 1000 990) s) ∧
      (¬ (SafeSlippages 1000 990).Nonempty → s = 5) ∧
      (s ≠ 5 → 990 * 10000 ≤ 1000 * (10000 - s)) :=
  getPreFulfillSlippage_isGreatest (by norm_num)

/-! ### The swap that is asked for -/

/-- A swap is asked for with the slippage of this estimate. -/
def SlippageOf (order : CreatedOrder) (raw : ExpectedTakeAmount) (query : Request) : Prop :=
  ∀ request, query = .lookup (.getSwap request) →
    getPreFulfillSlippage raw.profitableTakeAmount order.orderData.take.amount =
      .ok request.slippageBps

theorem slippageOf_of_not_decides {query : Request} (h : ¬ query.Decides) :
    SlippageOf order raw query := by
  rintro request rfl
  exact absurd trivial h

theorem within_getPreFulfillSwap : Within (SlippageOf order raw) (fun _ => True)
    (getPreFulfillSwap executor order raw payload) := by
  have hother : ∀ {α : Type} {p : Taking α}, Undecided p →
      Within (SlippageOf order raw) (fun _ => True) p := fun hp =>
    hp.mono (fun _ => slippageOf_of_not_decides) fun _ => id
  refine (hother undecided_call).bind fun _ slippageBps hs => ?_
  have hslippage := (reaches_call_done.mp hs).2
  refine .seq (hother undecided_getRouteHint) fun routeHint => ?_
  refine .seq (hother undecided_call) fun destReceiver => ?_
  refine within_ask ?_ fun
    | .ok _ => within_done
    | .error _ => within_stop trivial
  rintro request ⟨⟩
  exact hslippage

theorem undecided_setPayloadEntry {α : Type} {key : String} {entry : Option α} :
    Undecided (setPayloadEntry key entry payload) := .seq undecided_assert fun _ => within_done

theorem undecided_assertReserveToken : Undecided (assertReserveToken executor order raw) :=
  .seq undecided_call fun _ => .seq undecided_call fun _ => .seq undecided_call fun _ =>
    .seq undecided_assert fun _ => within_done

theorem within_completeEstimation {route : Route} : Within (SlippageOf order raw) (fun _ => True)
    (completeEstimation executor order raw route payload) := by
  unfold completeEstimation
  split
  · refine .seq within_getPreFulfillSwap fun swap => .seq ?_ fun _ => within_done
    exact undecided_setPayloadEntry.mono (fun _ => slippageOf_of_not_decides) fun _ => id
  · exact within_done

/-- No swap is asked for before there is an estimate. -/
theorem within_getRawOrderEstimation :
    Within (fun query => ∀ request, query ≠ .lookup (.getSwap request)) (fun _ => True)
      (getRawOrderEstimation executor order payload) := by
  refine Within.seq ?_ fun context => .seq (within_ask ?_ ?_) fun _ => within_done
  · refine undecided_getExpectedTakeAmountContext.mono ?_ fun _ => id
    rintro _ hquery request rfl
    exact hquery trivial
  · exact fun request => by simp
  · exact fun
      | .ok _ => within_done
      | .error _ => within_stop trivial

/-- Every swap of an estimation is asked for with the greatest safe slippage for its estimate, or
with the floor. -/
theorem within_getEstimation : Within
    (fun query => ∀ request, query = .lookup (.getSwap request) →
      ∃ before raw payload', Reaches (getRawOrderEstimation executor order payload) before
        (.done (raw, payload')) ∧ (0 < raw.profitableTakeAmount → request.slippageBps = 5 ∨
          IsGreatest (SafeSlippages raw.profitableTakeAmount order.orderData.take.amount)
            request.slippageBps))
    (fun _ => True) (getEstimation executor order payload) := by
  refine Within.bind ?_ fun before ⟨raw, payload'⟩ hraw => ?_
  · refine within_getRawOrderEstimation.mono ?_ fun _ => id
    rintro _ hquery request rfl
    exact absurd rfl (hquery request)
  · refine .seq ?_ fun route => within_completeEstimation.mono ?_ fun _ => id
    · refine undecided_assertReserveToken.mono ?_ fun _ => id
      rintro _ hquery request rfl
      exact absurd trivial hquery
    · rintro _ hquery request rfl
      refine ⟨before, raw, payload', hraw, fun hE => ?_⟩
      obtain ⟨s, hs, hcases⟩ := getPreFulfillSlippage_cases hE
      obtain rfl := Except.ok.inj (hs.symm.trans (hquery request rfl))
      exact hcases.imp And.right id

end OrderEstimator

end DlnTaker
