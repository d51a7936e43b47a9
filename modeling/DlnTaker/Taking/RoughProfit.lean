import Mathlib.Tactic.Ring
import DlnTaker.Taking.Fulfilment

/-! # What the rough check leaves to the taker

The give amount is brought to the decimals of the reserve token and reduced by
the margin. Both divisions truncate and so only lower the amount that the take
amount is compared with.
-/

namespace DlnTaker

open Dialogue Taking

section Arithmetic

variable {decimalsIn decimalsOut amountIn : ℕ} {amount margin : ℤ} {take : ℕ}

/-- Alignment rounds down: the aligned amount is worth at most the given one. -/
theorem alignDecimals_mul_le :
    Executor.alignDecimals decimalsIn decimalsOut amountIn * 10 ^ decimalsIn ≤
      amountIn * 10 ^ decimalsOut := by
  unfold Executor.alignDecimals
  split
  · rename_i heq
    rw [heq]
  · split
    · rename_i hlt
      obtain ⟨delta, rfl⟩ := Nat.exists_eq_add_of_lt hlt
      have hdelta : decimalsOut + delta + 1 - decimalsOut = delta + 1 := by omega
      have hpow : 10 ^ (decimalsOut + delta + 1) = 10 ^ (delta + 1) * 10 ^ decimalsOut := by ring
      rw [hdelta, hpow, ← mul_assoc]
      exact Nat.mul_le_mul_right _ (Nat.div_mul_le_self _ _)
    · rename_i hne hle
      obtain ⟨delta, rfl⟩ := Nat.exists_eq_add_of_le (not_lt.mp hle)
      rw [Nat.add_sub_cancel_left, mul_assoc, ← pow_add, add_comm delta]

/-- A positive amount without the margin has been rounded down. -/
theorem mul_le_of_le_subtractMargin (ht : 0 < take)
    (h : (take : ℤ) ≤ CreatedOrder.subtractMargin amount margin) :
    (take : ℤ) * 10000 ≤ amount * (10000 - margin) := by
  unfold CreatedOrder.subtractMargin at h
  rcases lt_or_ge (amount * (10000 - margin)) 0 with hneg | hnonneg
  · have hdiv := Int.tdiv_nonneg (Int.neg_nonneg_of_nonpos hneg.le) (by norm_num : (0 : ℤ) ≤ 10000)
    rw [Int.neg_tdiv] at hdiv
    omega
  · rw [Int.tdiv_eq_ediv_of_nonneg hnonneg] at h
    omega

/-- What is taken is worth at most what is given less the margin. -/
theorem take_le_of_le_subtractMargin (ht : 0 < take)
    (h : (take : ℤ) ≤ CreatedOrder.subtractMargin
      (Executor.alignDecimals decimalsIn decimalsOut amountIn) margin) :
    (take : ℤ) * 10 ^ decimalsIn * 10000 ≤
      amountIn * 10 ^ decimalsOut * (10000 - margin) := by
  have hmargin := mul_le_of_le_subtractMargin ht h
  have halign : (Executor.alignDecimals decimalsIn decimalsOut amountIn : ℤ) * 10 ^ decimalsIn ≤
      amountIn * 10 ^ decimalsOut := by exact_mod_cast alignDecimals_mul_le
  have hfactor : 0 ≤ 10000 - margin := by
    by_contra hneg
    have : (Executor.alignDecimals decimalsIn decimalsOut amountIn : ℤ) * (10000 - margin) ≤ 0 :=
      Int.mul_nonpos_of_nonneg_of_nonpos (Int.natCast_nonneg _) (not_le.mp hneg).le
    omega
  calc (take : ℤ) * 10 ^ decimalsIn * 10000
      = take * 10000 * 10 ^ decimalsIn := by ring
    _ ≤ Executor.alignDecimals decimalsIn decimalsOut amountIn * (10000 - margin) *
          10 ^ decimalsIn := mul_le_mul_of_nonneg_right hmargin (by positivity)
    _ = Executor.alignDecimals decimalsIn decimalsOut amountIn * 10 ^ decimalsIn *
          (10000 - margin) := by ring
    _ ≤ amountIn * 10 ^ decimalsOut * (10000 - margin) :=
        mul_le_mul_of_nonneg_right halign hfactor

end Arithmetic

section Rough

variable {executor : Executor} {order : CreatedOrder} {route : Route} {log : Talk}
  {payload payload' : OrderEvaluationPayload} {margin : ℤ}

theorem toBigInt_intCast : CreatedOrder.toBigInt margin = .ok margin := by
  simp [CreatedOrder.toBigInt, Rat.isInt]

theorem getGiveAmountInReserveToken_done {amount : ℕ} (hroute : order.route executor = .ok route)
    (h : Reaches (order.getGiveAmountInReserveToken executor) log (.done amount)) :
    ∃ decimalsIn decimalsOut : ℕ, log =
      [⟨.lookup (.getDecimals order.orderData.give.chainId order.orderData.give.tokenAddress),
          .ok decimalsIn⟩,
        ⟨.lookup (.getDecimals order.orderData.take.chainId route.reserveDstToken),
          .ok decimalsOut⟩] ∧
      amount = Executor.alignDecimals decimalsIn decimalsOut order.orderData.give.amount := by
  unfold CreatedOrder.getGiveAmountInReserveToken Executor.resyncDecimals at h
  obtain ⟨_, _, route', rfl, hc, h₁⟩ := h.bind_done
  obtain ⟨rfl, hroute'⟩ := reaches_call_done.mp hc
  obtain rfl := Except.ok.inj (hroute.symm.trans hroute')
  obtain ⟨_, _, decimalsIn, rfl, hin, h₂⟩ := h₁.bind_done
  obtain rfl := reaches_lookup_done.mp hin
  obtain ⟨_, _, decimalsOut, rfl, hout, h₃⟩ := h₂.bind_done
  obtain rfl := reaches_lookup_done.mp hout
  obtain ⟨rfl, heq⟩ := reaches_done.mp h₃
  exact ⟨decimalsIn, decimalsOut, rfl, Dialogue.done.inj heq⟩

/-- Without subsidies the rough amount is the aligned give amount less the margin. -/
theorem RoughAmount.eq_subtractMargin {amount : ℤ} (h : RoughAmount executor order log amount)
    (hroute : order.route executor = .ok route)
    (hsubsidy : (executor.allowSubsidy && executor.hasSubsidizationRules) = false)
    (hmargin : order.requiredMargin executor = margin) :
    ∃ decimalsIn decimalsOut : ℕ, log =
      [⟨.lookup (.getDecimals order.orderData.give.chainId order.orderData.give.tokenAddress),
          .ok decimalsIn⟩,
        ⟨.lookup (.getDecimals order.orderData.take.chainId route.reserveDstToken),
          .ok decimalsOut⟩] ∧
      amount = CreatedOrder.subtractMargin
        (Executor.alignDecimals decimalsIn decimalsOut order.orderData.give.amount) margin := by
  unfold RoughAmount CreatedOrder.getMaxProfitableReserveAmountWithoutOperatingExpenses at h
  rw [hmargin, toBigInt_intCast] at h
  obtain ⟨_, _, aligned, rfl, hgive, h₁⟩ := h.bind_done
  obtain ⟨decimalsIn, decimalsOut, rfl, rfl⟩ := getGiveAmountInReserveToken_done hroute hgive
  obtain ⟨_, _, margin', rfl, hc, h₂⟩ := h₁.bind_done
  obtain ⟨rfl, hm⟩ := reaches_call_done.mp hc
  obtain rfl := Except.ok.inj hm
  simp only [hsubsidy, Bool.false_eq_true, if_false] at h₂
  obtain ⟨rfl, heq⟩ := reaches_done.mp h₂
  exact ⟨decimalsIn, decimalsOut, rfl, Dialogue.done.inj heq⟩

/-- An order that passes the rough check without a swap or a subsidy is not taken at a loss: what
is taken is worth at most what is given less the margin, whatever the decimals are. -/
theorem rough_check_without_loss {decimals : ChainId → Address → ℕ}
    (h : Reaches (OrderValidator.checkRoughProfitability executor order payload) log
      (.done payload'))
    (hroute : order.route executor = .ok route) (hswap : route.requiresSwap = false)
    (hsubsidy : (executor.allowSubsidy && executor.hasSubsidizationRules) = false)
    (hmargin : order.requiredMargin executor = margin) (ht : 0 < order.orderData.take.amount)
    (hd : ∀ (chain : ChainId) (token : Address) (found : ℕ),
      ⟨.lookup (.getDecimals chain token), .ok found⟩ ∈ log → found = decimals chain token) :
    (order.orderData.take.amount : ℤ) *
        10 ^ decimals order.orderData.give.chainId order.orderData.give.tokenAddress * 10000 ≤
      order.orderData.give.amount *
        10 ^ decimals order.orderData.take.chainId route.reserveDstToken * (10000 - margin) := by
  simp only [OrderValidator.checkRoughProfitability] at h
  obtain ⟨rough, _, amount, rfl, hrough, h₁⟩ := h.bind_done
  obtain ⟨_, _, route', rfl, hc, h₂⟩ := h₁.bind_done
  obtain ⟨rfl, hroute'⟩ := reaches_call_done.mp hc
  obtain rfl := Except.ok.inj (hroute.symm.trans hroute')
  obtain ⟨decimalsIn, decimalsOut, rfl, rfl⟩ :=
    RoughAmount.eq_subtractMargin hrough hroute hsubsidy hmargin
  rw [if_neg (by simp [hswap])] at h₂
  split at h₂
  · exact absurd h₂ (fails_stop _ _)
  · rename_i hle
    have hin := hd _ _ decimalsIn (List.mem_append_left _ List.mem_cons_self)
    have hout := hd _ _ decimalsOut
      (List.mem_append_left _ (List.mem_cons_of_mem _ List.mem_cons_self))
    rw [← hin, ← hout]
    exact take_le_of_le_subtractMargin ht (not_lt.mp hle)

/-- An order that gives 100 and asks for 99 passes with a margin of 4 basis points. -/
theorem rough_check_without_loss_sample :
    ∃ log, Reaches (OrderValidator.checkRoughProfitability Sample.daemon Sample.takenOrder .empty)
      log (.done .empty) ∧
      (Sample.takenOrder.orderData.take.amount : ℤ) * 10 ^ 0 * 10000 ≤
        Sample.takenOrder.orderData.give.amount * 10 ^ 0 * (10000 - (4 : ℤ)) := by
  have hr : Reaches (OrderValidator.checkRoughProfitability Sample.daemon Sample.takenOrder .empty)
      [⟨.lookup (.getDecimals 1 [10]), .ok (0 : ℕ)⟩, ⟨.lookup (.getDecimals 2 [20]), .ok (0 : ℕ)⟩]
      (.done .empty) := .answer _ _ (.answer _ _ (.refl _))
  have hroute : Sample.takenOrder.route Sample.daemon = .ok ⟨[20], false⟩ := by decide +kernel
  have hmargin : Sample.takenOrder.requiredMargin Sample.daemon = (4 : ℤ) := by decide +kernel
  let decimals : ChainId → Address → ℕ := fun _ _ => 0
  have hd : ∀ (chain : ChainId) (token : Address) (found : ℕ),
      (⟨.lookup (.getDecimals chain token), .ok found⟩ : Exchange Answer) ∈
        [⟨.lookup (.getDecimals 1 [10]), .ok (0 : ℕ)⟩,
          ⟨.lookup (.getDecimals 2 [20]), .ok (0 : ℕ)⟩] → found = decimals chain token := by
    intro chain token found hm
    rcases List.mem_cons.mp hm with heq | hm
    · cases heq
      rfl
    · cases List.mem_singleton.mp hm
      rfl
  have hsubsidy : (Sample.daemon.allowSubsidy && Sample.daemon.hasSubsidizationRules) = false := rfl
  have ht : 0 < Sample.takenOrder.orderData.take.amount := by decide
  have hle := rough_check_without_loss hr hroute rfl hsubsidy hmargin ht hd
  exact ⟨_, hr, hle⟩

end Rough

end DlnTaker
