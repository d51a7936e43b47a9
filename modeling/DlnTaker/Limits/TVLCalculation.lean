import Mathlib.Algebra.BigOperators.Group.Finset.Piecewise
import Mathlib.Algebra.Order.BigOperators.Group.Finset
import Mathlib.Data.List.Perm.Basic
import DlnTaker.Limits.TVLBudget

/-! # What a TVL calculation has seen

The reads of a calculation are of different moments. `Covers` compares them with
the present state of the give chain, and is kept by every read and by whatever
happens on the chain: a result is too low only after a claim or a fulfilment.
-/

namespace DlnTaker

section Covers

variable {config : TVLBudgetConfig} {chain chain' : GiveChainState}
  {calculation calculation' : Calculation} {values : List (Address × ℚ)}
  {remaining : List Address} {account : Address}

/-- The present values of the tokens read are not above those read. -/
def Dominates (config : TVLBudgetConfig) (chain : GiveChainState) (account : Address)
    (values : List (Address × ℚ)) : Prop :=
  ∀ read ∈ values, config.getAssetValueAtAccount chain account read.1 ≤ read.2

/-- Only a claim during the reads, or a fulfilment after them, lets a calculation fall behind the
give chain. -/
structure Covers (config : TVLBudgetConfig) (chain : GiveChainState)
    (calculation : Calculation) : Prop where
  claims : calculation.claims ≤ chain.claims
  counted : ∀ n, calculation.countedAt = some n → n ≤ chain.fulfilled.length
  stage : match calculation.stage with
    | .account .fulfillAuthority taker values remaining =>
      taker = 0 ∧ (values.map Prod.fst ++ remaining).Perm config.trackedTokens ∧
        (config.hasSeparateUnlockBeneficiary = true ∨ calculation.claims = chain.claims →
          Dominates config chain config.fulfillAuthority values)
    | .account .unlockBeneficiary taker values remaining =>
      config.hasSeparateUnlockBeneficiary = true ∧
        chain.accountWorth config config.fulfillAuthority ≤ taker ∧
        (values.map Prod.fst ++ remaining).Perm config.trackedTokens ∧
        (calculation.claims = chain.claims →
          Dominates config chain config.unlockBeneficiary values)
    | .pending balances =>
      calculation.claims = chain.claims → chain.balancesWorth config ≤ balances
    | .resolved tvl =>
      calculation.countedAt = some chain.fulfilled.length → chain.tvl config ≤ tvl
    | .rejected => True

theorem sum_toFinset_le {α : Type*} [DecidableEq α] {f : α → ℚ} (hf : ∀ a, 0 ≤ f a)
    (l : List α) : ∑ a ∈ l.toFinset, f a ≤ (l.map f).sum := by
  induction l with
  | nil => simp
  | cons a l ih =>
    rw [List.toFinset_cons, List.map_cons, List.sum_cons]
    by_cases ha : a ∈ l.toFinset
    · rw [Finset.insert_eq_self.mpr ha]
      exact ih.trans (le_add_of_nonneg_left (hf a))
    · rw [Finset.sum_insert ha]
      exact add_le_add_right ih (f a)

/-- An account of which all tokens have been read is worth at most what was read. -/
theorem Dominates.accountWorth_le (h : Dominates config chain account values)
    (hp : (values.map Prod.fst).Perm config.trackedTokens) :
    chain.accountWorth config account ≤ (values.map Prod.snd).sum := by
  calc chain.accountWorth config account
      ≤ (config.trackedTokens.map (config.getAssetValueAtAccount chain account)).sum :=
        sum_toFinset_le (fun _ => TokenMarket.usdValueOfAsset_nonneg) _
    _ = (values.map fun read => config.getAssetValueAtAccount chain account read.1).sum := by
        rw [← (hp.map _).sum_eq, List.map_map]
        rfl
    _ ≤ (values.map Prod.snd).sum := List.sum_le_sum h

theorem Dominates.read (h : Dominates config chain account values) (token : Address) :
    Dominates config chain account
      (values ++ [(token, config.getAssetValueAtAccount chain account token)]) := by
  intro read hr
  rcases List.mem_append.mp hr with hr | hr
  · exact h read hr
  · obtain rfl := List.mem_singleton.mp hr
    exact le_rfl

theorem perm_read {token : Address} {value : ℚ} (ht : token ∈ remaining)
    (hp : (values.map Prod.fst ++ remaining).Perm config.trackedTokens) :
    ((values ++ [(token, value)]).map Prod.fst ++ remaining.erase token).Perm
      config.trackedTokens := by
  rw [List.map_append, List.append_assoc]
  exact ((List.perm_cons_erase ht).symm.append_left _).trans hp

theorem Covers.calculateCurrentTVL : Covers config chain (config.calculateCurrentTVL chain) where
  claims := le_rfl
  counted _ h := nomatch h
  stage := ⟨rfl, .refl _, fun _ _ h => nomatch h⟩

theorem Covers.step (h : Covers config chain calculation) {input : CalculationInput}
    (hs : config.calculationStep chain calculation input = some calculation') :
    Covers config chain calculation' := by
  obtain ⟨hclaims, hcounted, hstage⟩ := h
  obtain ⟨stage, claims, countedAt⟩ := calculation
  cases input with
  | balance token =>
    simp only [TVLBudgetConfig.calculationStep] at hs
    split at hs
    · rename_i account taker values remaining
      split at hs
      · rename_i ht
        obtain rfl := Option.some.inj hs
        refine ⟨hclaims, hcounted, ?_⟩
        cases account with
        | fulfillAuthority =>
          obtain ⟨htaker, hp, hd⟩ := hstage
          exact ⟨htaker, perm_read ht hp, fun hc => (hd hc).read token⟩
        | unlockBeneficiary =>
          obtain ⟨hsep, htaker, hp, hd⟩ := hstage
          exact ⟨hsep, htaker, perm_read ht hp, fun hc => (hd hc).read token⟩
      · cases hs
    · cases hs
  | balances =>
    simp only [TVLBudgetConfig.calculationStep] at hs
    split at hs
    · rename_i taker values
      obtain ⟨rfl, hp, hd⟩ := hstage
      rw [List.append_nil] at hp
      split at hs
      · rename_i hsep
        obtain rfl := Option.some.inj hs
        refine ⟨le_rfl, hcounted, hsep, ?_, .refl _, fun _ _ h => nomatch h⟩
        rw [zero_add]
        exact (hd (.inl hsep)).accountWorth_le hp
      · rename_i hsep
        obtain rfl := Option.some.inj hs
        refine ⟨hclaims, hcounted, fun hc => ?_⟩
        rw [GiveChainState.balancesWorth, if_neg hsep, add_zero, zero_add]
        exact (hd (.inr hc)).accountWorth_le hp
    · rename_i taker values
      obtain ⟨hsep, htaker, hp, hd⟩ := hstage
      rw [List.append_nil] at hp
      obtain rfl := Option.some.inj hs
      refine ⟨hclaims, hcounted, fun hc => ?_⟩
      rw [GiveChainState.balancesWorth, if_pos hsep]
      exact add_le_add htaker ((hd hc).accountWorth_le hp)
    · cases hs
  | pendingOrders =>
    simp only [TVLBudgetConfig.calculationStep] at hs
    split at hs
    · rename_i balances
      obtain rfl := Option.some.inj hs
      refine ⟨hclaims, fun n hn => ?_, fun hn => ?_⟩
      · simp only at hn
        split at hn
        · obtain rfl := Option.some.inj hn
          exact le_rfl
        · cases hn
      · simp only at hn
        split at hn
        · rename_i hc
          exact add_le_add_left (hstage hc) _
        · cases hn
    · cases hs
  | failed =>
    simp only [TVLBudgetConfig.calculationStep] at hs
    split at hs
    · cases hs
    · cases hs
    · obtain rfl := Option.some.inj hs
      exact ⟨hclaims, hcounted, trivial⟩

/-- What may happen on the give chain without a calculation falling behind unnoticed. -/
structure GiveChainState.Follows (config : TVLBudgetConfig) (chain chain' : GiveChainState) :
    Prop where
  claims : chain.claims ≤ chain'.claims
  fulfilled : chain.fulfilled.length ≤ chain'.fulfilled.length
  balance : ∀ account token, account ≠ config.unlockBeneficiary ∨ chain'.claims = chain.claims →
    chain'.balance account token ≤ chain.balance account token
  tvl : chain'.fulfilled.length = chain.fulfilled.length → chain'.tvl config ≤ chain.tvl config

theorem getAssetValueAtAccount_mono {token : Address}
    (h : chain'.balance account token ≤ chain.balance account token) :
    config.getAssetValueAtAccount chain' account token ≤
      config.getAssetValueAtAccount chain account token :=
  TokenMarket.usdValueOfAsset_mono h

theorem accountWorth_mono
    (h : ∀ token, chain'.balance account token ≤ chain.balance account token) :
    chain'.accountWorth config account ≤ chain.accountWorth config account :=
  Finset.sum_le_sum fun token _ => getAssetValueAtAccount_mono (h token)

theorem balancesWorth_mono
    (h : ∀ account token, chain'.balance account token ≤ chain.balance account token) :
    chain'.balancesWorth config ≤ chain.balancesWorth config := by
  unfold GiveChainState.balancesWorth
  apply add_le_add (accountWorth_mono (h _))
  split
  · exact accountWorth_mono (h _)
  · exact le_rfl

theorem Covers.follow (h : Covers config chain calculation)
    (hf : chain.Follows config chain') : Covers config chain' calculation := by
  -- a calculation without a claim since its stamp also sees none now
  have hsame : calculation.claims = chain'.claims →
      chain'.claims = chain.claims ∧ calculation.claims = chain.claims := by
    have := h.claims
    have := hf.claims
    omega
  have hdom : ∀ {account values}, (account ≠ config.unlockBeneficiary ∨
      chain'.claims = chain.claims) → Dominates config chain account values →
      Dominates config chain' account values := fun ha hd read hr =>
    (getAssetValueAtAccount_mono (hf.balance _ _ ha)).trans (hd read hr)
  refine ⟨h.claims.trans hf.claims, fun n hn => (h.counted n hn).trans hf.fulfilled, ?_⟩
  have hstage := h.stage
  obtain ⟨stage, claims, countedAt⟩ := calculation
  cases stage with
  | account account taker values remaining =>
    cases account with
    | fulfillAuthority =>
      obtain ⟨htaker, hp, hd⟩ := hstage
      refine ⟨htaker, hp, ?_⟩
      rintro (hsep | hc)
      · exact hdom (.inl (of_decide_eq_true hsep)) (hd (.inl hsep))
      · exact hdom (.inr (hsame hc).1) (hd (.inr (hsame hc).2))
    | unlockBeneficiary =>
      obtain ⟨hsep, htaker, hp, hd⟩ := hstage
      refine ⟨hsep, ?_, hp, fun hc => hdom (.inr (hsame hc).1) (hd (hsame hc).2)⟩
      exact (accountWorth_mono fun token =>
        hf.balance _ token (.inl (of_decide_eq_true hsep))).trans htaker
  | pending balances =>
    intro hc
    exact (balancesWorth_mono fun account token =>
      hf.balance account token (.inr (hsame hc).1)).trans (hstage (hsame hc).2)
  | resolved tvl =>
    intro hn
    have hle := h.counted _ hn
    have hlen : chain'.fulfilled.length = chain.fulfilled.length :=
      le_antisymm hle hf.fulfilled
    exact (hf.tvl hlen).trans (hstage (hn.trans (congrArg some hlen)))
  | rejected => trivial

/-- No calculation of the controller has fallen behind unnoticed. -/
def TVLBudgetController.Covering (config : TVLBudgetConfig) (chain : GiveChainState)
    (c : TVLBudgetController) : Prop :=
  ∀ calculation ∈ c.calculations, Covers config chain calculation

variable {c c' : TVLBudgetController}

theorem Covering.follow (h : c.Covering config chain) (hf : chain.Follows config chain') :
    c.Covering config chain' :=
  fun calculation hc => (h calculation hc).follow hf

theorem Covering.getCurrentTVL (h : c.Covering config chain) (now : ℕ) :
    (c.getCurrentTVL config chain now).2.Covering config chain := by
  intro calculation hc
  unfold TVLBudgetController.getCurrentTVL at hc
  split at hc
  · exact h calculation hc
  · rcases List.mem_append.mp hc with hc | hc
    · exact h calculation hc
    · obtain rfl := List.mem_singleton.mp hc
      exact .calculateCurrentTVL

theorem Covering.calculate (h : c.Covering config chain) {n : ℕ} {input : CalculationInput}
    (hs : c.calculate config chain n input = some c') : c'.Covering config chain := by
  obtain ⟨calculation', hb, rfl⟩ := Option.map_eq_some_iff.mp hs
  obtain ⟨calculation, hn, hstep⟩ := Option.bind_eq_some_iff.mp hb
  intro a ha
  rcases List.mem_or_eq_of_mem_set ha with ha | rfl
  · exact h a ha
  · exact (h calculation (List.mem_of_getElem? hn)).step hstep

end Covers

section Follows

variable {config : TVLBudgetConfig} {chain : GiveChainState} {orderId : OrderId}

theorem tvl_fulfil :
    (chain.fulfil orderId).tvl config = chain.tvl config + config.worth orderId := by
  have hbal : (chain.fulfil orderId).balancesWorth config = chain.balancesWorth config := rfl
  rw [GiveChainState.tvl, GiveChainState.tvl, hbal, add_assoc]
  simp [TVLBudgetConfig.getPendingUnlockOrdersValue, GiveChainState.fulfil]

theorem follows_fulfil : chain.Follows config (chain.fulfil orderId) where
  claims := le_rfl
  fulfilled := by simp [GiveChainState.fulfil]
  balance _ _ _ := le_rfl
  tvl h := by simp [GiveChainState.fulfil] at h

theorem tvl_mono {chain' : GiveChainState} (hp : chain'.pending = chain.pending)
    (h : ∀ account token, chain'.balance account token ≤ chain.balance account token) :
    chain'.tvl config ≤ chain.tvl config := by
  unfold GiveChainState.tvl TVLBudgetConfig.getPendingUnlockOrdersValue
  rw [hp]
  exact add_le_add_left (balancesWorth_mono h) _

theorem follows_spend {account token : Address} {amount : ℕ} :
    chain.Follows config (chain.spend account token amount) := by
  have hbal : ∀ a t, (chain.spend account token amount).balance a t ≤ chain.balance a t := by
    intro a t
    simp only [GiveChainState.spend, Function.update_apply]
    split
    · subst a
      rw [Function.update_apply]
      split
      · subst t
        omega
      · exact le_rfl
    · exact le_rfl
  exact ⟨le_rfl, le_rfl, fun a t _ => hbal a t, fun _ => tvl_mono rfl hbal⟩

/-- A claim moves the worth of the order to the account it lands on, if its token is tracked. -/
theorem accountWorth_claim_eq (hc : (config.orderOf orderId).give.chainId = config.chain) :
    (chain.claim config orderId).accountWorth config config.unlockBeneficiary =
      chain.accountWorth config config.unlockBeneficiary +
        if (config.orderOf orderId).give.tokenAddress ∈ config.trackedTokens then
          config.worth orderId
        else 0 := by
  have hvalue : ∀ token, config.getAssetValueAtAccount (chain.claim config orderId)
      config.unlockBeneficiary token =
        config.getAssetValueAtAccount chain config.unlockBeneficiary token +
          if token = (config.orderOf orderId).give.tokenAddress then config.worth orderId
          else 0 := by
    intro token
    unfold TVLBudgetConfig.getAssetValueAtAccount
    simp only [GiveChainState.claim, Function.update_self]
    by_cases ht : token = (config.orderOf orderId).give.tokenAddress
    · subst ht
      rw [Function.update_self, if_pos rfl, TokenMarket.usdValueOfAsset_add,
        TVLBudgetConfig.worth, TokenMarket.usdValueOfOrder, hc]
    · rw [Function.update_of_ne ht, if_neg ht, add_zero]
  unfold GiveChainState.accountWorth
  rw [Finset.sum_congr rfl fun token _ => hvalue token, Finset.sum_add_distrib,
    Finset.sum_ite_eq']
  simp only [List.mem_toFinset]

theorem accountWorth_claim (hc : (config.orderOf orderId).give.chainId = config.chain) :
    (chain.claim config orderId).accountWorth config config.unlockBeneficiary ≤
      chain.accountWorth config config.unlockBeneficiary + config.worth orderId := by
  rw [accountWorth_claim_eq hc]
  apply add_le_add_right
  split
  · exact le_rfl
  · exact TokenMarket.usdValueOfOrder_nonneg

theorem accountWorth_claim_of_ne {account : Address} (h : account ≠ config.unlockBeneficiary) :
    (chain.claim config orderId).accountWorth config account =
      chain.accountWorth config account := by
  unfold GiveChainState.accountWorth TVLBudgetConfig.getAssetValueAtAccount
  simp only [GiveChainState.claim, Function.update_of_ne h]

theorem balancesWorth_claim (hc : (config.orderOf orderId).give.chainId = config.chain) :
    (chain.claim config orderId).balancesWorth config ≤
      chain.balancesWorth config + config.worth orderId := by
  unfold GiveChainState.balancesWorth
  by_cases hsep : config.hasSeparateUnlockBeneficiary = true
  · rw [if_pos hsep, if_pos hsep, accountWorth_claim_of_ne (of_decide_eq_true hsep), add_assoc]
    exact add_le_add_right (accountWorth_claim hc) _
  · have he : config.fulfillAuthority = config.unlockBeneficiary := by
      simpa [TVLBudgetConfig.hasSeparateUnlockBeneficiary] using hsep
    rw [if_neg hsep, if_neg hsep, add_zero, add_zero, he]
    exact accountWorth_claim hc

theorem pendingUnlockOrdersValue_claim (hp : orderId ∈ chain.pending) :
    config.worth orderId + config.getPendingUnlockOrdersValue (chain.claim config orderId) =
      config.getPendingUnlockOrdersValue chain :=
  ((List.perm_cons_erase hp).map config.worth).sum_eq.symm

theorem tvl_claim (hc : (config.orderOf orderId).give.chainId = config.chain)
    (hp : orderId ∈ chain.pending) :
    (chain.claim config orderId).tvl config ≤ chain.tvl config := by
  calc (chain.claim config orderId).tvl config
      ≤ chain.balancesWorth config + config.worth orderId +
          config.getPendingUnlockOrdersValue (chain.claim config orderId) :=
        add_le_add_left (balancesWorth_claim hc) _
    _ = chain.tvl config := by
        rw [add_assoc, pendingUnlockOrdersValue_claim hp, GiveChainState.tvl]

theorem follows_claim (hc : (config.orderOf orderId).give.chainId = config.chain)
    (hp : orderId ∈ chain.pending) : chain.Follows config (chain.claim config orderId) where
  claims := Nat.le_succ _
  fulfilled := le_rfl
  balance account token h := by
    rcases h with h | h
    · simp [GiveChainState.claim, Function.update_of_ne h]
    · exact absurd h (Nat.succ_ne_self _)
  tvl _ := tvl_claim hc hp

end Follows

end DlnTaker
