import DlnTaker.Library.Exposure
import DlnTaker.Library.Machine
import DlnTaker.Limits.Fleet
import DlnTaker.Limits.PendingOrders
import DlnTaker.Limits.TVLCalculation

/-! # A TVL calculation among unlock claims

A claim moves an order from the list of pending orders to the balance of the
unlock beneficiary. The balances are read first and the list page by page after
them, so an order claimed in between is in none of the reads, and a claim during
the reading of the list moves an order across the border of a page.
-/

namespace DlnTaker

/-- How far `calculateCurrentTVL` is, with the pages of the pending orders apart. -/
inductive TVLReadStage
  | balances (calculation : Calculation)
  | pending (balances : ℚ) (read : PendingRead)
  | listed (balances : ℚ) (orderIds : List OrderId)
  | resolved (tvl : ℚ)

inductive TVLReadInput
  | balances (input : CalculationInput)
  | page (count : ℕ)
  | orders
  | claimed (orderId : OrderId)

structure TVLReading where
  chain : GiveChainState
  stage : TVLReadStage

namespace TVLReading

def initial (config : TVLBudgetConfig) (chain : GiveChainState) : TVLReading :=
  ⟨chain, .balances (config.calculateCurrentTVL chain)⟩

/-- The stage after a read of the balances. -/
def afterBalances (calculation : Calculation) : TVLReadStage :=
  match calculation.stage with
  | .pending balances => .pending balances .initial
  | _ => .balances calculation

/-- The stage after a page: the loop goes on while there are more orders. -/
def afterPage (balances : ℚ) (read : PendingRead) : TVLReadStage :=
  if read.hasMoreOrders then .pending balances read else .listed balances read.orderIds

def step (config : TVLBudgetConfig) (s : TVLReading) : TVLReadInput → Option TVLReading
  | .balances input =>
    match s.stage with
    | .balances calculation =>
      (config.calculationStep s.chain calculation input).map fun calculation =>
        { s with stage := afterBalances calculation }
    | _ => none
  | .page count =>
    match s.stage with
    | .pending balances read =>
      if PendingPage.Allowed s.chain.pending read.skip count then
        let page := PendingPage.answer s.chain.pending read.skip count
        some { s with stage := afterPage balances (read.next page) }
      else none
    | _ => none
  | .orders =>
    match s.stage with
    | .listed balances orderIds =>
      some { s with stage := .resolved (balances + (orderIds.map config.worth).sum) }
    | _ => none
  | .claimed orderId =>
    if orderId ∈ s.chain.pending then some { s with chain := s.chain.claim config orderId }
    else none

/-- An order is claimed while the beneficiary's balance of its token is still to be read, or after
the last page of the pending orders. -/
def ClaimsCounted (config : TVLBudgetConfig) (s : TVLReading) : TVLReadInput → Prop
  | .claimed orderId =>
    match s.stage with
    | .balances calculation =>
      match calculation.stage with
      | .account account _ _ remaining =>
        config.address account ≠ config.unlockBeneficiary ∨
          (config.orderOf orderId).give.tokenAddress ∈ remaining
      | _ => True
    | .pending _ _ => False
    | _ => True
  | _ => True

instance {config : TVLBudgetConfig} {s : TVLReading} {i : TVLReadInput} :
    Decidable (ClaimsCounted config s i) := by
  unfold ClaimsCounted
  split
  · split
    · split
      · exact decidable_of_iff (_ ∨ List.contains _ _ = true) (or_congr_right List.contains_iff_mem)
      · infer_instance
    · infer_instance
    · infer_instance
  · infer_instance

end TVLReading

/-- One calculation on a give chain on which pending orders are claimed. -/
def tvlReading (config : TVLBudgetConfig) (chain : GiveChainState) :
    Machine TVLReading TVLReadInput where
  init := .initial config chain
  step := TVLReading.step config

section Counted

variable {config : TVLBudgetConfig} {chain : GiveChainState} {account : Address}
  {values : List (Address × ℚ)} {remaining : List Address} {orderId : OrderId}

/-- The order is given on this chain, in a tracked token. -/
def GivenInTracked (config : TVLBudgetConfig) (orderId : OrderId) : Prop :=
  (config.orderOf orderId).give.chainId = config.chain ∧
    (config.orderOf orderId).give.tokenAddress ∈ config.trackedTokens

instance : Decidable (GivenInTracked config orderId) :=
  decidable_of_iff (_ ∧ List.contains _ _ = true) (and_congr_right' List.contains_iff_mem)

/-! ### Claims leave the TVL unchanged -/

theorem balancesWorth_claim_of_tracked (ht : GivenInTracked config orderId) :
    (chain.claim config orderId).balancesWorth config =
      chain.balancesWorth config + config.worth orderId := by
  have hmoved : (chain.claim config orderId).accountWorth config config.unlockBeneficiary = _ :=
    accountWorth_claim_eq ht.1
  rw [if_pos ht.2] at hmoved
  unfold GiveChainState.balancesWorth
  by_cases hsep : config.hasSeparateUnlockBeneficiary = true
  · rw [if_pos hsep, if_pos hsep, accountWorth_claim_of_ne (of_decide_eq_true hsep), add_assoc,
      hmoved]
  · have he : config.fulfillAuthority = config.unlockBeneficiary := by
      simpa [TVLBudgetConfig.hasSeparateUnlockBeneficiary] using hsep
    rw [if_neg hsep, if_neg hsep, add_zero, add_zero, he, hmoved]

theorem tvl_claim_of_tracked (ht : GivenInTracked config orderId) (hp : orderId ∈ chain.pending) :
    (chain.claim config orderId).tvl config = chain.tvl config := by
  rw [GiveChainState.tvl, balancesWorth_claim_of_tracked ht, add_assoc,
    pendingUnlockOrdersValue_claim hp, GiveChainState.tvl]

/-! ### The reads of an account -/

/-- A token of the account is still to be read, or one of its reads is not below its present
value. -/
structure Seen (config : TVLBudgetConfig) (chain : GiveChainState) (account : Address)
    (values : List (Address × ℚ)) (remaining : List Address) : Prop where
  nonneg : ∀ read ∈ values, 0 ≤ read.2
  seen : ∀ token ∈ config.trackedTokens, token ∈ remaining ∨
    ∃ value, (token, value) ∈ values ∧ config.getAssetValueAtAccount chain account token ≤ value

theorem seen_nil : Seen config chain account [] config.trackedTokens where
  nonneg _ h := nomatch h
  seen _ ht := .inl ht

theorem Seen.read (h : Seen config chain account values remaining) (token : Address) :
    Seen config chain account
      (values ++ [(token, config.getAssetValueAtAccount chain account token)])
      (remaining.erase token) where
  nonneg read hr := by
    rcases List.mem_append.mp hr with hr | hr
    · exact h.nonneg read hr
    · obtain rfl := List.mem_singleton.mp hr
      exact TokenMarket.usdValueOfAsset_nonneg
  seen t ht := by
    by_cases he : t = token
    · subst he
      exact .inr ⟨_, by simp, le_rfl⟩
    · rcases h.seen t ht with hr | ⟨value, hv, hle⟩
      · exact .inl ((List.mem_erase_of_ne he).mpr hr)
      · exact .inr ⟨value, List.mem_append_left _ hv, hle⟩

theorem Seen.accountWorth_le (h : Seen config chain account values []) :
    chain.accountWorth config account ≤ (values.map Prod.snd).sum := by
  apply Exposure.sum_le_sum_entries h.nonneg
  intro token ht
  exact (h.seen token (List.mem_toFinset.mp ht)).resolve_left (by simp)

/-- A claim changes one balance of the beneficiary. -/
theorem Seen.claim (h : Seen config chain account values remaining)
    (hc : account ≠ config.unlockBeneficiary ∨
      (config.orderOf orderId).give.tokenAddress ∈ remaining) :
    Seen config (chain.claim config orderId) account values remaining where
  nonneg := h.nonneg
  seen token ht := by
    by_cases hmoved : account = config.unlockBeneficiary ∧
        token = (config.orderOf orderId).give.tokenAddress
    · obtain ⟨rfl, rfl⟩ := hmoved
      exact .inl (hc.resolve_left (not_not_intro rfl))
    · have hsame : config.getAssetValueAtAccount (chain.claim config orderId) account token =
          config.getAssetValueAtAccount chain account token := by
        unfold TVLBudgetConfig.getAssetValueAtAccount GiveChainState.claim
        by_cases ha : account = config.unlockBeneficiary
        · subst ha
          have hne : token ≠ (config.orderOf orderId).give.tokenAddress := fun he =>
            hmoved ⟨rfl, he⟩
          simp only [Function.update_self, Function.update_of_ne hne]
        · simp only [Function.update_of_ne ha]
      rw [hsame]
      exact h.seen token ht

/-! ### The invariant -/

/-- The balances that have been read count every order claimed so far. -/
def BalancesCount (config : TVLBudgetConfig) (chain : GiveChainState) : CalculationStage → Prop
  | .account .fulfillAuthority taker values remaining =>
    taker = 0 ∧ Seen config chain config.fulfillAuthority values remaining
  | .account .unlockBeneficiary taker values remaining =>
    config.hasSeparateUnlockBeneficiary = true ∧
      chain.accountWorth config config.fulfillAuthority ≤ taker ∧
      Seen config chain config.unlockBeneficiary values remaining
  | .rejected => True
  | _ => False

/-- The reads made so far count every order claimed so far. -/
def StageCounts (config : TVLBudgetConfig) (chain : GiveChainState) : TVLReadStage → Prop
  | .balances calculation => BalancesCount config chain calculation.stage
  | .pending balances read =>
    chain.balancesWorth config ≤ balances ∧ read.Lists chain.pending
  | .listed balances orderIds => chain.tvl config ≤ balances + (orderIds.map config.worth).sum
  | .resolved tvl => chain.tvl config ≤ tvl

theorem stageCounts_afterBalances {calculation calculation' : Calculation}
    {input : CalculationInput} (h : BalancesCount config chain calculation.stage)
    (hs : config.calculationStep chain calculation input = some calculation') :
    StageCounts config chain (TVLReading.afterBalances calculation') := by
  obtain ⟨stage, claims, countedAt⟩ := calculation
  cases stage with
  | account account taker values remaining =>
    cases input with
    | balance token =>
      simp only [TVLBudgetConfig.calculationStep] at hs
      split at hs
      · obtain rfl := Option.some.inj hs
        cases account with
        | fulfillAuthority => exact ⟨h.1, h.2.read token⟩
        | unlockBeneficiary => exact ⟨h.1, h.2.1, h.2.2.read token⟩
      · cases hs
    | balances =>
      simp only [TVLBudgetConfig.calculationStep] at hs
      split at hs
      · rename_i hstage
        cases hstage
        obtain ⟨rfl, hseen⟩ := h
        rw [zero_add] at hs
        split at hs
        · rename_i hsep
          obtain rfl := Option.some.inj hs
          exact ⟨hsep, hseen.accountWorth_le, seen_nil⟩
        · rename_i hsep
          obtain rfl := Option.some.inj hs
          refine ⟨?_, PendingRead.lists_initial⟩
          rw [GiveChainState.balancesWorth, if_neg hsep, add_zero]
          exact hseen.accountWorth_le
      · rename_i hstage
        cases hstage
        obtain ⟨hsep, htaker, hseen⟩ := h
        obtain rfl := Option.some.inj hs
        refine ⟨?_, PendingRead.lists_initial⟩
        rw [GiveChainState.balancesWorth, if_pos hsep]
        exact add_le_add htaker hseen.accountWorth_le
      · cases hs
    | pendingOrders => cases hs
    | failed =>
      obtain rfl := Option.some.inj hs
      trivial
  | pending balances => exact h.elim
  | resolved tvl => exact h.elim
  | rejected => cases input <;> cases hs

/-- The page that ends the loop completes the list. -/
theorem stageCounts_afterPage {balances : ℚ} {read : PendingRead}
    (hb : chain.balancesWorth config ≤ balances) (hread : read.Lists chain.pending) :
    StageCounts config chain (TVLReading.afterPage balances read) := by
  unfold TVLReading.afterPage
  split
  · exact ⟨hb, hread⟩
  · rename_i hmore
    have hall : read.orderIds = chain.pending := hread.all (by simpa using hmore)
    simp only [StageCounts]
    rw [hall]
    exact add_le_add_left hb _

theorem StageCounts.claim {stage : TVLReadStage} (h : StageCounts config chain stage)
    (ht : GivenInTracked config orderId) (hp : orderId ∈ chain.pending)
    (hc : TVLReading.ClaimsCounted config ⟨chain, stage⟩ (.claimed orderId)) :
    StageCounts config (chain.claim config orderId) stage := by
  cases stage with
  | balances calculation =>
    obtain ⟨stage, claims, countedAt⟩ := calculation
    cases stage with
    | account account taker values remaining =>
      cases account with
      | fulfillAuthority => exact ⟨h.1, h.2.claim hc⟩
      | unlockBeneficiary =>
        obtain ⟨hsep, htaker, hseen⟩ := h
        refine ⟨hsep, ?_, hseen.claim hc⟩
        rw [accountWorth_claim_of_ne (of_decide_eq_true hsep)]
        exact htaker
    | pending balances => exact h.elim
    | resolved tvl => exact h.elim
    | rejected => trivial
  | pending balances read => exact hc.elim
  | listed balances orderIds =>
    simp only [StageCounts, tvl_claim_of_tracked ht hp]
    exact h
  | resolved tvl =>
    simp only [StageCounts, tvl_claim_of_tracked ht hp]
    exact h

/-- The TVL of the chain has not changed, and what has been read counts all claims. -/
structure Counting (config : TVLBudgetConfig) (tvl : ℚ) (s : TVLReading) : Prop where
  tracked : ∀ orderId ∈ s.chain.pending, GivenInTracked config orderId
  unchanged : s.chain.tvl config = tvl
  stage : StageCounts config s.chain s.stage

theorem Counting.step {tvl : ℚ} {s s' : TVLReading} {i : TVLReadInput}
    (h : Counting config tvl s) (hc : TVLReading.ClaimsCounted config s i)
    (hs : TVLReading.step config s i = some s') : Counting config tvl s' := by
  obtain ⟨chain, stage⟩ := s
  obtain ⟨htracked, hunchanged, hstage⟩ := h
  cases i with
  | balances input =>
    cases stage <;> simp only [TVLReading.step, reduceCtorEq] at hs
    obtain ⟨calculation', hstep, rfl⟩ := Option.map_eq_some_iff.mp hs
    exact ⟨htracked, hunchanged, stageCounts_afterBalances hstage hstep⟩
  | page count =>
    cases stage <;> simp only [TVLReading.step, reduceCtorEq] at hs
    split at hs
    · rename_i hallowed
      obtain rfl := Option.some.inj hs
      exact ⟨htracked, hunchanged, stageCounts_afterPage hstage.1 (hstage.2.next hallowed)⟩
    · cases hs
  | orders =>
    cases stage <;> simp only [TVLReading.step, reduceCtorEq] at hs
    obtain rfl := Option.some.inj hs
    exact ⟨htracked, hunchanged, hstage⟩
  | claimed orderId =>
    simp only [TVLReading.step] at hs
    split at hs
    · rename_i hp
      obtain rfl := Option.some.inj hs
      have ht := htracked orderId hp
      exact ⟨fun o ho => htracked o (List.mem_of_mem_erase ho),
        (tvl_claim_of_tracked ht hp).trans hunchanged, StageCounts.claim hstage ht hp hc⟩
    · cases hs

end Counted

namespace TVLReading.Sample

def config : TVLBudgetConfig := (Fleet.Sample.config 0 0).toTVLBudgetConfig

/-- Two orders worth 60 dollars each wait for their unlock. -/
def chain : GiveChainState := ⟨fun _ _ => 0, ["0xa", "0xb"], ["0xa", "0xb"], 0⟩

def readBalances : List TVLReadInput :=
  [.balances (.balance Fleet.Sample.token), .balances .balances]

def readOrders : List TVLReadInput := [.page PendingRead.pageSize, .orders]

end TVLReading.Sample

section UnlockClaims

open TVLReading (Sample.config Sample.chain Sample.readBalances Sample.readOrders)

variable {config : TVLBudgetConfig} {chain : GiveChainState} {t : List TVLReadInput}
  {s : TVLReading}

/-- The TVL is not under-counted if every order is claimed either before the beneficiary's
balance of its token is read, or after the last page of the pending orders. -/
theorem tvl_le_computed (hp : ∀ orderId ∈ chain.pending, GivenInTracked config orderId)
    (h : ((tvlReading config chain).guard (TVLReading.ClaimsCounted config)).Run t s) :
    s.chain.tvl config = chain.tvl config ∧
      ∀ computed, s.stage = .resolved computed → chain.tvl config ≤ computed := by
  have hc := h.guarded_invariant (P := Counting config (chain.tvl config))
    ⟨hp, rfl, rfl, seen_nil⟩ fun _ _ _ hi hc hs => hi.step hc hs
  refine ⟨hc.unchanged, fun computed hst => ?_⟩
  have hstage := hc.stage
  rw [hst] at hstage
  exact hc.unchanged.ge.trans hstage

/-- One order is claimed before the balances are read, the other one after the list. -/
theorem tvl_le_computed_around_reads :
    ∃ s, ((tvlReading Sample.config Sample.chain).guard
      (TVLReading.ClaimsCounted Sample.config)).Run
      ([.claimed "0xa"] ++ Sample.readBalances ++ Sample.readOrders ++ [.claimed "0xb"]) s ∧
      s.chain.tvl Sample.config = Sample.chain.tvl Sample.config ∧
      ∀ computed, s.stage = .resolved computed → Sample.chain.tvl Sample.config ≤ computed :=
  Machine.exists_run_and (by decide +kernel) fun _ h => tvl_le_computed (by decide) h

/-- An order that is claimed between the reads of the balances and of the list is not counted. -/
theorem claim_between_reads_uncounted :
    (∀ orderId ∈ Sample.chain.pending, GivenInTracked Sample.config orderId) ∧
    ∃ s computed, (tvlReading Sample.config Sample.chain).Run
      (Sample.readBalances ++ [.claimed "0xa"] ++ Sample.readOrders) s ∧
      s.stage = .resolved computed ∧ computed < Sample.chain.tvl Sample.config := by
  constructor
  · decide
  · exact ⟨_, _, Machine.run_iff_exec.mpr rfl, rfl, by decide +kernel⟩

end UnlockClaims

end DlnTaker
