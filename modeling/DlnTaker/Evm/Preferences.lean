import DlnTaker.Evm.Escalation

/-! # The gas price of the BNB chain

On the BNB chain the gas price of the node is brought between two prices of the
environment before a transaction is priced with it. A replacement is bumped all
the same, so only the first attempt stays below the upper price; the price of
every attempt is bounded whatever the node reports.
-/

namespace DlnTaker

namespace Evm

/-! ### Numbers of the environment -/

/-- The number that the digits at the start of a text are of; zero if there are none. -/
def leadingNumber (text : String) : ℕ :=
  (text.toList.takeWhile Char.isDigit).foldl (fun n c => 10 * n + (c.toNat - '0'.toNat)) 0

/-- An absent or empty variable is read as zero, and zero is falsy. -/
def getBigInt (value : Option String) (defaultValue : ℕ) : ℕ :=
  match value.map leadingNumber with
  | none | some 0 => defaultValue
  | some n => n

namespace BNB

structure GasPrices where
  minGasPrice : ℕ
  maxGasPrice : ℕ

/-- `EVM_BNB_MIN_GAS_PRICE` and `EVM_BNB_MAX_GAS_PRICE`. -/
def ofEnvironment (minGasPrice maxGasPrice : Option String) : GasPrices where
  minGasPrice := getBigInt minGasPrice 3000000000
  maxGasPrice := getBigInt maxGasPrice 5000000000

variable (prices : GasPrices)

def legacyFeeFetcher (gasCategory : GasCategory) (gasPrice : ℕ) : ℕ :=
  let minGasPrice := if gasCategory = .aggressive then prices.maxGasPrice else prices.minGasPrice
  let gasPrice := if gasPrice < minGasPrice then minGasPrice else gasPrice
  if gasPrice > prices.maxGasPrice then prices.maxGasPrice else gasPrice

/-- The manager takes over what it is told, once multiplied by one. -/
def feeManager (opts : EvmFeeManagerOpts) : EvmFeeManager .legacy where
  opts :=
    { opts with
      legacyGasPriceProjectedMultiplier := 1
      legacyGasPriceNormalMultiplier := 1
      legacyGasPriceAggressiveMultiplier := 1 }

/-- The gas price that the node answers goes through the fetcher of the chain. -/
def answered (b : Broadcaster .legacy) : Answer .legacy → Answer .legacy
  | .fees (.ok (.gasPrice gasPrice)) =>
    match b.phase with
    | .populating _ gasCategory | .replacing _ gasCategory =>
      .fees (.ok (.gasPrice (legacyFeeFetcher prices gasCategory gasPrice)))
    | _ => .fees (.ok (.gasPrice gasPrice))
  | a => a

def bnbConfig (config : BroadcasterConfig .legacy) : BroadcasterConfig .legacy :=
  { config with feeManager := feeManager config.feeManager.opts }

/-- A run of `broadcastAndWait` on the BNB chain. -/
def bnbBroadcaster (config : BroadcasterConfig .legacy) :
    Machine (Broadcaster .legacy) (Answer .legacy) where
  init := .initial
  step b a := broadcasterStep (bnbConfig config) b (answered prices b a)

variable {prices} {config : BroadcasterConfig .legacy} {b : Broadcaster .legacy}
  {t : List (Answer .legacy)} {a : Answer .legacy} {fees : NodeFees .legacy} {attempt gasPrice : ℕ}
  {tx : PopulatedTxn .legacy} {gasCategory : GasCategory} {opts : EvmFeeManagerOpts}

theorem legacyFeeFetcher_eq : legacyFeeFetcher prices gasCategory gasPrice =
    min prices.maxGasPrice (max gasPrice
      (if gasCategory = .aggressive then prices.maxGasPrice else prices.minGasPrice)) := by
  simp only [legacyFeeFetcher]
  generalize (if gasCategory = .aggressive then prices.maxGasPrice
    else prices.minGasPrice) = minGasPrice
  split
  · split <;> omega
  · split <;> omega

/-- Of the aggressive category the upper price is taken, whatever the node reports. -/
theorem legacyFeeFetcher_aggressive :
    legacyFeeFetcher prices .aggressive gasPrice = prices.maxGasPrice := by
  rw [legacyFeeFetcher_eq, if_pos rfl]
  omega

theorem legacyFeeFetcher_bounds :
    min prices.minGasPrice prices.maxGasPrice ≤ legacyFeeFetcher prices gasCategory gasPrice ∧
      legacyFeeFetcher prices gasCategory gasPrice ≤ prices.maxGasPrice := by
  rw [legacyFeeFetcher_eq]
  split <;> omega

theorem legacyFeeFetcher_feeManager :
    (feeManager opts).legacyFeeFetcher gasCategory gasPrice = gasPrice := by
  have hone : multiplied gasPrice 1 = gasPrice := by
    have hn : safeIntToBigInt ((1 : ℚ) * 10000) = 10000 := by
      norm_num [safeIntToBigInt]
    rw [multiplied, hn]
    exact Int.mul_tdiv_cancel _ (by norm_num)
  cases gasCategory <;> exact hone

theorem fetch_feeManager : (feeManager opts).fetch gasCategory (.gasPrice gasPrice) =
    .legacy gasPrice :=
  congrArg FetchedFee.legacy legacyFeeFetcher_feeManager

theorem answered_eq_fees
    (hp : (∃ template, b.phase = .populating template gasCategory) ∨
      ∃ broadcast, b.phase = .replacing broadcast gasCategory)
    (h : answered prices b a = .fees (.ok fees)) :
    ∃ gasPrice, fees = .gasPrice (legacyFeeFetcher prices gasCategory gasPrice) := by
  unfold answered at h
  split at h
  · rename_i gasPrice
    rcases hp with ⟨template, hp⟩ | ⟨broadcast, hp⟩
    · simp only [hp] at h
      exact ⟨gasPrice, (Except.ok.inj (Answer.fees.inj h)).symm⟩
    · simp only [hp] at h
      exact ⟨gasPrice, (Except.ok.inj (Answer.fees.inj h)).symm⟩
  · rename_i hother
    cases fees with
    | gasPrice gasPrice => exact absurd h (hother gasPrice)

/-- The price of every attempt is above the lower price, or the upper one if that is less, and
within the upper price times the bumper for each attempt before it. -/
theorem gas_price_bounded (hm : 1 ≤ config.feeManager.bumpRatio)
    (h : (bnbBroadcaster prices config).Run t b) (hs : .signed attempt tx ∈ b.journal) :
    ((min prices.minGasPrice prices.maxGasPrice : ℕ) : ℤ) ≤ tx.extension.price ∧
      (tx.extension.price : ℚ) ≤
        prices.maxGasPrice * config.feeManager.bumpRatio ^ (attempt - 1) := by
  have hm : 1 ≤ (bnbConfig config).feeManager.bumpRatio := hm
  have hlow : ∀ gasCategory gasPrice, ((min prices.minGasPrice prices.maxGasPrice : ℕ) : ℤ) ≤
      legacyFeeFetcher prices gasCategory gasPrice := by
    intro gasCategory gasPrice
    exact_mod_cast legacyFeeFetcher_bounds.1
  have hfetch : ∀ gasCategory gasPrice, ((bnbConfig config).feeManager.fetch gasCategory
      (.gasPrice (legacyFeeFetcher prices gasCategory gasPrice))).Within prices.maxGasPrice 0 := by
    intro gasCategory gasPrice
    change ((feeManager config.feeManager.opts).fetch _ _).Within _ _
    rw [fetch_feeManager]
    change (((legacyFeeFetcher prices gasCategory gasPrice : ℕ) : ℤ) : ℚ) ≤ _
    exact_mod_cast legacyFeeFetcher_bounds.2
  have hq : PerAttempt (fun n extension =>
      ((min prices.minGasPrice prices.maxGasPrice : ℕ) : ℤ) ≤ extension.price ∧
        extension.Within prices.maxGasPrice 0
          ((bnbConfig config).feeManager.bumpRatio ^ n)) b := by
    refine h.invariant .initial fun b a b' hq hstep => ?_
    refine PerAttempt.step hq hstep
      (fun template gasCategory fees hp he n => ?_)
      fun broadcast gasCategory fees hp he n hold => ?_
    · obtain ⟨gasPrice, rfl⟩ := answered_eq_fees (.inl ⟨template, hp⟩) he
      refine ⟨?_, (within_populateTx (hfetch gasCategory gasPrice)).mono (by positivity) le_rfl
        (one_le_pow₀ hm)⟩
      change _ ≤ (feeManager config.feeManager.opts).legacyFeeFetcher gasCategory _
      rw [legacyFeeFetcher_feeManager]
      exact hlow gasCategory gasPrice
    · obtain ⟨gasPrice, rfl⟩ := answered_eq_fees (.inr ⟨broadcast, hp⟩) he
      rw [EvmFeeManager.populateReplacementTx_eq, pow_succ]
      refine ⟨?_, within_populateReplacement (hfetch gasCategory gasPrice) hold.2 (by positivity)
        le_rfl (one_le_pow₀ hm) hm⟩
      change _ ≤ ((feeManager config.feeManager.opts).populateReplacement _ broadcast.tx
        ((feeManager config.feeManager.opts).fetch gasCategory _)).extension.price
      rw [fetch_feeManager]
      obtain ⟨⟨template, extension⟩, number, hash⟩ := broadcast
      cases extension with
      | legacy old => exact (hlow gasCategory gasPrice).trans (le_findMaxBigInt List.mem_cons_self)
  obtain ⟨hlow, hhigh⟩ := hq.signed attempt tx hs
  refine ⟨hlow, ?_⟩
  obtain ⟨template, extension⟩ := tx
  cases extension with
  | legacy gasPrice => exact hhigh

namespace Sample

def defaultPrices : GasPrices := ofEnvironment none (some "5000000000 wei")

/-- The node asks for six gwei, and refuses five of them. -/
def congested : List (Answer .legacy) :=
  [.blockNumber (.ok 1), .transactionCount (.ok 5), .estimateGas (.ok 21000),
    .fees (.ok (.gasPrice 6000000000)), .signature (.ok "0x"),
    .sendRawTransaction (.error "underpriced"), .fees (.ok (.gasPrice 6000000000))]

/-- The transaction of the second attempt, above the upper price. -/
def aboveUpperPrice : PopulatedTxn .legacy :=
  ⟨⟨"0x1", "0x2", "0x", none, 23100, 5⟩, .legacy 6500000000⟩

end Sample

theorem gas_price_bounded_bumped : ∃ b : Broadcaster .legacy,
    (bnbBroadcaster Sample.defaultPrices Evm.Sample.config).Run Sample.congested b ∧
    .signed 2 Sample.aboveUpperPrice ∈ b.journal ∧
    ((min Sample.defaultPrices.minGasPrice Sample.defaultPrices.maxGasPrice : ℕ) : ℤ) ≤
      Sample.aboveUpperPrice.extension.price ∧
    (Sample.aboveUpperPrice.extension.price : ℚ) ≤
      Sample.defaultPrices.maxGasPrice * Evm.Sample.config.feeManager.bumpRatio ^ (2 - 1) := by
  obtain ⟨b, hr, hp⟩ := Machine.exists_run_of_any
    (M := bnbBroadcaster Sample.defaultPrices Evm.Sample.config) (t := Sample.congested)
    (p := fun b : Broadcaster .legacy => b.journal.any fun e =>
      decide (e = Entry.signed 2 Sample.aboveUpperPrice)) (by decide +kernel)
  obtain ⟨e, hm, he⟩ := List.any_eq_true.mp hp
  obtain rfl := of_decide_eq_true he
  have hratio : 1 ≤ Evm.Sample.config.feeManager.bumpRatio := by decide +kernel
  exact ⟨b, hr, hm, gas_price_bounded hratio hr hm⟩

end BNB

end Evm

end DlnTaker
