import Mathlib.Data.Set.Basic
import Mathlib.Order.Monotone.Defs
import DlnTaker.Evm.Capping

/-! # Priority fees

The estimator sorts the tips as texts. It is the median with a skip of outliers
only where the order of the texts is that of the numbers. The fetcher asks the
node for the tips at a percentile, which for aggressive fees is the multiplier of
the base fee.
-/

namespace DlnTaker

namespace Evm

/-- The increase between neighbours of a sorted list, in whole percents. -/
def percentageIncrease (cur next : ℕ) : ℕ := (next - cur) * 100 / cur

/-- The median of the non-zero tips in increasing order, or that of the tail that starts at the
first largest increase, if it is large and in the upper half. -/
def referenceTip (history : List ℕ) (increaseBoundary : ℚ) : ℕ :=
  let tips := (history.filter (· ≠ 0)).mergeSort (fun a b => a ≤ b)
  let increases := tips.zipWith percentageIncrease tips.tail
  let highest := increases.max?.getD 0
  let start := increases.idxOf highest
  let values := if increaseBoundary ≤ highest ∧ tips.length / 2 ≤ start then tips.drop start
    else tips
  values.getD (values.length / 2) 0

section Texts

variable {a b : ℕ} {tips : List ℕ}

theorem toString_injective (h : toString a = toString b) : a = b := by
  have hdigits : Nat.toDigits 10 a = Nat.toDigits 10 b := by
    rw [← Nat.toList_repr, ← Nat.toList_repr]
    exact congrArg String.toList h
  rw [← Nat.ofDigitChars_ten_toDigits (n := a), hdigits, Nat.ofDigitChars_ten_toDigits]

/-- The order of the texts is that of the numbers. -/
def TextOrder (tips : Set ℕ) : Prop :=
  ∀ a ∈ tips, ∀ b ∈ tips, 0 < a → a < b → toString a ≤ toString b

theorem TextOrder.toString_le_iff {tips : Set ℕ} (h : TextOrder tips) (ha : a ∈ tips)
    (hb : b ∈ tips) (ha0 : a ≠ 0) (hb0 : b ≠ 0) : toString a ≤ toString b ↔ a ≤ b := by
  constructor
  · intro hab
    by_contra hlt
    have hba := h b hb a ha (Nat.pos_of_ne_zero hb0) (by omega)
    have := toString_injective (String.le_antisymm hab hba)
    omega
  · intro hab
    rcases hab.eq_or_lt with rfl | hlt
    · exact String.le_refl _
    · exact h a ha b hb (Nat.pos_of_ne_zero ha0) hlt

theorem sort_eq_of_textOrder (h : TextOrder {tip | tip ∈ tips}) :
    (tips.filter (· ≠ 0)).mergeSort (fun a b => toString a ≤ toString b) =
      (tips.filter (· ≠ 0)).mergeSort (fun a b => a ≤ b) := by
  have hsame := List.map_mergeSort (f := id) (l := tips.filter (· ≠ 0))
    (r := fun a b : ℕ => decide (toString a ≤ toString b)) (s := fun a b => decide (a ≤ b)) ?_
  · simpa using hsame
  · intro a ha b hb
    obtain ⟨ha, ha0⟩ := List.mem_filter.mp ha
    obtain ⟨hb, hb0⟩ := List.mem_filter.mp hb
    exact decide_eq_decide.mpr
      (h.toString_le_iff ha hb (of_decide_eq_true ha0) (of_decide_eq_true hb0))

end Texts

section Sorted

variable {tips increases : List ℕ} {increaseBoundary : ℚ}

/-- Between neighbours in increasing order the bigints are naturals. -/
theorem percentageIncreases_eq (h : tips.Pairwise (· ≤ ·)) :
    tips.zipWith (fun (cur next : ℕ) => (((next : ℤ) - cur) * 100).tdiv cur) tips.tail =
      (tips.zipWith percentageIncrease tips.tail).map Nat.cast := by
  induction tips with
  | nil => rfl
  | cons cur tips ih =>
    cases tips with
    | nil => rfl
    | cons next tips =>
      obtain ⟨hcur, hrest⟩ := List.pairwise_cons.mp h
      have hle : cur ≤ next := hcur next List.mem_cons_self
      have hincrease : (((next : ℤ) - cur) * 100).tdiv cur = (percentageIncrease cur next : ℕ) := by
        rw [percentageIncrease, Int.ofNat_tdiv, Nat.cast_mul, Nat.cast_sub hle]
        rfl
      rw [List.tail_cons, List.zipWith_cons_cons, List.zipWith_cons_cons, List.map_cons, hincrease]
      exact congrArg _ (ih hrest)

theorem foldl_max_cast {acc : ℕ} :
    (increases.map (Nat.cast : ℕ → ℤ)).foldl (fun max curr => if curr > max then curr else max)
      (acc : ℤ) = (increases.foldl max acc : ℕ) := by
  induction increases generalizing acc with
  | nil => rfl
  | cons increase increases ih =>
    have hmax : (if (increase : ℤ) > acc then (increase : ℤ) else acc) =
        ((max acc increase : ℕ) : ℤ) := by
      split <;> omega
    rw [List.map_cons, List.foldl_cons, List.foldl_cons, hmax, ih]

theorem findMaxBigInt_map_cast :
    findMaxBigInt (increases.map Nat.cast) = (increases.max?.getD 0 : ℕ) := by
  cases increases with
  | nil => rfl
  | cons increase increases =>
    rw [findMaxBigInt, ← Nat.cast_zero, foldl_max_cast, List.max?_cons', Option.getD_some,
      List.foldl_cons, Nat.zero_max]

theorem max_mem (h : increases ≠ []) : increases.max?.getD 0 ∈ increases := by
  cases hmax : increases.max? with
  | none => exact absurd (List.max?_eq_none_iff.mp hmax) h
  | some increase => exact List.max?_mem hmax

/-- The index that the estimator finds is that of the first largest increase. -/
theorem findIdx?_highest (h : increases ≠ []) :
    (increases.map (Nat.cast : ℕ → ℤ)).findIdx? (· = ((increases.max?.getD 0 : ℕ) : ℤ)) =
      some (increases.idxOf (increases.max?.getD 0)) := by
  have hlt := List.idxOf_lt_length_of_mem (max_mem h)
  generalize increases.max?.getD 0 = highest at hlt ⊢
  have hequal : ((fun increase : ℤ => decide (increase = (highest : ℤ))) ∘ (Nat.cast : ℕ → ℤ)) =
      (· == highest) := by
    funext increase
    simp [beq_eq_decide]
  rw [List.findIdx?_map, hequal, List.findIdx?_eq_guard_findIdx_lt]
  exact Option.guard_eq_some_iff.mpr ⟨rfl, decide_eq_true hlt⟩

/-- The estimator is the reference on the tips that it sorts in the order of the numbers. -/
theorem priorityFeeEstimator_eq_referenceTip {history : List ℕ}
    (h : TextOrder {tip | tip ∈ history}) (hb : 0 < increaseBoundary) :
    priorityFeeEstimator history increaseBoundary =
      (referenceTip history increaseBoundary : ℕ) := by
  have hsorted : ((history.filter (· ≠ 0)).mergeSort fun a b => decide (a ≤ b)).Pairwise
      fun a b => decide (a ≤ b) = true :=
    List.pairwise_mergeSort
      (by intro a b c hab hbc; simp only [decide_eq_true_eq] at hab hbc ⊢; exact hab.trans hbc)
      (by intro a b; simpa using le_total a b) _
  simp only [decide_eq_true_eq] at hsorted
  unfold priorityFeeEstimator referenceTip
  rw [sort_eq_of_textOrder h]
  generalize (history.filter (· ≠ 0)).mergeSort (fun a b => a ≤ b) = tips at hsorted ⊢
  match tips, hsorted with
  | [], _ => simp [not_le.mpr hb]
  | [tip], _ => simp [not_le.mpr hb]
  | cur :: next :: tips, hsorted =>
    have hincreases : (cur :: next :: tips).zipWith percentageIncrease (cur :: next :: tips).tail
        ≠ [] := by simp
    dsimp only
    rw [percentageIncreases_eq hsorted, findMaxBigInt_map_cast, findIdx?_highest hincreases]
    rfl

end Sorted

section Median

variable {a b : ℕ} {increaseBoundary : ℚ}

/-- The only increase of a pair is below the upper half. -/
theorem upper_of_pair {p : ℤ → Bool} {increase highest : ℤ} :
    (let values := match [increase].findIdx? p with
      | some highestIncreaseIndex =>
        if increaseBoundary ≤ highest ∧ [a, b].length / 2 ≤ highestIncreaseIndex
        then [a, b].drop highestIncreaseIndex else [a, b]
      | none => [a, b]
    ((values.getD (values.length / 2) 0 : ℕ) : ℤ)) = b := by
  cases hp : p increase with
  | false => simp [hp]
  | true => simp [hp]

theorem priorityFeeEstimator_singleton (ha : a ≠ 0) :
    priorityFeeEstimator [a] increaseBoundary = a := by
  simp [priorityFeeEstimator, ha]

/-- Of two tips the estimator takes the one whose text is last. -/
theorem priorityFeeEstimator_pair (ha : a ≠ 0) (hb : b ≠ 0) :
    priorityFeeEstimator [a, b] increaseBoundary =
      if toString a ≤ toString b then (b : ℤ) else a := by
  have hfilter : [a, b].filter (· ≠ 0) = [a, b] := by simp [ha, hb]
  have hsort : [a, b].mergeSort (fun a b => toString a ≤ toString b) =
      if toString a ≤ toString b then [a, b] else [b, a] := by
    simp [List.mergeSort, List.MergeSort.Internal.splitInTwo, List.merge]
  unfold priorityFeeEstimator
  rw [hfilter, hsort]
  split
  · exact upper_of_pair
  · exact upper_of_pair

theorem referenceTip_pair (ha : a ≠ 0) (hab : a < b) :
    referenceTip [a, b] increaseBoundary = b := by
  have hfilter : [a, b].filter (· ≠ 0) = [a, b] := by simp [ha, Nat.ne_zero_of_lt hab]
  have hsort : [a, b].mergeSort (fun a b => a ≤ b) = [a, b] := by
    simp [List.mergeSort, List.MergeSort.Internal.splitInTwo, hab.le]
  unfold referenceTip
  rw [hfilter, hsort]
  simp

/-- The estimator is the reference on all histories of some tips, for all boundaries, if and only
if the order of the tips' texts is that of the numbers. -/
theorem priorityFeeEstimator_eq_iff (tips : Set ℕ) :
    (∀ history, (∀ tip ∈ history, tip ∈ tips) → ∀ increaseBoundary, 0 < increaseBoundary →
      priorityFeeEstimator history increaseBoundary =
        (referenceTip history increaseBoundary : ℕ)) ↔ TextOrder tips := by
  constructor
  · intro h a ha b hb ha0 hab
    have hpair := h [a, b] (by simp [ha, hb]) 1 one_pos
    rw [priorityFeeEstimator_pair (by omega) (by omega), referenceTip_pair (by omega) hab] at hpair
    by_contra hle
    rw [if_neg hle] at hpair
    omega
  · intro h history hmem increaseBoundary hb
    exact priorityFeeEstimator_eq_referenceTip
      (fun a ha b hb => h a (hmem a ha) b (hmem b hb)) hb

/-- Tips of nine and ten wei: the median of the texts is the smaller one. -/
theorem priorityFeeEstimator_nine_ten :
    priorityFeeEstimator [9, 10] 200 = 9 ∧ referenceTip [9, 10] 200 = 10 := by
  constructor
  · rw [priorityFeeEstimator_pair (by decide) (by decide)]
    decide
  · exact referenceTip_pair (by decide) (by decide)

end Median

/-! ### Normal and aggressive fees -/

/-- What a node reports: for each block the reward at every percentile. -/
structure FeeNode where
  rewards : List (ℚ → ℕ)
  monotone : ∀ reward ∈ rewards, Monotone reward
  baseFeePerGas : List ℕ

def FeeNode.getFeeHistory (node : FeeNode) (percentile : ℚ) : FeeHistory where
  reward := node.rewards.map (· percentile)
  baseFeePerGas := node.baseFeePerGas

namespace EvmFeeManager

variable (m : EvmFeeManager .eip1559)

/-- The fee of a category from the history that is requested for it. -/
def fetchFee (gasCategory : GasCategory) (node : FeeNode) : EIP1551Fee :=
  m.feeFetcher gasCategory (node.getFeeHistory (m.priorityFeePercentile gasCategory))

/-- The options order the categories. -/
structure Ordered (m : EvmFeeManager .eip1559) : Prop where
  baseFee : m.opts.eip1559BaseFeeNormalMultiplier ≤ m.opts.eip1559BaseFeeAggressiveMultiplier
  priorityFee :
    m.opts.eip1559PriorityFeeNormalPercentile ≤ m.opts.eip1559PriorityFeeAggressivePercentile

/-- The aggressive fee is not below the normal one. -/
def AggressiveNotCheaper (node : FeeNode) : Prop :=
  (m.fetchFee .normal node).maxPriorityFeePerGas ≤
      (m.fetchFee .aggressive node).maxPriorityFeePerGas ∧
    (m.fetchFee .normal node).maxFeePerGas ≤ (m.fetchFee .aggressive node).maxFeePerGas

variable {m}

theorem maxPriorityFeePerGas_fetchFee {gasCategory : GasCategory} {node : FeeNode} :
    (m.fetchFee gasCategory node).maxPriorityFeePerGas =
      priorityFeeEstimator (node.rewards.map (· (m.priorityFeePercentile gasCategory)))
        m.opts.eip1559PriorityFeeIncreaseBoundary := rfl

theorem safeIntToBigInt_mono {v w : ℚ} (h : v ≤ w) : safeIntToBigInt v ≤ safeIntToBigInt w := by
  unfold safeIntToBigInt
  split
  · rename_i hv
    rw [if_pos (hv.trans h)]
    exact Int.floor_mono h
  · rename_i hv
    split
    · rename_i hw
      exact (Int.ceil_le.mpr (by exact_mod_cast (not_le.mp hv).le)).trans (Int.floor_nonneg.mpr hw)
    · exact Int.ceil_mono h

theorem multiplied_mono {amount : ℤ} {v w : ℚ} (ha : 0 ≤ amount) (h : v ≤ w) :
    multiplied amount v ≤ multiplied amount w := by
  apply Int.tdiv_le_tdiv (by norm_num)
  apply mul_le_mul_of_nonneg_left _ ha
  exact safeIntToBigInt_mono (mul_le_mul_of_nonneg_right h (by norm_num))

/-- From one history the aggressive fee is not below the normal one. -/
theorem AggressiveNotCheaper.of_same_percentile (hm : m.Ordered)
    (h : m.opts.eip1559BaseFeeAggressiveMultiplier = m.opts.eip1559PriorityFeeNormalPercentile)
    (node : FeeNode) : m.AggressiveNotCheaper node := by
  have hrequest : m.priorityFeePercentile .aggressive = m.priorityFeePercentile .normal := h
  unfold AggressiveNotCheaper fetchFee
  rw [hrequest]
  refine ⟨le_rfl, ?_⟩
  exact add_le_add_left (multiplied_mono findMaxBigInt_nonneg hm.baseFee) _

/-- A block whose reward is higher from some percentile on. -/
def stepReward (percentile : ℚ) (below above : ℕ) (p : ℚ) : ℕ :=
  if p < percentile then below else above

theorem stepReward_monotone {percentile : ℚ} {below above : ℕ} (h : below ≤ above) :
    Monotone (stepReward percentile below above) := by
  intro p q hpq
  unfold stepReward
  split
  · split
    · exact le_rfl
    · exact h
  · rename_i hp
    rw [if_neg fun hq => hp (hpq.trans_lt hq)]

/-- Aggressive fees are never cheaper exactly if the multiplier of the base fee, which is what the
node is asked for, is the normal percentile. -/
theorem aggressiveNotCheaper_iff (hm : m.Ordered) :
    (∀ node, m.AggressiveNotCheaper node) ↔
      m.opts.eip1559BaseFeeAggressiveMultiplier = m.opts.eip1559PriorityFeeNormalPercentile := by
  constructor
  · intro h
    rcases lt_trichotomy m.opts.eip1559BaseFeeAggressiveMultiplier
      m.opts.eip1559PriorityFeeNormalPercentile with hlt | heq | hgt
    · -- one block that rewards the normal percentile more
      have hnode := (h ⟨[stepReward m.opts.eip1559PriorityFeeNormalPercentile 1 2],
        by simpa using stepReward_monotone (by decide), []⟩).1
      simp only [maxPriorityFeePerGas_fetchFee, priorityFeePercentile, List.map_cons,
        List.map_nil, stepReward, if_pos hlt, lt_self_iff_false, if_false] at hnode
      rw [priorityFeeEstimator_singleton (by decide), priorityFeeEstimator_singleton (by decide)]
        at hnode
      exact absurd hnode (by decide)
    · exact heq
    · -- the text of the higher tip comes before that of the tip of another block
      have hnode := (h ⟨[stepReward m.opts.eip1559BaseFeeAggressiveMultiplier 99 100, fun _ => 9],
        by simpa using ⟨stepReward_monotone (by decide), monotone_const⟩, []⟩).1
      simp only [maxPriorityFeePerGas_fetchFee, priorityFeePercentile, List.map_cons,
        List.map_nil, stepReward, if_pos hgt, lt_self_iff_false, if_false] at hnode
      rw [priorityFeeEstimator_pair (by decide) (by decide),
        priorityFeeEstimator_pair (by decide) (by decide)] at hnode
      exact absurd hnode (by decide)
  · intro h node
    exact .of_same_percentile hm h node

def defaultManager : EvmFeeManager .eip1559 := ⟨defaultFeeManagerOpts⟩

theorem ordered_defaultManager : defaultManager.Ordered := by
  constructor <;> norm_num [defaultManager, defaultFeeManagerOpts]

theorem aggressiveNotCheaper_iff_default :
    (∀ node, defaultManager.AggressiveNotCheaper node) ↔
      defaultManager.opts.eip1559BaseFeeAggressiveMultiplier =
        defaultManager.opts.eip1559PriorityFeeNormalPercentile :=
  aggressiveNotCheaper_iff ordered_defaultManager

/-- A block that rewards the second percentile with one wei and the fiftieth with two. -/
def Sample.node : FeeNode :=
  ⟨[stepReward 50 1 2], by simpa using stepReward_monotone (by decide), [10]⟩

/-- With the default options the aggressive fee of a block is below the normal one. -/
theorem aggressive_cheaper_by_default :
    defaultManager.Ordered ∧ ¬ defaultManager.AggressiveNotCheaper Sample.node := by
  refine ⟨ordered_defaultManager, fun h => ?_⟩
  exact absurd h.1 (by decide +kernel)

end EvmFeeManager

end Evm

end DlnTaker
