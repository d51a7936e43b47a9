import Mathlib.Algebra.Order.Field.Rat
import Mathlib.Data.Rat.Floor
import Mathlib.Tactic.Positivity
import DlnTaker.Orders.Interfaces

/-! # What assets and orders are worth

The prices of the tokens and their decimals do not change here. An order is
worth what its maker gives.
-/

namespace DlnTaker

/-- Token prices in US dollars and token decimals. -/
structure TokenMarket where
  getPrice : ChainId → Address → ℚ
  getDecimals : ChainId → Address → ℕ
  price_nonneg : ∀ chain token, 0 ≤ getPrice chain token

namespace TokenMarket

variable (market : TokenMarket)

def usdValueOfAsset (chain : ChainId) (token : Address) (amount : ℕ) : ℚ :=
  amount * market.getPrice chain token / 10 ^ market.getDecimals chain token

def usdValueOfOrder (order : OrderData) : ℚ :=
  market.usdValueOfAsset order.give.chainId order.give.tokenAddress order.give.amount

/-- `Math.round(value * 100) / 100`, halves being rounded up. -/
def getUsdValue (order : OrderData) : ℚ := ⌊market.usdValueOfOrder order * 100 + 1 / 2⌋ / 100

variable {market} {chain : ChainId} {token : Address} {amount amount' : ℕ}

theorem usdValueOfAsset_nonneg : 0 ≤ market.usdValueOfAsset chain token amount := by
  have := market.price_nonneg chain token
  unfold usdValueOfAsset
  positivity

theorem usdValueOfAsset_add : market.usdValueOfAsset chain token (amount + amount') =
    market.usdValueOfAsset chain token amount + market.usdValueOfAsset chain token amount' := by
  unfold usdValueOfAsset
  rw [Nat.cast_add, add_mul, add_div]

theorem usdValueOfAsset_mono (h : amount ≤ amount') :
    market.usdValueOfAsset chain token amount ≤ market.usdValueOfAsset chain token amount' := by
  obtain ⟨d, rfl⟩ := Nat.exists_eq_add_of_le h
  rw [usdValueOfAsset_add]
  exact le_add_of_nonneg_right usdValueOfAsset_nonneg

theorem usdValueOfOrder_nonneg {order : OrderData} : 0 ≤ market.usdValueOfOrder order :=
  usdValueOfAsset_nonneg

theorem getUsdValue_nonneg {order : OrderData} : 0 ≤ market.getUsdValue order := by
  have h := @usdValueOfOrder_nonneg market order
  have hfloor : (0 : ℤ) ≤ ⌊market.usdValueOfOrder order * 100 + 1 / 2⌋ :=
    Int.floor_nonneg.mpr (by positivity)
  unfold getUsdValue
  have : (0 : ℚ) ≤ ⌊market.usdValueOfOrder order * 100 + 1 / 2⌋ := by exact_mod_cast hfloor
  positivity

end TokenMarket

end DlnTaker
