import DlnTaker.Taking.Fulfilment

/-! # The filters of an operator

The filters that compare a field of the order with a list of addresses, and the
one that refuses every order. All but one let through what they are documented
to; the blacklist of give tokens is a whitelist, which shows in what passes.
-/

namespace DlnTaker

open Dialogue

/-- A filter once it is attached to a chain. -/
abbrev OrderFilterInitializer := ChainId → OrderData → Bool

section Filters

variable (tokenStringToBuffer : ChainId → String → Address)

/-- Some address of the list is that of the field. -/
def isListed (field : OrderData → Address) (addresses : List String) : OrderFilterInitializer :=
  fun chainId order =>
    let addressesBuffer := addresses.map (tokenStringToBuffer chainId)
    addressesBuffer.any fun address => field order = address

def whitelistedMaker : List String → OrderFilterInitializer :=
  isListed tokenStringToBuffer (·.maker)

def whitelistedReceiver : List String → OrderFilterInitializer :=
  isListed tokenStringToBuffer (·.receiver)

def whitelistedGiveToken : List String → OrderFilterInitializer :=
  isListed tokenStringToBuffer (·.give.tokenAddress)

def whitelistedTakeToken : List String → OrderFilterInitializer :=
  isListed tokenStringToBuffer (·.take.tokenAddress)

-- unlike the filter of take tokens below, this one does not negate the result
def blacklistedGiveToken (addresses : List String) : OrderFilterInitializer :=
  fun chainId order => isListed tokenStringToBuffer (·.give.tokenAddress) addresses chainId order

def blacklistedTakeToken (addresses : List String) : OrderFilterInitializer :=
  fun chainId order => !isListed tokenStringToBuffer (·.take.tokenAddress) addresses chainId order

def disableFulfill : OrderFilterInitializer := fun _ _ => false

/-- A filter as the operator configures it. -/
inductive FilterConfig
  | whitelistedMaker (addresses : List String)
  | whitelistedReceiver (addresses : List String)
  | whitelistedGiveToken (addresses : List String)
  | whitelistedTakeToken (addresses : List String)
  | blacklistedGiveToken (addresses : List String)
  | blacklistedTakeToken (addresses : List String)
  | disableFulfill
  deriving DecidableEq, Repr

namespace FilterConfig

def initializer : FilterConfig → OrderFilterInitializer
  | whitelistedMaker addresses => DlnTaker.whitelistedMaker tokenStringToBuffer addresses
  | whitelistedReceiver addresses => DlnTaker.whitelistedReceiver tokenStringToBuffer addresses
  | whitelistedGiveToken addresses => DlnTaker.whitelistedGiveToken tokenStringToBuffer addresses
  | whitelistedTakeToken addresses => DlnTaker.whitelistedTakeToken tokenStringToBuffer addresses
  | blacklistedGiveToken addresses => DlnTaker.blacklistedGiveToken tokenStringToBuffer addresses
  | blacklistedTakeToken addresses => DlnTaker.blacklistedTakeToken tokenStringToBuffer addresses
  | disableFulfill => DlnTaker.disableFulfill

/-- What the filter is documented to let through. -/
def Documented (chainId : ChainId) (order : OrderData) : FilterConfig → Prop
  | whitelistedMaker addresses => ∃ a ∈ addresses, order.maker = tokenStringToBuffer chainId a
  | whitelistedReceiver addresses => ∃ a ∈ addresses, order.receiver = tokenStringToBuffer chainId a
  | whitelistedGiveToken addresses =>
    ∃ a ∈ addresses, order.give.tokenAddress = tokenStringToBuffer chainId a
  | whitelistedTakeToken addresses =>
    ∃ a ∈ addresses, order.take.tokenAddress = tokenStringToBuffer chainId a
  | blacklistedGiveToken addresses =>
    ∀ a ∈ addresses, order.give.tokenAddress ≠ tokenStringToBuffer chainId a
  | blacklistedTakeToken addresses =>
    ∀ a ∈ addresses, order.take.tokenAddress ≠ tokenStringToBuffer chainId a
  | disableFulfill => False

def isBlacklistedGiveToken : FilterConfig → Bool
  | blacklistedGiveToken _ => true
  | _ => false

end FilterConfig

/-- A configured filter and the chain that it is attached to. -/
structure AttachedFilter where
  chainId : ChainId
  config : FilterConfig
  deriving DecidableEq, Repr

def AttachedFilter.approves (filter : AttachedFilter) (order : OrderData) : Bool :=
  filter.config.initializer tokenStringToBuffer filter.chainId order

def AttachedFilter.Documented (filter : AttachedFilter) (order : OrderData) : Prop :=
  filter.config.Documented tokenStringToBuffer filter.chainId order

/-- The filters answer what their functions return, and anything else is answered as before. -/
def filterEnvironment (attached : OrderFilter → AttachedFilter)
    (rest : Talk → (query : Request) → Answer query) (said : Talk) :
    (query : Request) → Answer query
  | .lookup (.filter filter order) => .ok ((attached filter).approves tokenStringToBuffer order)
  | query => rest said query

variable {tokenStringToBuffer} {chainId : ChainId} {order : OrderData} {filter : AttachedFilter}
  {addresses : List String}

theorem isListed_iff (field : OrderData → Address) :
    isListed tokenStringToBuffer field addresses chainId order = true ↔
      ∃ a ∈ addresses, field order = tokenStringToBuffer chainId a := by
  simp [isListed]

theorem not_isListed_iff (field : OrderData → Address) :
    (!isListed tokenStringToBuffer field addresses chainId order) = true ↔
      ∀ a ∈ addresses, field order ≠ tokenStringToBuffer chainId a := by
  simp [isListed]

/-- A filter that is no blacklist of give tokens means what it says. -/
theorem AttachedFilter.approves_iff (h : filter.config.isBlacklistedGiveToken = false) :
    filter.approves tokenStringToBuffer order = true ↔
      filter.Documented tokenStringToBuffer order := by
  obtain ⟨chainId, config⟩ := filter
  cases config with
  | whitelistedMaker addresses => exact isListed_iff (·.maker)
  | whitelistedReceiver addresses => exact isListed_iff (·.receiver)
  | whitelistedGiveToken addresses => exact isListed_iff (·.give.tokenAddress)
  | whitelistedTakeToken addresses => exact isListed_iff (·.take.tokenAddress)
  | blacklistedGiveToken addresses => cases h
  | blacklistedTakeToken addresses => exact not_isListed_iff (·.take.tokenAddress)
  | disableFulfill => exact iff_of_false Bool.false_ne_true id

/-- A blacklist of give tokens means the opposite. -/
theorem AttachedFilter.approves_iff_not (h : filter.config.isBlacklistedGiveToken = true) :
    filter.approves tokenStringToBuffer order = true ↔
      ¬ filter.Documented tokenStringToBuffer order := by
  obtain ⟨chainId, config⟩ := filter
  cases config with
  | blacklistedGiveToken addresses =>
    have hlisted : _ ↔ ∃ a ∈ addresses, order.give.tokenAddress = tokenStringToBuffer chainId a :=
      isListed_iff (·.give.tokenAddress)
    apply hlisted.trans
    simp [Documented, FilterConfig.Documented]
  | _ => cases h

end Filters

variable {tokenStringToBuffer : ChainId → String → Address} {executor : Executor}
  {order : CreatedOrder} {attached : OrderFilter → AttachedFilter}
  {rest : Talk → (query : Request) → Answer query}

open OrderValidator Taking

theorem play_filters (filters : List OrderFilter) (order : OrderData) (said : Talk) :
    (play (filterEnvironment tokenStringToBuffer attached rest) said
      (filters.mapM fun filter => lookup (.filter filter order))).2 =
        .inr (filters.map fun filter => (attached filter).approves tokenStringToBuffer order) := by
  induction filters generalizing said with
  | nil => rfl
  | cons filter filters ih =>
    have hfirst : (play (filterEnvironment tokenStringToBuffer attached rest) said
        (lookup (.filter filter order))).2 =
          .inr ((attached filter).approves tokenStringToBuffer order) := rfl
    rw [List.mapM_cons, play_bind hfirst, play_bind (ih _)]
    rfl

/-- An order passes if and only if every filter approves it. -/
theorem checkFilters_iff :
    (play (filterEnvironment tokenStringToBuffer attached rest) []
        (checkFilters executor order)).2 = .inr () ↔
      ∀ filter ∈ listOrderFilters executor order,
        (attached filter).approves tokenStringToBuffer order.orderData = true := by
  rw [checkFilters, play_bind (play_filters _ _ _)]
  simp only [List.all_map, Function.comp_def, id_eq]
  split
  · rename_i hall
    exact iff_of_true rfl (List.all_eq_true.mp hall)
  · rename_i hall
    apply iff_of_false
    · intro h
      cases h
    · intro hpass
      exact hall (List.all_eq_true.mpr hpass)

/-- Where some tests of a list are inverted, all of them pass exactly when they should if and only
if none is inverted, or another one fails, or the inverted ones disagree. -/
theorem forall_inverted_iff {α : Type*} {tests : List α} {passes should : α → Prop}
    {inverted : α → Bool} (hright : ∀ x, inverted x = false → (passes x ↔ should x))
    (hwrong : ∀ x, inverted x = true → (passes x ↔ ¬ should x)) :
    ((∀ x ∈ tests, passes x) ↔ ∀ x ∈ tests, should x) ↔
      (∀ x ∈ tests, inverted x = false) ∨
      (∃ x ∈ tests, inverted x = false ∧ ¬ should x) ∨
      (∃ x ∈ tests, inverted x = true ∧ should x) ∧
        ∃ x ∈ tests, inverted x = true ∧ ¬ should x := by
  constructor
  · intro hiff
    by_cases hnone : ∀ x ∈ tests, inverted x = false
    · exact .inl hnone
    push Not at hnone
    obtain ⟨y, hy, hinverted⟩ := hnone
    rw [ne_eq, Bool.not_eq_false] at hinverted
    by_cases hother : ∃ x ∈ tests, inverted x = false ∧ ¬ should x
    · exact .inr (.inl hother)
    push Not at hother
    right
    right
    constructor
    · by_contra hno
      push Not at hno
      have hall : ∀ x ∈ tests, passes x := by
        intro x hx
        cases hi : inverted x with
        | false => exact (hright x hi).mpr (hother x hx hi)
        | true => exact (hwrong x hi).mpr (hno x hx hi)
      exact hno y hy hinverted (hiff.mp hall y hy)
    · by_contra hno
      push Not at hno
      have hall : ∀ x ∈ tests, should x := by
        intro x hx
        cases hi : inverted x with
        | false => exact hother x hx hi
        | true => exact hno x hx hi
      exact (hwrong y hinverted).mp (hiff.mpr hall y hy) (hno y hy hinverted)
  · rintro (hnone | ⟨x, hx, hi, hfails⟩ | ⟨⟨x, hx, hi, hshould⟩, y, hy, hi', hfails⟩)
    · exact forall₂_congr fun x hx => hright x (hnone x hx)
    · apply iff_of_false
      · intro hall
        exact hfails ((hright x hi).mp (hall x hx))
      · intro hall
        exact hfails (hall x hx)
    · apply iff_of_false
      · intro hall
        exact (hwrong x hi).mp (hall x hx) hshould
      · intro hall
        exact hfails (hall y hy)

/-- The order passes exactly as documented if and only if no blacklist of give tokens applies, or
another filter refuses the order anyway, or of the blacklists some have the token and some not. -/
theorem filters_as_documented_iff :
    ((play (filterEnvironment tokenStringToBuffer attached rest) []
          (checkFilters executor order)).2 = .inr () ↔
        ∀ filter ∈ listOrderFilters executor order,
          (attached filter).Documented tokenStringToBuffer order.orderData) ↔
      (∀ filter ∈ listOrderFilters executor order,
        (attached filter).config.isBlacklistedGiveToken = false) ∨
      (∃ filter ∈ listOrderFilters executor order,
        (attached filter).config.isBlacklistedGiveToken = false ∧
          ¬ (attached filter).Documented tokenStringToBuffer order.orderData) ∨
      (∃ filter ∈ listOrderFilters executor order,
        (attached filter).config.isBlacklistedGiveToken = true ∧
          (attached filter).Documented tokenStringToBuffer order.orderData) ∧
        ∃ filter ∈ listOrderFilters executor order,
          (attached filter).config.isBlacklistedGiveToken = true ∧
            ¬ (attached filter).Documented tokenStringToBuffer order.orderData := by
  rw [checkFilters_iff]
  exact forall_inverted_iff (fun _ => AttachedFilter.approves_iff)
    fun _ => AttachedFilter.approves_iff_not

def Sample.toBuffer (_ : ChainId) (address : String) : Address :=
  if address = "0x0a" then [10] else []

def Sample.blacklisting (_ : OrderFilter) : AttachedFilter := ⟨1, .blacklistedGiveToken ["0x0a"]⟩

/-- The give token of the order is on the blacklist, and the order passes. -/
theorem blacklisted_and_passed :
    (play (filterEnvironment Sample.toBuffer Sample.blacklisting
        (Sample.answer true fun _ => true)) []
      (checkFilters Sample.daemon Sample.takenOrder)).2 = .inr () ∧
    ¬ ∀ filter ∈ listOrderFilters Sample.daemon Sample.takenOrder,
      (Sample.blacklisting filter).Documented Sample.toBuffer
        Sample.takenOrder.orderData := by
  constructor
  · decide +kernel
  · intro hall
    exact hall ⟨"whitelistedMaker"⟩ (by decide) "0x0a" (by decide) (by decide)

end DlnTaker
