import DlnTaker.Feed.U256
import DlnTaker.Library.Coercion
import DlnTaker.Orders.Interfaces

/-! # The order feed

What `WsNextOrder` sends when its socket opens, and what it makes of a message:
the text is parsed, its status is looked for, the order is decoded and handed to
the processor. Nothing but the parsing is guarded against exceptions.
-/

namespace DlnTaker

open Json

/-- What the feed uses of its environment: the runtime, and `helpers.hexToBuffer`. -/
structure FeedEnv where
  runtime : Runtime
  hexToBuffer : Option Json → Except String (List UInt8)

namespace WsNextOrder

/-! ### Commands -/

/-- `chainId.toString(16).padStart(64, '0')` -/
def chainIdText (chainId : ChainId) : List Char :=
  let digits := Nat.toDigits 16 chainId
  List.replicate (64 - digits.length) '0' ++ digits

inductive Command
  | subscription (confirmationsCount : List (List Char × List ℕ))
  | getCreated
  | getFulfilled (unlockAuthority : String) (chainId : List Char)
  deriving DecidableEq, Repr

/-- `Object.fromEntries`: a later entry replaces the value of an earlier one of the same key. -/
def fromEntries {α : Type} (entries : List (List Char × α)) : List (List Char × α) :=
  entries.foldl (fun found e =>
    if found.any (·.1 = e.1) then found.map fun f => if f.1 = e.1 then e else f
    else found ++ [e]) []

/-- What is sent when the socket opens. -/
def openCommands (minConfirmationThresholds : List (ChainId × List ℕ))
    (unlockAuthorities : List (ChainId × String)) : List Command :=
  let confirmationsCountFilter := fromEntries <| minConfirmationThresholds.map fun threshold =>
    (chainIdText threshold.1, threshold.2)
  [.subscription confirmationsCountFilter, .getCreated] ++
    unlockAuthorities.map fun unlockAuthority =>
      .getFulfilled unlockAuthority.2 (chainIdText unlockAuthority.1)

/-! ### Messages -/

inductive WsOrderInfoStatus
  | archivalCreated | created | archivalFulfilled | fulfilled | cancelled | unlockSent
  | unlockClaim | takeOfferDecreased | giveOfferIncreased
  deriving DecidableEq, Repr

namespace WsOrderInfoStatus

/-- In the order of the enumeration. -/
def all : List WsOrderInfoStatus :=
  [archivalCreated, created, archivalFulfilled, fulfilled, cancelled, unlockSent, unlockClaim,
    takeOfferDecreased, giveOfferIncreased]

def key : WsOrderInfoStatus → String
  | archivalCreated => "ArchivalCreated"
  | created => "Created"
  | archivalFulfilled => "ArchivalFulfilled"
  | fulfilled => "Fulfilled"
  | cancelled => "Cancelled"
  | unlockSent => "UnlockSent"
  | unlockClaim => "UnlockClaim"
  | takeOfferDecreased => "TakeOfferDecreased"
  | giveOfferIncreased => "GiveOfferIncreased"

end WsOrderInfoStatus

/-- The order data as the feed decodes it; a nonce may be any big integer here. -/
structure FeedOrderData where
  nonce : ℤ
  maker : Address
  give : Offer
  take : Offer
  receiver : Address
  givePatchAuthority : Address
  orderAuthorityDstAddress : Address
  allowedTaker : Option Address
  allowedCancelBeneficiary : Option Address
  externalCall : Option ExternalCall
  deriving DecidableEq, Repr

/-- What the processor is called with; the values that are not decoded are handed on as they are. -/
structure FeedOrder where
  orderId : Option Json
  order : FeedOrderData
  status : OrderInfoStatus
  finalizationInfo : Option Json
  unlockAuthority : Option Json

variable (env : FeedEnv)

/-- `Number(n)` of a number of at most 256 bits, which is never infinite. -/
def bigIntToNumber (n : ℕ) : ℕ :=
  match Double.ofRat n with
  | .finite q => q.num.toNat
  | _ => 0

def fromHexBEString (data : Option Json) : Except String U256 := do
  let buffer ← env.hexToBuffer data
  U256.fromBytesBE buffer

def decodeChainId (chainId : Option Json) : Except String ChainId := do
  let u ← fromHexBEString env chainId
  return bigIntToNumber u.toBigInt

def wsOfferToOffer (info : Option Json) : Except String Offer := do
  let buffer ← env.hexToBuffer (← get info "amount")
  let u ← U256.fromBytesBE buffer
  let chainId ← decodeChainId env (← get info "chain_id")
  let tokenAddress ← env.hexToBuffer (← get info "token_address")
  return { amount := u.toBigInt, chainId, tokenAddress }

/-- A field that is decoded if it is truthy. -/
def optionalBuffer (value : Option Json) : Except String (Option Address) :=
  if truthy value then some <$> env.hexToBuffer value else .ok none

def wsExternalCall (info hash : Option Json) : Except String (Option ExternalCall) :=
  if truthy hash then do
    let externalCallHash ← uint8ArrayFrom env.runtime hash
    let extcall ← get info "extcall"
    let externalCallData ← uint8ArrayFrom env.runtime
      (if truthy extcall then extcall else some (.arr []))
    return some { externalCallHash := some externalCallHash, externalCallData }
  else .ok none

def wsOrderToOrderData (info : Option Json) : Except String FeedOrderData := do
  let order ← get info "order"
  let nonce ← toBigInt env.runtime (← get order "maker_order_nonce")
  let give ← wsOfferToOffer env (← get order "give")
  let take ← wsOfferToOffer env (← get order "take")
  let givePatchAuthority ← env.hexToBuffer (← get order "give_patch_authority_src")
  let maker ← env.hexToBuffer (← get order "maker_src")
  let orderAuthorityDstAddress ← env.hexToBuffer (← get order "order_authority_address_dst")
  let receiver ← env.hexToBuffer (← get order "receiver_dst")
  let allowedCancelBeneficiary ←
    optionalBuffer env (← get order "allowed_cancel_beneficiary_src")
  let allowedTaker ← optionalBuffer env (← get order "allowed_taker_dst")
  let externalCall ← wsExternalCall env info (← get (← get order "extcall") "hash")
  return {
    nonce
    give
    take
    givePatchAuthority
    maker
    orderAuthorityDstAddress
    receiver
    allowedCancelBeneficiary
    allowedTaker
    externalCall }

/-- The first status of the enumeration that is a key of the status of the order. -/
def flattenStatus (info : Option Json) : Except String (Option WsOrderInfoStatus) :=
  WsOrderInfoStatus.all.findM? fun status => do
    hasProperty (← get info "order_info_status") status.key

/-- A status of the enumeration never reaches the default of the switch. -/
def transformToNextOrderInfo (status : WsOrderInfoStatus) (orderId : Option Json)
    (order : FeedOrderData) (event : Option Json) : Except String FeedOrder := do
  let details (key : String) : Except String (Option Json) := do
    let info ← get (← get event "Order") "order_info"
    get (← get info "order_info_status") key
  let nextOrder (status : OrderInfoStatus) : FeedOrder :=
    { orderId, order, status, finalizationInfo := none, unlockAuthority := none }
  match status with
  | .created =>
    let finalizationInfo ← get (← details "Created") "finalization_info"
    return { nextOrder .created with finalizationInfo }
  | .archivalCreated => return nextOrder .archivalCreated
  | .archivalFulfilled =>
    let unlockAuthority ← get (← details "ArchivalFulfilled") "unlock_authority"
    return { nextOrder .archivalFulfilled with unlockAuthority }
  | .fulfilled =>
    let unlockAuthority ← get (← details "Fulfilled") "unlock_authority"
    return { nextOrder .fulfilled with unlockAuthority }
  | .cancelled => return nextOrder .cancelled
  | .unlockSent => return nextOrder .unlockSent
  | .unlockClaim => return nextOrder .unlockClaim
  | .takeOfferDecreased => return nextOrder .takeOfferDecreased
  | .giveOfferIncreased => return nextOrder .giveOfferIncreased

/-- The calls of the processor so far, which an exception does not undo. -/
abbrev Handling := ExceptT String (StateM (List FeedOrder))

def processNextOrder (order : FeedOrder) : Handling Unit :=
  modify fun calls => calls ++ [order]

def parseEvent (message : List Char) : Option Json := Json.parse message

def handleEvent (message : List Char) : Handling Unit := do
  match parseEvent message with
  | none => return ()
  | some data =>
    if data.isObject = false then return ()
    if (← hasProperty (some data) "Order") = false then return ()
    let info ← get (← get (some data) "Order") "order_info"
    match ← flattenStatus info with
    | none => return ()
    | some status =>
      let orderId ← get info "order_id"
      let order ← wsOrderToOrderData env info
      let nextOrderInfo ← transformToNextOrderInfo status orderId order (some data)
      processNextOrder nextOrderInfo

end WsNextOrder

/-! ### A decoder -/

namespace Sample

def withoutMark : List Char → List Char
  | '0' :: 'x' :: digits => digits
  | digits => digits

/-- What cannot be decoded makes it throw. -/
def hexToBuffer : Option Json → Except String (List UInt8)
  | some (.str text) =>
    match Hex.decode (withoutMark (chars text)) with
    | some bytes => .ok bytes
    | none => .error "TypeError"
  | _ => .error "TypeError"

def feedEnv : FeedEnv where
  runtime := ⟨fun _ => [], 2 ^ 32⟩
  hexToBuffer := hexToBuffer

end Sample

end DlnTaker
