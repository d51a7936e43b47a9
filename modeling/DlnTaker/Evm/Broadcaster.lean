import Mathlib.Data.List.Infix
import DlnTaker.Evm.Fees
import DlnTaker.Library.Machine

/-! # The EVM transaction broadcaster

A run of `broadcastAndWait` is a machine that waits for one answer at a time: of
the node, of the signer or of a timer. Every answer is an input, so a run may
meet any sequence of outcomes. What a run is judged by is kept in its journal.
-/

namespace DlnTaker

namespace Evm

inductive EvmRpcError
  | nonceTooLow | transactionUnderpriced | stuck | other
  deriving DecidableEq, Repr

/-- `stringifiedError.match(/pattern/i)`, for a pattern in lower case. -/
def mentions (stringifiedError pattern : String) : Bool :=
  pattern.toList <:+: stringifiedError.toList.map Char.toLower

def stringToError (stringifiedError : String) : EvmRpcError :=
  if mentions stringifiedError "too low" ∧ mentions stringifiedError "nonce" then .nonceTooLow
  else if mentions stringifiedError "underpriced" ∨ mentions stringifiedError "too low" then
    .transactionUnderpriced
  else if mentions stringifiedError "not mined" then .stuck
  else .other

/-- How the provider calls back. -/
inductive RpcResponse (α : Type)
  | failed (err : String)
  | error (message : String)
  | result (result : Option α)
  deriving DecidableEq, Repr

def rpcCall {α : Type} (method : String) : RpcResponse α → Except String (Option α)
  | .failed err => .error s!"Error: rpc call {method} failed: {err}"
  | .error message =>
    -- an empty message is falsy, as an absent one
    if message = "" then .ok none
    else .error s!"Error: rpc call {method} returned error: {message}"
  | .result result => .ok result

/-- The status field of a receipt as nodes deliver it. -/
inductive RpcStatus
  | bool (b : Bool)
  | number (n : ℤ)
  | string (s : String)
  deriving DecidableEq, Repr

def evmRpcTrueValues : List RpcStatus :=
  [.bool true, .string "true", .number 1, .string "1", .string "0x1", .number 1]

def evmRpcFalseValues : List RpcStatus :=
  [.bool false, .string "false", .number 0, .string "0", .string "0x0", .number 0]

structure RpcReceipt where
  transactionHash : String
  status : RpcStatus
  deriving DecidableEq, Repr

structure TransactionReceipt where
  transactionHash : String
  status : Bool
  deriving DecidableEq, Repr

/-- The text of a rejection is only logged; of an unexpected status it is cut short. -/
def getTransactionReceipt (txHash : String) (response : RpcResponse RpcReceipt) :
    Except String TransactionReceipt :=
  match rpcCall "eth_getTransactionReceipt" response with
  | .error err => .error err
  | .ok none => .error s!"Error: receipt for {txHash} not found"
  | .ok (some txReceipt) =>
    if txReceipt.status ∈ evmRpcTrueValues then .ok ⟨txReceipt.transactionHash, true⟩
    else if txReceipt.status ∈ evmRpcFalseValues then .ok ⟨txReceipt.transactionHash, false⟩
    else .error "Error: unexpected receipt status"

structure InputTx where
  «from» : String
  data : String
  «to» : String
  value : Option String
  deriving DecidableEq, Repr

structure EvmTxBroadcasterOpts where
  sendMaxAttempts : ℤ
  pollingMaxAttempts : ℤ

variable {market : FeeMarket}

structure BroadcasterConfig (market : FeeMarket) where
  inputTx : InputTx
  cappedFee : Option ℤ
  feeManager : EvmFeeManager market
  opts : EvmTxBroadcasterOpts
  pollImmediately : Bool

structure InitiatedBroadcastAttempt (market : FeeMarket) where
  tx : PopulatedTxn market
  attempt : ℕ
  hash : Option String
  deriving DecidableEq, Repr

/-- What the run waits for. -/
inductive Phase (market : FeeMarket)
  | blockNumber (useNonce : Option ℕ)
  | template (useNonce nonce : Option ℕ) (gas : Option ℤ)
  | populating (template : TransactionTemplate) (gasCategory : GasCategory)
  | replacing (broadcast : InitiatedBroadcastAttempt market) (gasCategory : GasCategory)
  | capping (tx : PopulatedTxn market)
  | signing (broadcast : InitiatedBroadcastAttempt market)
  | publishing (broadcast : InitiatedBroadcastAttempt market)
  | waiting (broadcast : InitiatedBroadcastAttempt market) (txHash : String) (pollingAttempt : ℕ)
  | polling (broadcast : InitiatedBroadcastAttempt market) (txHash : String) (pollingAttempt : ℕ)
  | seeking (previousError : String) (hashes : List String)
  | resolved (receipt : TransactionReceipt)
  | rejected (err : String)
  deriving DecidableEq, Repr

/-- What the run does and learns, for the properties of whole runs. -/
inductive Entry (market : FeeMarket)
  | feesRequested (gasCategory : GasCategory)
  | signed (attempt : ℕ) (tx : PopulatedTxn market)
  | accepted (tx : PopulatedTxn market) (txHash : String)
  | refused (tx : PopulatedTxn market) (error : EvmRpcError)
  | polled (txHash : String) (receipt : Except String TransactionReceipt)
  | sought (txHash : String) (receipt : Except String TransactionReceipt)
  deriving DecidableEq

structure Broadcaster (market : FeeMarket) where
  phase : Phase market
  broadcasts : List (InitiatedBroadcastAttempt market)
  journal : List (Entry market)

/-- The answer to what a run waits for. -/
inductive Answer (market : FeeMarket)
  | blockNumber (answer : Except String ℕ)
  | transactionCount (answer : Except String ℕ)
  | estimateGas (answer : Except String ℕ)
  | fees (answer : Except String (NodeFees market))
  | signature (answer : Except String String)
  | sendRawTransaction (response : RpcResponse String)
  | timeout
  | receipt (response : RpcResponse RpcReceipt)
  | receipts (responses : List (RpcResponse RpcReceipt))

namespace Broadcaster

variable (config : BroadcasterConfig market) (b : Broadcaster market)

/-- `getTransactionTemplate` begins; a nonce of zero is falsy, as an absent one. -/
def getTransactionTemplate (useNonce : Option ℕ) : Broadcaster market :=
  { b with phase := .blockNumber (useNonce.filter (· ≠ 0)) }

def initial : Broadcaster market where
  phase := .blockNumber none
  broadcasts := []
  journal := []

def emit (e : Entry market) : Broadcaster market := { b with journal := b.journal ++ [e] }

def await (phase : Phase market) : Broadcaster market := { b with phase }

def seekSuccessfulBroadcast (previousError : String) : Broadcaster market :=
  match b.broadcasts.dropLast.filterMap (·.hash) with
  | [] => b.await (.rejected previousError)
  | hashes => b.await (.seeking previousError hashes)

/-- The receipts sought for have all been answered. -/
def selectReceipt (previousError : String) (receipts : List (Except String TransactionReceipt)) :
    Phase market :=
  let fulfilled := receipts.filterMap Except.toOption
  match fulfilled.find? (·.status) with
  | some anySuccessful => .resolved anySuccessful
  | none =>
    match fulfilled.reverse.find? (!·.status) with
    | some lastUnsuccessful => .resolved lastUnsuccessful
    | none => .rejected previousError

/-- A rejection where nothing has been pushed yet is not followed by a search. -/
def fail (useNonce : Option ℕ) (err : String) : Broadcaster market :=
  if useNonce.isSome then b.seekSuccessfulBroadcast err else b.await (.rejected err)

def initiateBroadcast (tx : PopulatedTxn market) : Broadcaster market :=
  let broadcast : InitiatedBroadcastAttempt market :=
    { tx, attempt := b.broadcasts.length + 1, hash := none }
  if (broadcast.attempt : ℤ) > config.opts.sendMaxAttempts then
    b.seekSuccessfulBroadcast
      s!"Error: reached max broadcast attempts ({config.opts.sendMaxAttempts})"
  else
    { b with broadcasts := b.broadcasts ++ [broadcast] }.emit (.signed broadcast.attempt tx)
      |>.await (.signing broadcast)

/-- The fees are known: check them against the cap, which may take another estimation. -/
def checkCappingAndPopulate (tx : PopulatedTxn market) (gasLimit : ℤ) : Broadcaster market :=
  match config.feeManager.checkCapping gasLimit tx.extension.price config.cappedFee with
  | .error err => b.seekSuccessfulBroadcast err
  | .ok () => b.initiateBroadcast config tx

def populated (tx : PopulatedTxn market) : Broadcaster market :=
  if (EvmFeeManager.effectiveCap config.cappedFee).isSome ∧ tx.gas = 0 then b.await (.capping tx)
  else b.checkCappingAndPopulate config tx tx.gas

def pushTransaction (template : TransactionTemplate) : Broadcaster market :=
  let gasCategory := config.feeManager.effectiveGasCategory none
  b.emit (.feesRequested gasCategory) |>.await (.populating template gasCategory)

def pushReplacementTransaction (broadcast : InitiatedBroadcastAttempt market) :
    Broadcaster market :=
  let isLastAttempt := config.opts.sendMaxAttempts = broadcast.attempt + 1
  let desiredGasCategory := if isLastAttempt then some .aggressive else none
  let gasCategory := config.feeManager.effectiveGasCategory desiredGasCategory
  b.emit (.feesRequested gasCategory) |>.await (.replacing broadcast gasCategory)

/-- Go on when both parts of the template are there. -/
def templateReady (useNonce nonce : Option ℕ) (gas : Option ℤ) : Broadcaster market :=
  match nonce, gas with
  | some nonce, some gas =>
    let tx := config.inputTx
    b.pushTransaction config ⟨tx.from, tx.to, tx.data, tx.value, gas, nonce⟩
  | nonce, gas => b.await (.template useNonce nonce gas)

def handleBroadcastRejection (broadcast : InitiatedBroadcastAttempt market) (err : String) :
    Broadcaster market :=
  let evmRpcErrorCode := stringToError err
  let b := b.emit (.refused broadcast.tx evmRpcErrorCode)
  match evmRpcErrorCode with
  | .nonceTooLow => b.getTransactionTemplate (some (broadcast.tx.nonce + 1))
  | .transactionUnderpriced | .stuck => b.pushReplacementTransaction config broadcast
  | .other => b.seekSuccessfulBroadcast err

/-- The node returned a hash, which is kept in the broadcast; polling begins. -/
def handleBroadcastSuccess (broadcast : InitiatedBroadcastAttempt market) (txHash : String) :
    Broadcaster market :=
  let stored := b.broadcasts.map fun known =>
    if known.attempt = broadcast.attempt then { known with hash := some txHash } else known
  let b := { b with broadcasts := stored }.emit (.accepted broadcast.tx txHash)
  let broadcast := { broadcast with hash := some txHash }
  if config.pollImmediately then b.await (.polling broadcast txHash 1)
  else b.await (.waiting broadcast txHash 0)

def scheduleNextPoll (broadcast : InitiatedBroadcastAttempt market) (txHash : String)
    (pollingAttempt : ℕ) : Broadcaster market :=
  if (pollingAttempt : ℤ) ≥ config.opts.pollingMaxAttempts then
    b.pushReplacementTransaction config broadcast
  else b.await (.waiting broadcast txHash pollingAttempt)

end Broadcaster

open Broadcaster in
/-- The run goes on with the answer it waits for; it takes no other. -/
def broadcasterStep (config : BroadcasterConfig market) (b : Broadcaster market) :
    Answer market → Option (Broadcaster market)
  | .blockNumber answer =>
    match b.phase, answer with
    | .blockNumber useNonce, .ok _ => some (b.await (.template useNonce useNonce none))
    | .blockNumber useNonce, .error err => some (b.fail useNonce err)
    | _, _ => none
  | .transactionCount answer =>
    match b.phase, answer with
    | .template none none gas, .ok count => some (b.templateReady config none (some count) gas)
    | .template none none _, .error err => some (b.fail none err)
    | _, _ => none
  | .estimateGas answer =>
    match b.phase, answer with
    | .template useNonce nonce none, .ok gas =>
      some (b.templateReady config useNonce nonce (some (config.feeManager.estimateTx gas)))
    | .template useNonce _ none, .error err => some (b.fail useNonce err)
    | .capping tx, .ok gas =>
      some (b.checkCappingAndPopulate config tx (config.feeManager.estimateTx gas))
    | .capping _, .error err => some (b.seekSuccessfulBroadcast err)
    | _, _ => none
  | .fees answer =>
    match b.phase, answer with
    | .populating template gasCategory, .ok fees =>
      some (b.populated config (config.feeManager.populateTx template gasCategory fees))
    | .replacing broadcast gasCategory, .ok fees =>
      let template := broadcast.tx.toTransactionTemplate
      some (b.populated config
        (config.feeManager.populateReplacementTx template broadcast.tx gasCategory fees))
    | .populating _ _, .error err | .replacing _ _, .error err =>
      some (b.seekSuccessfulBroadcast err)
    | _, _ => none
  | .signature answer =>
    match b.phase, answer with
    | .signing broadcast, .ok _ => some (b.await (.publishing broadcast))
    | .signing broadcast, .error err => some (b.handleBroadcastRejection config broadcast err)
    | _, _ => none
  | .sendRawTransaction response =>
    match b.phase with
    | .publishing broadcast =>
      match rpcCall "eth_sendRawTransaction" response with
      | .error err => some (b.handleBroadcastRejection config broadcast err)
      | .ok txHash =>
        match txHash.filter (· ≠ "") with
        | some txHash => some (b.handleBroadcastSuccess config broadcast txHash)
        | none =>
          some (b.handleBroadcastRejection config broadcast
            "Error: publishing returned empty result")
    | _ => none
  | .timeout =>
    match b.phase with
    | .waiting broadcast txHash pollingAttempt =>
      some (b.await (.polling broadcast txHash (pollingAttempt + 1)))
    | _ => none
  | .receipt response =>
    match b.phase with
    | .polling broadcast txHash pollingAttempt =>
      let receipt := getTransactionReceipt txHash response
      let b := b.emit (.polled txHash receipt)
      match receipt with
      | .ok txReceipt => some (b.await (.resolved txReceipt))
      | .error _ => some (b.scheduleNextPoll config broadcast txHash pollingAttempt)
    | _ => none
  | .receipts responses =>
    match b.phase with
    | .seeking previousError hashes =>
      if responses.length = hashes.length then
        let receipts := hashes.zipWith getTransactionReceipt responses
        let sought := (hashes.zip receipts).map fun (txHash, receipt) => Entry.sought txHash receipt
        some { b with
          phase := selectReceipt previousError receipts
          journal := b.journal ++ sought }
      else none
    | _ => none

/-- A run of `broadcastAndWait`. -/
def broadcaster (config : BroadcasterConfig market) :
    Machine (Broadcaster market) (Answer market) where
  init := .initial
  step := broadcasterStep config

/-! A legacy chain for runs on fixed inputs. -/

namespace Sample

def config : BroadcasterConfig .legacy where
  inputTx := ⟨"0x1", "0x", "0x2", none⟩
  cappedFee := none
  feeManager := ⟨defaultFeeManagerOpts⟩
  opts := ⟨4, 1⟩
  pollImmediately := false

/-- Up to the signature of the first transaction. -/
def signed : List (Answer .legacy) :=
  [.blockNumber (.ok 1), .transactionCount (.ok 5), .estimateGas (.ok 21000),
    .fees (.ok (.gasPrice 100)), .signature (.ok "0x")]

end Sample

end Evm

end DlnTaker
