import DlnTaker.Feed.Orders
import DlnTaker.Library.Fallible

/-! # Messages that the feed survives

Which messages the handler of the socket gets through without an exception, and
when it calls the processor. A message that is `null`, or an event that lacks
what is read of it, is not among them.
-/

namespace DlnTaker

open Json Fallible

namespace WsNextOrder

variable {env : FeedEnv} {value info event : Option Json} {members : List (JsString × Json)}
  {message : List Char}

/-! ### What can be decoded -/

/-- Properties can be read of the value. -/
def Readable (value : Option Json) : Prop := value ≠ none ∧ value ≠ some .null

def DecodableBuffer (env : FeedEnv) (value : Option Json) : Prop :=
  ∃ bytes, env.hexToBuffer value = .ok bytes

/-- A buffer that holds a number of 256 bits. -/
def DecodableNumber (env : FeedEnv) (value : Option Json) : Prop :=
  ∃ bytes, env.hexToBuffer value = .ok bytes ∧ 32 ≤ bytes.length

structure DecodableOffer (env : FeedEnv) (info : Option Json) : Prop where
  readable : Readable info
  amount : DecodableNumber env (property info "amount")
  chainId : DecodableNumber env (property info "chain_id")
  tokenAddress : DecodableBuffer env (property info "token_address")

def DecodableCall (env : FeedEnv) (info hash : Option Json) : Prop :=
  truthy hash = true → (∃ bytes, uint8ArrayFrom env.runtime hash = .ok bytes) ∧
    (truthy (property info "extcall") = true →
      ∃ bytes, uint8ArrayFrom env.runtime (property info "extcall") = .ok bytes)

/-- Every field of an order can be decoded. -/
structure DecodableOrder (env : FeedEnv) (info : Option Json) : Prop where
  readable : Readable (property info "order")
  nonce : ∃ n, toBigInt env.runtime (property (property info "order") "maker_order_nonce") = .ok n
  give : DecodableOffer env (property (property info "order") "give")
  take : DecodableOffer env (property (property info "order") "take")
  buffers : ∀ key ∈ ["give_patch_authority_src", "maker_src", "order_authority_address_dst",
    "receiver_dst"], DecodableBuffer env (property (property info "order") key)
  optionalBuffers : ∀ key ∈ ["allowed_cancel_beneficiary_src", "allowed_taker_dst"],
    truthy (property (property info "order") key) = true →
      DecodableBuffer env (property (property info "order") key)
  extcall : Readable (property (property info "order") "extcall")
  externalCall : DecodableCall env info
    (property (property (property info "order") "extcall") "hash")

/-- The first status of the enumeration among the keys. -/
def statusOf (statuses : List (JsString × Json)) : Option WsOrderInfoStatus :=
  WsOrderInfoStatus.all.find? fun status => (find? statuses (name status.key)).isSome

/-- A property of the status itself is read. -/
def WsOrderInfoStatus.hasDetails : WsOrderInfoStatus → Bool
  | created | archivalFulfilled | fulfilled => true
  | _ => false

/-- The event has a status, and if it is a known one, the order can be decoded and the details of
the status can be read. -/
def HandleableInfo (env : FeedEnv) (info : Option Json) : Prop :=
  match property info "order_info_status" with
  | some (.arr _) => True
  | some (.obj statuses) => ∀ status, statusOf statuses = some status →
    DecodableOrder env info ∧ (status.hasDetails = true →
      property (some (.obj statuses)) status.key ≠ some .null)
  | _ => False

/-- The message is no JSON, or a value other than `null` that carries no order, or one that carries
an order with all that is read of it. -/
def Handleable (env : FeedEnv) : Option Json → Prop
  | some .null => False
  | some (.obj members) => ∀ event, find? members (name "Order") = some event →
    HandleableInfo env (property (some event) "order_info")
  | _ => True

/-- The message is an object with an order that has a known status and can be decoded. -/
def Carries (env : FeedEnv) (data : Option Json) : Prop :=
  ∃ members event statuses status order, data = some (.obj members) ∧
    find? members (name "Order") = some event ∧
    property (property (some event) "order_info") "order_info_status" = some (.obj statuses) ∧
    statusOf statuses = some status ∧
    wsOrderToOrderData env (property (some event) "order_info") = .ok order

/-- How the handling of a message ends, and with which calls of the processor. -/
def handled (env : FeedEnv) (message : List Char) : Except String Unit × List FeedOrder :=
  ((handleEvent env message).run.run []).run

/-! ### Decoding -/

theorem get_isOk {key : String} {P : Option Json → Prop} :
    (∃ result, get value key = .ok result ∧ P result) ↔
      Readable value ∧ P (property value key) := by
  constructor
  · rintro ⟨result, h, hP⟩
    obtain ⟨hne, hnull, rfl⟩ := get_ok.mp h
    exact ⟨⟨hne, hnull⟩, hP⟩
  · rintro ⟨⟨hne, hnull⟩, hP⟩
    exact ⟨_, get_ok.mpr ⟨hne, hnull, rfl⟩, hP⟩

theorem wsOfferToOffer_isOk :
    (∃ offer, wsOfferToOffer env info = .ok offer) ↔ DecodableOffer env info := by
  simp only [wsOfferToOffer, decodeChainId, fromHexBEString, bind_isOk, pure_isOk, get_isOk,
    exists_and_right, U256.fromBytesBE_isOk, and_true]
  constructor
  · rintro ⟨hreadable, bytes, hbytes, hle, -, hchain, -, htoken⟩
    exact ⟨hreadable, ⟨bytes, hbytes, hle⟩, hchain, htoken⟩
  · rintro ⟨hreadable, ⟨bytes, hbytes, hle⟩, hchain, htoken⟩
    exact ⟨hreadable, bytes, hbytes, hle, hreadable, hchain, hreadable, htoken⟩

theorem optionalBuffer_isOk : (∃ bytes, optionalBuffer env value = .ok bytes) ↔
    (truthy value = true → DecodableBuffer env value) := by
  unfold optionalBuffer
  split
  · rename_i htruthy
    rw [forall_prop_of_true htruthy, map_isOk]
    rfl
  · rename_i htruthy
    exact iff_of_true ⟨none, rfl⟩ fun h => absurd h htruthy

theorem wsExternalCall_isOk {hash : Option Json} (hinfo : Readable info) :
    (∃ externalCall, wsExternalCall env info hash = .ok externalCall) ↔
      DecodableCall env info hash := by
  unfold wsExternalCall DecodableCall
  split
  · rename_i htruthy
    simp only [bind_isOk, pure_isOk, get_isOk, exists_and_right, and_true, htruthy, forall_const]
    refine and_congr_right fun _ => ?_
    rw [and_iff_right hinfo]
    split
    · rename_i hcall
      rw [forall_prop_of_true hcall]
    · rename_i hcall
      exact iff_of_true ⟨[], rfl⟩ fun h => absurd h hcall
  · rename_i htruthy
    exact iff_of_true ⟨none, rfl⟩ fun h => absurd h htruthy

/-- An order is decoded if and only if each of its fields is. -/
theorem wsOrderToOrderData_isOk (hinfo : Readable info) :
    (∃ order, wsOrderToOrderData env info = .ok order) ↔ DecodableOrder env info := by
  simp only [wsOrderToOrderData, bind_isOk, pure_isOk, get_isOk, exists_and_right, and_true,
    wsOfferToOffer_isOk, optionalBuffer_isOk, wsExternalCall_isOk hinfo]
  constructor
  · rintro ⟨-, hreadable, hnonce, -, hgive, -, htake, -, hpatch, -, hmaker, -, hauthority, -,
      hreceiver, -, hbeneficiary, -, htaker, -, hextcall, hcall⟩
    refine ⟨hreadable, hnonce, hgive, htake, fun key hkey => ?_, fun key hkey => ?_, hextcall,
      hcall⟩
    · simp only [List.mem_cons, List.not_mem_nil, or_false] at hkey
      rcases hkey with rfl | rfl | rfl | rfl
      · exact hpatch
      · exact hmaker
      · exact hauthority
      · exact hreceiver
    · simp only [List.mem_cons, List.not_mem_nil, or_false] at hkey
      rcases hkey with rfl | rfl
      · exact hbeneficiary
      · exact htaker
  · intro h
    have hr := h.readable
    exact ⟨hinfo, hr, h.nonce, hr, h.give, hr, h.take, hr, h.buffers _ (by simp), hr,
      h.buffers _ (by simp), hr, h.buffers _ (by simp), hr, h.buffers _ (by simp), hr,
      h.optionalBuffers _ (by simp), hr, h.optionalBuffers _ (by simp), hr, h.extcall,
      h.externalCall⟩

/-! ### The status -/

theorem readable_of_property {key : String} {found : Json} (h : property value key = some found) :
    Readable value := by
  constructor
  · rintro rfl
    cases h
  · rintro rfl
    cases h

theorem get_of_readable (h : Readable value) (key : String) :
    get value key = .ok (property value key) := get_ok.mpr ⟨h.1, h.2, rfl⟩

theorem flattenStatus_of_arr {items : List Json}
    (h : property info "order_info_status" = some (.arr items)) :
    flattenStatus info = .ok none := by
  unfold flattenStatus
  rw [get_of_readable (readable_of_property h) _, h]
  rfl

theorem flattenStatus_of_obj {statuses : List (JsString × Json)}
    (h : property info "order_info_status" = some (.obj statuses)) :
    flattenStatus info = .ok (statusOf statuses) := by
  unfold flattenStatus
  rw [get_of_readable (readable_of_property h) _, h]
  exact List.findM?_pure (m := Except String) _ _

theorem hasProperty_error (key : String) (harr : ∀ items, value ≠ some (.arr items))
    (hobj : ∀ members, value ≠ some (.obj members)) :
    ∃ err, hasProperty value key = .error err := by
  match value with
  | none => exact ⟨_, rfl⟩
  | some .null => exact ⟨_, rfl⟩
  | some (.bool _) => exact ⟨_, rfl⟩
  | some (.num _) => exact ⟨_, rfl⟩
  | some (.str _) => exact ⟨_, rfl⟩
  | some (.arr items) => exact absurd rfl (harr items)
  | some (.obj members) => exact absurd rfl (hobj members)

/-- No status can be looked for in anything else. -/
theorem flattenStatus_error (harr : ∀ items, property info "order_info_status" ≠ some (.arr items))
    (hobj : ∀ statuses, property info "order_info_status" ≠ some (.obj statuses)) :
    ∃ err, flattenStatus info = .error err := by
  unfold flattenStatus
  cases h : get info "order_info_status" with
  | error err => exact ⟨err, rfl⟩
  | ok status =>
    obtain ⟨-, -, rfl⟩ := get_ok.mp h
    obtain ⟨err, herr⟩ := hasProperty_error WsOrderInfoStatus.archivalCreated.key harr hobj
    refine ⟨err, ?_⟩
    change ((hasProperty _ _ >>= _ : Except String _)) = _
    rw [herr]
    rfl

theorem flattenStatus_isOk : (∃ status, flattenStatus info = .ok status) ↔
    (∃ items, property info "order_info_status" = some (.arr items)) ∨
      ∃ statuses, property info "order_info_status" = some (.obj statuses) := by
  constructor
  · rintro ⟨status, h⟩
    by_contra hnone
    push Not at hnone
    obtain ⟨err, herr⟩ := flattenStatus_error hnone.1 hnone.2
    rw [herr] at h
    cases h
  · rintro (⟨items, h⟩ | ⟨statuses, h⟩)
    · exact ⟨none, flattenStatus_of_arr h⟩
    · exact ⟨_, flattenStatus_of_obj h⟩

theorem property_of_statusOf {statuses : List (JsString × Json)} {status : WsOrderInfoStatus}
    (h : statusOf statuses = some status) : property (some (.obj statuses)) status.key ≠ none := by
  have hfound := List.find?_some h
  intro hnone
  rw [property] at hnone
  rw [hnone] at hfound
  cases hfound

/-- The details of a status are read if and only if the status has any that can be read. -/
theorem transformToNextOrderInfo_isOk {data orderId : Option Json} {order : FeedOrderData}
    {statuses : List (JsString × Json)} {status : WsOrderInfoStatus}
    (hevent : get data "Order" = .ok event) (hinfo : get event "order_info" = .ok info)
    (hstatuses : property info "order_info_status" = some (.obj statuses))
    (hstatus : statusOf statuses = some status) :
    (∃ next, transformToNextOrderInfo status orderId order data = .ok next) ↔
      (status.hasDetails = true → property (some (.obj statuses)) status.key ≠ some .null) := by
  have hget := get_of_readable (readable_of_property hstatuses) "order_info_status"
  rw [hstatuses] at hget
  have hdetails : ∀ key, (do
      let info ← get (← get data "Order") "order_info"
      get (← get info "order_info_status") key : Except String (Option Json)) =
        .ok (property (some (.obj statuses)) key) := by
    intro key
    rw [hevent]
    change (get event "order_info" >>= _) = _
    rw [hinfo]
    change (get info "order_info_status" >>= _) = _
    rw [hget]
    rfl
  have hread : ∀ key : String, (∃ details, get (property (some (.obj statuses)) status.key) key =
      .ok details) ↔ property (some (.obj statuses)) status.key ≠ some .null := by
    intro key
    simp only [get_ok, exists_and_left, exists_eq, and_true]
    exact and_iff_right (property_of_statusOf hstatus)
  cases status with
  | created =>
    simp only [transformToNextOrderInfo, bind_isOk, pure_isOk, hdetails, and_true,
      Except.ok.injEq, exists_eq_left']
    exact (hread "finalization_info").trans (imp_iff_right rfl).symm
  | archivalFulfilled =>
    simp only [transformToNextOrderInfo, bind_isOk, pure_isOk, hdetails, and_true,
      Except.ok.injEq, exists_eq_left']
    exact (hread "unlock_authority").trans (imp_iff_right rfl).symm
  | fulfilled =>
    simp only [transformToNextOrderInfo, bind_isOk, pure_isOk, hdetails, and_true,
      Except.ok.injEq, exists_eq_left']
    exact (hread "unlock_authority").trans (imp_iff_right rfl).symm
  | _ => exact iff_of_true ⟨_, rfl⟩ fun h => by cases h

/-! ### The handler -/

/-- What becomes of an event: the order that is handed to the processor, if there is one. -/
def announced (env : FeedEnv) (data event : Option Json) : Except String (Option FeedOrder) := do
  let info ← get event "order_info"
  match ← flattenStatus info with
  | none => return none
  | some status =>
    let orderId ← get info "order_id"
    let order ← wsOrderToOrderData env info
    some <$> transformToNextOrderInfo status orderId order data

/-- An exception ends the handling, and an order is the one that the processor is called with. -/
def settle : Except String (Option FeedOrder) → Except String Unit × List FeedOrder
  | .error err => (.error err, [])
  | .ok order => (.ok (), order.toList)

theorem run_bind {α : Type} {x : Except String α} {f : α → Handling Unit}
    {g : α → Except String (Option FeedOrder)}
    (h : ∀ a, x = .ok a → ((f a).run.run []).run = settle (g a)) :
    (((liftM x : Handling α) >>= f).run.run []).run = settle (x >>= g) := by
  cases x with
  | error err => rfl
  | ok a => exact h a rfl

/-- The handler throws as the event is read, or else calls the processor with what it announces. -/
theorem handled_announced {event : Json} (hparse : parseEvent message = some (.obj members))
    (hevent : find? members (name "Order") = some event) :
    handled env message = settle (announced env (some (.obj members)) (some event)) := by
  have hhas : hasProperty (some (.obj members)) "Order" = .ok true := by
    simp only [hasProperty, hevent]
    rfl
  have hget : get (some (.obj members)) "Order" = .ok (some event) := by
    simp only [Json.get, property, hevent]
  unfold handled handleEvent announced
  rw [hparse]
  simp only [hhas, hget]
  refine run_bind fun info hinfo => run_bind fun status hstatus => ?_
  cases status with
  | none => rfl
  | some status =>
    refine run_bind fun orderId horderId => run_bind fun order horder => ?_
    cases htransform : transformToNextOrderInfo status orderId order (some (.obj members)) with
    | error err => rfl
    | ok next => rfl

/-- An event with a known status is read as its order and the details of the status are. -/
theorem announced_of_status {data : Option Json} {event : Json}
    {statuses : List (JsString × Json)} {status : WsOrderInfoStatus}
    (hinfo : get (some event) "order_info" = .ok info)
    (hstatuses : property info "order_info_status" = some (.obj statuses))
    (hstatus : statusOf statuses = some status) :
    announced env data (some event) = (do
      let orderId ← get info "order_id"
      let order ← wsOrderToOrderData env info
      some <$> transformToNextOrderInfo status orderId order data) := by
  unfold announced
  rw [hinfo]
  change (flattenStatus info >>= _) = _
  rw [flattenStatus_of_obj hstatuses, hstatus]
  rfl

/-- Without a known status there is nothing to be read. -/
theorem announced_of_none {data : Option Json} {event : Json}
    (hinfo : get (some event) "order_info" = .ok info) (hstatus : flattenStatus info = .ok none) :
    announced env data (some event) = .ok none := by
  unfold announced
  rw [hinfo]
  change (flattenStatus info >>= _) = _
  rw [hstatus]
  rfl

/-- An event is read without an exception if and only if it can be handled. -/
theorem announced_isOk {data : Option Json} {event : Json}
    (hdata : get data "Order" = .ok (some event)) :
    (∃ order, announced env data (some event) = .ok order) ↔
      HandleableInfo env (property (some event) "order_info") := by
  by_cases hflat : ∃ status, flattenStatus (property (some event) "order_info") = .ok status
  · have hreadable : Readable (property (some event) "order_info") :=
      (flattenStatus_isOk.mp hflat).elim (fun h => h.elim fun _ => readable_of_property)
        fun h => h.elim fun _ => readable_of_property
    obtain ⟨info, hsome⟩ := Option.ne_none_iff_exists'.mp hreadable.1
    have hinfo := get_of_readable (readable_of_property hsome) "order_info"
    unfold HandleableInfo
    rcases flattenStatus_isOk.mp hflat with ⟨items, harr⟩ | ⟨statuses, hobj⟩
    · rw [harr]
      exact iff_of_true ⟨none, announced_of_none hinfo (flattenStatus_of_arr harr)⟩ trivial
    · rw [hobj]
      cases hstatus : statusOf statuses with
      | none =>
        refine iff_of_true ⟨none, announced_of_none hinfo ?_⟩ fun status h => ?_
        · rw [flattenStatus_of_obj hobj, hstatus]
        · rw [hstatus] at h
          cases h
      | some status =>
        rw [announced_of_status hinfo hobj hstatus]
        simp only [bind_isOk, map_isOk, exists_and_right,
          transformToNextOrderInfo_isOk hdata hinfo hobj hstatus,
          wsOrderToOrderData_isOk hreadable]
        rw [and_iff_right ⟨_, get_of_readable hreadable "order_id"⟩]
        constructor
        · intro h status' heq
          rw [hstatus] at heq
          obtain rfl := Option.some.inj heq
          exact h
        · exact fun h => h status hstatus
  · constructor
    · rintro ⟨order, h⟩
      obtain ⟨info, hinfo, h⟩ := bind_eq_ok.mp h
      obtain ⟨-, -, rfl⟩ := get_ok.mp hinfo
      obtain ⟨status, hstatus, -⟩ := bind_eq_ok.mp h
      exact absurd ⟨status, hstatus⟩ hflat
    · intro h
      unfold HandleableInfo at h
      split at h
      · rename_i harr
        exact absurd (flattenStatus_isOk.mpr (.inl ⟨_, harr⟩)) hflat
      · rename_i hobj
        exact absurd (flattenStatus_isOk.mpr (.inr ⟨_, hobj⟩)) hflat
      · exact h.elim

/-- What is announced is an order with a known status that has been decoded. -/
theorem carries_of_announced {event : Json} {order : FeedOrder}
    (hevent : find? members (name "Order") = some event)
    (h : announced env (some (.obj members)) (some event) = .ok (some order)) :
    Carries env (some (.obj members)) := by
  unfold announced at h
  obtain ⟨info, hinfo, h⟩ := bind_eq_ok.mp h
  obtain ⟨-, -, rfl⟩ := get_ok.mp hinfo
  obtain ⟨found, hfound, h⟩ := bind_eq_ok.mp h
  cases found with
  | none => cases h
  | some status =>
    obtain ⟨orderId, -, h⟩ := bind_eq_ok.mp h
    obtain ⟨decoded, hdecoded, -⟩ := bind_eq_ok.mp h
    rcases flattenStatus_isOk.mp ⟨_, hfound⟩ with ⟨items, harr⟩ | ⟨statuses, hobj⟩
    · cases (flattenStatus_of_arr harr).symm.trans hfound
    · have hstatus := Except.ok.inj ((flattenStatus_of_obj hobj).symm.trans hfound)
      exact ⟨members, event, statuses, status, decoded, rfl, hevent, hobj, hstatus, hdecoded⟩

/-- What the handler should do with a message: it does not throw, and it calls the processor at most
once, for a message that carries an order. -/
def Survived (env : FeedEnv) (message : List Char) : Prop :=
  (handled env message).1 = .ok () ∧ (handled env message).2.length ≤ 1 ∧
    ((handled env message).2 ≠ [] → Carries env (parseEvent message))

theorem survived_of_quiet (h : handled env message = (.ok (), [])) : Survived env message := by
  unfold Survived
  rw [h]
  exact ⟨rfl, Nat.zero_le 1, fun hne => absurd rfl hne⟩

/-- A message with an event is survived if and only if the event can be handled. -/
theorem survived_iff_of_event {event : Json} (hparse : parseEvent message = some (.obj members))
    (hevent : find? members (name "Order") = some event) :
    Survived env message ↔ HandleableInfo env (property (some event) "order_info") := by
  have hget : get (some (.obj members)) "Order" = .ok (some event) := by
    simp only [Json.get, property, hevent]
  rw [← announced_isOk hget, Survived, handled_announced hparse hevent, hparse]
  cases hannounced : announced env (some (.obj members)) (some event) with
  | error err =>
    refine iff_of_false (fun h => by cases h.1) ?_
    rintro ⟨order, ⟨⟩⟩
  | ok order =>
    refine iff_of_true ⟨rfl, ?_⟩ ⟨order, rfl⟩
    cases order with
    | none => exact ⟨Nat.zero_le 1, fun hne => absurd rfl hne⟩
    | some order => exact ⟨le_rfl, fun _ => carries_of_announced hevent hannounced⟩

/-- The handler survives exactly the messages that can be handled. -/
theorem handleEvent_survives_iff (env : FeedEnv) (message : List Char) :
    Survived env message ↔ Handleable env (parseEvent message) := by
  cases hparse : parseEvent message with
  | none =>
    refine iff_of_true (survived_of_quiet ?_) trivial
    unfold handled handleEvent
    rw [hparse]
    rfl
  | some data =>
    cases data with
    | null =>
      refine iff_of_false (fun h => ?_) id
      have hok := h.1
      unfold handled handleEvent at hok
      rw [hparse] at hok
      cases hok
    | obj members =>
      cases hevent : find? members (name "Order") with
      | none =>
        refine iff_of_true (survived_of_quiet ?_) fun event h => ?_
        · unfold handled handleEvent
          rw [hparse]
          simp only [hasProperty, hevent]
          rfl
        · rw [hevent] at h
          cases h
      | some event =>
        rw [survived_iff_of_event hparse hevent]
        constructor
        · intro h event' hevent'
          obtain rfl := Option.some.inj (hevent.symm.trans hevent')
          exact h
        · exact fun h => h event hevent
    | _ =>
      refine iff_of_true (survived_of_quiet ?_) trivial
      unfold handled handleEvent
      rw [hparse]
      rfl

/-- The message `null` is parsed to a value of type `object`. -/
theorem null_not_survived : ¬ Survived Sample.feedEnv "null".toList := by
  intro h
  have hok := h.1
  have hparse : parseEvent "null".toList = some .null := rfl
  unfold handled handleEvent at hok
  rw [hparse] at hok
  cases hok

end WsNextOrder

end DlnTaker
