import DlnTaker.Feed.Connection

/-! # Reconnections of the feed

At any time one ping timer is armed and all sockets but the newest are given up.
A socket that opens is sent all commands once, so that no reconnection loses the
subscription or the orders of a cold start. The feed reconnects if and only if
nothing was heard of the connection for three seconds.
-/

namespace DlnTaker

open Journal

namespace WsNextOrder

open WsConnection

variable {config : FeedConfig} {c c' : WsConnection} {log : List (ℕ × FeedEffect)}
  {e : ℕ × FeedEffect} {i : ℕ}

/-! ### What the journal says -/

def createdSocket? : ℕ × FeedEffect → Option ℕ
  | (_, .created i) => some i
  | _ => none

def isCreated (e : ℕ × FeedEffect) : Bool := (createdSocket? e).isSome

def disconnectedAt? : ℕ × FeedEffect → Option ℕ
  | (time, .disconnected _) => some time
  | _ => none

def isConnected : ℕ × FeedEffect → Bool
  | (_, .connected _) => true
  | _ => false

def command? (i : ℕ) : ℕ × FeedEffect → Option Command
  | (_, .sent j command) => if j = i then some command else none
  | _ => none

/-- The commands that were sent to a socket. -/
def sentTo (i : ℕ) (log : List (ℕ × FeedEffect)) : List Command := log.filterMap (command? i)

/-- The sockets that were created. -/
def createdSockets (log : List (ℕ × FeedEffect)) : List ℕ := log.filterMap createdSocket?

/-- A new socket follows the termination of all others; the hook of a connection is called once for
a socket, with the time since the last disconnection; the hook of a disconnection is called after
three seconds without a heartbeat; commands go to the newest socket. -/
def Orderly (config : FeedConfig) (pre : List (ℕ × FeedEffect)) (e : ℕ × FeedEffect) : Prop :=
  match e.2 with
  | .created i => i = (createdSockets pre).length ∧ ∀ j < i, ∃ time, (time, .terminated j) ∈ pre
  | .connected message =>
    message = connectedMessage config (latest disconnectedAt? pre) e.1 ∧
      ∀ x ∈ since (isCreated · = true) pre, isConnected x = false
  | .disconnected _ => ∀ time, (time, .armed) ∈ pre → time + pingTimeoutMs ≤ e.1
  | .terminated i | .sent i _ => latest createdSocket? pre = some i
  | .armed | .processed _ => True

/-- The armed timer is the one that is remembered, and is due three seconds after the last
heartbeat. -/
def Armed (c : WsConnection) : Prop :=
  ∃ timer time, c.timers = [timer] ∧ c.pingTimer = some timer.id ∧
    timer.due = time + pingTimeoutMs ∧ (time, .armed) ∈ c.log ∧
    ∀ time', (time', .armed) ∈ c.log → time' ≤ time

/-- What holds of the sockets and the journal after every effect. -/
structure Tidy (config : FeedConfig) (c : WsConnection) : Prop where
  newest : c.socket + 1 = c.sockets.length
  others : ∀ i socket, c.sockets[i]? = some socket → i ≠ c.socket → socket.readyState = .closed
  created : createdSockets c.log = List.range c.sockets.length
  terminated : ∀ j < c.socket, ∃ time, (time, .terminated j) ∈ c.log
  greeted : ∀ x ∈ since (isCreated · = true) c.log, isConnected x = true →
    c.hasOpened c.socket = true
  disconnect : c.timeLastDisconnect = latest disconnectedAt? c.log
  past : ∀ e ∈ c.log, e.1 ≤ c.now
  orderly : EachEntry (Orderly config) c.log

namespace Tidy

theorem latest_created (h : Tidy config c) : latest createdSocket? c.log = some c.socket := by
  have hc : c.log.filterMap createdSocket? = List.range c.sockets.length := h.created
  rw [latest, hc, ← h.newest, List.range_succ, List.getLast?_concat]

theorem tick (h : Tidy config c) (ms : ℕ) : Tidy config { c with now := c.now + ms } where
  newest := h.newest
  others := h.others
  created := h.created
  terminated := h.terminated
  greeted := h.greeted
  disconnect := h.disconnect
  past e he := (h.past e he).trans (Nat.le_add_right _ _)
  orderly := h.orderly

/-- Any effect but the creation of a socket. -/
theorem emit (h : Tidy config c) (effect : FeedEffect) {timeLastDisconnect : Option ℕ}
    (hcreated : createdSocket? (c.now, effect) = none)
    (ho : Orderly config c.log (c.now, effect))
    (hconnected : isConnected (c.now, effect) = true → c.hasOpened c.socket = true)
    (hdisconnect : timeLastDisconnect =
      (disconnectedAt? (c.now, effect)).or c.timeLastDisconnect) :
    Tidy config { c.emit effect with timeLastDisconnect } where
  newest := h.newest
  others := h.others
  created := by
    simpa [WsConnection.emit, createdSockets, List.filterMap_append, hcreated] using h.created
  terminated j hj := by
    obtain ⟨time, hm⟩ := h.terminated j hj
    exact ⟨time, List.mem_append_left _ hm⟩
  greeted x hx hconn := by
    rw [WsConnection.emit, since_concat_of_neg (by simp [isCreated, hcreated]), List.mem_append,
      List.mem_singleton] at hx
    rcases hx with hx | rfl
    · exact h.greeted x hx hconn
    · exact hconnected hconn
  disconnect := by
    rw [WsConnection.emit, latest_concat, ← h.disconnect]
    exact hdisconnect
  past e he := by
    rcases List.mem_append.mp he with he | he
    · exact h.past e he
    · rw [List.mem_singleton.mp he]
      exact le_rfl
  orderly := by
    rw [WsConnection.emit, eachEntry_concat]
    exact ⟨h.orderly, ho⟩

/-- The sockets change, but not their number, and no other one than the newest comes to life. -/
theorem congr (h : Tidy config c) (hlog : c'.log = c.log) (hnow : c'.now = c.now)
    (hsocket : c'.socket = c.socket) (hdisconnect : c'.timeLastDisconnect = c.timeLastDisconnect)
    (hlength : c'.sockets.length = c.sockets.length)
    (hothers : ∀ i socket, c'.sockets[i]? = some socket → i ≠ c.socket →
      socket.readyState = .closed)
    (hopened : c.hasOpened c.socket = true → c'.hasOpened c.socket = true) : Tidy config c' where
  newest := by rw [hsocket, hlength, h.newest]
  others := hsocket ▸ hothers
  created := by rw [hlog, hlength, h.created]
  terminated := by
    rw [hsocket, hlog]
    exact h.terminated
  greeted := by
    rw [hsocket, hlog]
    exact fun x hx hconn => hopened (h.greeted x hx hconn)
  disconnect := by rw [hdisconnect, hlog, h.disconnect]
  past := by
    rw [hlog, hnow]
    exact h.past
  orderly := hlog ▸ h.orderly

theorem heartbeat (h : Tidy config c) : Tidy config c.heartbeat :=
  (h.emit .armed rfl trivial nofun rfl).congr rfl rfl rfl rfl rfl h.others id

theorem setReadyState_closed (h : Tidy config c) (i : ℕ) :
    Tidy config (c.setReadyState i .closed) := by
  refine h.congr rfl rfl rfl rfl (List.length_modify _ _ _) (fun j socket hj hne => ?_) ?_
  · obtain ⟨socket', hsocket', rfl⟩ : ∃ socket', c.sockets[j]? = some socket' ∧ (if i = j then
        { socket' with readyState := .closed } else socket') = socket := by
      simpa [WsConnection.setReadyState, List.getElem?_modify] using hj
    split
    · rfl
    · exact h.others j socket' hsocket' hne
  · rw [hasOpened_setReadyState]
    exact id

theorem processed (h : Tidy config c) (orders : List FeedOrder) :
    Tidy config { c with log := c.log ++ orders.map fun order => (c.now, .processed order) } := by
  induction orders using List.reverseRecOn with
  | nil => simpa using h
  | append_singleton orders order ih =>
    rw [List.map_append, ← List.append_assoc]
    exact ih.emit (.processed order) rfl trivial nofun rfl

/-- All commands go to the newest socket. -/
theorem sentCommands (h : Tidy config c) (commands : List Command) :
    Tidy config (c.sentCommands commands) := by
  unfold WsConnection.sentCommands
  induction commands using List.reverseRecOn with
  | nil => simpa using h
  | append_singleton commands command ih =>
    rw [List.map_append, ← List.append_assoc]
    exact ih.emit (.sent c.socket command) rfl ih.latest_created nofun rfl

/-- A socket is created after the newest one was terminated. -/
theorem initWs (h : Tidy config c) {time : ℕ} (ht : (time, .terminated c.socket) ∈ c.log)
    (hclosed : ∀ socket, c.sockets[c.socket]? = some socket → socket.readyState = .closed) :
    Tidy config c.initWs := by
  have hcreated : Tidy config c.created := by
    refine ⟨?_, ?_, ?_, ?_, ?_, ?_, ?_, ?_⟩
    · simp [WsConnection.created]
    · intro i socket hi hne
      have hne : i ≠ c.sockets.length := hne
      have hi : (c.sockets ++ [⟨.connecting, false⟩])[i]? = some socket := hi
      obtain ⟨hlt, -⟩ := List.getElem?_eq_some_iff.mp hi
      rw [List.length_append, List.length_singleton] at hlt
      rw [List.getElem?_append_left (by omega)] at hi
      by_cases hnewest : i = c.socket
      · exact hclosed socket (hnewest ▸ hi)
      · exact h.others i socket hi hnewest
    · simpa [WsConnection.created, WsConnection.emit, createdSockets, List.filterMap_append,
        createdSocket?, List.range_succ] using h.created
    · intro j hj
      have hj : j < c.sockets.length := hj
      have hnewest := h.newest
      rcases Nat.lt_or_ge j c.socket with hlt | hge
      · obtain ⟨time, hm⟩ := h.terminated j hlt
        exact ⟨time, List.mem_append_left _ hm⟩
      · obtain rfl : j = c.socket := by omega
        exact ⟨time, List.mem_append_left _ ht⟩
    · intro x hx
      have hnone : since (isCreated · = true) c.created.log = [] := since_concat_of_pos rfl
      exact absurd (hnone ▸ hx) List.not_mem_nil
    · rw [WsConnection.created, WsConnection.emit, latest_concat]
      exact h.disconnect
    · intro e he
      rcases List.mem_append.mp he with he | he
      · exact h.past e he
      · rw [List.mem_singleton.mp he]
        exact le_rfl
    · rw [WsConnection.created, WsConnection.emit, eachEntry_concat]
      refine ⟨h.orderly, ?_, fun j hj => ?_⟩
      · rw [h.created, List.length_range]
      · have hnewest := h.newest
        rcases Nat.lt_or_ge j c.socket with hlt | hge
        · exact h.terminated j hlt
        · obtain rfl : j = c.socket := by omega
          exact ⟨time, ht⟩
  exact hcreated.heartbeat

/-- The socket is given up after three seconds without a heartbeat. -/
theorem reconnect (h : Tidy config c) (id : ℕ)
    (hsilent : ∀ time, (time, .armed) ∈ c.log → time + pingTimeoutMs ≤ c.now) :
    Tidy config (c.reconnect id) := by
  have hd : Tidy config (c.disconnected id) :=
    (h.emit (.disconnected "order feed has been disconnected") rfl hsilent nofun rfl).congr
      rfl rfl rfl rfl rfl h.others fun hopened => hopened
  have ht : Tidy config (c.disconnected id).terminate :=
    (hd.emit (.terminated c.socket) rfl hd.latest_created nofun rfl).setReadyState_closed c.socket
  refine ht.initWs (List.mem_append_right _ (List.mem_singleton_self _)) fun socket hs => ?_
  have hs : (c.sockets.modify c.socket fun socket => { socket with readyState := .closed })[
      c.socket]? = some socket := hs
  rw [List.getElem?_modify_eq, Option.map_eq_map] at hs
  obtain ⟨socket', -, rfl⟩ := Option.map_eq_some_iff.mp hs
  rfl

end Tidy

/-! ### The timer and the commands -/

theorem Armed.clearTimeout_eq_nil (h : Armed c) : c.clearTimeout = [] := by
  obtain ⟨timer, time, htimers, hping, -⟩ := h
  simp [clearTimeout, htimers, hping]

theorem armed_heartbeat (hclear : c.clearTimeout = []) (hpast : ∀ e ∈ c.log, e.1 ≤ c.now) :
    Armed c.heartbeat := by
  refine ⟨⟨c.nextTimer, c.now + pingTimeoutMs⟩, c.now, ?_, rfl, rfl, ?_, fun time hm => ?_⟩
  · rw [heartbeat, hclear, List.nil_append]
  · exact List.mem_append_right _ (List.mem_singleton_self _)
  · rcases List.mem_append.mp hm with hm | hm
    · exact hpast _ hm
    · exact (Prod.mk.inj (List.mem_singleton.mp hm)).1.le

theorem Armed.congr (h : Armed c) (htimers : c'.timers = c.timers)
    (hping : c'.pingTimer = c.pingTimer)
    (hlog : ∀ time, (time, .armed) ∈ c'.log ↔ (time, .armed) ∈ c.log) : Armed c' := by
  unfold Armed
  simp only [htimers, hping, hlog]
  exact h

/-- A socket that has been open was sent all commands, and any other none. -/
def Sent (config : FeedConfig) (c : WsConnection) : Prop :=
  ∀ i, sentTo i c.log = if c.hasOpened i then config.commands else []

theorem sentTo_append (i : ℕ) (log log' : List (ℕ × FeedEffect)) :
    sentTo i (log ++ log') = sentTo i log ++ sentTo i log' := List.filterMap_append

theorem sentTo_commands (i j time : ℕ) (commands : List Command) :
    sentTo i (commands.map fun command => (time, .sent j command)) =
      if j = i then commands else [] := by
  induction commands with
  | nil => simp [sentTo]
  | cons command commands ih =>
    rw [List.map_cons, sentTo, List.filterMap_cons, ← sentTo, ih]
    by_cases h : j = i <;> simp [command?, h]

theorem Sent.congr (h : Sent config c) (hlog : ∀ i, sentTo i c'.log = sentTo i c.log)
    (hopened : ∀ i, c'.hasOpened i = c.hasOpened i) : Sent config c' := by
  intro i
  rw [hlog, hopened, h]

/-! ### What a call does -/

/-- What holds between any two calls. -/
structure Live (config : FeedConfig) (c : WsConnection) : Prop where
  tidy : Tidy config c
  armed : Armed c
  sent : Sent config c

def processedOrder? : ℕ × FeedEffect → Option FeedOrder
  | (_, .processed order) => some order
  | _ => none

/-- The orders that were handed to the processor. -/
def processedOrders (log : List (ℕ × FeedEffect)) : List FeedOrder := log.filterMap processedOrder?

/-- The orders of a message. -/
def carried (config : FeedConfig) : FeedInput → List FeedOrder
  | .message _ text => (handled config.env text).2
  | _ => []

namespace Live

theorem initial (config : FeedConfig) : Live config .initial where
  tidy := by
    refine ⟨rfl, fun i socket hi hne => ?_, rfl, fun i hi => absurd hi (Nat.not_lt_zero i),
      fun x hx hconn => ?_, rfl, ?_, ?_⟩
    · have hi : [(⟨.connecting, false⟩ : Socket)][i]? = some socket := hi
      have hlt : i < 1 := (List.getElem?_eq_some_iff.mp hi).1
      exact absurd (Nat.lt_one_iff.mp hlt) hne
    · have hx : x ∈ [(0, .created 0), (0, .armed)] := mem_of_mem_since hx
      simp only [List.mem_cons, List.not_mem_nil, or_false] at hx
      rcases hx with rfl | rfl <;> cases hconn
    · simp [WsConnection.initial, initWs, WsConnection.heartbeat, created, emit]
    · change EachEntry (Orderly config) (([] ++ [(0, .created 0)]) ++ [(0, .armed)])
      rw [eachEntry_concat, eachEntry_concat]
      exact ⟨⟨eachEntry_nil, rfl, fun i hi => absurd hi (Nat.not_lt_zero i)⟩, trivial⟩
  armed := armed_heartbeat rfl (by simp [created, emit])
  sent i := by
    have hopened : WsConnection.initial.hasOpened i = false := by
      change ([(⟨.connecting, false⟩ : Socket)][i]?).any (·.hasOpened) = false
      cases i <;> rfl
    rw [hopened]
    rfl

theorem tick (h : Live config c) (ms : ℕ) : Live config { c with now := c.now + ms } :=
  ⟨h.tidy.tick ms, h.armed, h.sent⟩

theorem heartbeat (h : Live config c) : Live config c.heartbeat where
  tidy := h.tidy.heartbeat
  armed := armed_heartbeat h.armed.clearTimeout_eq_nil h.tidy.past
  sent := h.sent.congr (fun i => by simp [WsConnection.heartbeat, emit, sentTo, command?])
    fun _ => rfl

theorem closed (h : Live config c) (i : ℕ) : Live config (c.setReadyState i .closed) :=
  ⟨h.tidy.setReadyState_closed i, h.armed, h.sent.congr (fun _ => rfl) fun _ =>
    hasOpened_setReadyState c⟩

theorem processed (h : Live config c) (orders : List FeedOrder) :
    Live config { c with log := c.log ++ orders.map fun order => (c.now, .processed order) } where
  tidy := h.tidy.processed orders
  armed := h.armed.congr rfl rfl fun time => by simp
  sent := by
    refine h.sent.congr (fun i => ?_) fun _ => rfl
    have hnone : sentTo i (orders.map fun order => (c.now, .processed order)) = [] :=
      List.filterMap_eq_nil_iff.mpr (by simp [command?])
    rw [sentTo_append, hnone, List.append_nil]

/-- The timer that fires is the one that is armed. -/
theorem reconnect (h : Live config c) {timer : PingTimer} (hm : timer ∈ c.timers)
    (hdue : timer.due ≤ c.now) : Live config (c.reconnect timer.id) := by
  obtain ⟨armed, time, htimers, hping, hafter, -, hlast⟩ := h.armed
  obtain rfl : timer = armed := by simpa [htimers] using hm
  refine ⟨h.tidy.reconnect timer.id fun time' hm' => ?_, armed_heartbeat ?_ ?_, fun i => ?_⟩
  · have hle := hlast time' hm'
    omega
  · simp [clearTimeout, created, terminate, setReadyState, emit, disconnected, htimers, hping]
  · intro e he
    have he : e ∈ c.log ++ [(c.now, .disconnected "order feed has been disconnected")] ++
      [(c.now, .terminated c.socket)] ++ [(c.now, .created _)] := he
    simp only [List.append_assoc, List.mem_append, List.mem_singleton] at he
    rcases he with he | rfl | rfl | rfl
    · exact h.tidy.past e he
    all_goals exact le_rfl
  · have hlog : sentTo i (c.reconnect timer.id).log = sentTo i c.log := by
      simp [WsConnection.reconnect, initWs, WsConnection.heartbeat, created, terminate,
        setReadyState, emit, disconnected, sentTo, command?]
    have hopened : (c.reconnect timer.id).hasOpened i = c.hasOpened i := by
      calc (c.reconnect timer.id).hasOpened i
          = (c.disconnected timer.id).terminate.created.hasOpened i := rfl
        _ = (c.disconnected timer.id).terminate.hasOpened i := hasOpened_created _
        _ = c.hasOpened i := hasOpened_setReadyState _
    rw [hlog, hopened, h.sent]

/-- The socket that opens is the newest one, and is sent all commands. -/
theorem onOpen (h : Live config c) (hi : c.sockets[i]? = some ⟨.connecting, false⟩) :
    ∃ c', (c.setOpened i).onOpen config = .ok c' ∧ Live config c' ∧
      processedOrders c'.log = processedOrders c.log := by
  obtain rfl : i = c.socket := by
    by_contra hne
    cases h.tidy.others i _ hi hne
  have hlt : c.socket < c.sockets.length := (List.getElem?_eq_some_iff.mp hi).1
  have hnone : c.hasOpened c.socket = false := by
    rw [hasOpened, hi]
    rfl
  have hopened : (c.setOpened c.socket).hasOpened c.socket = true := by
    rw [hasOpened_setOpened c hlt, decide_eq_true rfl, Bool.true_or]
  have hsocket : (c.setOpened c.socket).sockets[c.socket]? = some ⟨.opened, true⟩ := by
    simp [setOpened, hlt]
  have htidy : Tidy config (c.setOpened c.socket) := by
    refine h.tidy.congr rfl rfl rfl rfl List.length_set (fun i socket hs hne => ?_) fun _ => hopened
    rw [setOpened, List.getElem?_set_ne hne.symm] at hs
    exact h.tidy.others i socket hs hne
  let message := connectedMessage config c.timeLastDisconnect c.now
  have hgreeted : Tidy config ((c.setOpened c.socket).emit (.connected message)) := by
    refine htidy.emit (.connected message) rfl ⟨?_, fun x hx => ?_⟩ (fun _ => hopened) rfl
    · rw [← htidy.disconnect]
      rfl
    · by_contra hconn
      have hbefore := h.tidy.greeted x hx (by simpa using hconn)
      rw [hnone] at hbefore
      cases hbefore
  let greeted := ((c.setOpened c.socket).emit (.connected message)).heartbeat
  refine ⟨greeted.sentCommands config.commands, foldlM_sendCommand greeted hsocket rfl _,
    ⟨hgreeted.heartbeat.sentCommands _, ?_, fun i => ?_⟩, ?_⟩
  · have ha : Armed greeted := armed_heartbeat h.armed.clearTimeout_eq_nil hgreeted.past
    exact ha.congr rfl rfl fun time => by simp [sentCommands]
  · have hlog : sentTo i (greeted.sentCommands config.commands).log =
        sentTo i c.log ++ if c.socket = i then config.commands else [] := by
      rw [← sentTo_commands i c.socket c.now, sentCommands, sentTo_append]
      congr 1
      simp [greeted, WsConnection.heartbeat, emit, setOpened, sentTo, command?]
    have hnow : (greeted.sentCommands config.commands).hasOpened i =
        (decide (i = c.socket) || c.hasOpened i) := hasOpened_setOpened c hlt
    rw [hlog, hnow, h.sent]
    by_cases hi : i = c.socket
    · simp [hi, hnone]
    · simp [hi, Ne.symm hi]
  · simp [greeted, setOpened, sentCommands, WsConnection.heartbeat, emit, processedOrders,
      processedOrder?]

/-- A call ends with an exception only in the handler of a message. -/
theorem step {input : FeedInput} {s : Except String WsConnection} (h : Live config c)
    (hs : feedStep config (.ok c) input = some s) :
    (∃ c', s = .ok c' ∧ Live config c' ∧
      processedOrders c'.log = processedOrders c.log ++ carried config input) ∨
    ∃ err j text, s = .error err ∧ input = .message j text ∧
      (handled config.env text).1 = .error err := by
  cases input with
  | tick ms =>
    obtain rfl := Option.some.inj hs
    exact .inl ⟨_, rfl, h.tick ms, (List.append_nil _).symm⟩
  | timeout id =>
    simp only [feedStep] at hs
    split at hs
    · rename_i hfires
      obtain ⟨timer, hm, rfl, hdue⟩ := hfires
      obtain rfl := Option.some.inj hs
      refine .inl ⟨_, rfl, h.reconnect hm hdue, ?_⟩
      simp [WsConnection.reconnect, initWs, WsConnection.heartbeat, created, terminate,
        setReadyState, emit, disconnected, processedOrders, processedOrder?, carried]
    · cases hs
  | opened i =>
    simp only [feedStep] at hs
    split at hs
    · rename_i hi
      obtain ⟨c', hc', hlive, hprocessed⟩ := h.onOpen hi
      rw [hc'] at hs
      obtain rfl := Option.some.inj hs
      exact .inl ⟨c', rfl, hlive, hprocessed.trans (List.append_nil _).symm⟩
    · cases hs
  | ping i =>
    simp only [feedStep] at hs
    split at hs
    · obtain rfl := Option.some.inj hs
      refine .inl ⟨_, rfl, h.heartbeat, ?_⟩
      simp [WsConnection.heartbeat, emit, processedOrders, processedOrder?, carried]
    · cases hs
  | message i text =>
    simp only [feedStep] at hs
    split at hs
    · obtain rfl := Option.some.inj hs
      simp only [WsConnection.handleEvent]
      cases hresult : (handled config.env text).1 with
      | error err => exact .inr ⟨err, i, text, rfl, rfl, hresult⟩
      | ok u =>
        refine .inl ⟨_, rfl, h.processed _, ?_⟩
        simp [processedOrders, processedOrder?, carried, List.filterMap_append, List.filterMap_map,
          Function.comp_def]
    · cases hs
  | closed i =>
    simp only [feedStep] at hs
    split at hs
    · obtain rfl := Option.some.inj hs
      exact .inl ⟨_, rfl, h.closed i, (List.append_nil _).symm⟩
    · cases hs

end Live

variable {t : List FeedInput} {s : Except String WsConnection}

/-- Whatever has been received as long as the process lives, and what has ended it. -/
theorem run_live (h : (feed config).Run t s) :
    (∃ c, s = .ok c ∧ Live config c ∧ processedOrders c.log = t.flatMap (carried config)) ∨
    ∃ t' j text err, s = .error err ∧ t = t' ++ [.message j text] ∧
      (handled config.env text).1 = .error err := by
  refine h.history (P := fun t s => (∃ c, s = .ok c ∧ Live config c ∧
      processedOrders c.log = t.flatMap (carried config)) ∨ ∃ t' j text err, s = .error err ∧
        t = t' ++ [.message j text] ∧ (handled config.env text).1 = .error err)
    (.inl ⟨_, rfl, .initial config, rfl⟩) fun t s i s' _ hp hs => ?_
  rcases hp with ⟨c, rfl, hlive, hprocessed⟩ | ⟨t', j, text, err, rfl, -, -⟩
  · rcases hlive.step hs with ⟨c', rfl, hlive', hprocessed'⟩ | ⟨err, j, text, rfl, rfl, herr⟩
    · refine .inl ⟨c', rfl, hlive', ?_⟩
      rw [hprocessed', hprocessed, List.flatMap_append, List.flatMap_singleton]
    · exact .inr ⟨t, j, text, err, rfl, rfl, herr⟩
  · cases hs

theorem live_of_run (h : (feed config).Run t (.ok c)) : Live config c := by
  rcases run_live h with ⟨c', heq, hlive, -⟩ | ⟨_, _, _, _, heq, -⟩
  · obtain rfl := Except.ok.inj heq
    exact hlive
  · cases heq

/-- One ping timer is armed, which is the one that will be cleared. Every socket but the newest is
given up, every one that has opened was sent all commands once in their order, and the hooks are
called as the connections come and go. -/
theorem feed_connection (h : (feed config).Run t (.ok c)) :
    (∃ timer, c.timers = [timer] ∧ c.pingTimer = some timer.id ∧
      timer.due ≤ c.now + pingTimeoutMs) ∧
    (∀ i socket, c.sockets[i]? = some socket → i ≠ c.socket → socket.readyState = .closed) ∧
    (∀ i, sentTo i c.log = if c.hasOpened i then config.commands else []) ∧
    EachEntry (Orderly config) c.log := by
  have hlive := live_of_run h
  refine ⟨?_, hlive.tidy.others, hlive.sent, hlive.tidy.orderly⟩
  obtain ⟨timer, time, htimers, hping, hdue, hm, -⟩ := hlive.armed
  have hpast : time ≤ c.now := hlive.tidy.past _ hm
  exact ⟨timer, htimers, hping, by omega⟩

def Sample.feedConfig : FeedConfig :=
  ⟨Sample.feedEnv, "wss://feed", [(1, [6])], [(1, "0x7")], fun _ => "3"⟩

/-- The first connection dies after a ping, and the second one opens. -/
def Sample.reconnecting : List FeedInput :=
  [.tick 10, .opened 0, .tick 2000, .ping 0, .tick 3000, .timeout 2, .tick 5, .opened 1]

theorem Sample.exists_run_reconnecting :
    ∃ c, (feed Sample.feedConfig).Run Sample.reconnecting (.ok c) := by
  have hruns : ((feed Sample.feedConfig).exec (feed Sample.feedConfig).init
      Sample.reconnecting).any (·.toOption.isSome) = true := by decide +kernel
  obtain ⟨s, hr, hok⟩ := Machine.exists_run_of_any hruns
  cases s with
  | error err => cases hok
  | ok c => exact ⟨c, hr⟩

theorem feed_connection_reconnecting :
    ∃ c, (feed Sample.feedConfig).Run Sample.reconnecting (.ok c) ∧
      (∃ timer, c.timers = [timer] ∧ c.pingTimer = some timer.id ∧
        timer.due ≤ c.now + pingTimeoutMs) ∧
      (∀ i socket, c.sockets[i]? = some socket → i ≠ c.socket → socket.readyState = .closed) ∧
      (∀ i, sentTo i c.log = if c.hasOpened i then Sample.feedConfig.commands else []) ∧
      EachEntry (Orderly Sample.feedConfig) c.log := by
  obtain ⟨c, hr⟩ := Sample.exists_run_reconnecting
  exact ⟨c, hr, feed_connection hr⟩

/-- The feed gives the connection up if and only if there was no heartbeat for three seconds, and
another socket is then connecting. -/
theorem reconnects_iff_silent (h : (feed config).Run t (.ok c)) :
    (∃ id c', feedStep config (.ok c) (.timeout id) = some (.ok c') ∧
      c'.socket = c.socket + 1 ∧ c'.sockets[c'.socket]? = some ⟨.connecting, false⟩ ∧
      c'.timeLastDisconnect = some c.now) ↔
    ∀ time, (time, .armed) ∈ c.log → time + pingTimeoutMs ≤ c.now := by
  have hlive := live_of_run h
  obtain ⟨timer, time, htimers, hping, hdue, hm, hlast⟩ := hlive.armed
  constructor
  · rintro ⟨id, c', hs, -⟩ time' hm'
    simp only [feedStep] at hs
    split at hs
    · rename_i hfires
      obtain ⟨timer', hmem, -, hnow⟩ := hfires
      obtain rfl : timer' = timer := by simpa [htimers] using hmem
      have hle := hlast time' hm'
      omega
    · cases hs
  · intro hsilent
    have hnow := hsilent time hm
    have hfires : ∃ timer' ∈ c.timers, timer'.id = timer.id ∧ timer'.due ≤ c.now :=
      ⟨timer, by simp [htimers], rfl, by omega⟩
    have hlength : (c.disconnected timer.id).terminate.sockets.length = c.socket + 1 := by
      rw [hlive.tidy.newest]
      exact List.length_modify ..
    refine ⟨timer.id, c.reconnect timer.id, if_pos hfires, hlength, ?_, rfl⟩
    exact List.getElem?_concat_length

theorem reconnects_iff_silent_reconnecting :
    ∃ c, (feed Sample.feedConfig).Run Sample.reconnecting (.ok c) ∧
      ((∃ id c', feedStep Sample.feedConfig (.ok c) (.timeout id) = some (.ok c') ∧
        c'.socket = c.socket + 1 ∧ c'.sockets[c'.socket]? = some ⟨.connecting, false⟩ ∧
        c'.timeLastDisconnect = some c.now) ↔
      ∀ time, (time, .armed) ∈ c.log → time + pingTimeoutMs ≤ c.now) := by
  obtain ⟨c, hr⟩ := Sample.exists_run_reconnecting
  exact ⟨c, hr, reconnects_iff_silent hr⟩

/-- The processor is called with the orders of the messages, in the order of their arrival and on
whatever socket they arrive; only a message that cannot be handled ends the process. -/
theorem feed_hands_over (h : (feed config).Run t s) :
    (∃ c, s = .ok c ∧ processedOrders c.log = t.flatMap (carried config)) ∨
    ∃ t' j text err, s = .error err ∧ t = t' ++ [.message j text] ∧
      (handled config.env text).1 = .error err := by
  rcases run_live h with ⟨c, hs, -, hprocessed⟩ | hended
  · exact .inl ⟨c, hs, hprocessed⟩
  · exact .inr hended

/-- The message `null` comes on the second connection. -/
def Sample.failing : List FeedInput := Sample.reconnecting ++ [.message 1 "null".toList]

theorem feed_hands_over_failing :
    ∃ s, (feed Sample.feedConfig).Run Sample.failing s ∧
      ((∃ c, s = .ok c ∧
        processedOrders c.log = Sample.failing.flatMap (carried Sample.feedConfig)) ∨
      ∃ t' j text err, s = .error err ∧ Sample.failing = t' ++ [.message j text] ∧
        (handled Sample.feedConfig.env text).1 = .error err) := by
  apply Machine.exists_run_and
  · decide +kernel
  · intro s hr
    exact feed_hands_over hr

end WsNextOrder

end DlnTaker
