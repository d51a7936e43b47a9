import DlnTaker.Feed.Messages
import DlnTaker.Library.Journal
import DlnTaker.Library.Machine

/-! # The connection of the feed

`WsNextOrder` keeps one socket at a time and one timer that every ping arms
anew. When the timer fires, the socket is given up and another one is created.
The armed timers of the event loop and the field that remembers the last of them
are modelled separately, as are the sockets and the one that commands go to.
-/

namespace DlnTaker

open Journal

namespace WsNextOrder

/-- In milliseconds. -/
def pingTimeoutMs : ℕ := 3000

inductive ReadyState
  | connecting | opened | closed
  deriving DecidableEq, Repr

/-- A socket, and whether it has been open at some time. -/
structure Socket where
  readyState : ReadyState
  hasOpened : Bool
  deriving DecidableEq, Repr

structure FeedConfig where
  env : FeedEnv
  url : String
  minConfirmationThresholds : List (ChainId × List ℕ)
  unlockAuthorities : List (ChainId × String)
  showNumber : ℚ → String

/-- The commands of a connection. -/
def FeedConfig.commands (config : FeedConfig) : List Command :=
  openCommands config.minConfirmationThresholds config.unlockAuthorities

inductive FeedEffect
  | created (socket : ℕ)
  | armed
  | connected (message : String)
  | disconnected (message : String)
  | terminated (socket : ℕ)
  | sent (socket : ℕ) (command : Command)
  | processed (order : FeedOrder)

structure PingTimer where
  id : ℕ
  due : ℕ
  deriving DecidableEq, Repr

/-- The sockets by number, the one that is `this.socket`, and what has been done at which time. -/
structure WsConnection where
  now : ℕ
  sockets : List Socket
  socket : ℕ
  timers : List PingTimer
  pingTimer : Option ℕ
  nextTimer : ℕ
  timeLastDisconnect : Option ℕ
  log : List (ℕ × FeedEffect)

def connectedMessage (config : FeedConfig) (timeLastDisconnect : Option ℕ) (now : ℕ) : String :=
  match timeLastDisconnect with
  | some time =>
    s!"order feed has been connected to {config.url}, after " ++
      s!"{config.showNumber (((now : ℚ) - time) / 1000)}s of disconnect"
  | none => s!"order feed has been connected to {config.url}"

namespace WsConnection

variable (config : FeedConfig) (c : WsConnection) {i : ℕ}

def emit (e : FeedEffect) : WsConnection := { c with log := c.log ++ [(c.now, e)] }

/-- The timers left after `clearTimeout(this.pingTimer)`; one that has fired is not among them. -/
def clearTimeout : List PingTimer :=
  match c.pingTimer with
  | some id => c.timers.filter (·.id ≠ id)
  | none => c.timers

def heartbeat : WsConnection :=
  { c.emit .armed with
    timers := c.clearTimeout ++ [⟨c.nextTimer, c.now + pingTimeoutMs⟩]
    pingTimer := some c.nextTimer
    nextTimer := c.nextTimer + 1 }

/-- `this.socket = new WebSocket(..)` -/
def created : WsConnection :=
  { c.emit (.created c.sockets.length) with
    sockets := c.sockets ++ [⟨.connecting, false⟩]
    socket := c.sockets.length }

def initWs : WsConnection := c.created.heartbeat

def setReadyState (i : ℕ) (readyState : ReadyState) : WsConnection :=
  { c with sockets := c.sockets.modify i fun socket => { socket with readyState } }

/-- The socket has opened. -/
def setOpened (i : ℕ) : WsConnection := { c with sockets := c.sockets.set i ⟨.opened, true⟩ }

def terminate : WsConnection :=
  (c.emit (.terminated c.socket)).setReadyState c.socket .closed

/-- The beginning of the callback of a ping timer. -/
def disconnected (id : ℕ) : WsConnection :=
  { c.emit (.disconnected "order feed has been disconnected") with
    timers := c.timers.filter (·.id ≠ id)
    timeLastDisconnect := some c.now }

/-- The callback of a ping timer. -/
def reconnect (id : ℕ) : WsConnection := (c.disconnected id).terminate.initWs

/-- A socket that is connecting throws, and one that is closed sends nothing. -/
def sendCommand (command : Command) : Except String WsConnection :=
  match (c.sockets[c.socket]?).map Socket.readyState with
  | some .opened => .ok (c.emit (.sent c.socket command))
  | some .closed => .ok c
  | _ => .error "Error: WebSocket is not open: readyState 0 (CONNECTING)"

/-- The commands have been sent to an open socket. -/
def sentCommands (commands : List Command) : WsConnection :=
  { c with log := c.log ++ commands.map fun command => (c.now, .sent c.socket command) }

theorem foldlM_sendCommand {socket : Socket} (hs : c.sockets[c.socket]? = some socket)
    (ho : socket.readyState = .opened) (commands : List Command) :
    commands.foldlM sendCommand c = .ok (c.sentCommands commands) := by
  induction commands generalizing c with
  | nil =>
    rw [sentCommands, List.map_nil, List.append_nil]
    rfl
  | cons command commands ih =>
    have hsend : c.sendCommand command = .ok (c.emit (.sent c.socket command)) := by
      simp only [sendCommand, hs, Option.map_some, ho]
    rw [List.foldlM_cons, hsend]
    change commands.foldlM sendCommand (c.emit _) = _
    rw [ih (c.emit _) hs]
    simp [sentCommands, emit]

/-- The handler of `open`. -/
def onOpen : Except String WsConnection :=
  let greeted := c.emit (.connected (connectedMessage config c.timeLastDisconnect c.now))
  config.commands.foldlM sendCommand greeted.heartbeat

/-- The handler of `message`; the calls of the processor before an exception have been made. -/
def handleEvent (text : List Char) : Except String WsConnection :=
  let (result, orders) := handled config.env text
  match result with
  | .ok () => .ok { c with log := c.log ++ orders.map fun order => (c.now, .processed order) }
  | .error err => .error err

def hasOpened (i : ℕ) : Bool := (c.sockets[i]?).any (·.hasOpened)

@[simp] theorem hasOpened_setReadyState {j : ℕ} {readyState : ReadyState} :
    (c.setReadyState j readyState).hasOpened i = c.hasOpened i := by
  simp only [hasOpened, setReadyState, List.getElem?_modify]
  cases c.sockets[i]? with
  | none => rfl
  | some socket =>
    change (if j = i then { socket with readyState } else socket).hasOpened = socket.hasOpened
    split <;> rfl

@[simp] theorem hasOpened_created : c.created.hasOpened i = c.hasOpened i := by
  simp only [hasOpened, created, List.getElem?_append]
  split
  · rfl
  · rename_i hge
    rw [List.getElem?_eq_none (not_lt.mp hge)]
    cases i - c.sockets.length <;> rfl

theorem hasOpened_setOpened {j : ℕ} (hj : j < c.sockets.length) :
    (c.setOpened j).hasOpened i = (decide (i = j) || c.hasOpened i) := by
  by_cases h : i = j
  · subst h
    simp [hasOpened, setOpened, hj]
  · simp [hasOpened, setOpened, h, List.getElem?_set_ne (Ne.symm h)]

/-- After `init`. -/
def initial : WsConnection :=
  initWs
    { now := 0
      sockets := []
      socket := 0
      timers := []
      pingTimer := none
      nextTimer := 0
      timeLastDisconnect := none
      log := [] }

end WsConnection

/-- Time passes, a timer fires, or a socket emits an event. -/
inductive FeedInput
  | tick (ms : ℕ)
  | timeout (id : ℕ)
  | opened (socket : ℕ)
  | ping (socket : ℕ)
  | message (socket : ℕ) (text : List Char)
  | closed (socket : ℕ)

open WsConnection

/-- A timer fires when it is due or later. A socket opens while it is connecting, so not after it
was terminated, and what it has received it may emit even after that. An exception that nothing
catches ends the process. -/
def feedStep (config : FeedConfig) :
    Except String WsConnection → FeedInput → Option (Except String WsConnection)
  | .error _, _ => none
  | .ok c, .tick ms => some (.ok { c with now := c.now + ms })
  | .ok c, .timeout id =>
    if ∃ timer ∈ c.timers, timer.id = id ∧ timer.due ≤ c.now then some (.ok (c.reconnect id))
    else none
  | .ok c, .opened i =>
    if c.sockets[i]? = some ⟨.connecting, false⟩ then
      some (onOpen config (c.setOpened i))
    else none
  | .ok c, .ping i => if c.hasOpened i then some (.ok c.heartbeat) else none
  | .ok c, .message i text => if c.hasOpened i then some (c.handleEvent config text) else none
  | .ok c, .closed i =>
    if i < c.sockets.length then some (.ok (c.setReadyState i .closed)) else none

def feed (config : FeedConfig) : Machine (Except String WsConnection) FeedInput where
  init := .ok .initial
  step := feedStep config

end WsNextOrder

end DlnTaker
