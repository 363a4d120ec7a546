import Ominull.Screen.Policy
import Ominull.Screen.Wire

/-!
What reaches the agent of a session: the control attachment, the watchers beside it and the relay itself
queue messages for it. Each pump works for itself, between two messages and between reading a message and
queueing it the others may take any number of steps.
-/

namespace Ominull.Screen

inductive Source where
  | operator (conn : ℕ)
  | watcher (w : ℕ)
  | relay
  deriving DecidableEq

structure Entry where
  source : Source
  data : Str
  deriving DecidableEq

/-- The pause or resume that holds `pauseMu`. -/
inductive Signal where
  | pausing
  | resuming
  /-- the resume is queued, these of its messages are not -/
  | acks (left : List Str)
  deriving DecidableEq

structure Relay where
  /-- none for a shell -/
  policy : Option Policy
  opConn : Option ℕ := none
  /-- the oldest first -/
  watchers : List ℕ := []
  signal : Option Signal := none
  paused : Bool := false
  closed : Bool := false
  /-- read and policed by a pump, which waits for room in the queue -/
  inHand : List Entry := []
  opToAgent : List Entry := []
  deriving DecidableEq

def kindPolicy (program : Str) : Option Policy :=
  if programPrefix.isPrefixOf program then some (newPolicy program) else none

def newRelay (program : Str) : Relay where
  policy := kindPolicy program

def maxWatchers : ℕ := 3

inductive Event where
  | attachOperator (conn : ℕ)
  | detachOperator
  | attachWatcher (w : ℕ)
  | removeWatcher (w : ℕ)
  | operatorMessage (conn : ℕ) (typ : MessageType) (message : Str)
  | watcherMessage (w : ℕ) (typ : MessageType) (message : Str)
  | agentMessage (typ : MessageType) (message : Str)
  /-- the relay makes this of a message of a shell's operator -/
  | shellMessage (conn : ℕ) (data : Str)
  /-- a message in hand finds room in the queue -/
  | enqueue (e : Entry)
  /-- its pump stops instead -/
  | abandon (e : Entry)
  /-- `pauseMu` is taken and the state checked -/
  | pause
  | resume
  /-- the message of the pause or resume is queued, or there was no room in time -/
  | signalled (queued : Bool)
  /-- an auditor is set for the session, or cleared -/
  | audit (on : Bool)
  /-- the agent's write pump takes a message -/
  | take
  | close

namespace Relay

def isPacer (r : Relay) (w : ℕ) : Bool := r.opConn = none ∧ r.watchers.head? = some w

def tearDown (r : Relay) : Relay := { r with closed := true, opConn := none, watchers := [] }

/-- The relay has read a message of the control attachment. -/
def fromOperator (beyond : ℤ → ℤ) (r : Relay) (p : Policy) (conn : ℕ) (typ : MessageType) (message : Str) : Relay :=
  let v := p.operator beyond typ message
  let r := { r with policy := some v.policy }
  match reencoded v.decision with
  | (some msg, _) => { r with inHand := ⟨.operator conn, msg.data⟩ :: r.inHand }
  | (none, d) => if d.action = .closeSession then r.tearDown else r

def fromWatcher (beyond : ℤ → ℤ) (r : Relay) (w : ℕ) (typ : MessageType) (message : Str) : Relay :=
  let d := watcher beyond typ message
  match d.action with
  | .closeSession => { r with watchers := r.watchers.erase w }
  | .drop => r
  | .forward =>
    if r.isPacer w then
      match reencoded d with
      | (some msg, _) => { r with inHand := ⟨.watcher w, msg.data⟩ :: r.inHand }
      | (none, _) => r
    else r

def fromAgent (r : Relay) (p : Policy) (typ : MessageType) (message : Str) : Relay :=
  let (d, p) := p.agent typ message
  let r := { r with policy := some p }
  if d.action = .closeSession then r.tearDown else r

def queue (r : Relay) (e : Entry) : Relay := { r with opToAgent := r.opToAgent ++ [e] }

def step (beyond : ℤ → ℤ) (r : Relay) : Event → Option Relay
  | .attachOperator conn => if r.closed then none else some { r with opConn := some conn }
  | .detachOperator => if r.closed then none else some { r with opConn := none }
  | .attachWatcher w =>
    -- a shell takes no watchers
    if r.closed ∨ r.policy = none ∨ maxWatchers ≤ r.watchers.length then none
    else some { r with watchers := r.watchers ++ [w] }
  | .removeWatcher w => some { r with watchers := r.watchers.erase w }
  | .operatorMessage conn typ message => r.policy.map fun p => r.fromOperator beyond p conn typ message
  | .watcherMessage w typ message => if r.policy = none then none else some (r.fromWatcher beyond w typ message)
  | .agentMessage typ message => r.policy.map fun p => r.fromAgent p typ message
  | .shellMessage conn data =>
    if r.policy = none then some { r with inHand := ⟨.operator conn, data⟩ :: r.inHand } else none
  | .enqueue e => if e ∈ r.inHand then some ({ r with inHand := r.inHand.erase e }.queue e) else none
  | .abandon e => some { r with inHand := r.inHand.erase e }
  | .pause =>
    if r.policy ≠ none ∧ r.signal = none ∧ r.opConn = none ∧ r.watchers = [] ∧ r.paused = false then
      some { r with signal := some .pausing }
    else none
  | .resume =>
    if r.policy ≠ none ∧ r.signal = none ∧ r.paused then some { r with signal := some .resuming } else none
  | .signalled queued =>
    match r.signal with
    | none => none
    | some .pausing =>
      some (if queued then { r with signal := none, paused := true }.queue ⟨.relay, pauseMessage⟩
        else { r with signal := none })
    | some .resuming =>
      some (if queued then
          { r with signal := some (.acks ((r.policy.map Policy.resumeMessages).getD [])), paused := false }.queue
            ⟨.relay, resumeMessage⟩
        else { r with signal := none })
    | some (.acks []) => some { r with signal := none }
    | some (.acks (m :: ms)) =>
      some (if queued then { r with signal := some (.acks ms) }.queue ⟨.relay, m⟩
        else { r with signal := some (.acks ms) })
  | .audit on => some { r with policy := r.policy.map fun p => { p with audited := on } }
  | .take => some { r with opToAgent := r.opToAgent.tail }
  | .close => some r.tearDown

end Relay

end Ominull.Screen
