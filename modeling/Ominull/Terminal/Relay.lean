import Ominull.Lib.Gate
import Ominull.Lib.Run
import Ominull.Lib.Text

/-!
The way of the agent's messages to the operator: the agent's read pump queues them behind a byte
gate, the write pump of the current attachment takes them from there, and a detach empties the queue
and resets the gate while both pumps run.
-/

namespace Ominull.Terminal.Handover

open Lib

def maxQueueBytes : ℕ := 1024 * 1024

def queueLength : ℕ := 16

/-- A message towards the operator; its cost has the overhead of a frame in it. -/
structure RelayMsg where
  data : Str
  cost : ℕ
  cost_pos : 0 < cost
  deriving DecidableEq

/-- A message that the agent's read pump has accepted, after so many detaches had begun. -/
structure Msg extends RelayMsg where
  detaches : ℕ
  deriving DecidableEq

def Msg.bytes (m : Msg) : ℕ := m.cost

inductive AgentPump where
  | idle
  /-- policed and recorded -/
  | accepted (m : Msg)
  /-- the control side is attached, or the session is a shell -/
  | admitted (m : Msg)
  /-- the relay was not detached; the pump waits at the gate -/
  | sending (m : Msg)
  /-- the bytes are reserved; the pump waits at the queue -/
  | reserved (m : Msg)
  | exited
  deriving DecidableEq

inductive WritePhase where
  | waiting
  /-- the message is off the queue and its bytes are not yet released -/
  | taken (m : Msg)
  | writing (m : Msg)
  deriving DecidableEq

/-- The write pump of an attachment, which was installed after so many detaches had begun. -/
structure WritePump where
  attachment : ℕ
  installed : ℕ
  phase : WritePhase
  deriving DecidableEq

inductive Call where
  | upgrade
  | resume (attachment installed : ℕ)
  /-- the relay was not closed; no owner detaches whoever is attached -/
  | detach (owner : Option ℕ)
  | stop (attachment : ℕ)
  | flag
  | drain (discarded : List Msg)
  | reset (discarded : List Msg)
  | leave
  deriving DecidableEq

structure PairedRelay where
  /-- the session is of a kind with watchers -/
  watched : Bool
  closed : Bool := false
  /-- the session has ended, so that no operator may attach -/
  ended : Bool := false
  operatorConnected : Bool := false
  opConn : Bool := false
  /-- the stop channel of the attachment, by its number -/
  opStop : Option ℕ := none
  attachments : ℕ := 0
  /-- the attachments whose stop channel is closed -/
  stopped : List ℕ := []
  detached : Bool := false
  agentToOp : List Msg := []
  /-- what the gate counts -/
  used : ℕ := 0
  agent : AgentPump := .idle
  pumps : List WritePump := []
  calls : List Call := []
  /-- the detaches that have begun, and those that have reset the gate -/
  detaches : ℕ := 0
  resets : ℕ := 0
  deriving DecidableEq

inductive Event where
  /-- a message that the policy forwards -/
  | accept (m : RelayMsg)
  /-- the pump asks whether there is someone to send to -/
  | letIn
  | acquire
  | giveUp
  | send
  /-- the pump gives up at the queue because the relay is done, or because it is detached -/
  | abandon (done : Bool)
  | agentGone
  | take (i : ℕ)
  | release (i : ℕ)
  | wrote (i : ℕ) (ok : Bool)
  /-- a pump that writes nothing ends: the relay is done, it has been stopped, or a ping failed -/
  | exit (i : ℕ)
  | attach
  | detach (owner : Option ℕ)
  /-- the next step of a call; `ok` says whether an upgrade succeeds -/
  | call (i : ℕ) (ok : Bool)
  | close
  | dropConn
  | endSession
  deriving DecidableEq

namespace PairedRelay

def agentStep (s : PairedRelay) : Event → Option PairedRelay
  | .accept m =>
    match s.agent with
    | .idle => some { s with agent := .accepted { m with detaches := s.detaches } }
    | _ => none
  | .letIn =>
    match s.agent with
    | .accepted m => some { s with agent := if s.watched ∧ ¬s.opConn then .idle else .admitted m }
    | .admitted m => some { s with agent := if s.detached then .idle else .sending m }
    | _ => none
  | .acquire =>
    match s.agent with
    | .sending m =>
      if s.used = 0 ∨ s.used + m.bytes ≤ maxQueueBytes then
        some { s with used := s.used + m.bytes, agent := .reserved m }
      else none
    | _ => none
  | .giveUp =>
    match s.agent with
    | .sending _ =>
      if s.closed then some { s with agent := .exited }
      else if s.detached then some { s with agent := .idle }
      else none
    | _ => none
  | .send =>
    match s.agent with
    | .reserved m =>
      if s.agentToOp.length < queueLength then
        some { s with agentToOp := s.agentToOp ++ [m], agent := .idle }
      else none
    | _ => none
  | .abandon done =>
    match s.agent with
    | .reserved m =>
      if done then
        if s.closed then some { s with used := s.used - m.bytes, agent := .exited } else none
      else if s.detached then some { s with used := s.used - m.bytes, agent := .idle }
      else none
    | _ => none
  | .agentGone =>
    match s.agent with
    | .idle => some { s with agent := .exited }
    | _ => none
  | _ => none

def setPhase (s : PairedRelay) (i : ℕ) (p : WritePump) (phase : WritePhase) : PairedRelay :=
  { s with pumps := s.pumps.set i { p with phase := phase } }

/-! A write pump; a select takes any of the channels that are ready. -/

def takeStep (s : PairedRelay) (i : ℕ) (p : WritePump) : Option PairedRelay :=
  match p.phase, s.agentToOp with
  | .waiting, m :: rest => some ({ s with agentToOp := rest }.setPhase i p (.taken m))
  | _, _ => none

def releaseStep (s : PairedRelay) (i : ℕ) (p : WritePump) : Option PairedRelay :=
  match p.phase with
  | .taken m => some ({ s with used := s.used - m.bytes }.setPhase i p (.writing m))
  | _ => none

def wroteStep (s : PairedRelay) (i : ℕ) (ok : Bool) (p : WritePump) : Option PairedRelay :=
  match p.phase with
  | .writing _ => some (if ok then s.setPhase i p .waiting else { s with pumps := s.pumps.eraseIdx i })
  | _ => none

def exitStep (s : PairedRelay) (i : ℕ) (p : WritePump) : Option PairedRelay :=
  if p.phase = .waiting then some { s with pumps := s.pumps.eraseIdx i } else none

def proceed (s : PairedRelay) (i : ℕ) (next : List Call) : PairedRelay :=
  { s with calls := s.calls.eraseIdx i ++ next }

def callStep (s : PairedRelay) (i : ℕ) (ok : Bool) : Call → PairedRelay
  | .upgrade =>
    if ok then
      { s with opConn := true, opStop := some s.attachments, attachments := s.attachments + 1 }.proceed i
        [.resume s.attachments s.detaches]
    else { s with operatorConnected := false }.proceed i []
  | .resume attachment installed =>
    { s with detached := false, pumps := s.pumps ++ [WritePump.mk attachment installed .waiting] }.proceed i []
  | .detach owner =>
    match s.opStop with
    | none => s.proceed i []
    | some attachment =>
      if owner ≠ none ∧ owner ≠ some attachment then s.proceed i []
      else
        { s with opConn := false, opStop := none, detaches := s.detaches + 1 }.proceed i [.stop attachment]
  | .stop attachment => { s with stopped := attachment :: s.stopped }.proceed i [.flag]
  | .flag => { s with detached := true }.proceed i [.drain []]
  | .drain discarded =>
    match s.agentToOp with
    | [] => s.proceed i [.reset discarded]
    | m :: rest => { s with agentToOp := rest }.proceed i [.drain (m :: discarded)]
  | .reset _ => { s with used := 0, resets := s.resets + 1 }.proceed i [.leave]
  | .leave => { s with operatorConnected := false }.proceed i []

def step (s : PairedRelay) : Event → Option PairedRelay
  | .take i => s.pumps[i]?.bind (s.takeStep i)
  | .release i => s.pumps[i]?.bind (s.releaseStep i)
  | .wrote i ok => s.pumps[i]?.bind (s.wroteStep i ok)
  | .exit i => s.pumps[i]?.bind (s.exitStep i)
  | .attach =>
    if s.ended ∨ s.operatorConnected then none
    else some { s with operatorConnected := true, calls := s.calls ++ [.upgrade] }
  | .detach owner => if s.closed then none else some { s with calls := s.calls ++ [.detach owner] }
  | .call i ok => s.calls[i]?.map (s.callStep i ok)
  | .close => some { s with closed := true }
  | .dropConn => if s.closed then some { s with opConn := false } else none
  | .endSession => some { s with ended := true }
  | e => s.agentStep e

end PairedRelay

end Ominull.Terminal.Handover
