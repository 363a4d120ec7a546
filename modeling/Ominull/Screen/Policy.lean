import Ominull.Screen.Frame

/-!
The frame policy of a screen session: what the hub does with a message of the control attachment, of a
watcher and of the agent, and what it writes about an input in the audit.
-/

namespace Ominull.Screen

open Go

/-! ## Decisions -/

inductive MessageType where
  | text
  | binary
  deriving DecidableEq

inductive FrameAction where
  | forward
  | drop
  | closeSession
  deriving DecidableEq

structure FrameDecision where
  action : FrameAction := .forward
  reason : Str := []
  data : Option Str := none
  activity : Bool := false
  deriving DecidableEq

def closeWith (reason : String) : FrameDecision := { action := .closeSession, reason := str reason }

structure RelayMsg where
  typ : MessageType := .text
  data : Str
  cost : ℕ := 0
  deriving DecidableEq

/-- Only bytes that the policy has produced itself are forwarded. -/
def reencoded (d : FrameDecision) : Option RelayMsg × FrameDecision :=
  match d.action with
  | .forward =>
    match d.data with
    | none => (none, { d with action := .drop })
    | some data => (some { data := data, cost := data.length + 64 }, d)
  | _ => (none, d)

/-! ## The input audit -/

/-- What `auditInput` does at the session's auditor: count a move or a key, or note a line. -/
inductive AuditCall where
  | countMove
  | countKey
  | note (line : Str)
  deriving DecidableEq

def noteInput (line : Str) : AuditCall := .note (str "Agent screen input: " ++ line)

/-- Where an input was. -/
def auditAt (x y : Option ℤ) (monitor : ℤ) : Str :=
  match x, y with
  | some x, some y =>
    str "at " ++ decimalInt x ++ str "," ++ decimalInt y ++ str " on monitor " ++ decimalInt monitor ++ str " (0..65535)"
  | _, _ => str "on monitor " ++ decimalInt monitor

def buttonChange (name : String) (old new : Bool) : List Str :=
  if new = old then [] else [str name ++ str " button " ++ if new then str "down" else str "up"]

def buttonChanges (old new : WireButtons) : List Str :=
  buttonChange "left" old.l new.l ++ buttonChange "right" old.r new.r ++ buttonChange "middle" old.m new.m

def joinWords (ws : List Str) : Str := (ws.intersperse (str ", ")).flatten

def auditMouse (old new : WireButtons) (place : Str) : AuditCall :=
  if buttonChanges old new = [] then .countMove
  else noteInput (str "mouse " ++ joinWords (buttonChanges old new) ++ str " " ++ place)

def auditWheel (dx dy : ℤ) (place : Str) : AuditCall :=
  noteInput (str "wheel dx=" ++ decimalInt dx ++ str " dy=" ++ decimalInt dy ++ str " " ++ place)

def auditText (characters : ℕ) : AuditCall :=
  noteInput (str "typed text, " ++ decimal characters ++ str " characters")

def auditSas : AuditCall := noteInput (str "Ctrl+Alt+Del (secure attention) requested")

/-- What is audited of an input, after a last state of the buttons. -/
def WireInput.audit (held : WireButtons) (i : WireInput) : AuditCall :=
  let place := auditAt i.x i.y (i.monitor.getD 0)
  match i.ev with
  | .mouse => auditMouse held (i.buttons.getD {}) place
  | .wheel => auditWheel (i.dx.getD 0) (i.dy.getD 0) place
  | .key => .countKey
  | .text => auditText (i.ch.getD []).length
  | .sas => auditSas

/-! ## The policy -/

structure Policy where
  control : Bool
  /-- an auditor is set for the session -/
  audited : Bool := false
  /-- the last mouse buttons that were audited -/
  buttons : WireButtons := {}
  /-- monitor and number of the agent's latest frame -/
  lastFrame : Option (ℤ × ℤ) := none
  deriving DecidableEq

def programPrefix : Str := str "screen:"

/-- Anything but an explicit control session is view-only. -/
def newPolicy (program : Str) : Policy where
  control := decide (program = programPrefix ++ str "control")

def Policy.auditInput (p : Policy) (i : WireInput) : Option AuditCall × Policy :=
  if p.audited then
    (some (i.audit p.buttons), if i.ev = .mouse then { p with buttons := i.buttons.getD {} } else p)
  else (none, p)

section Encoding

variable (beyond : ℤ → ℤ)

/-- A verdict on an operator's message, what was audited of it, and the policy afterwards. -/
structure Verdict where
  decision : FrameDecision
  audit : Option AuditCall := none
  policy : Policy

def Policy.operator (p : Policy) (typ : MessageType) (data : Str) : Verdict :=
  match typ with
  | .binary => { decision := closeWith "forbidden_operator_frame_type", policy := p }
  | .text =>
    match parseOperatorFrame data with
    | .error .forbiddenType => { decision := closeWith "forbidden_operator_frame_type", policy := p }
    | .error .malformed => { decision := closeWith "malformed_operator_frame", policy := p }
    | .ok f =>
      match f with
      | .ack _ _ => { decision := { data := some (f.encode beyond) }, policy := p }
      | .input i =>
        if p.control then
          { decision := { data := some (f.encode beyond), activity := true }
            audit := (p.auditInput i).1
            policy := (p.auditInput i).2 }
        else { decision := { action := .drop }, policy := p }
      | .setMonitor _ | .quality _ _ =>
        { decision := { data := some (f.encode beyond), activity := true }, policy := p }
      | .close => { decision := closeWith "operator_requested_close", policy := p }

def watcher (typ : MessageType) (data : Str) : FrameDecision :=
  match typ with
  | .binary => closeWith "forbidden_watcher_frame_type"
  | .text =>
    match parseOperatorFrame data with
    | .error .forbiddenType => closeWith "forbidden_watcher_frame_type"
    | .error .malformed => closeWith "malformed_watcher_frame"
    | .ok f =>
      match f with
      | .ack _ _ => { data := some (f.encode beyond) }
      | .close => closeWith "watcher_left"
      | _ => { action := .drop }

end Encoding

/-! ### The agent's messages -/

structure ControlFrame where
  type : Str := []
  reason : Str := []

def ControlFrame.fields : List (Go.Field ControlFrame) :=
  [⟨ascii "type", fun v f => (decodeString v f.type).map fun s => { f with type := s }⟩,
    ⟨ascii "reason", fun v f => (decodeString v f.reason).map fun s => { f with reason := s }⟩]

structure FrameEnd where
  monitor : ℤ := 0
  frame : ℤ := 0

def FrameEnd.fields : List (Go.Field FrameEnd) :=
  [⟨ascii "monitor", fun v f => (decodeInt v f.monitor).map fun n => { f with monitor := n }⟩,
    ⟨ascii "frame", fun v f => (decodeInt v f.frame).map fun n => { f with frame := n }⟩]

def plainChar (c : Char) : Bool :=
  ('a' ≤ c ∧ c ≤ 'z') ∨ ('A' ≤ c ∧ c ≤ 'Z') ∨ ('0' ≤ c ∧ c ≤ '9') ∨ c = ' ' ∨ c = '_' ∨ c = '-' ∨ c = '.'

def cleanReason (s : Str) : Str := trimSpace (utf8 ((((runes s).map Rune.char).filter plainChar).take 64))

/-- The number of the agent's latest frame, for the acks of a resume. -/
def Policy.frameEnd (p : Policy) (v : Json) : Policy :=
  match decodeStruct FrameEnd.fields v {} with
  | some fe => if 0 ≤ fe.frame ∧ 0 ≤ fe.monitor then { p with lastFrame := some (fe.monitor, fe.frame) } else p
  | none => p

def Policy.agent (p : Policy) (typ : MessageType) (data : Str) : FrameDecision × Policy :=
  match typ with
  | .binary => ({}, p)
  | .text =>
    match (parse data).bind fun v => (decodeStruct ControlFrame.fields v {}).map fun f => (v, f) with
    | none => (closeWith "malformed_agent_frame", p)
    | some (v, f) =>
      if f.type ∈ [str "hello", str "resized", str "desktop", str "cursor_pos", str "sas_unavailable"] then ({}, p)
      else if f.type = str "frame_end" then ({}, p.frameEnd v)
      else if f.type = str "bye" then
        let r := cleanReason f.reason
        ({ action := .closeSession, reason := str "agent_bye" ++ if r = [] then [] else str ": " ++ r }, p)
      else (closeWith "forbidden_agent_frame_type", p)

/-! ### The relay's own messages -/

def maxUnacked : ℕ := 2

/-- The acks that open the agent's window when a viewer comes back after a pause. -/
def Policy.resumeMessages (p : Policy) : List Str :=
  match p.lastFrame with
  | none => []
  | some (monitor, frame) => List.replicate maxUnacked ((OpFrame.ack monitor frame).encode id)

def pauseMessage : Str := str "\x7b\"type\":\"pause\"\x7d"

def resumeMessage : Str := str "\x7b\"type\":\"resume\"\x7d"

end Ominull.Screen
