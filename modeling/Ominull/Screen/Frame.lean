import Ominull.Go.Float
import Ominull.Go.Unmarshal

/-!
Operator frames of a screen session: the hub parses one strictly and forwards only what it encodes
from that parse.
-/

namespace Ominull.Screen

open Go

/-! ## Frames -/

inductive Ev where
  | mouse
  | wheel
  | key
  | text
  | sas
  deriving DecidableEq

def Ev.name : Ev → List Char
  | .mouse => ascii "mouse"
  | .wheel => ascii "wheel"
  | .key => ascii "key"
  | .text => ascii "text"
  | .sas => ascii "sas"

structure WireButtons where
  l : Bool := false
  r : Bool := false
  m : Bool := false
  deriving DecidableEq

structure WireInput where
  ev : Ev
  x : Option ℤ := none
  y : Option ℤ := none
  buttons : Option WireButtons := none
  monitor : Option ℤ := none
  dx : Option ℤ := none
  dy : Option ℤ := none
  code : Option ℤ := none
  down : Option Bool := none
  ext : Option Bool := none
  ch : Option (List Char) := none
  deriving DecidableEq

inductive OpFrame where
  | input (i : WireInput)
  | ack (monitor frame : ℤ)
  | setMonitor (monitor : ℤ)
  | quality (fps jpegQ : Option ℚ)
  | close
  deriving DecidableEq

inductive FrameError where
  | malformed
  | forbiddenType
  deriving DecidableEq

/-! ## Parsing -/

abbrev Members := List (List Char × Json)

def utf8Valid (s : Str) : Bool := (runes s).all fun r => match r with
  | .valid _ => true
  | .invalid _ => false

def members : Str → Option (Members × Str)
  | 0x7d :: rest => some ([], rest)
  | t => parseMembers (t.length + 1) 0 t

/-- One object and nothing else, no name twice. -/
def strictObject (data : Str) : Option Members :=
  if utf8Valid data then
    match skipSpace data with
    | 0x7b :: t =>
      (members (skipSpace t)).bind fun (ms, rest) =>
        if skipSpace rest = [] ∧ (ms.map (·.1)).Nodup then some ms else none
    | _ => none
  else none

def strictMembers : Json → Option Members
  | .obj ms => if (ms.map (·.1)).Nodup then some ms else none
  | _ => none

def member {β : Type} (ms : List (List Char × β)) (k : String) : Option β :=
  (ms.find? (·.1 = ascii k)).map (·.2)

def onlyKeys {β : Type} (ms : List (List Char × β)) (allowed : List String) : Bool :=
  ms.all fun m => allowed.any fun k => m.1 = ascii k

/-- A plain integer in a range. -/
def jsonInt (v : Json) (lo hi : ℤ) : Option ℤ :=
  match v with
  | .num lit => (parseInt 64 lit).filter fun n => lo ≤ n ∧ n ≤ hi
  | _ => none

/-- A member that may be missing; the outer `none` is an error. -/
def optional {α : Type} (read : Json → Option α) (ms : Members) (k : String) : Option (Option α) :=
  match member ms k with
  | none => some none
  | some v => (read v).map some

def maxInt64 : ℤ := 2 ^ 63 - 1

def maxUint32 : ℤ := 2 ^ 32 - 1

def optInt : Members → String → Option (Option ℤ) := optional fun v => jsonInt v (-2 ^ 63) maxInt64

def jsonBool : Json → Option Bool
  | .bool b => some b
  | _ => none

def optBool : Members → String → Option (Option Bool) := optional jsonBool

def jsonString : Json → Option (List Char)
  | .str s => some s
  | _ => none

def jsonNumber : Json → Option ℚ
  | .num lit => parseFloat lit
  | _ => none

/-- `inputKeys`: the members of each kind of input event. -/
def Ev.keys : Ev → List String
  | .mouse => ["type", "ev", "x", "y", "buttons", "monitor"]
  | .wheel => ["type", "ev", "dx", "dy", "monitor"]
  | .key => ["type", "ev", "code", "down", "ext"]
  | .text => ["type", "ev", "ch"]
  | .sas => ["type", "ev"]

def Ev.all : List Ev := [.mouse, .wheel, .key, .text, .sas]

def parseEv (s : List Char) : Option Ev := Ev.all.find? (·.name = s)

def parseButtons (v : Json) : Option WireButtons := do
  let ms ← strictMembers v
  if onlyKeys ms ["l", "r", "m"] then
    let l ← optBool ms "l"
    let r ← optBool ms "r"
    let m ← optBool ms "m"
    some ⟨l.getD false, r.getD false, m.getD false⟩
  else none

def parseInput (ms : Members) : Option WireInput := do
  let ev ← (← jsonString (← member ms "ev")) |> parseEv
  if onlyKeys ms ev.keys then
    let x ← optInt ms "x"
    let y ← optInt ms "y"
    let monitor ← optInt ms "monitor"
    let dx ← optInt ms "dx"
    let dy ← optInt ms "dy"
    let code ← optInt ms "code"
    let down ← optBool ms "down"
    let ext ← optBool ms "ext"
    let ch ← optional jsonString ms "ch"
    let buttons ← optional parseButtons ms "buttons"
    some ⟨ev, x, y, buttons, monitor, dx, dy, code, down, ext, ch⟩
  else none

def parseTyped (ms : Members) (allowed : List String) (read : Option OpFrame) : Except FrameError OpFrame :=
  if onlyKeys ms allowed then (read.elim (.error .malformed) .ok) else .error .malformed

def parseAck (ms : Members) : Option OpFrame := do
  let frame ← jsonInt (← member ms "frame") 0 maxInt64
  let monitor ← optional (fun v => jsonInt v 0 maxUint32) ms "monitor"
  some (.ack (monitor.getD 0) frame)

def parseSetMonitor (ms : Members) : Option OpFrame := do
  let monitor ← jsonInt (← member ms "monitor") 0 maxUint32
  some (.setMonitor monitor)

def parseQuality (ms : Members) : Option OpFrame := do
  let fps ← optional jsonNumber ms "fps"
  let jpegQ ← optional jsonNumber ms "jpeg_q"
  some (.quality fps jpegQ)

def parseOperatorFrame (data : Str) : Except FrameError OpFrame :=
  match strictObject data with
  | none => .error .malformed
  | some ms =>
    match (member ms "type").bind jsonString with
    | none => .error .malformed
    | some typ =>
      if typ = ascii "input" then ((parseInput ms).elim (.error .malformed) fun i => .ok (.input i))
      else if typ = ascii "ack" then parseTyped ms ["type", "monitor", "frame"] (parseAck ms)
      else if typ = ascii "set_monitor" then parseTyped ms ["type", "monitor"] (parseSetMonitor ms)
      else if typ = ascii "quality" then parseTyped ms ["type", "fps", "jpeg_q"] (parseQuality ms)
      else if typ = ascii "close" then parseTyped ms ["type"] (some .close)
      else .error .forbiddenType

/-! ## Encoding -/

def maxFPS : ℤ := 10

def minJPEGQuality : ℤ := 30

def maxJPEGQuality : ℤ := 85

def defaultJPEGQuality : ℤ := 60

/-- `int` of a float; what it gives outside the range of the type is the platform's choice. -/
def toInt (beyond : ℤ → ℤ) (n : ℤ) : ℤ := if -2 ^ 63 ≤ n ∧ n < 2 ^ 63 then n else beyond n

def clampInt (beyond : ℤ → ℤ) (v : Option ℚ) (lo hi default : ℤ) : ℤ :=
  match v with
  | none => default
  | some v =>
    let n := toInt beyond (mathRound v)
    if n < lo then lo else if hi < n then hi else n

def jsonOf (n : ℤ) : Json := .num (decimalInt n)

def textOf (s : String) : Json := .str (ascii s)

/-- A member that is left out when its value is nil. -/
def omitempty {α β : Type} (k : String) (write : α → β) (v : Option α) : List (List Char × β) :=
  match v with
  | none => []
  | some v => [(ascii k, write v)]

def WireButtons.json (b : WireButtons) : Json :=
  .obj [(ascii "l", .bool b.l), (ascii "r", .bool b.r), (ascii "m", .bool b.m)]

def WireInput.members (i : WireInput) : Members :=
  [(ascii "type", textOf "input"), (ascii "ev", .str i.ev.name)] ++
    omitempty "x" jsonOf i.x ++ omitempty "y" jsonOf i.y ++ omitempty "buttons" WireButtons.json i.buttons ++
    omitempty "monitor" jsonOf i.monitor ++ omitempty "dx" jsonOf i.dx ++ omitempty "dy" jsonOf i.dy ++
    omitempty "code" jsonOf i.code ++ omitempty "down" .bool i.down ++ omitempty "ext" .bool i.ext ++
    omitempty "ch" .str i.ch

/-- The canonical form of a frame. -/
def OpFrame.members (beyond : ℤ → ℤ) : OpFrame → Members
  | .input i => i.members
  | .ack monitor frame =>
    [(ascii "type", textOf "ack"), (ascii "monitor", jsonOf monitor), (ascii "frame", jsonOf frame)]
  | .setMonitor monitor => [(ascii "type", textOf "set_monitor"), (ascii "monitor", jsonOf monitor)]
  | .quality fps jpegQ =>
    [(ascii "type", textOf "quality"), (ascii "fps", jsonOf (clampInt beyond fps 1 maxFPS maxFPS)),
      (ascii "jpeg_q", jsonOf (clampInt beyond jpegQ minJPEGQuality maxJPEGQuality defaultJPEGQuality))]
  | .close => [(ascii "type", textOf "close")]

/-- The only bytes the hub sends on to the agent. -/
def OpFrame.encode (beyond : ℤ → ℤ) (f : OpFrame) : Str := Go.encode (.obj (f.members beyond))

end Ominull.Screen
