import Ominull.Screen.Frame

/-!
The helper's side of the wire: how it reads a message of the hub, and what it makes of an input event.

`serde_json` is a crate of its own. It reads the grammar of `encoding/json` and refuses besides: text that
is not UTF-8, half of a surrogate pair, values nested too deep and numbers too large for a float. An integer
that fits 64 bits is kept as such; the value of a float is never read here.
-/

namespace Ominull.Screen.Wire

open Go

/-! ## serde_json -/

inductive Value where
  | null
  | bool (b : Bool)
  | int (n : ℤ)
  | float
  | str (s : List Char)
  | arr (xs : List Value)
  | obj (ms : List (List Char × Value))

/-- Where a check for halves of surrogate pairs is in a text. -/
inductive Escape where
  | text
  | slash (pair : Bool)
  /-- so many digits of an escape are missing, of which this is the value so far -/
  | digits (pair : Bool) (missing value : ℕ)
  /-- the first half of a pair is read -/
  | half
  deriving DecidableEq

/-- One byte further; `none` is half of a pair. -/
def Escape.next : Escape → UInt8 → Option Escape
  | .text, b => some (if b = 0x5c then .slash false else .text)
  | .half, b => if b = 0x5c then some (.slash true) else none
  | .slash pair, b =>
    if b = 0x75 then some (.digits pair 4 0) else if pair then none else some .text
  | .digits pair missing value, b =>
    match hexValue b with
    | none => none
    | some d =>
      let value := value * 16 + d
      if 1 < missing then some (.digits pair (missing - 1) value)
      else if pair then if 0xdc00 ≤ value ∧ value < 0xe000 then some .text else none
      else if 0xdc00 ≤ value ∧ value < 0xe000 then none
      else if 0xd800 ≤ value ∧ value < 0xdc00 then some .half
      else some .text

def Escape.run (e : Escape) (s : Str) : Option Escape := s.foldlM Escape.next e

/-- No string of a JSON text has half of a surrogate pair. -/
def wholePairs (s : Str) : Bool :=
  match Escape.text.run s with
  | some .text => true
  | _ => false

/-- The value of an integer literal; `-0` is a float. -/
def integer (lit : Str) : Option ℤ :=
  match lit with
  | 0x2d :: ds => if ds.all isDigit ∧ 0 < digitsValue ds ∧ digitsValue ds ≤ 2 ^ 63 then some (-digitsValue ds) else none
  | ds => if ds.all isDigit ∧ digitsValue ds < 2 ^ 64 then some (digitsValue ds) else none

section Reading

variable (tooLarge : Str → Bool)

mutual

/-- A value nested at most so deep, no name twice in an object. -/
def strictValue : ℕ → Json → Option Value
  | _, .null => some .null
  | _, .bool b => some (.bool b)
  | _, .str s => some (.str s)
  | _, .num lit =>
    match integer lit with
    | some n => some (.int n)
    | none => if tooLarge lit then none else some .float
  | 0, .arr _ | 0, .obj _ => none
  | k + 1, .arr xs => (strictElems k xs).map .arr
  | k + 1, .obj ms => if (ms.map (·.1)).Nodup then (strictMembers k ms).map .obj else none

def strictElems : ℕ → List Json → Option (List Value)
  | _, [] => some []
  | k, x :: xs => do some ((← strictValue k x) :: (← strictElems k xs))

def strictMembers : ℕ → List (List Char × Json) → Option (List (List Char × Value))
  | _, [] => some []
  | k, (name, v) :: ms => do some ((name, ← strictValue k v) :: (← strictMembers k ms))

end

/-- The nesting that `serde_json` reads. -/
def maxDepth : ℕ := 127

/-- `serde_json::from_slice` for a `StrictValue`. -/
def fromSlice (json : Str) : Option Value :=
  if utf8Valid json ∧ wholePairs json then (parse json).bind (strictValue tooLarge maxDepth) else none

end Reading

/-! ## Deserializing -/

/-- The contents of a struct: members by name, or elements by position. -/
inductive Fields where
  | map (ms : List (List Char × Value))
  | seq (xs : List Value)

/-- A field of a struct, by its name and its place. -/
def Fields.get (f : Fields) (name : String) (i : ℕ) : Option Value :=
  match f with
  | .map ms => member ms name
  | .seq xs => xs[i]?

/-- A sequence has no more elements than there are fields; under `deny_unknown_fields` a map has no others. -/
def Fields.fits (f : Fields) (deny : Bool) (names : List String) : Bool :=
  match f with
  | .map ms => !deny || onlyKeys ms names
  | .seq xs => xs.length ≤ names.length

def toInt (lo hi : ℤ) : Value → Option ℤ
  | .int n => if lo ≤ n ∧ n ≤ hi then some n else none
  | _ => none

def toI64 : Value → Option ℤ := toInt (-2 ^ 63) (2 ^ 63 - 1)

def toU32 : Value → Option ℤ := toInt 0 (2 ^ 32 - 1)

def toU64 : Value → Option ℤ := toInt 0 (2 ^ 64 - 1)

def toBool : Value → Option Bool
  | .bool b => some b
  | _ => none

def toString : Value → Option (List Char)
  | .str s => some s
  | _ => none

/-- A field with `#[serde(default)]`. -/
def withDefault {α : Type} (read : Value → Option α) (default : α) : Option Value → Option α
  | none => some default
  | some v => read v

/-- An `Option` field with `#[serde(default)]`. -/
def orNone {α : Type} (read : Value → Option α) : Option Value → Option (Option α)
  | none | some .null => some none
  | some v => (read v).map some

structure RawButtons where
  l : Bool
  r : Bool
  m : Bool
  deriving DecidableEq

def toButtonsOf (f : Fields) : Option RawButtons :=
  if f.fits true ["l", "r", "m"] then do
    some ⟨← withDefault toBool false (f.get "l" 0), ← withDefault toBool false (f.get "r" 1),
      ← withDefault toBool false (f.get "m" 2)⟩
  else none

def toButtons : Value → Option RawButtons
  | .obj ms => toButtonsOf (.map ms)
  | .arr xs => toButtonsOf (.seq xs)
  | _ => none

structure RawInput where
  ev : List Char
  x : Option ℤ
  y : Option ℤ
  buttons : Option RawButtons
  monitor : Option ℤ
  dx : Option ℤ
  dy : Option ℤ
  code : Option ℤ
  down : Option Bool
  ext : Option Bool
  ch : Option (List Char)
  deriving DecidableEq

def rawInputNames : List String :=
  ["ev", "x", "y", "buttons", "monitor", "dx", "dy", "code", "down", "ext", "ch"]

def toRawInput (f : Fields) : Option RawInput :=
  if f.fits true rawInputNames then do
    let ev ← (f.get "ev" 0).bind toString
    let x ← orNone toI64 (f.get "x" 1)
    let y ← orNone toI64 (f.get "y" 2)
    let buttons ← orNone toButtons (f.get "buttons" 3)
    let monitor ← orNone toI64 (f.get "monitor" 4)
    let dx ← orNone toI64 (f.get "dx" 5)
    let dy ← orNone toI64 (f.get "dy" 6)
    let code ← orNone toI64 (f.get "code" 7)
    let down ← orNone toBool (f.get "down" 8)
    let ext ← orNone toBool (f.get "ext" 9)
    let ch ← orNone toString (f.get "ch" 10)
    some ⟨ev, x, y, buttons, monitor, dx, dy, code, down, ext, ch⟩
  else none

inductive InMsg where
  | input (raw : RawInput)
  | ack (monitor frame : ℤ)
  | setMonitor (monitor : ℤ)
  | quality (fps jpegQ : Option ℤ)
  | pause
  | resume
  | close
  | unknown
  deriving DecidableEq

/-- The variant that the tag names, from what stands beside the tag. -/
def toVariant (tag : List Char) (f : Fields) : Option InMsg :=
  if tag = ascii "input" then (toRawInput f).map .input
  else if tag = ascii "ack" then
    if f.fits false ["monitor", "frame"] then do
      some (.ack (← withDefault toU32 0 (f.get "monitor" 0)) (← (f.get "frame" 1).bind toU64))
    else none
  else if tag = ascii "set_monitor" then
    if f.fits false ["monitor"] then do some (.setMonitor (← (f.get "monitor" 0).bind toU32)) else none
  else if tag = ascii "quality" then
    if f.fits false ["fps", "jpeg_q"] then do
      some (.quality (← orNone toU32 (f.get "fps" 0)) (← orNone toU32 (f.get "jpeg_q" 1)))
    else none
  else if tag = ascii "pause" then some .pause
  else if tag = ascii "resume" then some .resume
  else if tag = ascii "close" then some .close
  else some .unknown

/-- `serde_json::from_value`: an enum with the tag inside, or in front of a sequence. -/
def fromValue : Value → Option InMsg
  | .obj ms => do
    let tag ← (member ms "type").bind toString
    toVariant tag (.map (ms.filter (·.1 ≠ ascii "type")))
  | .arr (tag :: xs) => do toVariant (← toString tag) (.seq xs)
  | _ => none

def parseIn (tooLarge : Str → Bool) (json : Str) : Option InMsg :=
  (fromSlice tooLarge json).bind fromValue

/-! ## Validation -/

inductive InputEvent where
  | mouse (x y : ℤ) (left right middle : Bool) (monitor : ℤ)
  | wheel (dx dy : ℤ) (monitor : ℤ)
  | key (scancode : ℤ) (down extended : Bool)
  | text (units : List ℕ)
  | sas
  deriving DecidableEq

def coordMax : ℤ := 65535

def wheelLimit : ℤ := 1200

def inCoord (v : ℤ) : Option ℤ := if 0 ≤ v ∧ v ≤ coordMax then some v else none

def inWheel (v : ℤ) : Option ℤ := if -wheelLimit ≤ v ∧ v ≤ wheelLimit then some v else none

def validMonitor (m : Option ℤ) (count : ℤ) : Option ℤ :=
  if 0 ≤ m.getD 0 ∧ m.getD 0 < count then some (m.getD 0) else none

/-- `encode_utf16` of one character. -/
def utf16Char (c : Char) : List ℕ :=
  if c.toNat < 0x10000 then [c.toNat]
  else [0xd800 + (c.toNat - 0x10000) / 1024, 0xdc00 + (c.toNat - 0x10000) % 1024]

def utf16 (s : List Char) : List ℕ := s.flatMap utf16Char

def validate (raw : RawInput) (monitorCount : ℤ) : Option InputEvent :=
  if raw.ev = ascii "mouse" then do
    let x ← inCoord (← raw.x)
    let y ← inCoord (← raw.y)
    let monitor ← validMonitor raw.monitor monitorCount
    let b := raw.buttons.getD ⟨false, false, false⟩
    some (.mouse x y b.l b.r b.m monitor)
  else if raw.ev = ascii "wheel" then do
    let dx ← inWheel (raw.dx.getD 0)
    let dy ← inWheel (raw.dy.getD 0)
    let monitor ← validMonitor raw.monitor monitorCount
    if dx = 0 ∧ dy = 0 then none else some (.wheel dx dy monitor)
  else if raw.ev = ascii "key" then do
    let code ← raw.code
    if 0 ≤ code ∧ code ≤ 0xffff then some (.key code (raw.down.getD true) (raw.ext.getD false)) else none
  else if raw.ev = ascii "text" then do
    let ch ← raw.ch
    if ch = [] ∨ 64 < (utf8 ch).length then none
    else if utf16 ch = [] ∨ 128 < (utf16 ch).length then none
    else some (.text (utf16 ch))
  else if raw.ev = ascii "sas" then some .sas
  else none

end Ominull.Screen.Wire
