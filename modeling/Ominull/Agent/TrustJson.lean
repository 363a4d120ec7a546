import Ominull.Lib.Scanf

/-!
The agent's strict JSON reader (`TJ_*`). A span of text is the string of its bytes; a reader that
moves a pointer returns the text from there on. Loops over the text carry fuel; each round uses up
at least one byte, so the length of the text is always enough.
-/

namespace Ominull.Agent.TJ

open Lib

def isWs (b : UInt8) : Bool := b = 0x20 || b = 0x09 || b = 0x0a || b = 0x0d

def ws (s : Str) : Str := s.dropWhile isWs

/-- After the opening quote: skips to behind the closing one. -/
def skipStringBody : Str → Option Str
  | [] => none
  | [b] => if b = 0x22 then some [] else none
  | b :: c :: s =>
    if b = 0x5c then skipStringBody s
    else if b = 0x22 then some (c :: s)
    else if b < 0x20 then none
    else skipStringBody (c :: s)

def skipString : Str → Option Str
  | 0x22 :: s => skipStringBody s
  | _ => none

def isScalarByte (b : UInt8) : Bool := isAlnum b || b = 0x2d || b = 0x2b || b = 0x2e

/-- A number, `true`, `false`, `null`, or anything else spelled with their characters. -/
def skipScalar (s : Str) : Option Str :=
  if (s.takeWhile isScalarByte) = [] then none else some (s.dropWhile isScalarByte)

/-- The key and colon in front of an object's member. -/
def skipKey (s : Str) : Option Str :=
  match (skipString (ws s)).map ws with
  | some (0x3a :: s) => some s
  | _ => none

mutual

def skipValueFuel : ℕ → ℕ → Str → Option Str
  | 0, _, _ => none
  | fuel + 1, depth, s =>
    match ws s with
    | [] => none
    | b :: r =>
      if 16 < depth then none
      else if b = 0x22 then skipString (b :: r)
      else if b = 0x7b then
        match ws r with
        | 0x7d :: r => some r
        | r => skipItems fuel depth true r
      else if b = 0x5b then
        match ws r with
        | 0x5d :: r => some r
        | r => skipItems fuel depth false r
      else skipScalar (b :: r)

/-- The rest of an object or array, from one of its items on. -/
def skipItems : ℕ → ℕ → Bool → Str → Option Str
  | 0, _, _, _ => none
  | fuel + 1, depth, object, s =>
    match (if object then skipKey s else some s) with
    | none => none
    | some s =>
      match (skipValueFuel fuel (depth + 1) s).map ws with
      | some (b :: r) =>
        if b = 0x2c then skipItems fuel depth object r
        else if b = (if object then 0x7d else 0x5d) then some r
        else none
      | _ => none

end

def skipValue (depth : ℕ) (s : Str) : Option Str := skipValueFuel (2 * s.length + 1) depth s

/-- The text from `s` up to `rest`. -/
def spanTo (s rest : Str) : Str := s.take (s.length - rest.length)

def unquoted (s : Str) : Str := (s.drop 1).dropLast

/-- A string in quotes, as `"%s"` prints it. -/
def quoted (s : Str) : Str := 0x22 :: (s ++ [0x22])

def readMembers : ℕ → List Str → Str → Option (List (Str × Str))
  | 0, _, _ => none
  | fuel + 1, seen, s =>
    let s := ws s
    match skipString s with
    | none => none
    | some rest =>
      let key := unquoted (spanTo s rest)
      if 0x5c ∈ key then none
      else if seen.any (equalsIgnoreCase key) then none
      else if 48 ≤ seen.length then none
      else
        match ws rest with
        | 0x3a :: s =>
          let s := ws s
          match skipValue 1 s with
          | none => none
          | some rest =>
            match ws rest with
            | 0x2c :: r => (readMembers fuel (seen ++ [key]) r).map ((key, spanTo s rest) :: ·)
            | 0x7d :: _ => some [(key, spanTo s rest)]
            | _ => none
        | _ => none

/-- The members of an object with the spans of their values. Whichever key `TJ_Member` is asked
for, it reads all of them: keys must be plain and unique ignoring case. -/
def members (obj : Str) : Option (List (Str × Str)) :=
  match ws obj with
  | 0x7b :: s =>
    match ws s with
    | 0x7d :: _ => some []
    | s => readMembers (s.length + 1) [] s
  | _ => none

/-- `TJ_Member`: `none` is its -1, `some none` its 0. -/
def member (obj key : Str) : Option (Option Str) :=
  (members obj).map fun ms => (ms.find? fun m => m.1 = key).map (·.2)

/-- `TJ_Member` finds the key. -/
def found (obj key : Str) : Option Str := (member obj key).join

/-- `TJ_Plain`: a string with no escapes that fits a buffer of `cap` bytes. -/
def plain (cap : ℕ) (v : Str) : Option Str :=
  match skipString v with
  | none => none
  | some rest =>
    let text := unquoted (spanTo v rest)
    if cap < text.length + 1 ∨ 0x5c ∈ text then none else some text

def plainItems : ℕ → ℕ → Str → Option (List Str)
  | 0, _, _ => none
  | fuel + 1, cap, s =>
    let s := ws s
    match skipString s with
    | none => none
    | some rest =>
      if cap = 0 then none
      else
        match plain 64 (spanTo s rest) with
        | none => none
        | some text =>
          match ws rest with
          | 0x2c :: r => (plainItems fuel (cap - 1) r).map (text :: ·)
          | 0x5d :: _ => some [text]
          | _ => none

/-- `TJ_PlainArray`: at most `cap` plain strings of less than 64 bytes; `null` reads as none. -/
def plainArray (cap : ℕ) (v : Str) : Option (List Str) :=
  let s := ws v
  if s.take 4 = str "null" then some []
  else
    match s with
    | 0x5b :: s =>
      match ws s with
      | 0x5d :: _ => some []
      | s => plainItems (s.length + 1) cap s
    | _ => none

/-- The digits at the front of a text, refused when they pass the bound of an `int64_t`. -/
def readDigits : ℕ → Str → Option ℕ
  | x, [] => some x
  | x, b :: s =>
    if isDigit b then
      if (2 ^ 63 - 1 - 9) / 10 < x then none else readDigits (10 * x + (b.toNat - 0x30)) s
    else some x

/-- `TJ_Int`. What follows the digits is not looked at. -/
def int (v : Str) : Option Int :=
  let (negative, s) := scanMinus (ws v)
  match s with
  | [] => none
  | b :: _ =>
    if isDigit b then
      (readDigits 0 s).map fun (x : ℕ) => if negative then -(x : Int) else (x : Int)
    else none

def memberPlain (obj key : Str) (cap : ℕ) : Option Str := (found obj key).bind (plain cap)

def memberInt (obj key : Str) : Option Int := (found obj key).bind int

section

variable {ε σ : Type}

def walkItems (bad : ε) (f : σ → Str → Except ε σ) : ℕ → σ → Str → Except ε σ
  | 0, _, _ => .error bad
  | fuel + 1, a, s =>
    let s := ws s
    match skipValue 1 s with
    | none => .error bad
    | some rest =>
      match f a (spanTo s rest) with
      | .error e => .error e
      | .ok a =>
        match ws rest with
        | 0x2c :: r => walkItems bad f fuel a r
        | 0x5d :: _ => .ok a
        | _ => .error bad

/-- Walks an array and folds `f` over the spans of its elements; `bad` is the error of a malformed
array. -/
def walkArray (bad : ε) (f : σ → Str → Except ε σ) (a : σ) (v : Str) : Except ε σ :=
  match ws v with
  | 0x5b :: s =>
    match ws s with
    | 0x5d :: _ => .ok a
    | s => walkItems bad f (s.length + 1) a s
  | _ => .error bad

end

/-- `Trust_EachElement`: reads at most `cap` elements, each in view of those before it. -/
def eachElement {α : Type} (cap : ℕ) (f : List α → Str → Option α) (v : Str) : Option (List α) :=
  (walkArray () (fun as s =>
    if cap ≤ as.length then .error ()
    else
      match f as s with
      | some a => .ok (as ++ [a])
      | none => .error ()) [] v).toOption

end Ominull.Agent.TJ
