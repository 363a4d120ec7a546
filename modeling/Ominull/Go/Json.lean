import Ominull.Go.Utf8
import Ominull.Lib.Hex

/-!
Go's `encoding/json`: the value tree, the encoder with HTML escaping, and the parser.
-/

namespace Ominull.Go

/-- A JSON value as the text spells it: members in order, repeated names kept, numbers as their
literals. -/
inductive Json where
  | null
  | bool (b : Bool)
  | num (lit : Str)
  | str (s : List Char)
  | arr (xs : List Json)
  | obj (ms : List (List Char × Json))

/-! ## Encoding -/

/-- The escape `\u00XX` of a character below U+0100. -/
def escapeByte (n : ℕ) : Str := str "\\u00" ++ [hexDigit (n / 16), hexDigit (n % 16)]

/-- `appendString` on one character, HTML escaping on. -/
def escapeChar (c : Char) : Str :=
  if c = '"' then str "\\\""
  else if c = '\\' then str "\\\\"
  else if c.toNat = 0x08 then str "\\b"
  else if c.toNat = 0x0c then str "\\f"
  else if c.toNat = 0x0a then str "\\n"
  else if c.toNat = 0x0d then str "\\r"
  else if c.toNat = 0x09 then str "\\t"
  else if c.toNat < 0x20 ∨ c = '<' ∨ c = '>' ∨ c = '&' then escapeByte c.toNat
  else if c.toNat = 0x2028 then str "\\u2028"
  else if c.toNat = 0x2029 then str "\\u2029"
  else String.utf8EncodeChar c

def quoteChars (s : List Char) : Str := 0x22 :: (s.flatMap escapeChar ++ [0x22])

/-- `json.Marshal` of a Go string: a byte that is not valid UTF-8 is written as an escape. -/
def quote (s : Str) : Str :=
  0x22 :: ((runes s).flatMap (fun r => match r with
    | .valid c => escapeChar c
    | .invalid _ => str "\\ufffd") ++ [0x22])

mutual

/-- `json.Marshal` of a value, members in the order given. -/
def encode : Json → Str
  | .null => str "null"
  | .bool true => str "true"
  | .bool false => str "false"
  | .num lit => lit
  | .str s => quoteChars s
  | .arr [] => [0x5b, 0x5d]
  | .arr (x :: xs) => 0x5b :: (encode x ++ encodeElems xs)
  | .obj [] => [0x7b, 0x7d]
  | .obj ((k, v) :: ms) => 0x7b :: (quoteChars k ++ 0x3a :: (encode v ++ encodeMembers ms))

/-- The elements after the first, and the closing bracket. -/
def encodeElems : List Json → Str
  | [] => [0x5d]
  | x :: xs => 0x2c :: (encode x ++ encodeElems xs)

/-- The members after the first, and the closing brace. -/
def encodeMembers : List (List Char × Json) → Str
  | [] => [0x7d]
  | (k, v) :: ms => 0x2c :: (quoteChars k ++ 0x3a :: (encode v ++ encodeMembers ms))

end

/-- The blanks of a text: the line break before what stands at a depth, and what follows a colon. -/
structure Spacing where
  line : ℕ → Str
  colon : Str

mutual

/-- A value at a depth, with the given blanks between its parts. -/
def encodeSpaced (sp : Spacing) : ℕ → Json → Str
  | _, .null => str "null"
  | _, .bool true => str "true"
  | _, .bool false => str "false"
  | _, .num lit => lit
  | _, .str s => quoteChars s
  | _, .arr [] => [0x5b, 0x5d]
  | d, .arr (x :: xs) => 0x5b :: (sp.line (d + 1) ++ (encodeSpaced sp (d + 1) x ++ spacedElems sp d xs))
  | _, .obj [] => [0x7b, 0x7d]
  | d, .obj ((k, v) :: ms) =>
    0x7b :: (sp.line (d + 1) ++ (quoteChars k ++ 0x3a :: (sp.colon ++ (encodeSpaced sp (d + 1) v ++ spacedMembers sp d ms))))

/-- The elements after the first, and the closing bracket on its own line. -/
def spacedElems (sp : Spacing) : ℕ → List Json → Str
  | d, [] => sp.line d ++ [0x5d]
  | d, x :: xs => 0x2c :: (sp.line (d + 1) ++ (encodeSpaced sp (d + 1) x ++ spacedElems sp d xs))

/-- The members after the first, and the closing brace on its own line. -/
def spacedMembers (sp : Spacing) : ℕ → List (List Char × Json) → Str
  | d, [] => sp.line d ++ [0x7d]
  | d, (k, v) :: ms =>
    0x2c :: (sp.line (d + 1) ++ (quoteChars k ++ 0x3a :: (sp.colon ++ (encodeSpaced sp (d + 1) v ++ spacedMembers sp d ms))))

end

/-- The layout of `json.MarshalIndent` without a line prefix. -/
def Spacing.indent (w : Str) : Spacing := ⟨fun d => 0x0a :: (List.replicate d w).flatten, [0x20]⟩

/-- An array at a depth, from the texts of its elements. -/
def spacedArray (sp : Spacing) (d : ℕ) : List Str → Str
  | [] => [0x5b, 0x5d]
  | x :: xs => 0x5b :: (sp.line (d + 1) ++ (x ++ ((xs.flatMap fun x => 0x2c :: (sp.line (d + 1) ++ x)) ++
      (sp.line d ++ [0x5d]))))

/-- A struct at a depth, from its names and the texts of its values. -/
def spacedStruct (sp : Spacing) (d : ℕ) : List (Str × Str) → Str
  | [] => [0x7b, 0x7d]
  | (k, v) :: ms => 0x7b :: (sp.line (d + 1) ++ (quote k ++ 0x3a :: (sp.colon ++ (v ++
      ((ms.flatMap fun (k, v) => 0x2c :: (sp.line (d + 1) ++ (quote k ++ 0x3a :: (sp.colon ++ v)))) ++
        (sp.line d ++ [0x7d]))))))

/-- `json.Marshal` of a struct: the members that are present, in field order. -/
def marshalStruct (fields : List (Option (Str × Str))) : Str :=
  match fields.reduceOption with
  | [] => [0x7b, 0x7d]
  | (k, v) :: ms =>
    0x7b :: (quote k ++ 0x3a :: (v ++ (ms.flatMap fun (k, v) => 0x2c :: (quote k ++ 0x3a :: v)) ++
      [0x7d]))

/-! ## Parsing -/

def isSpace (b : UInt8) : Bool := b == 0x20 || b == 0x09 || b == 0x0a || b == 0x0d

def skipSpace (s : Str) : Str := s.dropWhile isSpace

/-- Four hex digits. -/
def getu4 : Str → Option (ℕ × Str)
  | a :: b :: c :: d :: rest => do
    let a ← hexValue a
    let b ← hexValue b
    let c ← hexValue c
    let d ← hexValue d
    some (a * 4096 + b * 256 + c * 16 + d, rest)
  | _ => none

/-- The character of a `\u` escape whose digits have been read: a surrogate pair takes the escape
that follows too, a lone surrogate is the replacement character. -/
def unescapeRune (n : ℕ) (rest : Str) : Char × Str :=
  if n < 0xd800 ∨ 0xe000 ≤ n then (Char.ofNat n, rest)
  else
    match decide (n < 0xdc00), rest with
    | true, 0x5c :: 0x75 :: rest' =>
      match getu4 rest' with
      | some (m, rest'') =>
        if 0xdc00 ≤ m ∧ m < 0xe000 then
          (Char.ofNat (0x10000 + (n - 0xd800) * 1024 + (m - 0xdc00)), rest'')
        else (Char.ofNat 0xfffd, rest)
      | none => (Char.ofNat 0xfffd, rest)
    | _, _ => (Char.ofNat 0xfffd, rest)

/-- The character an escape letter other than `u` stands for. -/
def simpleEscape (b : UInt8) : Option Char :=
  if b = 0x22 then some '"' else if b = 0x5c then some '\\' else if b = 0x2f then some '/'
  else if b = 0x62 then some (Char.ofNat 0x08) else if b = 0x66 then some (Char.ofNat 0x0c)
  else if b = 0x6e then some (Char.ofNat 0x0a) else if b = 0x72 then some (Char.ofNat 0x0d)
  else if b = 0x74 then some (Char.ofNat 0x09) else none

/-- A string after its opening quote, and what follows the closing one. -/
def parseChars : ℕ → Str → Option (List Char × Str)
  | 0, _ => none
  | _ + 1, [] => none
  | n + 1, b :: t =>
    if b = 0x22 then some ([], t)
    else if b = 0x5c then
      match t with
      | 0x75 :: t' => do
        let (u, rest) ← getu4 t'
        let (c, rest) := unescapeRune u rest
        let (cs, rest) ← parseChars n rest
        some (c :: cs, rest)
      | e :: t' => do
        let c ← simpleEscape e
        let (cs, rest) ← parseChars n t'
        some (c :: cs, rest)
      | [] => none
    else if b < 0x20 then none
    else
      match decodeRune (b :: t) with
      | some (c, rest) => (parseChars n rest).map fun (cs, rest) => (c :: cs, rest)
      | none => (parseChars n t).map fun (cs, rest) => (Char.ofNat 0xfffd :: cs, rest)

def takeDigits (s : Str) : Str × Str := s.span isDigit

/-- The integer part of a number: no leading zero. -/
def scanInteger : Str → Option (Str × Str)
  | 0x30 :: t => some ([0x30], t)
  | b :: t => if isDigit b then some (takeDigits (b :: t)) else none
  | [] => none

def scanFraction : Str → Option (Str × Str)
  | 0x2e :: t =>
    match takeDigits t with
    | ([], _) => none
    | (ds, rest) => some (0x2e :: ds, rest)
  | s => some ([], s)

def scanExponent : Str → Option (Str × Str)
  | b :: t =>
    if b = 0x65 ∨ b = 0x45 then
      let (sign, t) := match t with
        | c :: t' => if c = 0x2b ∨ c = 0x2d then ([c], t') else ([], t)
        | [] => ([], t)
      match takeDigits t with
      | ([], _) => none
      | (ds, rest) => some (b :: (sign ++ ds), rest)
    else some ([], b :: t)
  | [] => some ([], [])

def scanNumber (s : Str) : Option (Str × Str) := do
  let (sign, s) := match s with
    | 0x2d :: t => (str "-", t)
    | _ => ([], s)
  let (int, s) ← scanInteger s
  let (frac, s) ← scanFraction s
  let (exp, s) ← scanExponent s
  some (sign ++ int ++ frac ++ exp, s)

def maxNestingDepth : ℕ := 10000

mutual

/-- One value, and what follows it; `d` is how deep it lies. -/
def parseValue : ℕ → ℕ → Str → Option (Json × Str)
  | 0, _, _ => none
  | n + 1, d, s =>
    match skipSpace s with
    | [] => none
    | b :: t =>
      if b = 0x7b then
        if d < maxNestingDepth then
          match skipSpace t with
          | 0x7d :: rest => some (.obj [], rest)
          | t' => (parseMembers n (d + 1) t').map fun (ms, rest) => (.obj ms, rest)
        else none
      else if b = 0x5b then
        if d < maxNestingDepth then
          match skipSpace t with
          | 0x5d :: rest => some (.arr [], rest)
          | t' => (parseElems n (d + 1) t').map fun (xs, rest) => (.arr xs, rest)
        else none
      else if b = 0x22 then
        (parseChars (t.length + 1) t).map fun (cs, rest) => (.str cs, rest)
      else if (str "null").isPrefixOf (b :: t) then some (.null, (b :: t).drop 4)
      else if (str "true").isPrefixOf (b :: t) then some (.bool true, (b :: t).drop 4)
      else if (str "false").isPrefixOf (b :: t) then some (.bool false, (b :: t).drop 5)
      else (scanNumber (b :: t)).map fun (lit, rest) => (.num lit, rest)

def parseElems : ℕ → ℕ → Str → Option (List Json × Str)
  | 0, _, _ => none
  | n + 1, d, s => do
    let (x, rest) ← parseValue n d s
    match skipSpace rest with
    | 0x2c :: rest => (parseElems n d rest).map fun (xs, rest) => (x :: xs, rest)
    | 0x5d :: rest => some ([x], rest)
    | _ => none

def parseMembers : ℕ → ℕ → Str → Option (List (List Char × Json) × Str)
  | 0, _, _ => none
  | n + 1, d, s =>
    match skipSpace s with
    | 0x22 :: t => do
      let (k, rest) ← parseChars (t.length + 1) t
      match skipSpace rest with
      | 0x3a :: rest => do
        let (v, rest) ← parseValue n d rest
        match skipSpace rest with
        | 0x2c :: rest => (parseMembers n d rest).map fun (ms, rest) => ((k, v) :: ms, rest)
        | 0x7d :: rest => some ([(k, v)], rest)
        | _ => none
      | _ => none
    | _ => none

end

/-- `json.Decoder.Decode`: the first value of a text, and what follows it. -/
def decodeFirst (s : Str) : Option (Json × Str) := parseValue (s.length + 1) 0 s

/-- `json.Unmarshal`'s reading of a text: one value with nothing but space after it. -/
def parse (s : Str) : Option Json := do
  let (v, rest) ← decodeFirst s
  if skipSpace rest = [] then some v else none

end Ominull.Go
