import Ominull.Go.Json
import Ominull.Go.Unicode

/-!
`encoding/json`'s decoding into Go values. A decoder is given the value's old contents, which `null`
and missing members leave in place; `none` is Go's type error.
-/

namespace Ominull.Go

variable {α β : Type}

def foldName (k : List Char) : List Char := k.map foldRune

/-- A struct field: its JSON name and how a member's value is stored in it. -/
structure Field (α : Type) where
  name : List Char
  set : Json → α → Option α

/-- The field a member goes to: the one spelled exactly so, else the first that matches under case
folding. -/
def lookupField (fs : List (Field α)) (k : List Char) : Option (Field α) :=
  (fs.find? fun f => f.name = k) <|> (fs.find? fun f => foldName f.name = foldName k)

def storeMember (fs : List (Field α)) (a : α) (m : List Char × Json) : Option α :=
  match lookupField fs m.1 with
  | some f => f.set m.2 a
  | none => some a

def decodeStruct (fs : List (Field α)) (v : Json) (a : α) : Option α :=
  match v with
  | .null => some a
  | .obj ms => ms.foldlM (storeMember fs) a
  | _ => none

def decodeString (v : Json) (a : Str) : Option Str :=
  match v with
  | .null => some a
  | .str s => some (utf8 s)
  | _ => none

def decodeBool (v : Json) (a : Bool) : Option Bool :=
  match v with
  | .null => some a
  | .bool b => some b
  | _ => none

/-- `strconv.ParseInt` in base ten for a signed type of `w` bits, on a JSON number's literal. -/
def parseInt (w : ℕ) (lit : Str) : Option Int :=
  let (neg, ds) := match lit with
    | 0x2d :: t => (true, t)
    | _ => (false, lit)
  if ds ≠ [] ∧ ds.all isDigit then
    let n : Int := if neg then -digitsValue ds else digitsValue ds
    if -2 ^ (w - 1) ≤ n ∧ n < 2 ^ (w - 1) then some n else none
  else none

/-- `int` and `int64` are both 64 bits wide. -/
def decodeInt (v : Json) (a : Int) : Option Int :=
  match v with
  | .null => some a
  | .num lit => parseInt 64 lit
  | _ => none

/-- An unsigned type of `w` bits. -/
def decodeUint (w : ℕ) (v : Json) (a : ℕ) : Option ℕ :=
  match v with
  | .null => some a
  | .num lit =>
    if lit ≠ [] ∧ lit.all isDigit ∧ digitsValue lit < 2 ^ w then some (digitsValue lit) else none
  | _ => none

/-- A slice: each element is decoded over the element already at its place, if there is one. -/
def decodeSlice (dec : Json → β → Option β) (zero : β) (v : Json) (a : List β) : Option (List β) :=
  match v with
  | .null => some []
  | .arr xs => xs.zipIdx.mapM fun (x, i) => dec x (a.getD i zero)
  | _ => none

/-- A pointer: `null` clears it, anything else is decoded into a fresh value or the old one. -/
def decodePtr (dec : Json → β → Option β) (zero : β) (v : Json) (a : Option β) :
    Option (Option β) :=
  match v with
  | .null => some none
  | v => (dec v (a.getD zero)).map some

/-- A member of a map: a later one replaces an earlier one of the same name. -/
def mapInsert (m : List (List Char × β)) (k : List Char) (b : β) : List (List Char × β) :=
  if m.any (·.1 = k) then m.map fun p => if p.1 = k then (k, b) else p else m ++ [(k, b)]

def decodeMap (dec : Json → β → Option β) (zero : β) (v : Json) (a : List (List Char × β)) :
    Option (List (List Char × β)) :=
  match v with
  | .null => some []
  | .obj ms => ms.foldlM (fun m (k, v) => (dec v zero).map (mapInsert m k)) a
  | _ => none

theorem mem_of_lookupField {fs : List (Field α)} {k : List Char} {f : Field α} (h : lookupField fs k = some f) :
    f ∈ fs := by
  unfold lookupField at h
  cases hexact : fs.find? fun f => f.name = k with
  | some g =>
    rw [hexact] at h
    cases h
    exact List.mem_of_find?_eq_some hexact
  | none =>
    rw [hexact] at h
    exact List.mem_of_find?_eq_some h

/-- What every field of a struct preserves, decoding the struct preserves. -/
theorem decodeStruct_preserves {fs : List (Field α)} {P : α → Prop}
    (hset : ∀ f ∈ fs, ∀ v a b, P a → f.set v a = some b → P b) {v : Json} {a b : α} (ha : P a)
    (h : decodeStruct fs v a = some b) : P b := by
  have hmember : ∀ m a b, P a → storeMember fs a m = some b → P b := by
    intro m a b ha hm
    unfold storeMember at hm
    split at hm
    case h_1 f hf => exact hset f (mem_of_lookupField hf) m.2 a b ha hm
    case h_2 =>
      cases hm
      exact ha
  have hmembers : ∀ ms a b, P a → List.foldlM (storeMember fs) a ms = some b → P b := by
    intro ms
    induction ms with
    | nil =>
      intro a b ha hb
      cases hb
      exact ha
    | cons m ms ih =>
      intro a b ha hb
      obtain ⟨c, hc, hb⟩ := Option.bind_eq_some_iff.mp hb
      exact ih c b (hmember m a c ha hc) hb
  unfold decodeStruct at h
  split at h
  · cases h
    exact ha
  · exact hmembers _ a b ha h
  · cases h

theorem decodeUint_lt {w : ℕ} {v : Json} {a n : ℕ} (ha : a < 2 ^ w) (h : decodeUint w v a = some n) : n < 2 ^ w := by
  unfold decodeUint at h
  split at h
  · cases h
    exact ha
  · split at h
    case isTrue hlit =>
      cases h
      exact hlit.2.2
    case isFalse => cases h
  · cases h

end Ominull.Go
