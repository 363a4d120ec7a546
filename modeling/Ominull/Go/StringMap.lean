import Mathlib.Data.List.Sort
import Ominull.Lib.Table
import Ominull.Go.RoundTrip

/-! `map[string]T` and its JSON: an object with the names in order. -/

namespace Ominull.Go

open Lib

variable {β : Type}

abbrev StringMap (β : Type) := Table (Prod.fst : Str × β → Str)

namespace StringMap

def get (m : StringMap β) (k : Str) : Option β := (m.find k).map Prod.snd

def set (m : StringMap β) (k : Str) (b : β) : StringMap β := m.upsert (k, b)

theorem get_set (m : StringMap β) (k k' : Str) (b : β) :
    (m.set k b).get k' = if k = k' then some b else m.get k' := by
  unfold get set
  rw [Table.find_upsert]
  split_ifs <;> rfl

theorem get_of_mem {m : StringMap β} {p : Str × β} (h : p ∈ m.rows) : m.get p.1 = some p.2 := by
  rw [get, Table.find_of_mem h, Option.map_some]

theorem get_congr {m m' : StringMap β} (h : ∀ k, m'.find k = m.find k) (k : Str) : m'.get k = m.get k := by
  rw [get, get, h]

end StringMap

/-- `json.Marshal` of a map: its members sorted by name. -/
def marshalMap (enc : β → Str) (m : StringMap β) : Str :=
  marshalStruct ((m.rows.insertionSort fun p q => p.1 ≤ q.1).map fun p => some (p.1, enc p.2))

/-- `json.Unmarshal` into a map: an error, a nil map for `null`, or the members, of which a later one
replaces an earlier one of the same name. -/
def unmarshalMap (dec : Json → β → Option β) (zero : β) (raw : Str) : Option (Option (StringMap β)) :=
  match parse raw with
  | some .null => some none
  | some (.obj ms) =>
    (ms.foldlM (fun (m : StringMap β) (k, v) => (dec v zero).map fun b => m.set (utf8 k) b) Table.empty).map some
  | _ => none

/-- A JSON value that stands for a map's value: written as it is, and decoded to it. -/
structure Spelled (enc : β → Str) (dec : Json → β → Option β) (zero : β) (j : Json) (b : β) : Prop where
  fits : ∀ n, j.Fits (n + 1)
  text : enc b = encode j
  decoded : dec j zero = some b

/-- A member that stands for a row of a map. -/
structure SpelledRow (enc : β → Str) (dec : Json → β → Option β) (zero : β) (m : List Char × Json) (p : Str × β) :
    Prop where
  name : p.1 = utf8 m.1
  value : Spelled enc dec zero m.2 p.2

variable {enc : β → Str} {dec : Json → β → Option β} {zero : β}

theorem foldlM_spelled {ms : List (List Char × Json)} {ps : List (Str × β)}
    (h : List.Forall₂ (SpelledRow enc dec zero) ms ps) (m : StringMap β) :
    ms.foldlM (fun (m : StringMap β) (k, v) => (dec v zero).map fun b => m.set (utf8 k) b) m =
      some (ps.foldl Table.upsert m) := by
  induction h generalizing m with
  | nil => rfl
  | @cons x p _ _ hx _ ih =>
    obtain ⟨k, b⟩ := p
    obtain rfl : k = utf8 x.1 := hx.name
    show ((dec x.2 zero).map fun b => m.set (utf8 x.1) b).bind _ = _
    rw [hx.value.decoded, Option.map_some, Option.bind_some, ih]
    rfl

/-- A map whose names are texts, and whose values can be written, is read back as it was. -/
theorem unmarshal_marshalMap {m : StringMap β} (hnames : ∀ p ∈ m.rows, IsText p.1)
    (hvalues : ∀ p ∈ m.rows, ∃ j, Spelled enc dec zero j p.2) :
    ∃ m', unmarshalMap dec zero (marshalMap enc m) = some (some m') ∧ ∀ k, m'.find k = m.find k := by
  have hperm : (m.rows.insertionSort fun p q => p.1 ≤ q.1).Perm m.rows := List.perm_insertionSort _ _
  rw [marshalMap]
  generalize (m.rows.insertionSort fun p q => p.1 ≤ q.1) = rows at hperm
  obtain ⟨ms, hms⟩ : ∃ ms, List.Forall₂ (SpelledRow enc dec zero) ms rows := by
    have hall : ∀ p ∈ rows, IsText p.1 ∧ ∃ j, Spelled enc dec zero j p.2 :=
      fun p hp => ⟨hnames p (hperm.mem_iff.mp hp), hvalues p (hperm.mem_iff.mp hp)⟩
    clear hperm
    induction rows with
    | nil => exact ⟨[], .nil⟩
    | cons p rows ih =>
      obtain ⟨⟨⟨cs, hcs⟩, j, hj⟩, hrest⟩ := List.forall_mem_cons.mp hall
      obtain ⟨ms, hms⟩ := ih hrest
      exact ⟨(cs, j) :: ms, .cons ⟨hcs, hj⟩ hms⟩
  have htext : (rows.map fun p => some (p.1, enc p.2)) = ms.map fun m => some (utf8 m.1, encode m.2) := by
    clear hperm
    induction hms with
    | nil => rfl
    | cons hx _ ih => rw [List.map_cons, List.map_cons, hx.name, hx.value.text, ih]
  have hfits : (Json.obj ms).Fits maxNestingDepth := by
    show Json.Fits (9999 + 1) _
    rw [Json.Fits, membersFit_iff]
    clear hperm htext
    induction hms with
    | nil => exact List.forall_mem_nil _
    | cons hx _ ih => exact List.forall_mem_cons.mpr ⟨hx.value.fits 9998, ih⟩
  rw [htext, marshalStruct_eq_encode, unmarshalMap, parse_encode hfits]
  dsimp only
  rw [foldlM_spelled hms, Option.map_some]
  exact ⟨_, rfl, Table.find_foldl_upsert_rows hperm⟩

end Ominull.Go
