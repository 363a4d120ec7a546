import Ominull.Lib.Text

namespace Ominull.Go

def continuation (t : Str) (i : ℕ) : ℕ := (t.getD i 0).toNat % 64

/-- The character whose encoding a text starting with byte `b`, then `t`, would have to start with. -/
def candidate (b : UInt8) (t : Str) : Char :=
  Char.ofNat <|
    if b.toNat < 0x80 then b.toNat
    else if b.toNat < 0xe0 then b.toNat % 32 * 64 + continuation t 0
    else if b.toNat < 0xf0 then
      b.toNat % 16 * 4096 + continuation t 0 * 64 + continuation t 1
    else
      b.toNat % 8 * 262144 + continuation t 0 * 4096 + continuation t 1 * 64 + continuation t 2

/-- `utf8.DecodeRune`: the first character and what follows it, or `none` where the text does not
start with a valid encoding (Go's `RuneError` of width one). -/
def decodeRune : Str → Option (Char × Str)
  | [] => none
  | b :: t =>
    let c := candidate b t
    if (String.utf8EncodeChar c).isPrefixOf (b :: t) then
      some (c, (b :: t).drop (String.utf8EncodeChar c).length)
    else none

theorem decodeRune_sound {s rest : Str} {c : Char} (h : decodeRune s = some (c, rest)) :
    s = String.utf8EncodeChar c ++ rest := by
  cases s with
  | nil => cases h
  | cons b t =>
    simp only [decodeRune] at h
    split at h
    · rename_i hp
      obtain ⟨rfl, rfl⟩ := Prod.mk.inj (Option.some.inj h)
      have hpre := List.isPrefixOf_iff_prefix.mp hp
      nth_rewrite 1 [← List.take_append_drop (String.utf8EncodeChar (candidate b t)).length (b :: t)]
      rw [← List.prefix_iff_eq_take.mp hpre]
    · cases h

private theorem candidate_utf8EncodeChar (c : Char) (rest : Str) :
    ∃ b t, String.utf8EncodeChar c ++ rest = b :: t ∧ candidate b t = c := by
  have hv : c.val.toNat < 0x110000 := by
    rcases c.valid with h | h
    · exact Nat.lt_trans h (by decide)
    · exact h.2
  -- one case for each length of the encoding
  suffices h : ∃ b t, String.utf8EncodeChar c ++ rest = b :: t ∧
      candidate b t = Char.ofNat c.val.toNat by
    obtain ⟨b, t, hbt, hc⟩ := h
    exact ⟨b, t, hbt, hc.trans (Char.ofNat_toNat c)⟩
  unfold String.utf8EncodeChar
  dsimp only
  split_ifs with h1 h2 h3
  all_goals
    simp only [List.cons_append]
    refine ⟨_, _, rfl, ?_⟩
    generalize c.val.toNat = v at *
    unfold candidate
    congr 1
    simp only [continuation, List.getD_cons_zero, List.getD_cons_succ, UInt8.toNat_ofNat']
    split_ifs <;> omega

theorem decodeRune_utf8EncodeChar (c : Char) (rest : Str) :
    decodeRune (String.utf8EncodeChar c ++ rest) = some (c, rest) := by
  obtain ⟨b, t, hbt, hc⟩ := candidate_utf8EncodeChar c rest
  have hp : (String.utf8EncodeChar c).isPrefixOf (b :: t) := by
    rw [List.isPrefixOf_iff_prefix, ← hbt]
    exact List.prefix_append _ _
  rw [hbt, decodeRune]
  simp only [hc, hp, if_true]
  rw [← hbt, List.drop_left]

/-- What iterating over a Go string yields: a character, or a byte that is not part of a valid
encoding. -/
inductive Rune where
  | valid (c : Char)
  | invalid (b : UInt8)
  deriving DecidableEq

namespace Rune

/-- The character Go hands out, U+FFFD for an invalid byte. -/
def char : Rune → Char
  | valid c => c
  | invalid _ => Char.ofNat 0xfffd

def bytes : Rune → Str
  | valid c => String.utf8EncodeChar c
  | invalid b => [b]

end Rune

def runesAux : ℕ → Str → List Rune
  | 0, _ => []
  | _ + 1, [] => []
  | n + 1, b :: t =>
    match decodeRune (b :: t) with
    | some (c, rest) => .valid c :: runesAux n rest
    | none => .invalid b :: runesAux n t

def runes (s : Str) : List Rune := runesAux s.length s

end Ominull.Go
