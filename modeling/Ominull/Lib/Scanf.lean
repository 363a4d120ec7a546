import Ominull.Lib.Hex
import Mathlib.Data.List.TakeWhile
import Mathlib.Data.Nat.Digits.Defs

/-!
The conversions of C's `sscanf` in the C locale, each from the text that is left to its value and the
text after it, and the few character classes and comparisons of `ctype.h` and `string.h` that go with
them.
-/

namespace Ominull.Lib

open List

def isSpace (b : UInt8) : Bool := b = 0x20 || (0x09 ≤ b && b ≤ 0x0d)

def isHexDigit (b : UInt8) : Bool := (hexValue b).isSome

def isLower (b : UInt8) : Bool := 0x61 ≤ b && b ≤ 0x7a

def isAlnum (b : UInt8) : Bool := isDigit b || isLower b || (0x41 ≤ b && b ≤ 0x5a)

/-- `tolower`. -/
def lowerByte (b : UInt8) : UInt8 := if 0x41 ≤ b ∧ b ≤ 0x5a then b + 0x20 else b

def lower (s : Str) : Str := s.map lowerByte

/-- `strcasecmp` finds no difference. -/
def equalsIgnoreCase (s t : Str) : Bool := lower s = lower t

/-- The C string at the start of a buffer. -/
def cString (s : Str) : Str := s.takeWhile (· ≠ 0)

def skipSpaces (s : Str) : Str := s.dropWhile isSpace

def scanLiteral : Str → Str → Option Str
  | [], s => some s
  | _ :: _, [] => none
  | c :: l, b :: s => if c = b then scanLiteral l s else none

/-- `%<w>s`. -/
def scanWord (w : ℕ) (s : Str) : Option (Str × Str) :=
  let s := skipSpaces s
  let word := (s.takeWhile fun b => !isSpace b).take w
  if word = [] then none else some (word, s.drop word.length)

/-- `%<w>[^\n]`. -/
def scanLine (w : ℕ) (s : Str) : Option (Str × Str) :=
  let line := (s.takeWhile (· != 0x0a)).take w
  if line = [] then none else some (line, s.drop line.length)

def scanSign : Str → Bool × Str
  | 0x2d :: s => (true, s)
  | 0x2b :: s => (false, s)
  | s => (false, s)

def scanMinus : Str → Bool × Str
  | 0x2d :: s => (true, s)
  | s => (false, s)

/-- `%lld`; a value out of range is cut to the nearest in range. -/
def scanInt (s : Str) : Option (Int × Str) :=
  let (negative, s) := scanSign (skipSpaces s)
  let digits := s.takeWhile isDigit
  if digits = [] then none
  else
    let n : Int := if negative then -(digitsValue digits : Int) else digitsValue digits
    some (max (-2 ^ 63) (min n (2 ^ 63 - 1)), s.drop digits.length)

/-- `%d`: the value is cut to 32 bits. -/
def scanInt32 (s : Str) : Option (Int × Str) :=
  (scanInt s).map fun (n, s) => ((n + 2 ^ 31) % 2 ^ 32 - 2 ^ 31, s)

/-- `%02x`, its value cut to a byte: two characters, of which the first may be a sign or the two may
be the prefix of a hexadecimal number. -/
def scanHexByte (s : Str) : Option UInt8 :=
  match skipSpaces s with
  | [] => none
  | 0x2b :: s => (s.head?.bind hexValue).map UInt8.ofNat
  | 0x2d :: s => (s.head?.bind hexValue).map fun n => 0 - UInt8.ofNat n
  | a :: s =>
    match hexValue a with
    | none => none
    | some x =>
      match s.head?.bind hexValue with
      | some y => some (UInt8.ofNat (16 * x + y))
      | none => some (UInt8.ofNat x)

/-! ## Hex digits of either case -/

theorem hexValue_lowerByte : ∀ b, hexValue (lowerByte b) = hexValue b :=
  forall_byte (by decide +kernel)

theorem hexDecode_lower (s : Str) : hexDecode (lower s) = hexDecode s := by
  induction s using hexDecode.induct with
  | case1 | case2 => rfl
  | case3 a b rest ih =>
    change hexDecode (lowerByte a :: lowerByte b :: lower rest) = _
    simp only [hexDecode, hexValue_lowerByte, ih]

theorem isHexDigit_not_space : ∀ b, isHexDigit b = true → isSpace b = false ∧ b ≠ 0x2b ∧ b ≠ 0x2d :=
  forall_byte (by decide +kernel)

variable {b : UInt8}

theorem scanHexByte_pair {a : UInt8} {x y : ℕ} (ha : hexValue a = some x) (hb : hexValue b = some y) (s : Str) :
    scanHexByte (a :: b :: s) = some (UInt8.ofNat (16 * x + y)) := by
  obtain ⟨hspace, hplus, hminus⟩ := isHexDigit_not_space a (by simp [isHexDigit, ha])
  have hskip : skipSpaces (a :: b :: s) = a :: b :: s :=
    dropWhile_cons_of_neg (by simp [hspace])
  unfold scanHexByte
  rw [hskip]
  split
  · cases ‹_ = _›
  · cases ‹_ = _›
    exact absurd rfl hplus
  · cases ‹_ = _›
    exact absurd rfl hminus
  · cases ‹_ = _›
    simp [ha, hb]

/-! ## Reading back what `printf` wrote -/

theorem decimal_length_le {n e : ℕ} (he : 0 < e) (h : n < 10 ^ e) : (decimal n).length ≤ e := by
  rw [decimal, length_map]
  exact Nat.toDigits_length 10 n e he h

theorem length_decimalInt_le {n : Int} {e : ℕ} (he : 0 < e) (h : n.natAbs < 10 ^ e) :
    (decimalInt n).length ≤ e + 1 := by
  cases n with
  | ofNat k => exact Nat.le_succ_of_le (decimal_length_le he h)
  | negSucc k => exact Nat.succ_le_succ (decimal_length_le he h)

variable {s : Str}

theorem cString_of_forall (h : (0 : UInt8) ∉ s) : cString s = s := by
  refine takeWhile_eq_self_iff.mpr fun b hb => ?_
  simp only [ne_eq, decide_not, Bool.not_eq_eq_eq_not, Bool.not_true, decide_eq_false_iff_not]
  rintro rfl
  exact h hb

theorem skipSpaces_of_head (h : ∀ b ∈ s.head?, isSpace b = false) : skipSpaces s = s := by
  cases s with
  | nil => rfl
  | cons b s =>
    have hb := h b rfl
    simp [skipSpaces, hb]

theorem scanLiteral_append (l s : Str) : scanLiteral l (l ++ s) = some s := by
  induction l with
  | nil => rfl
  | cons c l ih => simp [scanLiteral, ih]

theorem scanLiteral_skipSpaces {l : Str} (hb : isSpace b = true) (hne : l ≠ [])
    (hl : ∀ c ∈ l.head?, isSpace c = false) : scanLiteral l (skipSpaces (b :: (l ++ s))) = some s := by
  have hskip : skipSpaces (b :: (l ++ s)) = l ++ s := by
    unfold skipSpaces
    rw [dropWhile_cons_of_pos hb]
    apply skipSpaces_of_head
    rw [head?_append_of_ne_nil l hne]
    exact hl
  rw [hskip, scanLiteral_append]

variable {r : Str}

theorem takeWhile_append_of_head {p : UInt8 → Bool} (hs : ∀ b ∈ s, p b = true) (hr : ∀ b ∈ r.head?, p b = false) :
    (s ++ r).takeWhile p = s := by
  induction s with
  | nil =>
    cases r with
    | nil => rfl
    | cons b r => simp [hr b rfl]
  | cons a s ih =>
    rw [cons_append, takeWhile_cons_of_pos (hs a (by simp)),
      ih fun b hb => hs b (by simp [hb])]

theorem scanWord_append {w : ℕ} {word : Str} (hne : word ≠ []) (hw : word.length ≤ w)
    (hword : ∀ b ∈ word, isSpace b = false) (hr : ∀ b ∈ r.head?, isSpace b = true) :
    scanWord w (word ++ r) = some (word, r) := by
  have hskip : skipSpaces (word ++ r) = word ++ r := by
    apply skipSpaces_of_head
    intro b hb
    cases word with
    | nil => exact absurd rfl hne
    | cons a word =>
      exact hword b (by simp_all)
  have htake : (word ++ r).takeWhile (fun b => !isSpace b) = word :=
    takeWhile_append_of_head (by simpa using hword) (by simpa using hr)
  simp [scanWord, hskip, htake, take_of_length_le hw, hne]

theorem scanWord_cons (hb : isSpace b = true) (w : ℕ) (s : Str) : scanWord w (b :: s) = scanWord w s := by
  rw [scanWord, scanWord, skipSpaces, skipSpaces, dropWhile_cons_of_pos hb]

theorem scanLine_append {w : ℕ} {line : Str} (hne : line ≠ []) (hw : line.length ≤ w) (hline : (0x0a : UInt8) ∉ line)
    (hr : ∀ b ∈ r.head?, b = 0x0a) : scanLine w (line ++ r) = some (line, r) := by
  have htake : (line ++ r).takeWhile (· != 0x0a) = line := by
    apply takeWhile_append_of_head
    · intro b hb
      simp only [bne_iff_ne]
      exact fun heq => hline (heq ▸ hb)
    · simpa using hr
  simp [scanLine, htake, take_of_length_le hw, hne]

theorem isSpace_of_isDigit (h : isDigit b = true) : isSpace b = false := by
  simp only [isDigit, Bool.and_eq_true, decide_eq_true_eq, UInt8.le_iff_toNat_le] at h
  simp only [isSpace, Bool.or_eq_false_iff, Bool.and_eq_false_iff, decide_eq_false_iff_not,
    UInt8.le_iff_toNat_le, ← UInt8.toNat_inj]
  have h1 : (0x30 : UInt8).toNat = 48 := rfl
  have h2 : (0x20 : UInt8).toNat = 32 := rfl
  have h3 : (0x0d : UInt8).toNat = 13 := rfl
  omega

theorem scanSign_of_head (h : ∀ b ∈ s.head?, isDigit b = true) : scanSign s = (false, s) := by
  cases s with
  | nil => rfl
  | cons b s =>
    have hb := h b rfl
    unfold scanSign
    split
    · cases ‹_ = _›
      cases hb
    · cases ‹_ = _›
      cases hb
    · rfl

theorem scanMinus_of_head (h : ∀ b ∈ s.head?, b ≠ 0x2d) : scanMinus s = (false, s) := by
  cases s with
  | nil => rfl
  | cons b s =>
    unfold scanMinus
    split
    · cases ‹_ = _›
      exact absurd rfl (h _ rfl)
    · rfl

theorem head?_decimal_append {n : ℕ} (h : b ∈ (decimal n ++ r).head?) : isDigit b = true := by
  cases hd : decimal n with
  | nil => exact absurd hd (decimal_ne_nil n)
  | cons a l =>
    rw [hd] at h
    cases h
    exact isDigit_of_mem_decimal (n := n) (by simp [hd])

theorem scanInt_cons (hb : isSpace b = true) (s : Str) : scanInt (b :: s) = scanInt s := by
  rw [scanInt, scanInt, skipSpaces, skipSpaces, dropWhile_cons_of_pos hb]

theorem scanInt_decimalInt {n : Int} (hlo : -2 ^ 63 ≤ n) (hhi : n < 2 ^ 63) (hr : ∀ b ∈ r.head?, isDigit b = false) :
    scanInt (decimalInt n ++ r) = some (n, r) := by
  have hread : ∀ m : ℕ, (decimal m ++ r).takeWhile isDigit = decimal m := fun m =>
    takeWhile_append_of_head (fun b hb => isDigit_of_mem_decimal hb) hr
  cases n with
  | ofNat m =>
    have hskip : skipSpaces (decimal m ++ r) = decimal m ++ r :=
      skipSpaces_of_head fun b hb => isSpace_of_isDigit (head?_decimal_append hb)
    have hsign : scanSign (decimal m ++ r) = (false, decimal m ++ r) :=
      scanSign_of_head fun b hb => head?_decimal_append hb
    have hclamp : max (-2 ^ 63) (min (m : Int) (2 ^ 63 - 1)) = m := by
      simp only [Int.ofNat_eq_natCast] at hlo hhi
      omega
    simp only [decimalInt, scanInt, hskip, hsign, hread, decimal_ne_nil, if_false,
      digitsValue_decimal, Bool.false_eq_true, drop_left, Int.ofNat_eq_natCast, hclamp]
  | negSucc m =>
    have hskip : skipSpaces (0x2d :: (decimal (m + 1) ++ r)) = 0x2d :: (decimal (m + 1) ++ r) :=
      skipSpaces_of_head fun b hb => by cases hb; decide
    have hclamp : max (-2 ^ 63) (min (-((m + 1 : ℕ) : Int)) (2 ^ 63 - 1)) = Int.negSucc m := by
      omega
    simp only [decimalInt, cons_append, scanInt, hskip, scanSign, hread, decimal_ne_nil,
      if_false, digitsValue_decimal, drop_left, if_true, hclamp]

/-! ## A line end behind the text -/

theorem takeWhile_concat_of_neg {p : UInt8 → Bool} (hb : p b = false) (s : Str) :
    (s ++ [b]).takeWhile p = s.takeWhile p := by
  induction s with
  | nil => simp [hb]
  | cons a s ih =>
    rw [cons_append, takeWhile_cons, takeWhile_cons, ih]

theorem skipSpaces_concat (hb : isSpace b = true) (s : Str) :
    (skipSpaces s = [] ∧ skipSpaces (s ++ [b]) = []) ∨ skipSpaces (s ++ [b]) = skipSpaces s ++ [b] := by
  induction s with
  | nil => exact .inl ⟨rfl, by simp [skipSpaces, hb]⟩
  | cons a s ih =>
    cases ha : isSpace a with
    | true =>
      rw [cons_append, skipSpaces, skipSpaces, dropWhile_cons_of_pos ha, dropWhile_cons_of_pos ha]
      exact ih
    | false =>
      right
      have hnot : ¬isSpace a = true := by simp [ha]
      rw [cons_append, skipSpaces, skipSpaces, dropWhile_cons_of_neg hnot, dropWhile_cons_of_neg hnot,
        cons_append]

theorem scanWord_concat (hb : isSpace b = true) (w : ℕ) (s : Str) :
    scanWord w (s ++ [b]) = (scanWord w s).map fun x => (x.1, x.2 ++ [b]) := by
  rw [scanWord, scanWord]
  rcases skipSpaces_concat hb s with ⟨hnil, hnil'⟩ | hskip
  · rw [hnil, hnil']
    simp
  · rw [hskip, takeWhile_concat_of_neg (by simp [hb])]
    generalize hword : ((skipSpaces s).takeWhile fun b => !isSpace b).take w = word
    have hle : word.length ≤ (skipSpaces s).length := by
      rw [← hword]
      exact (length_take_le' _ _).trans (takeWhile_sublist _).length_le
    split_ifs
    · rfl
    · rw [Option.map_some, drop_append_of_le_length hle]

theorem scanSign_of_ne {a : UInt8} (hminus : a ≠ 0x2d) (hplus : a ≠ 0x2b) (s : Str) :
    scanSign (a :: s) = (false, a :: s) := by
  unfold scanSign
  split
  · cases ‹_ = _›
    exact absurd rfl hminus
  · cases ‹_ = _›
    exact absurd rfl hplus
  · rfl

theorem scanSign_concat (hb : isSpace b = true) (s : Str) :
    scanSign (s ++ [b]) = ((scanSign s).1, (scanSign s).2 ++ [b]) := by
  cases s with
  | nil =>
    apply scanSign_of_ne
    · rintro rfl
      cases hb
    · rintro rfl
      cases hb
  | cons a s =>
    by_cases hminus : a = 0x2d
    · subst hminus
      rfl
    by_cases hplus : a = 0x2b
    · subst hplus
      rfl
    rw [cons_append, scanSign_of_ne hminus hplus, scanSign_of_ne hminus hplus, cons_append]

theorem scanInt_concat (hb : isSpace b = true) (s : Str) :
    (scanInt (s ++ [b])).map Prod.fst = (scanInt s).map Prod.fst := by
  have hdigit : isDigit b = false := by
    cases hd : isDigit b with
    | false => rfl
    | true => exact absurd (hb.symm.trans (isSpace_of_isDigit hd)) (by decide)
  rw [scanInt, scanInt]
  rcases skipSpaces_concat hb s with ⟨hnil, hnil'⟩ | hskip
  · rw [hnil, hnil']
  · rw [hskip, scanSign_concat hb]
    dsimp only
    rw [takeWhile_concat_of_neg hdigit]
    split_ifs
    · rfl
    · rfl
    · rfl

end Ominull.Lib
