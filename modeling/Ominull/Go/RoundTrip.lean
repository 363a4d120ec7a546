import Mathlib.Data.List.TakeDrop
import Ominull.Go.Unmarshal

/-!
What the encoder of `encoding/json` writes, the parser reads back.
-/

namespace Ominull.Go

open List

/-! ## Strings -/

variable {n : ℕ}

theorem getu4_escapeByte (h : n < 256) (rest : Str) :
    getu4 (0x30 :: 0x30 :: hexDigit (n / 16) :: hexDigit (n % 16) :: rest) = some (n, rest) := by
  have hzero : hexValue 0x30 = some 0 := by decide
  have hhigh : n / 16 < 16 := by omega
  have hlow : n % 16 < 16 := by omega
  simp only [getu4, hzero, hexValue_hexDigit hhigh, hexValue_hexDigit hlow, Option.bind_eq_bind,
    Option.bind_some]
  congr 2
  omega

/-- The bytes of a character: the character itself, or bytes beyond ASCII. -/
theorem utf8EncodeChar_bytes (c : Char) : ∀ b ∈ String.utf8EncodeChar c, b.toNat = c.toNat ∨ 0x80 ≤ b.toNat := by
  intro b hb
  unfold String.utf8EncodeChar at hb
  dsimp only at hb
  split_ifs at hb with h1 h2 h3
  all_goals simp only [mem_cons, not_mem_nil, or_false] at hb
  · rw [hb]
    left
    simp only [UInt8.toNat_ofNat', Char.toNat]
    omega
  · right
    rcases hb with rfl | rfl <;> simp only [UInt8.toNat_ofNat'] <;> omega
  · right
    rcases hb with rfl | rfl | rfl <;> simp only [UInt8.toNat_ofNat'] <;> omega
  · right
    rcases hb with rfl | rfl | rfl | rfl <;> simp only [UInt8.toNat_ofNat'] <;> omega

theorem utf8EncodeChar_head (c : Char) :
    ∃ b t, String.utf8EncodeChar c = b :: t ∧ (b.toNat = c.toNat ∨ 0x80 ≤ b.toNat) := by
  cases h : String.utf8EncodeChar c with
  | nil =>
    have hdecode := decodeRune_utf8EncodeChar c []
    rw [h] at hdecode
    cases hdecode
  | cons b t => exact ⟨b, t, rfl, utf8EncodeChar_bytes c b (h ▸ mem_cons_self)⟩

theorem parseChars_simple {e : UInt8} {c : Char} (hu : e ≠ 0x75) (he : simpleEscape e = some c) (t : Str) :
    parseChars (n + 1) (0x5c :: e :: t) = (parseChars n t).map fun (cs, rest) => (c :: cs, rest) := by
  conv_lhs => unfold parseChars
  rw [if_neg (by decide), if_pos rfl]
  split
  · rename_i t' heq
    exact absurd (List.cons.inj heq).1 hu
  · rename_i e' t' _ heq
    obtain ⟨rfl, rfl⟩ := List.cons.inj heq
    rw [he]
    cases parseChars n t <;> rfl
  · rename_i heq
    cases heq

theorem parseChars_unicode {u : ℕ} {t rest : Str} (hu : getu4 t = some (u, rest)) (hlow : u < 0xd800) :
    parseChars (n + 1) (0x5c :: 0x75 :: t) =
      (parseChars n rest).map fun (cs, rest) => (Char.ofNat u :: cs, rest) := by
  conv_lhs => unfold parseChars
  simp only [hu, Option.bind_eq_bind, Option.bind_some, unescapeRune, if_pos (Or.inl hlow)]
  cases parseChars n rest <;> rfl

theorem parseChars_plain {c : Char} (hquote : c.toNat ≠ 0x22) (hslash : c.toNat ≠ 0x5c) (hspace : ¬c.toNat < 0x20)
    (t : Str) :
    parseChars (n + 1) (String.utf8EncodeChar c ++ t) =
      (parseChars n t).map fun (cs, rest) => (c :: cs, rest) := by
  have hdecode := decodeRune_utf8EncodeChar c t
  obtain ⟨b, u, hbu, hb⟩ := utf8EncodeChar_head c
  rw [hbu, cons_append] at hdecode ⊢
  have hne : ∀ e : UInt8, e.toNat < 0x80 → c.toNat ≠ e.toNat → b ≠ e := by
    rintro e hlow hc rfl
    omega
  have hcontrol : ¬b < 0x20 := by
    rw [UInt8.lt_iff_toNat_lt, show (0x20 : UInt8).toNat = 0x20 from rfl]
    omega
  conv_lhs => unfold parseChars
  rw [if_neg (hne 0x22 (by decide) hquote), if_neg (hne 0x5c (by decide) hslash), if_neg hcontrol, hdecode]

/-- How a character is written: by an escape letter, by four hex digits, or as it is. -/
theorem escapeChar_cases (c : Char) :
    (∃ e, escapeChar c = [0x5c, e] ∧ e ≠ 0x75 ∧ e.toNat < 0x80 ∧ simpleEscape e = some c) ∨
    (c.toNat < 0x80 ∧ escapeChar c = escapeByte c.toNat) ∨
    (c.toNat = 0x2028 ∧ escapeChar c = str "\\u2028") ∨ (c.toNat = 0x2029 ∧ escapeChar c = str "\\u2029") ∨
    (escapeChar c = String.utf8EncodeChar c ∧ c.toNat ≠ 0x22 ∧ c.toNat ≠ 0x5c ∧ ¬c.toNat < 0x20) := by
  -- the ASCII characters are looked up one by one
  have hascii : ∀ i : Fin 0x80, (∃ e ∈ str "\"\\bfnrt", escapeChar (Char.ofNat i) = [0x5c, e] ∧ e ≠ 0x75 ∧ e.toNat < 0x80 ∧
        simpleEscape e = some (Char.ofNat i)) ∨ escapeChar (Char.ofNat i) = escapeByte i ∨
      (escapeChar (Char.ofNat i) = String.utf8EncodeChar (Char.ofNat i) ∧ i.val ≠ 0x22 ∧ i.val ≠ 0x5c ∧ ¬i.val < 0x20) := by
    decide +kernel
  by_cases hlow : c.toNat < 0x80
  · have h := hascii ⟨c.toNat, hlow⟩
    rw [Char.ofNat_toNat] at h
    rcases h with ⟨e, -, h⟩ | h | h
    · exact .inl ⟨e, h⟩
    · exact .inr (.inl ⟨hlow, h⟩)
    · exact .inr (.inr (.inr (.inr h)))
  · have hne : ∀ d : Char, d.toNat < 0x80 → c ≠ d := by
      rintro d hd rfl
      exact hlow hd
    have hplain : ¬(c.toNat < 0x20 ∨ c = '<' ∨ c = '>' ∨ c = '&') := by
      simp only [hne _ (show '<'.toNat < 0x80 by decide), hne _ (show '>'.toNat < 0x80 by decide),
        hne _ (show '&'.toNat < 0x80 by decide), or_false]
      omega
    rw [escapeChar, if_neg (hne _ (by decide)), if_neg (hne _ (by decide)), if_neg (by omega), if_neg (by omega),
      if_neg (by omega), if_neg (by omega), if_neg (by omega), if_neg hplain]
    refine .inr (.inr ?_)
    split_ifs with h₁ h₂
    · exact .inl ⟨h₁, rfl⟩
    · exact .inr (.inl ⟨h₂, rfl⟩)
    · exact .inr (.inr ⟨rfl, by omega, by omega, by omega⟩)

theorem parseChars_escapeChar (n : ℕ) (c : Char) (t : Str) :
    parseChars (n + 1) (escapeChar c ++ t) = (parseChars n t).map fun (cs, rest) => (c :: cs, rest) := by
  have hchar : Char.ofNat c.toNat = c := Char.ofNat_toNat c
  rcases escapeChar_cases c with ⟨e, htext, hne, -, he⟩ | ⟨hlow, htext⟩ | ⟨hc, htext⟩ | ⟨hc, htext⟩ |
    ⟨htext, hquote, hslash, hspace⟩
  · rw [htext]
    exact parseChars_simple hne he t
  · have h := parseChars_unicode (n := n) (getu4_escapeByte (Nat.lt_trans hlow (by decide)) t) (by omega)
    rw [htext]
    rw [hchar] at h
    exact h
  · have h := parseChars_unicode (n := n) (u := 0x2028) (t := 0x32 :: 0x30 :: 0x32 :: 0x38 :: t) rfl (by decide)
    rw [htext]
    rw [← hc, hchar] at h
    exact h
  · have h := parseChars_unicode (n := n) (u := 0x2029) (t := 0x32 :: 0x30 :: 0x32 :: 0x39 :: t) rfl (by decide)
    rw [htext]
    rw [← hc, hchar] at h
    exact h
  · rw [htext]
    exact parseChars_plain hquote hslash hspace t

theorem parseChars_quoteChars (cs : List Char) (rest : Str) (h : cs.length < n) :
    parseChars n (cs.flatMap escapeChar ++ 0x22 :: rest) = some (cs, rest) := by
  induction cs generalizing n with
  | nil =>
    obtain ⟨m, rfl⟩ : ∃ m, n = m + 1 := ⟨n - 1, by simp at h; omega⟩
    rfl
  | cons c cs ih =>
    obtain ⟨m, rfl⟩ : ∃ m, n = m + 1 := ⟨n - 1, by simp at h; omega⟩
    have hm : cs.length < m := by
      rw [length_cons] at h
      omega
    rw [flatMap_cons, append_assoc, parseChars_escapeChar, ih hm]
    rfl

/-! ## Numbers -/

def Follows (rest : Str) : Prop := ∀ b ∈ rest.head?, b = 0x2c ∨ b = 0x5d ∨ b = 0x7d ∨ isSpace b

theorem Follows.not_number {rest : Str} (h : Follows rest) :
    ∀ b ∈ rest.head?, isDigit b = false ∧ b ≠ 0x2e ∧ ¬(b = 0x65 ∨ b = 0x45) := by
  intro b hb
  have hall := forall_byte (p := fun b => (b = 0x2c ∨ b = 0x5d ∨ b = 0x7d ∨ isSpace b) →
    isDigit b = false ∧ b ≠ 0x2e ∧ ¬(b = 0x65 ∨ b = 0x45)) (by decide +kernel) b
  exact hall (h b hb)

structure NumberText (lit : Str) : Prop where
  head : ∃ b t, lit = b :: t ∧ (b = 0x2d ∨ isDigit b)
  scan : ∀ rest, Follows rest → scanNumber (lit ++ rest) = some (lit, rest)

theorem head_decimal_ne_zero (h : 0 < n) : (decimal n).head? ≠ some 0x30 := by
  induction n using Nat.strongRecOn with
  | ind n ih =>
    by_cases hlt : n < 10
    · have hall : ∀ i : Fin 10, 0 < i.val → (decimal i.val).head? ≠ some 0x30 := by decide
      exact hall ⟨n, hlt⟩ h
    · have hdiv := ih (n / 10) (by omega) (by omega)
      have happend : decimal n = decimal (n / 10) ++ [(Nat.digitChar (n % 10)).val.toUInt8] := by
        rw [decimal, Nat.toDigits_of_base_le (by decide) (by omega), map_append]
        rfl
      rw [happend, head?_append_of_ne_nil _ (decimal_ne_nil _)]
      exact hdiv

theorem takeDigits_append {ds rest : Str} (hds : ∀ b ∈ ds, isDigit b) (hrest : Follows rest) :
    takeDigits (ds ++ rest) = (ds, rest) := by
  have hstop : ∀ b ∈ rest.head?, ¬isDigit b := by
    intro b hb
    simp [(hrest.not_number b hb).1]
  have hnone : rest.takeWhile isDigit = [] ∧ rest.dropWhile isDigit = rest := by
    cases rest with
    | nil => exact ⟨rfl, rfl⟩
    | cons b t =>
      have hb := hstop b rfl
      exact ⟨takeWhile_cons_of_neg hb, dropWhile_cons_of_neg hb⟩
  rw [takeDigits, span_eq_takeWhile_dropWhile, takeWhile_append_of_pos hds,
    dropWhile_append_of_pos hds, hnone.1, hnone.2, append_nil]

theorem scanInteger_decimal (n : ℕ) {rest : Str} (hrest : Follows rest) :
    scanInteger (decimal n ++ rest) = some (decimal n, rest) := by
  by_cases hzero : n = 0
  · rw [hzero]
    rfl
  · have hhead := head_decimal_ne_zero (Nat.pos_of_ne_zero hzero)
    have htake := takeDigits_append (fun b hb => isDigit_of_mem_decimal (n := n) hb) hrest
    have hdigit : ∀ b ∈ decimal n, isDigit b := fun b hb => isDigit_of_mem_decimal hb
    cases hd : decimal n with
    | nil => exact absurd hd (decimal_ne_nil n)
    | cons b t =>
      rw [hd] at hhead htake hdigit
      rw [cons_append] at htake ⊢
      unfold scanInteger
      split
      · rename_i heq
        exact absurd (congrArg some (List.cons.inj heq).1) hhead
      · rename_i heq
        obtain ⟨rfl, rfl⟩ := List.cons.inj heq
        rw [if_pos (hdigit b mem_cons_self), htake]
      · rename_i heq
        cases heq

theorem scanFraction_of_follows {rest : Str} (hrest : Follows rest) : scanFraction rest = some ([], rest) := by
  unfold scanFraction
  split
  · exact absurd rfl (hrest.not_number 0x2e rfl).2.1
  · rfl

theorem scanExponent_of_follows {rest : Str} (hrest : Follows rest) : scanExponent rest = some ([], rest) := by
  cases rest with
  | nil => rfl
  | cons b t =>
    unfold scanExponent
    dsimp only
    rw [if_neg (hrest.not_number b rfl).2.2]

theorem numberText_decimalInt (n : ℤ) : NumberText (decimalInt n) := by
  have hhead : ∀ m, ∃ b t, decimal m = b :: t ∧ isDigit b := by
    intro m
    cases hd : decimal m with
    | nil => exact absurd hd (decimal_ne_nil m)
    | cons b t => exact ⟨b, t, rfl, isDigit_of_mem_decimal (n := m) (hd ▸ mem_cons_self)⟩
  cases n with
  | ofNat m =>
    obtain ⟨b, t, hd, hb⟩ := hhead m
    refine ⟨⟨b, t, hd, .inr hb⟩, fun rest hrest => ?_⟩
    have hint := scanInteger_decimal m hrest
    show scanNumber (decimal m ++ rest) = some (decimal m, rest)
    rw [hd, cons_append] at hint ⊢
    unfold scanNumber
    split
    rename_i sign s heq
    split at heq
    · rename_i hminus
      rw [(List.cons.inj hminus).1] at hb
      exact absurd hb (by decide)
    · cases heq
      simp only [hint, scanFraction_of_follows hrest, scanExponent_of_follows hrest, Option.bind_eq_bind,
        Option.bind_some, nil_append, append_nil]
  | negSucc m =>
    refine ⟨⟨0x2d, decimal (m + 1), rfl, .inl rfl⟩, fun rest hrest => ?_⟩
    have hint := scanInteger_decimal (m + 1) hrest
    show scanNumber (0x2d :: (decimal (m + 1) ++ rest)) = some (0x2d :: decimal (m + 1), rest)
    simp only [scanNumber, hint, scanFraction_of_follows hrest, scanExponent_of_follows hrest,
      Option.bind_eq_bind, Option.bind_some, append_nil]
    rfl

/-- `strconv.ParseInt` reads back what `strconv.FormatInt` has written. -/
theorem parseInt_decimalInt {n : ℤ} (h : -2 ^ 63 ≤ n ∧ n < 2 ^ 63) : parseInt 64 (decimalInt n) = some n := by
  have hdigits : ∀ m, (decimal m).all isDigit = true := fun m =>
    all_eq_true.mpr fun b hb => isDigit_of_mem_decimal hb
  cases n with
  | ofNat m =>
    have hminus : ∀ t, decimal m ≠ 0x2d :: t := by
      intro t ht
      have hb := isDigit_of_mem_decimal (n := m) (b := 0x2d) (ht ▸ mem_cons_self)
      exact absurd hb (by decide)
    show parseInt 64 (decimal m) = _
    unfold parseInt
    split
    rename_i neg ds heq
    split at heq
    · rename_i t ht
      exact absurd ht (hminus t)
    · cases heq
      rw [if_pos ⟨decimal_ne_nil m, hdigits m⟩, digitsValue_decimal]
      exact if_pos h
  | negSucc m =>
    show parseInt 64 (0x2d :: decimal (m + 1)) = _
    simp only [parseInt]
    rw [if_pos ⟨decimal_ne_nil _, hdigits _⟩, digitsValue_decimal]
    exact if_pos h

/-! ## Values -/

mutual

/-- A value that is nested at most so deep and whose numbers are literals. -/
def Json.Fits : ℕ → Json → Prop
  | _, .null | _, .bool _ | _, .str _ => True
  | _, .num lit => NumberText lit
  | 0, .arr _ | 0, .obj _ => False
  | k + 1, .arr xs => ElemsFit k xs
  | k + 1, .obj ms => MembersFit k ms

def ElemsFit : ℕ → List Json → Prop
  | _, [] => True
  | k, x :: xs => x.Fits k ∧ ElemsFit k xs

def MembersFit : ℕ → List (List Char × Json) → Prop
  | _, [] => True
  | k, (_, v) :: ms => v.Fits k ∧ MembersFit k ms

end

theorem membersFit_iff {k : ℕ} {ms : List (List Char × Json)} : MembersFit k ms ↔ ∀ m ∈ ms, m.2.Fits k := by
  induction ms with
  | nil => simp [MembersFit]
  | cons m ms ih => simp [MembersFit, ih]

theorem elemsFit_iff {k : ℕ} {xs : List Json} : ElemsFit k xs ↔ ∀ x ∈ xs, x.Fits k := by
  induction xs with
  | nil => simp [ElemsFit]
  | cons x xs ih => simp [ElemsFit, ih]

theorem skipSpace_of_head {b : UInt8} {t : Str} (h : isSpace b = false) : skipSpace (b :: t) = b :: t :=
  dropWhile_cons_of_neg (by simp [h])

def Blank (w : Str) : Prop := ∀ b ∈ w, isSpace b

variable {w : Str}

theorem skipSpace_append (hw : Blank w) (s : Str) : skipSpace (w ++ s) = skipSpace s :=
  dropWhile_append_of_pos hw

theorem skipSpace_blank (hw : Blank w) {b : UInt8} (hb : isSpace b = false) (t : Str) :
    skipSpace (w ++ b :: t) = b :: t := by
  rw [skipSpace_append hw, skipSpace_of_head hb]

theorem parseValue_blank (hw : Blank w) (n d : ℕ) (s : Str) : parseValue n d (w ++ s) = parseValue n d s := by
  cases n with
  | zero => rfl
  | succ n => rw [parseValue, parseValue, skipSpace_append hw]

theorem parseElems_blank (hw : Blank w) (n d : ℕ) (s : Str) : parseElems n d (w ++ s) = parseElems n d s := by
  cases n with
  | zero => rfl
  | succ n => rw [parseElems, parseElems, parseValue_blank hw]

theorem parseMembers_blank (hw : Blank w) (n d : ℕ) (s : Str) : parseMembers n d (w ++ s) = parseMembers n d s := by
  cases n with
  | zero => rfl
  | succ n => rw [parseMembers, parseMembers, skipSpace_append hw]

theorem Follows.blank_append {rest : Str} (hw : Blank w) (h : Follows rest) : Follows (w ++ rest) := by
  intro b hb
  cases w with
  | nil => exact h b hb
  | cons c w =>
    cases hb
    exact .inr (.inr (.inr (hw b mem_cons_self)))

/-- A layout that puts blanks between the parts of a value. -/
structure Spacing.Blank (sp : Spacing) : Prop where
  line : ∀ d, Go.Blank (sp.line d)
  colon : Go.Blank sp.colon

section Spaced

variable {sp : Spacing}

theorem follows_cons {b : UInt8} (h : b = 0x2c ∨ b = 0x5d ∨ b = 0x7d ∨ isSpace b) (t : Str) : Follows (b :: t) := by
  intro c hc
  cases hc
  exact h

theorem follows_spacedElems (hsp : sp.Blank) (d : ℕ) (xs : List Json) (rest : Str) :
    Follows (spacedElems sp d xs ++ rest) := by
  cases xs with
  | nil =>
    rw [spacedElems, append_assoc]
    exact (follows_cons (.inr (.inl rfl)) rest).blank_append (hsp.line d)
  | cons x xs =>
    exact follows_cons (.inl rfl) _

theorem follows_spacedMembers (hsp : sp.Blank) (d : ℕ) (ms : List (List Char × Json)) (rest : Str) :
    Follows (spacedMembers sp d ms ++ rest) := by
  cases ms with
  | nil =>
    rw [spacedMembers, append_assoc]
    exact (follows_cons (.inr (.inr (.inl rfl))) rest).blank_append (hsp.line d)
  | cons m ms =>
    exact follows_cons (.inl rfl) _

end Spaced

/-- The name of a member, its opening quote read. -/
theorem parseChars_name (k : List Char) (rest : Str) :
    parseChars ((k.flatMap escapeChar ++ 0x22 :: rest).length + 1) (k.flatMap escapeChar ++ 0x22 :: rest) =
      some (k, rest) := by
  apply parseChars_quoteChars
  have hlen : ∀ cs : List Char, cs.length ≤ (cs.flatMap escapeChar).length := by
    intro cs
    induction cs with
    | nil => simp
    | cons c cs ih =>
      have hpos : 0 < (escapeChar c).length := by
        rcases escapeChar_cases c with ⟨e, htext, -⟩ | ⟨-, htext⟩ | ⟨-, htext⟩ | ⟨-, htext⟩ | ⟨htext, -⟩
        · simp [htext]
        · simp [htext, escapeByte]
        · rw [htext]
          decide
        · rw [htext]
          decide
        · obtain ⟨b, t, hbt, -⟩ := utf8EncodeChar_head c
          simp [htext, hbt]
      rw [flatMap_cons, length_append, length_cons]
      omega
  have := hlen k
  rw [length_append]
  omega

theorem parseValue_num {lit rest : Str} (hlit : NumberText lit) (hrest : Follows rest) (n d : ℕ) :
    parseValue (n + 1) d (lit ++ rest) = some (.num lit, rest) := by
  obtain ⟨⟨b, t, rfl, hb⟩, hscan⟩ := hlit
  have hscan := hscan rest hrest
  rw [cons_append] at hscan ⊢
  have hrange : b = 0x2d ∨ (0x30 ≤ b.toNat ∧ b.toNat ≤ 0x39) := by
    rcases hb with hb | hb
    · exact .inl hb
    · right
      simp only [isDigit, Bool.and_eq_true, decide_eq_true_eq, UInt8.le_iff_toNat_le] at hb
      exact hb
  have hne : ∀ c : UInt8, (c.toNat < 0x2d ∨ 0x39 < c.toNat) → b ≠ c := by
    rintro c hc rfl
    rcases hrange with rfl | hrange
    · exact absurd hc (by decide)
    · omega
  have hspace : isSpace b = false := by
    simp [isSpace, hne 0x20 (by decide), hne 0x09 (by decide), hne 0x0a (by decide), hne 0x0d (by decide)]
  have hlit : ∀ (c : UInt8) (l : Str), (c.toNat < 0x2d ∨ 0x39 < c.toNat) → (c :: l).isPrefixOf (b :: (t ++ rest)) = false := by
    intro c l hc
    rw [isPrefixOf_cons_cons]
    simp [Ne.symm (hne c hc)]
  rw [parseValue, skipSpace_of_head hspace]
  dsimp only
  rw [if_neg (hne _ (by decide)), if_neg (hne _ (by decide)), if_neg (hne _ (by decide)), hscan]
  have hnull := hlit 0x6e (str "ull") (by decide)
  have htrue := hlit 0x74 (str "rue") (by decide)
  have hfalse := hlit 0x66 (str "alse") (by decide)
  rw [show (str "null").isPrefixOf (b :: (t ++ rest)) = false from hnull,
    show (str "true").isPrefixOf (b :: (t ++ rest)) = false from htrue,
    show (str "false").isPrefixOf (b :: (t ++ rest)) = false from hfalse]
  rfl

variable {v : Json}

theorem encodeSpaced_head (sp : Spacing) (e : ℕ) {k : ℕ} (hv : v.Fits k) :
    ∃ b t, encodeSpaced sp e v = b :: t ∧ isSpace b = false ∧ b ≠ 0x5d := by
  cases v with
  | null => exact ⟨_, _, rfl, by decide, by decide⟩
  | bool b => cases b <;> exact ⟨_, _, rfl, by decide, by decide⟩
  | num lit =>
    obtain ⟨b, t, rfl, hb⟩ := hv.head
    refine ⟨b, t, by rw [encodeSpaced], ?_⟩
    rcases hb with rfl | hb
    · decide
    · revert hb
      exact forall_byte (p := fun b => isDigit b → isSpace b = false ∧ b ≠ 0x5d) (by decide +kernel) b
  | str cs => exact ⟨0x22, _, by rw [encodeSpaced, quoteChars], by decide, by decide⟩
  | arr xs =>
    cases xs with
    | nil => exact ⟨0x5b, [0x5d], by rw [encodeSpaced], by decide, by decide⟩
    | cons x xs => exact ⟨0x5b, _, by rw [encodeSpaced], by decide, by decide⟩
  | obj ms =>
    cases ms with
    | nil => exact ⟨0x7b, [0x7d], by rw [encodeSpaced], by decide, by decide⟩
    | cons m ms => exact ⟨0x7b, _, by rw [encodeSpaced], by decide, by decide⟩

/-- A member and those that follow it, as they stand in an object at a depth. -/
def memberText (sp : Spacing) (e : ℕ) (name : List Char) (v : Json) (ms : List (List Char × Json)) : Str :=
  quoteChars name ++ 0x3a :: (sp.colon ++ (encodeSpaced sp (e + 1) v ++ spacedMembers sp e ms))

/-- With this fuel the parser reads back every value, list of elements and list of members whose text
is no longer than the fuel. -/
structure ReadsBack (sp : Spacing) (n : ℕ) : Prop where
  value : ∀ (e : ℕ) (v : Json) (rest : Str) {k d : ℕ}, v.Fits k → d + k ≤ maxNestingDepth →
    (encodeSpaced sp e v).length ≤ n → Follows rest → parseValue n d (encodeSpaced sp e v ++ rest) = some (v, rest)
  elems : ∀ (e : ℕ) (x : Json) (xs : List Json) (rest : Str) {k d : ℕ}, x.Fits k → ElemsFit k xs →
    d + k ≤ maxNestingDepth → (encodeSpaced sp (e + 1) x ++ spacedElems sp e xs).length ≤ n →
    parseElems n d (encodeSpaced sp (e + 1) x ++ spacedElems sp e xs ++ rest) = some (x :: xs, rest)
  members : ∀ (e : ℕ) (name : List Char) (v : Json) (ms : List (List Char × Json)) (rest : Str) {k d : ℕ}, v.Fits k →
    MembersFit k ms → d + k ≤ maxNestingDepth → (memberText sp e name v ms).length ≤ n →
    parseMembers n d (memberText sp e name v ms ++ rest) = some ((name, v) :: ms, rest)

namespace ReadsBack

variable {sp : Spacing} {m k d : ℕ} {rest : Str}

theorem value_succ (hsp : sp.Blank) (h : ReadsBack sp m) (e : ℕ) (v : Json) (hv : v.Fits k)
    (hd : d + k ≤ maxNestingDepth) (hn : (encodeSpaced sp e v).length ≤ m + 1) (hrest : Follows rest) :
    parseValue (m + 1) d (encodeSpaced sp e v ++ rest) = some (v, rest) := by
  match v, k with
  | .null, _ => rfl
  | .bool b, _ => cases b <;> rfl
  | .num lit, _ =>
    exact parseValue_num hv hrest m d
  | .str cs, _ =>
    rw [encodeSpaced, quoteChars, cons_append, append_assoc, singleton_append, parseValue,
      skipSpace_of_head (by decide)]
    dsimp only
    rw [if_neg (by decide), if_neg (by decide), if_pos rfl, parseChars_name]
    rfl
  | .arr [], k + 1 =>
    have hdepth : d < maxNestingDepth := by omega
    rw [encodeSpaced, cons_append, parseValue, skipSpace_of_head (by decide)]
    dsimp only
    rw [if_neg (by decide), if_pos rfl, if_pos hdepth]
    rfl
  | .arr (x :: xs), k + 1 =>
    have hdepth : d < maxNestingDepth := by omega
    rw [encodeSpaced, length_cons, length_append] at hn
    have helems := h.elems e x xs rest (d := d + 1) hv.1 hv.2 (by omega) (by omega)
    obtain ⟨b, t, hbt, hspace, hne⟩ := encodeSpaced_head sp (e + 1) hv.1
    rw [encodeSpaced, cons_append, append_assoc, parseValue, skipSpace_of_head (by decide)]
    dsimp only
    rw [if_neg (by decide), if_pos rfl, if_pos hdepth]
    rw [hbt, cons_append, cons_append] at helems ⊢
    rw [skipSpace_blank (hsp.line _) hspace]
    split
    · rename_i heq
      exact absurd (List.cons.inj heq).1 hne
    · rw [helems]
      rfl
  | .obj [], k + 1 =>
    have hdepth : d < maxNestingDepth := by omega
    rw [encodeSpaced, cons_append, parseValue, skipSpace_of_head (by decide)]
    dsimp only
    rw [if_pos rfl, if_pos hdepth]
    rfl
  | .obj ((name, v) :: ms), k + 1 =>
    have hdepth : d < maxNestingDepth := by omega
    rw [encodeSpaced, length_cons, length_append, ← memberText] at hn
    have hmembers := h.members e name v ms rest (d := d + 1) hv.1 hv.2 (by omega) (by omega)
    rw [encodeSpaced, ← memberText, cons_append, append_assoc, parseValue, skipSpace_of_head (by decide)]
    dsimp only
    rw [if_pos rfl, if_pos hdepth]
    rw [memberText, quoteChars, cons_append, cons_append] at hmembers ⊢
    rw [skipSpace_blank (hsp.line _) (by decide)]
    split
    · rename_i heq
      exact absurd (List.cons.inj heq).1 (by decide)
    · rw [hmembers]
      rfl

theorem elems_succ (hsp : sp.Blank) (h : ReadsBack sp m) (e : ℕ) (x : Json) (xs : List Json) (hx : x.Fits k)
    (hxs : ElemsFit k xs) (hd : d + k ≤ maxNestingDepth)
    (hn : (encodeSpaced sp (e + 1) x ++ spacedElems sp e xs).length ≤ m + 1) :
    parseElems (m + 1) d (encodeSpaced sp (e + 1) x ++ spacedElems sp e xs ++ rest) = some (x :: xs, rest) := by
  have hpos : 0 < (spacedElems sp e xs).length := by
    cases xs <;> simp [spacedElems]
  rw [length_append] at hn
  have hvalue := h.value (e + 1) x _ hx hd (by omega) (follows_spacedElems hsp e xs rest)
  rw [append_assoc, parseElems, hvalue]
  cases xs with
  | nil =>
    rw [spacedElems, append_assoc]
    simp only [Option.bind_eq_bind, Option.bind_some, cons_append,
      skipSpace_blank (hsp.line e) (show isSpace 0x5d = false by decide), nil_append]
  | cons y ys =>
    rw [spacedElems, length_cons, length_append] at hn
    have helems := h.elems e y ys rest hxs.1 hxs.2 hd (by omega)
    simp only [spacedElems, cons_append, Option.bind_eq_bind, Option.bind_some,
      skipSpace_of_head (show isSpace 0x2c = false by decide)]
    rw [append_assoc, parseElems_blank (hsp.line _), helems]
    rfl

theorem members_succ (hsp : sp.Blank) (h : ReadsBack sp m) (e : ℕ) (name : List Char) (v : Json)
    (ms : List (List Char × Json)) (hv : v.Fits k) (hms : MembersFit k ms) (hd : d + k ≤ maxNestingDepth)
    (hn : (memberText sp e name v ms).length ≤ m + 1) :
    parseMembers (m + 1) d (memberText sp e name v ms ++ rest) = some ((name, v) :: ms, rest) := by
  rw [memberText, length_append, length_cons, length_append, length_append] at hn
  have hvalue := h.value (e + 1) v _ hv hd (by omega) (follows_spacedMembers hsp e ms rest)
  have hname := parseChars_name name (0x3a :: (sp.colon ++ (encodeSpaced sp (e + 1) v ++ (spacedMembers sp e ms ++ rest))))
  have htext : memberText sp e name v ms ++ rest = 0x22 :: (name.flatMap escapeChar ++ 0x22 :: 0x3a ::
      (sp.colon ++ (encodeSpaced sp (e + 1) v ++ (spacedMembers sp e ms ++ rest)))) := by
    simp [memberText, quoteChars]
  rw [htext, parseMembers, skipSpace_of_head (by decide)]
  simp only [hname, Option.bind_eq_bind, Option.bind_some, skipSpace_of_head (show isSpace 0x3a = false by decide),
    parseValue_blank hsp.colon, hvalue]
  cases ms with
  | nil =>
    simp only [spacedMembers, append_assoc, cons_append,
      skipSpace_blank (hsp.line e) (show isSpace 0x7d = false by decide), nil_append]
  | cons member ms' =>
    obtain ⟨name', v'⟩ := member
    rw [spacedMembers, ← memberText, length_cons, length_append] at hn
    have hmembers := h.members e name' v' ms' rest hms.1 hms.2 hd (by omega)
    simp only [spacedMembers, cons_append, skipSpace_of_head (show isSpace 0x2c = false by decide)]
    rw [append_assoc, parseMembers_blank (hsp.line _), ← memberText, hmembers]
    rfl

end ReadsBack

theorem readsBack {sp : Spacing} (hsp : sp.Blank) (n : ℕ) : ReadsBack sp n := by
  induction n with
  | zero =>
    refine ⟨fun e v rest k d hv _ hn => ?_, fun e x xs rest k d hx _ _ hn => ?_,
      fun e name v ms rest k d _ _ _ hn => ?_⟩
    · obtain ⟨b, t, hbt, -⟩ := encodeSpaced_head sp e hv
      simp [hbt] at hn
    · obtain ⟨b, t, hbt, -⟩ := encodeSpaced_head sp (e + 1) hx
      simp [hbt] at hn
    · simp [memberText] at hn
  | succ m ih =>
    exact ⟨fun e v _ _ _ => ih.value_succ hsp e v, fun e x xs _ _ _ => ih.elems_succ hsp e x xs,
      fun e name v ms _ _ _ => ih.members_succ hsp e name v ms⟩

/-- `json.Unmarshal` reads back a value whatever blanks stand between its parts. -/
theorem parse_encodeSpaced {sp : Spacing} (hsp : sp.Blank) (hv : v.Fits maxNestingDepth) :
    parse (encodeSpaced sp 0 v) = some v := by
  have hnil : Follows [] := fun b hb => by cases hb
  have hvalue := (readsBack hsp ((encodeSpaced sp 0 v).length + 1)).value 0 v [] (d := 0) hv (by omega) (by omega) hnil
  rw [append_nil] at hvalue
  rw [parse, decodeFirst, hvalue]
  rfl

/-- The layout of `json.Marshal`. -/
def Spacing.tight : Spacing := ⟨fun _ => [], []⟩

mutual

theorem encodeSpaced_tight (e : ℕ) : ∀ v, encodeSpaced .tight e v = encode v
  | .null => rfl
  | .bool true => rfl
  | .bool false => rfl
  | .num _ => by rw [encodeSpaced, encode]
  | .str _ => by rw [encodeSpaced, encode]
  | .arr [] => by rw [encodeSpaced, encode]
  | .arr (x :: xs) => by
    rw [encodeSpaced, encode, encodeSpaced_tight (e + 1) x, spacedElems_tight e xs]
    rfl
  | .obj [] => by rw [encodeSpaced, encode]
  | .obj ((k, v) :: ms) => by
    rw [encodeSpaced, encode, encodeSpaced_tight (e + 1) v, spacedMembers_tight e ms]
    rfl

theorem spacedElems_tight (e : ℕ) : ∀ xs, spacedElems .tight e xs = encodeElems xs
  | [] => by
    rw [spacedElems, encodeElems]
    rfl
  | x :: xs => by
    rw [spacedElems, encodeElems, encodeSpaced_tight (e + 1) x, spacedElems_tight e xs]
    rfl

theorem spacedMembers_tight (e : ℕ) : ∀ ms, spacedMembers .tight e ms = encodeMembers ms
  | [] => by
    rw [spacedMembers, encodeMembers]
    rfl
  | (k, v) :: ms => by
    rw [spacedMembers, encodeMembers, encodeSpaced_tight (e + 1) v, spacedMembers_tight e ms]
    rfl

end

theorem Spacing.blank_tight : Spacing.tight.Blank := ⟨fun _ => forall_mem_nil _, forall_mem_nil _⟩

/-- `json.Unmarshal` reads back what `json.Marshal` has written. -/
theorem parse_encode (hv : v.Fits maxNestingDepth) : parse (encode v) = some v := by
  rw [← encodeSpaced_tight 0]
  exact parse_encodeSpaced Spacing.blank_tight hv

theorem parseMembers_encode {k n d : ℕ} (name : List Char) (v : Json) (ms : List (List Char × Json)) (hv : v.Fits k)
    (hms : MembersFit k ms) (hd : d + k ≤ maxNestingDepth)
    (hn : (quoteChars name ++ 0x3a :: (encode v ++ encodeMembers ms)).length ≤ n) :
    parseMembers n d (quoteChars name ++ 0x3a :: (encode v ++ encodeMembers ms)) = some ((name, v) :: ms, []) := by
  have htext : memberText .tight 0 name v ms = quoteChars name ++ 0x3a :: (encode v ++ encodeMembers ms) := by
    rw [memberText, encodeSpaced_tight, spacedMembers_tight]
    rfl
  have hmembers := (readsBack Spacing.blank_tight n).members 0 name v ms [] hv hms hd
  rw [htext, append_nil] at hmembers
  exact hmembers hn

theorem Spacing.blank_indent (hw : Go.Blank w) : (Spacing.indent w).Blank := by
  constructor
  · intro d b hb
    rcases mem_cons.mp hb with rfl | hb
    · rfl
    · obtain ⟨v, hv, hb⟩ := mem_flatten.mp hb
      exact hw b (eq_of_mem_replicate hv ▸ hb)
  · exact forall_mem_singleton.mpr rfl

/-! ## What a text is made of -/

/-- A property of texts that holds of an encoding if it holds of its pieces. -/
structure Pieces (P : Str → Prop) : Prop where
  nil : P []
  append : ∀ {s t}, P s → P t → P (s ++ t)
  plain : ∀ b : UInt8, b.toNat < 0x80 → b ≠ 0x5c → P [b]
  escape : ∀ c, P (escapeChar c)

namespace Pieces

variable {P : Str → Prop}

theorem plainText (h : Pieces P) {s : Str} (hs : ∀ b ∈ s, b.toNat < 0x80 ∧ b ≠ 0x5c) : P s := by
  induction s with
  | nil => exact h.nil
  | cons b s ih =>
    have hb := hs b mem_cons_self
    exact h.append (h.plain b hb.1 hb.2) (ih fun b' hb' => hs b' (mem_cons_of_mem _ hb'))

theorem quoteChars (h : Pieces P) (cs : List Char) : P (quoteChars cs) := by
  have hchars : P (cs.flatMap escapeChar) := by
    induction cs with
    | nil => exact h.nil
    | cons c cs ih => exact h.append (h.escape c) ih
  exact h.append (h.plain 0x22 (by decide) (by decide))
    (h.append hchars (h.plain 0x22 (by decide) (by decide)))

theorem decimalInt (h : Pieces P) (n : ℤ) : P (decimalInt n) := by
  have hdigits : ∀ m, P (decimal m) := by
    intro m
    apply h.plainText
    intro b hb
    have hdigit := isDigit_of_mem_decimal hb
    revert hdigit
    exact forall_byte (p := fun b => isDigit b → b.toNat < 0x80 ∧ b ≠ 0x5c) (by decide +kernel) b
  cases n with
  | ofNat m => exact hdigits m
  | negSucc m => exact h.append (h.plain 0x2d (by decide) (by decide)) (hdigits (m + 1))

theorem bool (h : Pieces P) (b : Bool) : P (encode (.bool b)) := by
  apply h.plainText
  cases b <;> decide +kernel

theorem obj (h : Pieces P) {ms : List (List Char × Json)} (hms : ∀ m ∈ ms, P (encode m.2)) :
    P (encode (.obj ms)) := by
  have hmember : ∀ (name : List Char) {v : Json} {t : Str}, P (encode v) → P t →
      P (Go.quoteChars name ++ 0x3a :: (encode v ++ t)) := fun name _ _ hv ht =>
    h.append (h.quoteChars name) (h.append (h.plain 0x3a (by decide) (by decide)) (h.append hv ht))
  have htail : ∀ ms : List (List Char × Json), (∀ m ∈ ms, P (encode m.2)) → P (encodeMembers ms) := by
    intro ms hms
    induction ms with
    | nil => exact h.plain 0x7d (by decide) (by decide)
    | cons m ms ih =>
      obtain ⟨hv, hms⟩ := forall_mem_cons.mp hms
      exact h.append (h.plain 0x2c (by decide) (by decide)) (hmember m.1 hv (ih hms))
  cases ms with
  | nil =>
    exact h.plainText (all_iff_forall_prop.mp (by decide))
  | cons m ms =>
    obtain ⟨hv, hms⟩ := forall_mem_cons.mp hms
    exact h.append (h.plain 0x7b (by decide) (by decide)) (hmember m.1 hv (htail ms hms))

end Pieces

theorem runesAux_utf8 {n : ℕ} (cs : List Char) (h : (utf8 cs).length ≤ n) : runesAux n (utf8 cs) = cs.map .valid := by
  induction cs generalizing n with
  | nil => cases n <;> rfl
  | cons c cs ih =>
    have hdecode := decodeRune_utf8EncodeChar c (utf8 cs)
    obtain ⟨b, t, hbt, -⟩ := utf8EncodeChar_head c
    rw [utf8_cons, hbt, cons_append] at h ⊢
    rw [hbt, cons_append] at hdecode
    rw [length_cons, length_append] at h
    obtain ⟨m, rfl⟩ : ∃ m, n = m + 1 := ⟨n - 1, by omega⟩
    rw [runesAux, hdecode]
    exact congrArg (Rune.valid c :: ·) (ih (by omega))

theorem runes_utf8 (cs : List Char) : runes (utf8 cs) = cs.map .valid := runesAux_utf8 cs (Nat.le_refl _)

def IsText (s : Str) : Prop := ∃ cs, s = utf8 cs

instance decidableIsText (s : Str) : Decidable (IsText s) :=
  decidable_of_iff (utf8 ((runes s).map Rune.char) = s) <| by
    constructor
    · exact fun h => ⟨_, h.symm⟩
    · rintro ⟨cs, rfl⟩
      rw [runes_utf8, map_map]
      exact congrArg utf8 (map_id cs)

theorem isText_plain {b : UInt8} (h : b.toNat < 0x80) : IsText [b] := by
  refine ⟨[Char.ofNat b.toNat], ?_⟩
  revert h
  exact forall_byte (p := fun b => b.toNat < 0x80 → [b] = utf8 [Char.ofNat b.toNat]) (by decide +kernel) b

theorem IsText.append {s t : Str} (hs : IsText s) (ht : IsText t) : IsText (s ++ t) := by
  obtain ⟨cs, rfl⟩ := hs
  obtain ⟨ds, rfl⟩ := ht
  exact ⟨cs ++ ds, (utf8_append cs ds).symm⟩

/-- What the encoder writes is UTF-8. -/
theorem pieces_isText : Pieces IsText where
  nil := ⟨[], rfl⟩
  append := IsText.append
  plain b h _ := isText_plain h
  escape c := by
    have hplain : ∀ s : Str, (∀ b ∈ s, b.toNat < 0x80) → IsText s := by
      intro s hs
      induction s with
      | nil => exact ⟨[], rfl⟩
      | cons b s ih =>
        exact (isText_plain (hs b mem_cons_self)).append (ih fun b' hb' => hs b' (mem_cons_of_mem _ hb'))
    have hhex : ∀ i : Fin 16, (hexDigit i).toNat < 0x80 := by decide
    rcases escapeChar_cases c with ⟨e, htext, -, hlow, -⟩ | ⟨hlow, htext⟩ | ⟨-, htext⟩ | ⟨-, htext⟩ | ⟨htext, -⟩
    · rw [htext]
      apply hplain
      intro b hb
      rcases mem_cons.mp hb with rfl | hb
      · decide
      · rw [mem_singleton.mp hb]
        exact hlow
    · rw [htext, escapeByte]
      refine IsText.append (hplain _ (all_iff_forall_prop.mp (by decide))) (hplain _ ?_)
      intro b hb
      rcases mem_cons.mp hb with rfl | hb
      · exact hhex ⟨c.toNat / 16, by omega⟩
      · rw [mem_singleton.mp hb]
        exact hhex ⟨c.toNat % 16, by omega⟩
    · rw [htext]
      exact hplain _ (all_iff_forall_prop.mp (by decide))
    · rw [htext]
      exact hplain _ (all_iff_forall_prop.mp (by decide))
    · exact ⟨[c], by rw [htext, utf8_cons, utf8_nil, append_nil]⟩

theorem isText_hexEncode (s : Str) : IsText (hexEncode s) := by
  apply pieces_isText.plainText
  exact forall_mem_hexEncode (P := fun b => b.toNat < 0x80 ∧ b ≠ 0x5c) (by decide) s

/-! ## Structs -/

theorem quote_utf8 (cs : List Char) : quote (utf8 cs) = quoteChars cs := by
  rw [quote, runes_utf8, flatMap_map, quoteChars]

theorem spacedElems_eq (sp : Spacing) (d : ℕ) (vs : List Json) :
    spacedElems sp d vs = ((vs.map (encodeSpaced sp (d + 1))).flatMap fun x => 0x2c :: (sp.line (d + 1) ++ x)) ++
      (sp.line d ++ [0x5d]) := by
  induction vs with
  | nil => rw [spacedElems, map_nil, flatMap_nil, nil_append]
  | cons v vs ih =>
    rw [spacedElems, ih, map_cons, flatMap_cons]
    simp only [cons_append, append_assoc]

theorem spacedArray_eq_encodeSpaced (sp : Spacing) (d : ℕ) (vs : List Json) :
    spacedArray sp d (vs.map (encodeSpaced sp (d + 1))) = encodeSpaced sp d (.arr vs) := by
  cases vs with
  | nil => rw [encodeSpaced, map_nil, spacedArray]
  | cons v vs => rw [encodeSpaced, map_cons, spacedArray, spacedElems_eq]

theorem spacedMembers_eq (sp : Spacing) (d : ℕ) (ms : List (List Char × Json)) :
    spacedMembers sp d ms = ((ms.map fun m => (utf8 m.1, encodeSpaced sp (d + 1) m.2)).flatMap fun (k, v) =>
      0x2c :: (sp.line (d + 1) ++ (quote k ++ 0x3a :: (sp.colon ++ v)))) ++ (sp.line d ++ [0x7d]) := by
  induction ms with
  | nil => rw [spacedMembers, map_nil, flatMap_nil, nil_append]
  | cons m ms ih =>
    rw [spacedMembers, ih, map_cons, flatMap_cons]
    simp only [quote_utf8, cons_append, append_assoc]

/-- A struct is written as the object of its members, whatever the layout. -/
theorem spacedStruct_eq_encodeSpaced (sp : Spacing) (d : ℕ) (ms : List (List Char × Json)) :
    spacedStruct sp d (ms.map fun m => (utf8 m.1, encodeSpaced sp (d + 1) m.2)) = encodeSpaced sp d (.obj ms) := by
  cases ms with
  | nil => rw [encodeSpaced, map_nil, spacedStruct]
  | cons m ms => rw [encodeSpaced, map_cons, spacedStruct, spacedMembers_eq, quote_utf8]

theorem marshalStruct_eq_encode (ms : List (List Char × Json)) :
    marshalStruct (ms.map fun m => some (utf8 m.1, encode m.2)) = encode (.obj ms) := by
  have hpresent : (ms.map fun m => some (utf8 m.1, encode m.2)).reduceOption =
      ms.map fun m => (utf8 m.1, encodeSpaced .tight 1 m.2) := by
    show filterMap id _ = _
    simp [filterMap_map, encodeSpaced_tight]
  rw [← encodeSpaced_tight 0, ← spacedStruct_eq_encodeSpaced, marshalStruct, hpresent]
  cases ms with
  | nil => rfl
  | cons m ms => simp [spacedStruct, Spacing.tight]

theorem decodeUint_decimal {w n : ℕ} (h : n < 2 ^ w) (a : ℕ) : decodeUint w (.num (decimal n)) a = some n := by
  have hdigits : decimal n ≠ [] ∧ (decimal n).all isDigit = true ∧ digitsValue (decimal n) < 2 ^ w := by
    refine ⟨decimal_ne_nil n, all_eq_true.mpr fun b hb => isDigit_of_mem_decimal hb, ?_⟩
    rwa [digitsValue_decimal]
  show (if decimal n ≠ [] ∧ (decimal n).all isDigit ∧ digitsValue (decimal n) < 2 ^ w
    then some (digitsValue (decimal n)) else none) = some n
  rw [if_pos hdigits, digitsValue_decimal]

theorem decodeInt_decimalInt {n : ℤ} (h : -2 ^ 63 ≤ n ∧ n < 2 ^ 63) (a : ℤ) :
    decodeInt (.num (decimalInt n)) a = some n :=
  parseInt_decimalInt h

theorem decodeSlice_fresh {β : Type} {dec : Json → β → Option β} {zero : β} {xs : List Json} {ys : List β}
    (h : List.Forall₂ (fun x y => dec x zero = some y) xs ys) : decodeSlice dec zero (.arr xs) [] = some ys := by
  have hall : ∀ n, (xs.zipIdx n).mapM (fun x => dec x.1 (([] : List β).getD x.2 zero)) = some ys := by
    induction h with
    | nil => exact fun _ => rfl
    | cons hx _ ih =>
      intro n
      simp only [getD_nil] at ih ⊢
      rw [zipIdx_cons, mapM_cons, hx, Option.bind_eq_bind, Option.bind_some, ih (n + 1)]
      rfl
  exact hall 0

theorem decodeString_isText {a s : Str} (ha : IsText a) (h : decodeString v a = some s) : IsText s := by
  unfold decodeString at h
  split at h
  · cases h
    exact ha
  · cases h
    exact ⟨_, rfl⟩
  · cases h

end Ominull.Go
