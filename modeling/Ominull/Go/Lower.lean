import Ominull.Go.RoundTrip
import Ominull.Lib.Scanf

/-!
When lower-casing a text byte by byte, as C's `tolower` does, gives what Go's `strings.ToLower` gives
after `strings.TrimSpace`.
-/

namespace Ominull.Go

open Lib List

def asciiLower (c : Char) : Char := if 'A' ≤ c ∧ c ≤ 'Z' then Char.ofNat (c.toNat + 32) else c

/-- `tolower` on the bytes of a rune. -/
def Rune.asciiLower : Rune → Rune
  | valid c => .valid (Go.asciiLower c)
  | invalid b => .invalid b

/-! ## Bytes -/

theorem lowerByte_of_high {b : UInt8} (h : 0x80 ≤ b.toNat) : lowerByte b = b := by
  unfold lowerByte
  rw [if_neg]
  rintro ⟨-, hz⟩
  have hz : b.toNat ≤ 0x5a := hz
  omega

theorem high_of_lowerByte {b : UInt8} (h : 0x80 ≤ (lowerByte b).toNat) : 0x80 ≤ b.toNat := by
  revert h
  exact forall_byte (p := fun b => 0x80 ≤ (lowerByte b).toNat → 0x80 ≤ b.toNat) (by decide +kernel) b

variable {s : Str}

theorem lower_of_high (h : ∀ b ∈ s, 0x80 ≤ b.toNat) : lower s = s := by
  rw [lower, map_congr_left fun b hb => lowerByte_of_high (h b hb), map_id']

@[simp] theorem lower_append (s t : Str) : lower (s ++ t) = lower s ++ lower t := map_append

variable {c : Char}

theorem utf8EncodeChar_ascii (h : c.toNat < 0x80) : String.utf8EncodeChar c = [UInt8.ofNat c.toNat] := by
  unfold String.utf8EncodeChar
  dsimp only
  rw [if_pos (by simp only [Char.toNat] at h; omega)]
  rfl

theorem utf8EncodeChar_high (h : ¬c.toNat < 0x80) : ∀ b ∈ String.utf8EncodeChar c, 0x80 ≤ b.toNat := by
  intro b hb
  obtain heq | hb := utf8EncodeChar_bytes c b hb
  · omega
  · exact hb

theorem asciiLower_of_high (h : ¬c.toNat < 0x80) : asciiLower c = c := by
  unfold asciiLower
  rw [if_neg]
  rintro ⟨-, hz⟩
  have hz : c.toNat ≤ 'Z'.toNat := hz
  have hval : 'Z'.toNat = 0x5a := rfl
  omega

theorem lower_utf8EncodeChar (c : Char) : lower (String.utf8EncodeChar c) = String.utf8EncodeChar (asciiLower c) := by
  by_cases h : c.toNat < 0x80
  · have hall : ∀ n : Fin 128, lower (String.utf8EncodeChar (Char.ofNat n)) =
        String.utf8EncodeChar (asciiLower (Char.ofNat n)) := by decide +kernel
    have hc := hall ⟨c.toNat, h⟩
    rwa [Char.ofNat_toNat] at hc
  · rw [asciiLower_of_high h, lower_of_high (utf8EncodeChar_high h)]

/-! ## Runes -/

theorem decodeRune_lower {rest : Str} (h : decodeRune s = some (c, rest)) :
    decodeRune (lower s) = some (asciiLower c, lower rest) := by
  rw [decodeRune_sound h, lower_append, lower_utf8EncodeChar, decodeRune_utf8EncodeChar]

variable {t : Str}

theorem eq_of_lower_high (ht : ∀ b ∈ t, 0x80 ≤ b.toNat) {r : Str} (h : lower s = t ++ r) : ∃ r', s = t ++ r' := by
  induction t generalizing s with
  | nil => exact ⟨s, rfl⟩
  | cons b t ih =>
    cases s with
    | nil => cases h
    | cons a s =>
      obtain ⟨hab, hrest⟩ := List.cons.inj h
      have hhigh : 0x80 ≤ a.toNat := high_of_lowerByte (hab ▸ ht b mem_cons_self)
      obtain ⟨r', rfl⟩ := ih (fun x hx => ht x (mem_cons_of_mem _ hx)) hrest
      rw [lowerByte_of_high hhigh] at hab
      exact ⟨r', by rw [hab]; rfl⟩

theorem decodeRune_lower_none {b : UInt8} (h : decodeRune (b :: t) = none) :
    lowerByte b = b ∧ decodeRune (lower (b :: t)) = none := by
  have hhigh : 0x80 ≤ b.toNat := by
    by_contra hlow
    -- a byte within ASCII always decodes
    have hascii := decodeRune_utf8EncodeChar (Char.ofNat b.toNat) t
    have hb : String.utf8EncodeChar (Char.ofNat b.toNat) = [b] := by
      have hall : ∀ b : UInt8, b.toNat < 0x80 → String.utf8EncodeChar (Char.ofNat b.toNat) = [b] :=
        forall_byte (by decide +kernel)
      exact hall b (by omega)
    rw [hb, singleton_append, h] at hascii
    cases hascii
  refine ⟨lowerByte_of_high hhigh, ?_⟩
  cases hdec : decodeRune (lower (b :: t)) with
  | none => rfl
  | some p =>
    obtain ⟨c, rest⟩ := p
    have hsound := decodeRune_sound hdec
    have hc : ¬c.toNat < 0x80 := by
      intro hlow
      rw [utf8EncodeChar_ascii hlow] at hsound
      have hhead : lowerByte b = UInt8.ofNat c.toNat := (List.cons.inj hsound).1
      rw [lowerByte_of_high hhigh] at hhead
      rw [hhead, UInt8.toNat_ofNat'] at hhigh
      omega
    obtain ⟨r', heq⟩ := eq_of_lower_high (utf8EncodeChar_high hc) hsound
    rw [heq, decodeRune_utf8EncodeChar] at h
    cases h

theorem runesAux_lower (n : ℕ) (s : Str) : runesAux n (lower s) = (runesAux n s).map Rune.asciiLower := by
  induction n generalizing s with
  | zero => rfl
  | succ n ih =>
    cases s with
    | nil => rfl
    | cons b t =>
      cases hdec : decodeRune (b :: t) with
      | none =>
        obtain ⟨hb, hnone⟩ := decodeRune_lower_none hdec
        have hlower : lower (b :: t) = b :: lower t := by rw [lower, map_cons, hb]; rfl
        rw [hlower] at hnone ⊢
        rw [runesAux, runesAux, hdec, hnone]
        exact congrArg (Rune.invalid b :: ·) (ih t)
      | some p =>
        obtain ⟨c, rest⟩ := p
        have hsome := decodeRune_lower hdec
        have hlower : lower (b :: t) = lowerByte b :: lower t := rfl
        rw [hlower] at hsome ⊢
        rw [runesAux, runesAux, hdec, hsome]
        exact congrArg (Rune.valid (asciiLower c) :: ·) (ih rest)

theorem runes_lower (s : Str) : runes (lower s) = (runes s).map Rune.asciiLower := by
  have hlength : (lower s).length = s.length := length_map ..
  rw [runes, hlength, runesAux_lower]
  rfl

/-! ## Parts of a text -/

/-- Runes that are those of their own bytes: an invalid byte is not the start of a character with what
follows it. -/
def Coherent : List Rune → Prop
  | [] => True
  | .valid _ :: rs => Coherent rs
  | .invalid b :: rs => decodeRune (b :: rs.flatMap Rune.bytes) = none ∧ Coherent rs

theorem runesAux_bytes (n : ℕ) (s : Str) (h : s.length ≤ n) :
    (runesAux n s).flatMap Rune.bytes = s ∧ Coherent (runesAux n s) := by
  induction n generalizing s with
  | zero =>
    obtain rfl := length_eq_zero_iff.mp (Nat.le_zero.mp h)
    exact ⟨rfl, trivial⟩
  | succ n ih =>
    cases s with
    | nil => exact ⟨rfl, trivial⟩
    | cons b t =>
      rw [length_cons] at h
      rw [runesAux]
      cases hdec : decodeRune (b :: t) with
      | none =>
        obtain ⟨hbytes, hcoherent⟩ := ih t (by omega)
        refine ⟨?_, ?_, hcoherent⟩
        · exact congrArg (b :: ·) hbytes
        · rw [hbytes]
          exact hdec
      | some p =>
        obtain ⟨c, rest⟩ := p
        have hsound := decodeRune_sound hdec
        obtain ⟨a, u, hau, -⟩ := utf8EncodeChar_head c
        have hlength := congrArg List.length hsound
        rw [hau, length_append, length_cons, length_cons] at hlength
        obtain ⟨hbytes, hcoherent⟩ := ih rest (by omega)
        refine ⟨?_, hcoherent⟩
        rw [hsound]
        exact congrArg (String.utf8EncodeChar c ++ ·) hbytes

theorem bytes_runes (s : Str) : (runes s).flatMap Rune.bytes = s := (runesAux_bytes _ s (Nat.le_refl _)).1

theorem coherent_runes (s : Str) : Coherent (runes s) := (runesAux_bytes _ s (Nat.le_refl _)).2

variable {rs : List Rune}

theorem Coherent.runesAux (h : Coherent rs) {n : ℕ} (hn : (rs.flatMap Rune.bytes).length ≤ n) :
    runesAux n (rs.flatMap Rune.bytes) = rs := by
  induction rs generalizing n with
  | nil => cases n <;> rfl
  | cons r rs ih =>
    cases r with
    | valid c =>
      have hdecode := decodeRune_utf8EncodeChar c (rs.flatMap Rune.bytes)
      obtain ⟨b, t, hbt, -⟩ := utf8EncodeChar_head c
      have hcons : (Rune.valid c :: rs).flatMap Rune.bytes = b :: (t ++ rs.flatMap Rune.bytes) := by
        rw [flatMap_cons, Rune.bytes, hbt, cons_append]
      rw [hbt, cons_append] at hdecode
      rw [hcons, length_cons, length_append] at hn
      obtain ⟨m, rfl⟩ : ∃ m, n = m + 1 := ⟨n - 1, by omega⟩
      rw [hcons, Go.runesAux, hdecode]
      exact congrArg (Rune.valid c :: ·) (ih h (by omega))
    | invalid b =>
      have hcons : (Rune.invalid b :: rs).flatMap Rune.bytes = b :: rs.flatMap Rune.bytes := rfl
      rw [hcons, length_cons] at hn
      obtain ⟨m, rfl⟩ : ∃ m, n = m + 1 := ⟨n - 1, by omega⟩
      rw [hcons, Go.runesAux, h.1]
      exact congrArg (Rune.invalid b :: ·) (ih h.2 (by omega))

theorem Coherent.runes (h : Coherent rs) : runes (rs.flatMap Rune.bytes) = rs :=
  h.runesAux (Nat.le_refl _)

theorem Coherent.suffix {rs' : List Rune} (h : Coherent (rs ++ rs')) : Coherent rs' := by
  induction rs with
  | nil => exact h
  | cons r rs ih =>
    cases r with
    | valid c => exact ih h
    | invalid b => exact ih h.2

theorem decodeRune_none_of_append (h : decodeRune (s ++ t) = none) : decodeRune s = none := by
  cases hdec : decodeRune s with
  | none => rfl
  | some p =>
    obtain ⟨c, rest⟩ := p
    rw [decodeRune_sound hdec, append_assoc, decodeRune_utf8EncodeChar] at h
    cases h

theorem Coherent.initial {rs' : List Rune} (h : Coherent (rs ++ rs')) : Coherent rs := by
  induction rs with
  | nil => exact trivial
  | cons r rs ih =>
    cases r with
    | valid c => exact ih h
    | invalid b =>
      refine ⟨?_, ih h.2⟩
      have hnone : decodeRune (b :: (rs ++ rs').flatMap Rune.bytes) = none := h.1
      rw [flatMap_append, ← cons_append] at hnone
      exact decodeRune_none_of_append hnone

def trimRunes (rs : List Rune) : List Rune := (rs.dropWhile Rune.isSpace).rdropWhile Rune.isSpace

theorem runes_trimSpace (s : Str) : runes (trimSpace s) = trimRunes (runes s) := by
  have hwhole : Coherent ((runes s).takeWhile Rune.isSpace ++ (runes s).dropWhile Rune.isSpace) := by
    rw [takeWhile_append_dropWhile]
    exact coherent_runes s
  have hrest : Coherent (trimRunes (runes s) ++ ((runes s).dropWhile Rune.isSpace).rtakeWhile Rune.isSpace) := by
    rw [trimRunes, rdropWhile_append_rtakeWhile]
    exact hwhole.suffix
  exact hrest.initial.runes

/-- A text of printable ASCII without blanks is left as it is. -/
theorem trimSpace_of_visible (h : ∀ b ∈ s, 0x21 ≤ b.toNat ∧ b.toNat < 0x7f) : trimSpace s = s := by
  have hbyte : ∀ b : UInt8, 0x21 ≤ b.toNat ∧ b.toNat < 0x7f →
      [b] = utf8 [Char.ofNat b.toNat] ∧ isSpaceRune (Char.ofNat b.toNat) = false := forall_byte (by decide +kernel)
  obtain ⟨cs, rfl, hcs⟩ : ∃ cs, s = utf8 cs ∧ ∀ c ∈ cs, isSpaceRune c = false := by
    induction s with
    | nil => exact ⟨[], rfl, fun _ hc => absurd hc not_mem_nil⟩
    | cons b s ih =>
      obtain ⟨hb, hspace⟩ := hbyte b (h b mem_cons_self)
      obtain ⟨cs, hs, hcs⟩ := ih fun b' hb' => h b' (mem_cons_of_mem _ hb')
      refine ⟨Char.ofNat b.toNat :: cs, ?_, forall_mem_cons.mpr ⟨hspace, hcs⟩⟩
      rw [← singleton_append, hb, hs, ← utf8_append, singleton_append]
  have hnone : ∀ r ∈ cs.map Rune.valid, r.isSpace = false := by
    intro r hr
    obtain ⟨c, hc, rfl⟩ := mem_map.mp hr
    exact hcs c hc
  have hleft : (cs.map Rune.valid).dropWhile Rune.isSpace = cs.map Rune.valid :=
    dropWhile_eq_self_iff.mpr fun hl => Bool.eq_false_iff.mp (hnone _ (getElem_mem hl))
  have hright : (cs.map Rune.valid).rdropWhile Rune.isSpace = cs.map Rune.valid :=
    rdropWhile_eq_self_iff.mpr fun hl => Bool.eq_false_iff.mp (hnone _ (getLast_mem hl))
  rw [trimSpace, runes_utf8, hleft, hright, flatMap_map]
  rfl

/-! ## When the two agree -/

/-- A text without blanks at its ends, all valid, whose characters beyond ASCII are lower case. -/
structure LowersAlike (s : Str) : Prop where
  first : ∀ r ∈ (runes s).head?, r.isSpace = false
  last : ∀ r ∈ (runes s).getLast?, r.isSpace = false
  lower : ∀ r ∈ runes s, ∃ c, r = .valid c ∧ (c.toNat < 0x80 ∨ toLowerRune c = c)

theorem trimRunes_eq_self (hfirst : ∀ r ∈ rs.head?, r.isSpace = false) (hlast : ∀ r ∈ rs.getLast?, r.isSpace = false) :
    trimRunes rs = rs := by
  have hdrop : rs.dropWhile Rune.isSpace = rs := by
    cases rs with
    | nil => rfl
    | cons r rs => exact dropWhile_cons_of_neg (by rw [hfirst r rfl]; exact Bool.false_ne_true)
  rw [trimRunes, hdrop, rdropWhile_eq_self_iff]
  intro hne
  rw [hlast _ (getLast_mem_getLast? hne)]
  exact Bool.false_ne_true

/-- Nothing is trimmed where nothing is lost. -/
theorem ends_of_length_trimRunes (h : (trimRunes rs).length = rs.length) :
    (∀ r ∈ rs.head?, r.isSpace = false) ∧ ∀ r ∈ rs.getLast?, r.isSpace = false := by
  have hdropLe : (rs.dropWhile Rune.isSpace).length ≤ rs.length := (dropWhile_suffix _).length_le
  have htrimLe : (trimRunes rs).length ≤ (rs.dropWhile Rune.isSpace).length :=
    (List.rdropWhile_prefix _ _).length_le
  have hdrop : rs.dropWhile Rune.isSpace = rs := (dropWhile_suffix _).eq_of_length (by omega)
  have htrim : trimRunes rs = rs.dropWhile Rune.isSpace := (List.rdropWhile_prefix _ _).eq_of_length (by
    unfold trimRunes at h htrimLe
    omega)
  constructor
  · intro r hr
    cases rs with
    | nil => cases hr
    | cons a rs =>
      cases hr
      by_contra hspace
      rw [dropWhile_cons_of_pos (by simpa using hspace)] at hdrop
      have := (dropWhile_suffix (l := rs) Rune.isSpace).length_le
      rw [hdrop, length_cons] at this
      omega
  · intro r hr
    rw [trimRunes, hdrop, rdropWhile_eq_self_iff] at htrim
    obtain ⟨hne, rfl⟩ := mem_getLast?_eq_getLast hr
    simpa using htrim hne

theorem toLowerRune_ascii (h : c.toNat < 0x80) : toLowerRune c = asciiLower c := if_pos h

/-- Trimming and lower-casing a text is lower-casing its ASCII letters exactly when it has no blanks at
its ends, is valid, and beyond ASCII is lower case. -/
theorem toLower_trimSpace_eq_lower_iff (s : Str) : toLower (trimSpace s) = lower s ↔ LowersAlike s := by
  have hnormal : runes (toLower (trimSpace s)) = (trimRunes (runes s)).map fun r => .valid (toLowerRune r.char) := by
    rw [toLower, runes_utf8, runes_trimSpace, map_map]
    rfl
  constructor
  · intro h
    have hrunes : (trimRunes (runes s)).map (fun r => Rune.valid (toLowerRune r.char)) =
        (runes s).map Rune.asciiLower := by
      rw [← hnormal, h, runes_lower]
    have hlength := congrArg List.length hrunes
    rw [length_map, length_map] at hlength
    obtain ⟨hfirst, hlast⟩ := ends_of_length_trimRunes hlength
    rw [trimRunes_eq_self hfirst hlast] at hrunes
    refine ⟨hfirst, hlast, fun r hr => ?_⟩
    have hr' := map_inj_left.mp hrunes r hr
    cases r with
    | invalid b => cases hr'
    | valid c =>
      refine ⟨c, rfl, ?_⟩
      by_cases hc : c.toNat < 0x80
      · exact .inl hc
      · right
        have heq : toLowerRune c = asciiLower c := Rune.valid.inj hr'
        rw [heq, asciiLower_of_high hc]
  · intro h
    have hrunes : (runes s).map (fun r => Rune.valid (toLowerRune r.char)) = (runes s).map Rune.asciiLower := by
      apply map_congr_left
      intro r hr
      obtain ⟨c, rfl, hc⟩ := h.lower r hr
      rcases hc with hc | hc
      · exact congrArg Rune.valid (toLowerRune_ascii hc)
      · by_cases hlow : c.toNat < 0x80
        · exact congrArg Rune.valid (toLowerRune_ascii hlow)
        · exact congrArg Rune.valid (hc.trans (asciiLower_of_high hlow).symm)
    rw [trimRunes_eq_self h.first h.last, hrunes, ← runes_lower] at hnormal
    rw [← bytes_runes (toLower (trimSpace s)), hnormal, bytes_runes]

/-! ## How long a lower-cased text is -/

theorem length_runesAux_le (n : ℕ) (s : Str) : (runesAux n s).length ≤ n := by
  induction n generalizing s with
  | zero => exact Nat.le_refl 0
  | succ n ih =>
    cases s with
    | nil => exact Nat.zero_le _
    | cons b t =>
      unfold runesAux
      split
      · exact Nat.succ_le_succ (ih _)
      · exact Nat.succ_le_succ (ih _)

theorem length_utf8_le (cs : List Char) : (utf8 cs).length ≤ 4 * cs.length := by
  induction cs with
  | nil => exact Nat.le_refl 0
  | cons c cs ih =>
    have hc : (String.utf8EncodeChar c).length ≤ 4 := by
      rw [String.length_utf8EncodeChar]
      exact Char.utf8Size_le_four c
    rw [utf8_cons, length_append, length_cons]
    omega

/-- A byte that is no character becomes three, so the text can grow. -/
theorem length_toLower_trimSpace_le (s : Str) : (toLower (trimSpace s)).length ≤ 4 * s.length := by
  have htrim : (trimRunes (runes s)).length ≤ (runes s).length :=
    (List.rdropWhile_prefix _ _).length_le.trans (dropWhile_suffix _).length_le
  have hrunes : (runes s).length ≤ s.length := length_runesAux_le _ s
  have hlower := length_utf8_le ((runes (trimSpace s)).map fun r => toLowerRune r.char)
  rw [length_map, runes_trimSpace] at hlower
  rw [toLower, runes_trimSpace]
  omega

/-! ## Texts in lower case -/

def isLowerAscii (b : UInt8) : Bool := b < 0x80 && !(0x41 ≤ b && b ≤ 0x5a)

theorem utf8_of_isLowerAscii (h : ∀ b ∈ s, isLowerAscii b) : utf8 (s.map fun b => Char.ofNat b.toNat) = s := by
  have hbyte : ∀ b : UInt8, isLowerAscii b → String.utf8EncodeChar (Char.ofNat b.toNat) = [b] :=
    forall_byte (by decide +kernel)
  induction s with
  | nil => rfl
  | cons b s ih =>
    obtain ⟨hb, hs⟩ := forall_mem_cons.mp h
    rw [map_cons, utf8_cons, hbyte b hb, ih hs]
    rfl

theorem map_runes_of_isLowerAscii {f : Char → Char}
    (hf : ∀ b : UInt8, isLowerAscii b → f (Char.ofNat b.toNat) = Char.ofNat b.toNat) (h : ∀ b ∈ s, isLowerAscii b) :
    (runes s).map (fun r => f r.char) = s.map fun b => Char.ofNat b.toNat := by
  have hrunes : runes s = s.map fun b => .valid (Char.ofNat b.toNat) := by
    conv_lhs => rw [← utf8_of_isLowerAscii h]
    rw [runes_utf8, map_map]
    rfl
  rw [hrunes, map_map]
  exact map_congr_left fun b hb => hf b (h b hb)

theorem toLower_of_isLowerAscii (h : ∀ b ∈ s, isLowerAscii b) : toLower s = s := by
  rw [toLower, map_runes_of_isLowerAscii (forall_byte (by decide +kernel)) h, utf8_of_isLowerAscii h]

theorem eq_of_equalFold (hs : ∀ b ∈ s, isLowerAscii b) (ht : ∀ b ∈ t, isLowerAscii b) (h : equalFold s t) : s = t := by
  have hmap := of_decide_eq_true h
  have hfold : ∀ b : UInt8, isLowerAscii b → simpleFold (Char.ofNat b.toNat) = Char.ofNat b.toNat :=
    forall_byte (by decide +kernel)
  rw [map_runes_of_isLowerAscii hfold hs, map_runes_of_isLowerAscii hfold ht] at hmap
  rw [← utf8_of_isLowerAscii hs, ← utf8_of_isLowerAscii ht, hmap]

theorem isLowerAscii_hexEncode : ∀ b ∈ hexEncode s, isLowerAscii b := forall_mem_hexEncode (by decide) s

end Ominull.Go
