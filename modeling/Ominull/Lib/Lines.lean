import Ominull.Lib.Scanf

/-!
The lines of a text as C reads them: `fgets` into a buffer that holds `room` characters and their
terminator, and `strtok` over the line ends of a string.
-/

namespace Ominull.Lib

open List

/-- The loop of `fgets`: the line so far, and how many characters may still be added to it. -/
def fgetsFrom (room : ℕ) : ℕ → Str → Str → List Str
  | _, line, [] => if line = [] then [] else [line]
  | left, line, b :: s =>
    if b = 0x0a ∨ left ≤ 1 then (line ++ [b]) :: fgetsFrom room room [] s
    else fgetsFrom room (left - 1) (line ++ [b]) s

/-- What successive calls of `fgets` read from a text: lines with their line ends, the long ones in
pieces. -/
def fgetsAll (room : ℕ) (s : Str) : List Str := fgetsFrom room room [] s

/-- The loop of `strtok` with the delimiters `"\r\n"`, with the token so far. -/
def strtokFrom : Str → Str → List Str
  | token, [] => if token = [] then [] else [token]
  | token, b :: s =>
    if b = 0x0d ∨ b = 0x0a then
      if token = [] then strtokFrom [] s else token :: strtokFrom [] s
    else strtokFrom (token ++ [b]) s

/-- The tokens of a string between its line ends. -/
def strtokAll (s : Str) : List Str := strtokFrom [] s

/-- The text is empty or ends with a line end. -/
def Closed (s : Str) : Prop := s = [] ∨ ∃ t, s = t ++ [0x0a]

theorem closed_nil : Closed [] := .inl rfl

theorem closed_append_lineEnd (s : Str) : Closed (s ++ [0x0a]) := .inr ⟨s, rfl⟩

variable {s : Str}

theorem Closed.append {t : Str} (hs : Closed s) (ht : Closed t) : Closed (s ++ t) := by
  obtain rfl | ⟨t, rfl⟩ := ht
  · rw [append_nil]
    exact hs
  · rw [← append_assoc]
    exact closed_append_lineEnd _

theorem closed_flatMap {α : Type*} {l : List α} {f : α → Str} (h : ∀ x ∈ l, Closed (f x)) : Closed (l.flatMap f) := by
  induction l with
  | nil => exact closed_nil
  | cons x l ih =>
    exact (h x mem_cons_self).append (ih fun y hy => h y (mem_cons_of_mem _ hy))

/-! ## Reading resumes at a line end -/

theorem fgetsFrom_lineEnd (room left : ℕ) (line s t : Str) :
    fgetsFrom room left line (s ++ [0x0a] ++ t) = fgetsFrom room left line (s ++ [0x0a]) ++ fgetsAll room t := by
  induction s generalizing left line with
  | nil => simp [fgetsFrom, fgetsAll]
  | cons b s ih =>
    simp only [cons_append, fgetsFrom]
    split_ifs with hb
    · rw [ih, cons_append]
    · exact ih _ _

variable {room : ℕ}

theorem fgetsAll_append (hs : Closed s) (t : Str) : fgetsAll room (s ++ t) = fgetsAll room s ++ fgetsAll room t := by
  obtain rfl | ⟨s, rfl⟩ := hs
  · rfl
  · exact fgetsFrom_lineEnd room room [] s t

theorem strtokFrom_lineEnd (token s t : Str) :
    strtokFrom token (s ++ [0x0a] ++ t) = strtokFrom token (s ++ [0x0a]) ++ strtokAll t := by
  induction s generalizing token with
  | nil =>
    simp only [nil_append, singleton_append, strtokFrom, or_true, if_true]
    split_ifs <;> rfl
  | cons b s ih =>
    simp only [cons_append, strtokFrom]
    split_ifs
    · exact ih []
    · rw [ih, cons_append]
    · exact ih _

theorem strtokAll_append (hs : Closed s) (t : Str) : strtokAll (s ++ t) = strtokAll s ++ strtokAll t := by
  obtain rfl | ⟨s, rfl⟩ := hs
  · rfl
  · exact strtokFrom_lineEnd [] s t

/-! ## One line -/

theorem fgetsFrom_line {left : ℕ} {line : Str} (hs : (0x0a : UInt8) ∉ s) (hleft : s.length < left) :
    fgetsFrom room left line (s ++ [0x0a]) = [line ++ s ++ [0x0a]] := by
  induction s generalizing left line with
  | nil => simp [fgetsFrom]
  | cons b s ih =>
    rw [length_cons] at hleft
    rw [mem_cons, not_or] at hs
    have hb : ¬(b = 0x0a ∨ left ≤ 1) := by
      rintro (hb | hb)
      · exact hs.1 hb.symm
      · omega
    rw [cons_append, fgetsFrom, if_neg hb, ih hs.2 (by omega)]
    simp

theorem fgetsAll_line (hs : (0x0a : UInt8) ∉ s) (hroom : s.length < room) :
    fgetsAll room (s ++ [0x0a]) = [s ++ [0x0a]] :=
  fgetsFrom_line hs hroom

variable {token : Str}

theorem strtokFrom_line (hs : ∀ b ∈ s, b ≠ 0x0d ∧ b ≠ 0x0a) (hne : token ++ s ≠ []) :
    strtokFrom token (s ++ [0x0d, 0x0a]) = [token ++ s] := by
  induction s generalizing token with
  | nil =>
    rw [append_nil] at hne
    simp [strtokFrom, hne]
  | cons b s ih =>
    have hb : ¬(b = 0x0d ∨ b = 0x0a) := not_or.mpr (hs b mem_cons_self)
    rw [cons_append, strtokFrom, if_neg hb, ih (fun c hc => hs c (mem_cons_of_mem _ hc)) (by simp)]
    simp

theorem strtokAll_line (hs : ∀ b ∈ s, b ≠ 0x0d ∧ b ≠ 0x0a) (hne : s ≠ []) : strtokAll (s ++ [0x0d, 0x0a]) = [s] :=
  strtokFrom_line hs hne

theorem strtokFrom_subset {b : UInt8} (hb : ∃ x ∈ strtokFrom token s, b ∈ x) : b ∈ token ∨ b ∈ s := by
  induction s generalizing token with
  | nil =>
    obtain ⟨x, hx, hbx⟩ := hb
    rw [strtokFrom] at hx
    split_ifs at hx
    · cases hx
    · obtain rfl := mem_singleton.mp hx
      exact .inl hbx
  | cons c s ih =>
    rw [strtokFrom] at hb
    split_ifs at hb
    · obtain h | h := ih hb
      · cases h
      · exact .inr (mem_cons_of_mem _ h)
    · obtain ⟨x, hx, hbx⟩ := hb
      obtain rfl | hx := mem_cons.mp hx
      · exact .inl hbx
      · obtain h | h := ih ⟨x, hx, hbx⟩
        · cases h
        · exact .inr (mem_cons_of_mem _ h)
    · obtain h | h := ih hb
      · obtain h | h := mem_append.mp h
        · exact .inl h
        · exact .inr (mem_cons.mpr (.inl (mem_singleton.mp h)))
      · exact .inr (mem_cons_of_mem _ h)

variable {x : Str}

/-- The tokens hold only bytes of the string. -/
theorem mem_of_mem_strtokAll {b : UInt8} (hx : x ∈ strtokAll s) (hb : b ∈ x) : b ∈ s :=
  (strtokFrom_subset ⟨x, hx, hb⟩).resolve_left not_mem_nil

/-- A piece that `fgets` reads fits the buffer, and only its last character can be a line end. -/
theorem mem_fgetsFrom {left : ℕ} {line : Str} (hline : (0x0a : UInt8) ∉ line) (hleft : line.length + left ≤ room)
    (hroom : 1 ≤ left) (hx : x ∈ fgetsFrom room left line s) : x.length ≤ room ∧ (0x0a : UInt8) ∉ x.dropLast := by
  induction s generalizing left line with
  | nil =>
    rw [fgetsFrom] at hx
    split_ifs at hx
    · cases hx
    · rw [mem_singleton] at hx
      subst hx
      exact ⟨by omega, fun h => hline (dropLast_subset _ h)⟩
  | cons b s ih =>
    rw [fgetsFrom] at hx
    split_ifs at hx with hb
    · rcases mem_cons.mp hx with rfl | hx
      · rw [length_append, length_singleton, dropLast_concat]
        exact ⟨by omega, hline⟩
      · exact ih not_mem_nil (by simp) (by omega) hx
    · obtain ⟨hb, hleft'⟩ := not_or.mp hb
      refine ih ?_ (by rw [length_append, length_singleton]; omega) (by omega) hx
      rw [mem_append, mem_singleton, not_or]
      exact ⟨hline, Ne.symm hb⟩

theorem mem_fgetsAll (hroom : 1 ≤ room) (hx : x ∈ fgetsAll room s) : x.length ≤ room ∧ (0x0a : UInt8) ∉ x.dropLast :=
  mem_fgetsFrom not_mem_nil (by simp) hroom hx

theorem fgetsFrom_full {left : ℕ} {line : Str} (hs : (0x0a : UInt8) ∉ s) (hleft : s.length = left) (hne : s ≠ [])
    (t : Str) : fgetsFrom room left line (s ++ t) = (line ++ s) :: fgetsAll room t := by
  induction s generalizing left line with
  | nil => exact absurd rfl hne
  | cons b s ih =>
    rw [length_cons] at hleft
    rw [mem_cons, not_or] at hs
    rw [cons_append, fgetsFrom]
    by_cases hnil : s = []
    · subst hnil
      rw [if_pos (.inr (by simp at hleft; omega))]
      rfl
    · have hpos : 0 < s.length := length_pos_iff.mpr hnil
      rw [if_neg (by rintro (hb | hb); exacts [hs.1 hb.symm, by omega]), ih hs.2 (by omega) hnil]
      simp

theorem fgetsAll_full (hs : (0x0a : UInt8) ∉ s) (hroom : s.length = room) (hne : s ≠ []) (t : Str) :
    fgetsAll room (s ++ t) = s :: fgetsAll room t :=
  fgetsFrom_full hs hroom hne t

theorem mem_strtokFrom (htoken : ∀ b ∈ token, b ≠ 0x0d ∧ b ≠ 0x0a) (hx : x ∈ strtokFrom token s) :
    x ≠ [] ∧ ∀ b ∈ x, b ≠ 0x0d ∧ b ≠ 0x0a := by
  induction s generalizing token with
  | nil =>
    rw [strtokFrom] at hx
    split_ifs at hx with hnil
    · cases hx
    · rw [mem_singleton] at hx
      subst hx
      exact ⟨hnil, htoken⟩
  | cons c s ih =>
    rw [strtokFrom] at hx
    split_ifs at hx with hc hnil
    · exact ih (forall_mem_nil _) hx
    · rcases mem_cons.mp hx with rfl | hx
      · exact ⟨hnil, htoken⟩
      · exact ih (forall_mem_nil _) hx
    · exact ih (forall_mem_append.mpr ⟨htoken, forall_mem_singleton.mpr (not_or.mp hc)⟩) hx

theorem mem_strtokAll (hx : x ∈ strtokAll s) : x ≠ [] ∧ ∀ b ∈ x, b ≠ 0x0d ∧ b ≠ 0x0a :=
  mem_strtokFrom (forall_mem_nil _) hx

theorem not_mem_cString (s : Str) : (0 : UInt8) ∉ cString s := by
  intro h
  have hne := mem_takeWhile_imp h
  simp at hne

theorem cString_append (hs : (0 : UInt8) ∉ s) (t : Str) : cString (s ++ t) = s ++ cString t := by
  induction s with
  | nil => rfl
  | cons b s ih =>
    rw [mem_cons, not_or] at hs
    rw [cons_append, cString, takeWhile_cons_of_pos (by simpa using Ne.symm hs.1)]
    exact congrArg (b :: ·) (ih hs.2)

end Ominull.Lib
