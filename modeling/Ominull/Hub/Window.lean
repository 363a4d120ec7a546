import Ominull.Lib.Framing

/-!
Maintenance windows: daily ranges on the machine's own clock or in UTC, and when one next opens. Instants are
nanoseconds since the epoch.
-/

namespace Ominull.Scripts

open Lib

def maxWindowRanges : ℕ := 4

def minute : Int := 60000000000

/-- `HH:MM`, as a half of `rangeRe` reads it. -/
def isClock : Str → Bool
  | [h, h', colon, m, m'] =>
    ((h = 0x30 || h = 0x31) && isDigit h' || h = 0x32 && 0x30 ≤ h' && h' ≤ 0x33) && colon = 0x3a &&
      0x30 ≤ m && m ≤ 0x35 && isDigit m'
  | _ => false

/-- The hours with the minutes, without the colon between them. -/
def clockDigits (s : Str) : Str := s.take 2 ++ s.drop 3

def isRange (r : Str) : Bool :=
  isClock (r.take 5) && (r.drop 5).head? = some 0x2d && isClock (r.drop 6) &&
    clockDigits (r.take 5) ≠ clockDigits (r.drop 6)

/-- A window that `Check` accepts. -/
structure Window where
  ranges : List Str
  utc : Bool
  nonempty : ranges ≠ []
  few : ranges.length ≤ maxWindowRanges
  usable : ∀ r ∈ ranges, isRange r

def parseWindow (v : Str) : Option Window :=
  let utc := v.getLast? = some 0x5a
  let ranges := (if utc then v.dropLast else v).splitOn 0x2c
  if h : ranges ≠ [] ∧ ranges.length ≤ maxWindowRanges ∧ ∀ r ∈ ranges, isRange r then
    some ⟨ranges, utc, h.1, h.2.1, h.2.2⟩
  else none

def minutesOf (s : Str) : Int :=
  ((s.getD 0 0 - 0x30).toNat * 600 + (s.getD 1 0 - 0x30).toNat * 60 + (s.getD 3 0 - 0x30).toNat * 10 +
    (s.getD 4 0 - 0x30).toNat : ℕ)

/-- The offset as a duration, which is an int64 of nanoseconds. -/
def offsetDuration (offset : Int) : Int := wrap64 (offset * minute)

def minuteOfDay (t : Int) : Int := t / minute % 1440

def inRange (n : Int) (r : Str) : Bool :=
  let s := minutesOf (r.take 5)
  let e := minutesOf (r.drop 6)
  (s ≤ e && s ≤ n && n < e) || (e < s && (s ≤ n || n < e))

def untilStart (n : Int) (r : Str) : Int := (minutesOf (r.take 5) - n + 1440) % 1440

def soonest (n best : Int) (ranges : List Str) : Int :=
  ranges.foldl (fun best r => if best < 0 ∨ untilStart n r < best then untilStart n r else best) best

namespace Window

def clockAt (w : Window) (now : Int) (offset : Option Int) : Option Int :=
  if w.utc then some now else offset.map fun offset => now + offsetDuration offset

/-- `Contains`, with no answer where the source calls it unknown. -/
def contains (w : Window) (now : Int) (offset : Option Int) : Option Bool :=
  (w.clockAt now offset).map fun t => w.ranges.any (inRange (minuteOfDay t))

def nextStart (w : Window) (now : Int) (offset : Option Int) : Option Int :=
  (w.clockAt now offset).map fun t =>
    if w.contains now offset = some true then now
    else now - now % minute + soonest (minuteOfDay t) (-1) w.ranges * minute

/-- The window opens at the time `NextStart` gives and not before. -/
def OpensNext (w : Window) (offset now : Int) : Prop :=
  ∃ start, w.nextStart now (some offset) = some start ∧ now ≤ start ∧ w.contains start (some offset) = some true ∧
    ∀ t, now ≤ t → t < start → w.contains t (some offset) = some false

end Window

/-! ## Ranges -/

theorem isClock_digits {s : Str} (h : isClock s) : ∃ a b c d : ℕ, minutesOf s = (a * 600 + b * 60 + c * 10 + d : ℕ) ∧
    a * 10 + b < 24 ∧ b < 10 ∧ c < 6 ∧ d < 10 ∧ clockDigits s = [a, b, c, d].map fun n => UInt8.ofNat (n + 48) := by
  unfold isClock at h
  split at h
  · rename_i h₁ h₂ colon m₁ m₂
    have hdigit : ∀ b : UInt8, 48 ≤ b.toNat → (b - 0x30).toNat + 48 = b.toNat := by
      apply forall_byte
      decide +kernel
    have hbyte : ∀ b : UInt8, 48 ≤ b.toNat → UInt8.ofNat ((b - 0x30).toNat + 48) = b := by
      intro b hb
      rw [hdigit b hb, UInt8.ofNat_toNat]
    simp only [Bool.and_eq_true, Bool.or_eq_true, decide_eq_true_eq, isDigit, UInt8.le_iff_toNat_le,
      ← UInt8.toNat_inj, UInt8.reduceToNat] at h
    have hlow : 48 ≤ h₁.toNat ∧ 48 ≤ h₂.toNat := by omega
    have e₁ := hdigit h₁ hlow.1
    have e₂ := hdigit h₂ hlow.2
    have e₃ := hdigit m₁ (by omega)
    have e₄ := hdigit m₂ (by omega)
    refine ⟨(h₁ - 0x30).toNat, (h₂ - 0x30).toNat, (m₁ - 0x30).toNat, (m₂ - 0x30).toNat, rfl, by omega, by omega,
      by omega, by omega, ?_⟩
    simp only [List.map_cons, List.map_nil]
    rw [hbyte h₁ hlow.1, hbyte h₂ hlow.2, hbyte m₁ (by omega), hbyte m₂ (by omega)]
    rfl
  · cases h

/-- The bounds of a range, which begins and ends at different times. -/
theorem isRange_bounds {r : Str} (h : isRange r) :
    (0 ≤ minutesOf (r.take 5) ∧ minutesOf (r.take 5) < 1440) ∧ (0 ≤ minutesOf (r.drop 6) ∧ minutesOf (r.drop 6) < 1440) ∧
      minutesOf (r.take 5) ≠ minutesOf (r.drop 6) := by
  simp only [isRange, Bool.and_eq_true, decide_eq_true_eq] at h
  obtain ⟨a, b, c, d, hs, ha, hb, hc, hd, htext⟩ := isClock_digits h.1.1.1
  obtain ⟨a', b', c', d', he, ha', hb', hc', hd', htext'⟩ := isClock_digits h.1.2
  refine ⟨by omega, by omega, fun heq => h.2 ?_⟩
  have hall : a = a' ∧ b = b' ∧ c = c' ∧ d = d' := by omega
  rw [htext, htext', hall.1, hall.2.1, hall.2.2.1, hall.2.2.2]

section Range

variable {r : Str} {n : Int}

theorem inRange_start (h : isRange r) (n : Int) : inRange ((n + untilStart n r) % 1440) r := by
  have hr := isRange_bounds h
  have hstart : (n + untilStart n r) % 1440 = minutesOf (r.take 5) := by
    unfold untilStart
    omega
  simp only [inRange, Bool.or_eq_true, Bool.and_eq_true, decide_eq_true_eq]
  omega

theorem inRange_before (h : isRange r) (hn : 0 ≤ n ∧ n < 1440) (hout : inRange n r = false) {k : Int} (hk : 0 ≤ k)
    (hlt : k < untilStart n r) : inRange ((n + k) % 1440) r = false := by
  have hr := isRange_bounds h
  unfold untilStart at hlt
  simp only [inRange, Bool.or_eq_false_iff, Bool.and_eq_false_iff, decide_eq_false_iff_not] at hout ⊢
  omega

theorem untilStart_nonneg (n : Int) (r : Str) : 0 ≤ untilStart n r := Int.emod_nonneg _ (by decide)

theorem soonest_cons (n best : Int) (r : Str) (ranges : List Str) : soonest n best (r :: ranges) =
    soonest n (if best < 0 ∨ untilStart n r < best then untilStart n r else best) ranges := rfl

theorem soonest_le {best : Int} (hbest : 0 ≤ best) (ranges : List Str) :
    soonest n best ranges ≤ best ∧ ∀ r ∈ ranges, soonest n best ranges ≤ untilStart n r := by
  induction ranges generalizing best with
  | nil => exact ⟨Int.le_refl _, fun r hr => by cases hr⟩
  | cons r ranges ih =>
    have hr := untilStart_nonneg n r
    rw [soonest_cons, List.forall_mem_cons]
    split
    · obtain ⟨hle, hall⟩ := ih hr
      exact ⟨by omega, hle, hall⟩
    · obtain ⟨hle, hall⟩ := ih hbest
      exact ⟨hle, by omega, hall⟩

theorem soonest_mem (ranges : List Str) (best : Int) :
    soonest n best ranges = best ∨ ∃ r ∈ ranges, soonest n best ranges = untilStart n r := by
  induction ranges generalizing best with
  | nil => exact .inl rfl
  | cons r ranges ih =>
    rw [soonest_cons, List.exists_mem_cons_iff]
    split
    · exact .inr (ih _)
    · exact (ih best).imp_right .inr

end Range

/-! ## Windows -/

section Windows

variable {w : Window} {n : Int}

theorem soonest_first (w : Window) (n : Int) : (∃ r ∈ w.ranges, soonest n (-1) w.ranges = untilStart n r) ∧
    ∀ r ∈ w.ranges, soonest n (-1) w.ranges ≤ untilStart n r := by
  cases hranges : w.ranges with
  | nil => exact absurd hranges w.nonempty
  | cons r ranges =>
    rw [soonest_cons, if_pos (.inl (by decide)), List.exists_mem_cons_iff, List.forall_mem_cons]
    exact ⟨soonest_mem ranges _, soonest_le (untilStart_nonneg n r) ranges⟩

/-- A window that is closed opens with the range that begins first. -/
theorem closed_until (hn : 0 ≤ n ∧ n < 1440) (hclosed : w.ranges.any (inRange n) = false) :
    0 < soonest n (-1) w.ranges ∧ w.ranges.any (inRange ((n + soonest n (-1) w.ranges) % 1440)) = true ∧
      ∀ k, 0 ≤ k → k < soonest n (-1) w.ranges → w.ranges.any (inRange ((n + k) % 1440)) = false := by
  obtain ⟨⟨r, hr, heq⟩, hall⟩ := soonest_first w n
  rw [List.any_eq_false] at hclosed
  have hopen := inRange_start (w.usable r hr) n
  refine ⟨?_, ?_, ?_⟩
  · by_contra hzero
    have hnonneg := untilStart_nonneg n r
    have hnone : untilStart n r = 0 := by omega
    rw [hnone, Int.add_zero, Int.emod_eq_of_lt hn.1 hn.2] at hopen
    exact hclosed r hr hopen
  · rw [heq, List.any_eq_true]
    exact ⟨r, hr, hopen⟩
  · intro k hk hlt
    rw [List.any_eq_false]
    intro r' hr'
    have hout : inRange n r' = false := by simpa using hclosed r' hr'
    simpa using inRange_before (w.usable r' hr') hn hout hk (Int.lt_of_lt_of_le hlt (hall r' hr'))

def Window.shift (w : Window) (offset : Int) : Int := if w.utc then 0 else offsetDuration offset

theorem contains_eq (w : Window) (t offset : Int) :
    w.contains t (some offset) = some (w.ranges.any (inRange (minuteOfDay (t + w.shift offset)))) := by
  unfold Window.contains Window.clockAt Window.shift
  split <;> simp

theorem nextStart_eq (w : Window) (now offset : Int) : w.nextStart now (some offset) =
    some (if w.ranges.any (inRange (minuteOfDay (now + w.shift offset))) then now
      else now - now % minute + soonest (minuteOfDay (now + w.shift offset)) (-1) w.ranges * minute) := by
  unfold Window.nextStart
  rw [contains_eq]
  unfold Window.clockAt Window.shift
  split <;> simp

theorem minuteOfDay_bounds (t : Int) : 0 ≤ minuteOfDay t ∧ minuteOfDay t < 1440 := by
  unfold minuteOfDay
  omega

theorem minuteOfDay_add {t u k : Int} (h : u / minute = t / minute + k) :
    minuteOfDay u = (minuteOfDay t + k) % 1440 := by
  unfold minuteOfDay
  omega

theorem opensNext_of_open {now offset : Int}
    (hopen : w.ranges.any (inRange (minuteOfDay (now + w.shift offset))) = true) : w.OpensNext offset now := by
  refine ⟨now, ?_, Int.le_refl _, ?_, fun t hfrom hto => absurd hto (Int.not_lt.mpr hfrom)⟩
  · rw [nextStart_eq, if_pos hopen]
  · rw [contains_eq, hopen]

/-- With a shift of whole minutes the start of a minute is one on the window's clock too. -/
theorem opensNext_of_aligned {offset : Int} (h : w.shift offset % minute = 0) (now : Int) : w.OpensNext offset now := by
  cases hopen : w.ranges.any (inRange (minuteOfDay (now + w.shift offset))) with
  | true => exact opensNext_of_open hopen
  | false =>
    unfold Window.OpensNext
    rw [nextStart_eq, hopen]
    obtain ⟨hpos, hstart, hbefore⟩ := closed_until (minuteOfDay_bounds _) hopen
    generalize soonest (minuteOfDay (now + w.shift offset)) (-1) w.ranges = best at hpos hstart hbefore
    unfold minute at h
    refine ⟨_, rfl, ?_, ?_, ?_⟩
    · unfold minute
      omega
    · have hminute : (now - now % minute + best * minute + w.shift offset) / minute =
          (now + w.shift offset) / minute + best := by
        unfold minute
        omega
      rw [if_neg (by decide), contains_eq, minuteOfDay_add hminute, hstart]
    · intro t hfrom hto
      unfold minute at hto
      have hminute : (t + w.shift offset) / minute = (now + w.shift offset) / minute +
          ((t + w.shift offset) / minute - (now + w.shift offset) / minute) := by omega
      rw [contains_eq, minuteOfDay_add hminute, hbefore]
      · unfold minute
        omega
      · unfold minute
        omega

/-- With any other shift, at the start of a minute of the window's clock, the start comes out a minute early. -/
theorem not_opensNext {offset : Int} (h : w.shift offset % minute ≠ 0) (hn : 0 ≤ n ∧ n < 1440)
    (hclosed : w.ranges.any (inRange n) = false) : ¬w.OpensNext offset (n * minute - w.shift offset) := by
  rintro ⟨start, hstart, -, hinside, -⟩
  have hnow : minuteOfDay (n * minute - w.shift offset + w.shift offset) = n := by
    unfold minuteOfDay minute
    omega
  rw [nextStart_eq, hnow, hclosed, if_neg (by decide)] at hstart
  obtain ⟨hpos, -, hbefore⟩ := closed_until hn hclosed
  generalize soonest n (-1) w.ranges = best at hstart hpos hbefore
  cases hstart
  unfold minute at h
  have hminute : (n * minute - w.shift offset - (n * minute - w.shift offset) % minute + best * minute +
      w.shift offset) / minute = n * minute / minute + (best - 1) := by
    unfold minute
    omega
  have hday : minuteOfDay (n * minute) = n := by
    unfold minuteOfDay minute
    omega
  rw [contains_eq, minuteOfDay_add hminute, hday, hbefore _ (by omega) (by omega)] at hinside
  cases hinside

theorem opensNext_iff (w : Window) (offset : Int) : (∀ now, w.OpensNext offset now) ↔
    w.utc = true ∨ offsetDuration offset % minute = 0 ∨ ∀ n, 0 ≤ n → n < 1440 → w.ranges.any (inRange n) = true := by
  have hshift : w.shift offset % minute = 0 ↔ w.utc = true ∨ offsetDuration offset % minute = 0 := by
    unfold Window.shift
    cases w.utc <;> simp
  rw [← or_assoc, ← hshift]
  constructor
  · intro hopens
    by_contra hnot
    push Not at hnot
    obtain ⟨hmisaligned, n, hlo, hhi, hclosed⟩ := hnot
    exact not_opensNext hmisaligned ⟨hlo, hhi⟩ (by simpa using hclosed) (hopens _)
  · rintro (haligned | halways) now
    · exact opensNext_of_aligned haligned now
    · exact opensNext_of_open (halways _ (minuteOfDay_bounds _).1 (minuteOfDay_bounds _).2)

/-- 153722867 minutes are the most that fit a duration. -/
theorem wrapped_offset_early : ∃ w, parseWindow (str "22:00-04:00") = some w ∧ ∃ start,
    w.nextStart (720 * minute - offsetDuration 153722868) (some 153722868) = some start ∧
      w.contains start (some 153722868) = some false :=
  ⟨_, rfl, _, rfl, by decide +kernel⟩

end Windows

end Ominull.Scripts
