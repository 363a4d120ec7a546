import Ominull.Agent.ManifestText

/-! Reading the two routine key files back. -/

namespace Ominull.Agent

open Lib List Option

/-- The floor in routine.epoch, if it is above the one that is held. -/
def routineFloorAbove (floor : Int) (content : Option Str) : Int :=
  match (readSmall (routineListMax + 400) content).bind scanInt with
  | some (n, _) => max n floor
  | none => floor

def routineFloorOf (content : Option Str) : Int := routineFloorAbove 0 content

structure RoutineSet where
  epoch : Int
  list : Str
  keys : List TrustRoutineKey
  deriving DecidableEq

/-- The release key has signed a statement of this set. -/
def RoutineSet.Released (C : Crypto) (x : RoutineSet) : Prop :=
  (∃ sig, routineVerify C x.epoch x.list sig = true) ∧ parseRoutineList x.list = some x.keys

/-- The set in routine.pin, if it is readable and its statement verifies. -/
def storedRoutine (C : Crypto) (content : Option Str) : Option RoutineSet := do
  let (epoch, list, sig) ← (readSmall (routineListMax + 400) content).bind parseRoutinePin
  let keys ← parseRoutineList list
  if routineVerify C epoch list sig then some ⟨epoch, list, keys⟩ else none

theorem storedRoutine_some {C : Crypto} {content : Option Str} {x : RoutineSet}
    (h : storedRoutine C content = some x) : x.Released C ∧
      ∃ sig, (readSmall (routineListMax + 400) content).bind parseRoutinePin = some (x.epoch, x.list, sig) := by
  simp only [storedRoutine, bind_eq_bind, bind_eq_some_iff] at h
  obtain ⟨⟨epoch, list, sig⟩, hparse, keys, hkeys, h⟩ := h
  split at h
  · rename_i hverify
    cases h
    exact ⟨⟨⟨sig, hverify⟩, hkeys⟩, sig, bind_eq_some_iff.mpr hparse⟩
  · cases h

/-- The set a pin file holds, taken unless it is below the floor. -/
def takeRoutineSet (C : Crypto) (failed : Str) (floor : Int) (pinFile : Option Str) : RoutineKeys :=
  let r : RoutineKeys := { floor := floor, loaded := true, failed := failed }
  match (storedRoutine C pinFile).filter fun x => decide (floor ≤ x.epoch) with
  | none => r
  | some x => { r with keys := x.keys, epoch := x.epoch, list := x.list, floor := max floor x.epoch }

/-- The order of the two checks does not matter. -/
theorem takeStoredRoutine_eq (C : Crypto) (r : RoutineKeys) (epochFile pinFile : Option Str) :
    takeStoredRoutine C r epochFile pinFile =
      takeRoutineSet C r.failed (routineFloorAbove r.floor epochFile) pinFile := by
  unfold takeStoredRoutine
  extract_lets floor r₀ stored
  change _ = takeRoutineSet C r.failed floor pinFile
  clear_value floor
  unfold takeRoutineSet storedRoutine
  dsimp only [stored, r₀]
  cases hparse : (readSmall (routineListMax + 400) pinFile).bind parseRoutinePin with
  | none => rfl
  | some p =>
    obtain ⟨epoch, list, sig⟩ := p
    cases hkeys : parseRoutineList list with
    | none => simp [hkeys]
    | some keys =>
      simp only [hkeys, bind_eq_bind, bind_some]
      by_cases hlow : epoch < floor
      · rw [if_pos hlow]
        cases routineVerify C epoch list sig
        · rfl
        · rw [if_pos rfl, filter_some, if_neg (by simpa using hlow)]
      · rw [if_neg hlow]
        cases routineVerify C epoch list sig
        · rfl
        · simp only [Bool.not_true, Bool.false_eq_true, if_false, if_true, filter_some,
            Int.not_lt.mp hlow, decide_true]

/-! ## Positive numbers -/

theorem readDigits_value {x y : ℕ} {s : Str} (hs : ∀ b ∈ s, isDigit b = true)
    (h : TJ.readDigits x s = some y) : y = s.foldl (fun n b => 10 * n + (b.toNat - 0x30)) x := by
  induction s generalizing x with
  | nil =>
    cases h
    rfl
  | cons b s ih =>
    rw [TJ.readDigits, if_pos (hs b (by simp))] at h
    split at h
    · cases h
    · exact ih (fun c hc => hs c (mem_cons_of_mem _ hc)) h

theorem positiveInt_some {v : Str} {n : Int} (h : positiveInt v = some n) : 1 ≤ n ∧ n < 2 ^ 63 - 8 := by
  unfold positiveInt at h
  dsimp only at h
  generalize (TJ.ws v).rdropWhile TJ.isWs = s at h
  split at h
  · cases h
  · rename_i hs
    simp only [not_or, Bool.not_eq_true, Bool.not_eq_false'] at hs
    obtain ⟨hne, hhead, hall⟩ := hs
    obtain ⟨x, hx, rfl⟩ := map_eq_some_iff.mp h
    have hlt := readDigits_le hx (by decide)
    have hdigits : ∀ b ∈ s, isDigit b = true := all_eq_true.mp (by simpa using hall)
    obtain ⟨b, s, rfl⟩ := exists_cons_of_ne_nil hne
    have hb : 0x31 ≤ b.toNat := by
      have hdigit := hdigits b (by simp)
      have hzero : b ≠ 0x30 := fun hb => hhead (by rw [hb]; rfl)
      revert hdigit hzero
      exact forall_byte (p := fun b => isDigit b = true → b ≠ 0x30 → 0x31 ≤ b.toNat) (by decide +kernel) b
    have hvalue := readDigits_value hdigits hx
    have hle := le_foldl_digits s (10 * 0 + (b.toNat - 0x30))
    rw [foldl_cons] at hvalue
    omega

/-- A positive number that was printed is read back. -/
theorem positiveInt_decimalInt {n m : Int} (hn : 0 ≤ n) (h : positiveInt (decimalInt n) = some m) : m = n := by
  obtain ⟨k, rfl⟩ := Int.eq_ofNat_of_zero_le hn
  have hnows : ∀ b ∈ decimal k, TJ.isWs b = false := by
    intro b hb
    have hdigit := isDigit_of_mem_decimal hb
    revert hdigit
    exact forall_byte (p := fun b => isDigit b = true → TJ.isWs b = false) (by decide +kernel) b
  have hws : TJ.ws (decimal k) = decimal k := by
    obtain ⟨b, s, hbs⟩ := exists_cons_of_ne_nil (decimal_ne_nil k)
    rw [hbs]
    exact TJ.ws_cons_of_not (hnows b (by simp [hbs])) s
  have htail : (decimal k).rdropWhile TJ.isWs = decimal k := by
    rw [rdropWhile_eq_self_iff]
    intro hne
    simpa using hnows _ (getLast_mem hne)
  have hs : (TJ.ws (decimalInt k)).rdropWhile TJ.isWs = decimal k := by
    rw [show decimalInt k = decimal k from rfl, hws, htail]
  unfold positiveInt at h
  rw [hs] at h
  dsimp only at h
  split at h
  · cases h
  · obtain ⟨x, hx, rfl⟩ := map_eq_some_iff.mp h
    have hvalue := readDigits_value (fun b hb => isDigit_of_mem_decimal hb) hx
    rw [show (decimal k).foldl (fun n b => 10 * n + (b.toNat - 0x30)) 0 = k from digitsValue_decimal k] at hvalue
    rw [hvalue]

/-! ## The files -/

theorem routineFloorOf_nonneg (content : Option Str) : 0 ≤ routineFloorOf content := by
  unfold routineFloorOf routineFloorAbove
  split
  · exact Int.le_max_right _ _
  · exact Int.le_refl _

theorem routineFloorOf_decimalInt {n : Int} (hlo : 1 ≤ n) (hhi : n < 2 ^ 63) :
    routineFloorOf (some (decimalInt n ++ str "\n")) = n := by
  unfold routineFloorOf routineFloorAbove
  simp only [scanInt_readSmall (by decide : 21 < routineListMax + 400) hlo hhi]
  omega

theorem parseRoutinePin_pos {s list sig : Str} {epoch : Int}
    (h : parseRoutinePin s = some (epoch, list, sig)) : 1 ≤ epoch := by
  simp only [parseRoutinePin, bind_eq_bind, bind_eq_some_iff] at h
  obtain ⟨s₁, -, ⟨l, s₂⟩, -, n, hn, s₃, -, ⟨l', s₄⟩, -, s₅, -, ⟨g, s₆⟩, -, h⟩ := h
  split at h
  · cases h
    exact (positiveInt_some hn).1
  · cases h

theorem storedRoutine_pos {C : Crypto} {content : Option Str} {x : RoutineSet}
    (h : storedRoutine C content = some x) : 1 ≤ x.epoch := by
  obtain ⟨-, sig, hparse⟩ := storedRoutine_some h
  obtain ⟨s, -, hs⟩ := bind_eq_some_iff.mp hparse
  exact parseRoutinePin_pos hs

theorem splitLine_append {line r : Str} (h : (0x0a : UInt8) ∉ line) :
    splitLine (line ++ 0x0a :: r) = some (line, r) := by
  have hline : ∀ b ∈ line, (b != 0x0a) = true := by
    intro b hb
    simp only [bne_iff_ne]
    rintro rfl
    exact h hb
  have hdrop : (line ++ 0x0a :: r).dropWhile (· != 0x0a) = 0x0a :: r := by
    rw [dropWhile_append_of_pos hline]
    rfl
  have htake : (line ++ 0x0a :: r).takeWhile (· != 0x0a) = line := by
    rw [takeWhile_append_of_pos hline]
    simp
  unfold splitLine
  rw [hdrop, htake]

/-- Whatever set is read from a pin file that was written, it is of the epoch that was pinned. -/
theorem storedRoutine_epoch {C : Crypto} {epoch : Int} {list sig : Str} {x : RoutineSet} (hpos : 0 ≤ epoch)
    (h : storedRoutine C (some (routinePinText epoch list sig)) = some x) : x.epoch = epoch := by
  obtain ⟨-, sig', hparse⟩ := storedRoutine_some h
  obtain ⟨s, hs, hparse⟩ := bind_eq_some_iff.mp hparse
  -- the text is cut at a zero byte, which is not in the epoch's line
  obtain ⟨r, hr⟩ : ∃ r, s = str "ominull-routine 1\nepoch=" ++ (decimalInt epoch ++ 0x0a :: r) := by
    have hzero : ∀ b ∈ str "ominull-routine 1\nepoch=" ++ (decimalInt epoch ++ [0x0a]), (b ≠ 0 : Bool) = true := by
      intro b hb
      simp only [ne_eq, decide_not, Bool.not_eq_true', decide_eq_false_iff_not]
      rintro rfl
      simp only [mem_append] at hb
      rcases hb with hb | hb | hb
      · exact absurd hb (by decide)
      · exact (plain_decimalInt epoch).1 hb
      · exact absurd hb (by decide)
    have htext : routinePinText epoch list sig = (str "ominull-routine 1\nepoch=" ++
        (decimalInt epoch ++ [0x0a])) ++ (str "keys=" ++ (list ++ (str "\nsig=" ++ (sig ++ str "\n")))) := by
      have hkeys : str "\nkeys=" = 0x0a :: str "keys=" := by decide
      simp only [routinePinText, hkeys, append_assoc, cons_append, nil_append]
    simp only [readSmall] at hs
    split at hs
    · cases hs
      rw [htext, cString, takeWhile_append_of_pos hzero]
      exact ⟨_, by simp only [append_assoc, cons_append, nil_append]; rfl⟩
    · cases hs
  rw [hr, parseRoutinePin, scanLiteral_append] at hparse
  simp only [bind_eq_bind, bind_some] at hparse
  rw [splitLine_append (plain_decimalInt epoch).2] at hparse
  simp only [bind_some, bind_eq_some_iff] at hparse
  obtain ⟨n, hn, s₁, -, ⟨l, s₂⟩, -, s₃, -, ⟨g, s₄⟩, -, hparse⟩ := hparse
  split at hparse
  · cases hparse
    exact positiveInt_decimalInt hpos hn
  · cases hparse

end Ominull.Agent
