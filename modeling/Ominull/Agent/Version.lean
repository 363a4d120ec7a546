import Ominull.Go.Lower
import Ominull.Go.NetIPText
import Ominull.Hub.Rollout
import Mathlib.Data.List.GetD
import Mathlib.Order.PiLex
import Mathlib.Tactic.IntervalCases

/-!
The order of versions: as the agent compares an offered update with what it runs, as the hub does, and
as dotted sequences of numbers have it.
-/

namespace Ominull.Agent

open Lib List

/-! ## The agent's comparison -/

def onlyZeros (s : Str) : Bool := s.all fun c => c = 0x2e || c = 0x30

/-- What follows two equal numbers. -/
def compareTails (next : Str → Str → Int) : Str → Str → Int
  | [], [] => 0
  | [], t => if onlyZeros t then 0 else -1
  | s, [] => if onlyZeros s then 0 else 1
  | c :: s, d :: t => if c ≠ 0x2e ∨ d ≠ 0x2e then -2 else next s t

/-- `Trust_CompareVersions` from a number of each version on. Every round takes a digit and a dot, so the
length of a version is enough fuel. -/
def compareNumbers : ℕ → Str → Str → Int
  | 0, _, _ => -2
  | fuel + 1, a, b =>
    let x := a.takeWhile isDigit
    let y := b.takeWhile isDigit
    if x = [] ∨ y = [] ∨ 9 < x.length ∨ 9 < y.length then -2
    else if digitsValue x < digitsValue y then -1
    else if digitsValue y < digitsValue x then 1
    else compareTails (compareNumbers fuel) (a.dropWhile isDigit) (b.dropWhile isDigit)

def compareVersions (a b : Str) : Int := if a = [] ∨ b = [] then -2 else compareNumbers a.length a b

def updateVersionAdmissible (offered running : Str) : Bool := compareVersions offered running = 1

/-! ## The order of dotted numbers -/

def IsNumber (x : Str) : Prop := x ≠ [] ∧ ∀ b ∈ x, isDigit b

def IsVersion (s : Str) : Prop := ∀ x ∈ s.splitOn 0x2e, IsNumber x

instance (x : Str) : Decidable (IsNumber x) := inferInstanceAs (Decidable (_ ∧ _))

instance (s : Str) : Decidable (IsVersion s) := inferInstanceAs (Decidable (∀ _ ∈ _, _))

def padded (xs : List Str) : Lex (ℕ → ℕ) := toLex fun i => digitsValue (xs.getD i [])

def rank (s : Str) : Lex (ℕ → ℕ) := padded (s.splitOn 0x2e)

/-- A result of the comparison that says how two values are ordered. -/
structure Ranks {α : Type*} [LT α] (r : Int) (u v : α) : Prop where
  lt : r = -1 ↔ u < v
  eq : r = 0 ↔ u = v
  gt : r = 1 ↔ v < u

section Ranks

variable {α : Type*} [Preorder α] {u v : α}

theorem ranks_of_lt (h : u < v) : Ranks (-1) u v :=
  ⟨iff_of_true rfl h, iff_of_false (by decide) h.ne, iff_of_false (by decide) h.not_gt⟩

theorem ranks_of_gt (h : v < u) : Ranks 1 u v :=
  ⟨iff_of_false (by decide) h.not_gt, iff_of_false (by decide) h.ne', iff_of_true rfl h⟩

theorem ranks_self (u : α) : Ranks 0 u u :=
  ⟨iff_of_false (by decide) (lt_irrefl u), iff_of_true rfl rfl, iff_of_false (by decide) (lt_irrefl u)⟩

end Ranks

section Padded

variable {x y : Str} {xs ys : List Str}

theorem padded_lt_iff :
    padded xs < padded ys ↔ ∃ i, (∀ j < i, digitsValue (xs.getD j []) = digitsValue (ys.getD j [])) ∧
      digitsValue (xs.getD i []) < digitsValue (ys.getD i []) :=
  Iff.rfl

theorem padded_eq_iff : padded xs = padded ys ↔ ∀ i, digitsValue (xs.getD i []) = digitsValue (ys.getD i []) :=
  toLex.injective.eq_iff.trans funext_iff

theorem padded_cons_lt (h : digitsValue x < digitsValue y) : padded (x :: xs) < padded (y :: ys) :=
  padded_lt_iff.mpr ⟨0, fun _ hj => absurd hj (Nat.not_lt_zero _), h⟩

theorem padded_cons_lt_iff (h : digitsValue x = digitsValue y) :
    padded (x :: xs) < padded (y :: ys) ↔ padded xs < padded ys := by
  constructor
  · rintro ⟨i, hsame, hlt⟩
    cases i with
    | zero => exact absurd h hlt.ne
    | succ i => exact ⟨i, fun j hj => hsame (j + 1) (by omega), hlt⟩
  · rintro ⟨i, hsame, hlt⟩
    refine ⟨i + 1, fun j hj => ?_, hlt⟩
    cases j with
    | zero => exact h
    | succ j => exact hsame j (by omega)

theorem padded_cons_eq_iff (h : digitsValue x = digitsValue y) :
    padded (x :: xs) = padded (y :: ys) ↔ padded xs = padded ys := by
  rw [padded_eq_iff, padded_eq_iff]
  constructor
  · exact fun hsame i => hsame (i + 1)
  · intro hsame i
    cases i with
    | zero => exact h
    | succ i => exact hsame i

theorem Ranks.cons {r : Int} (h : Ranks r (padded xs) (padded ys)) (hxy : digitsValue x = digitsValue y) :
    Ranks r (padded (x :: xs)) (padded (y :: ys)) where
  lt := h.lt.trans (padded_cons_lt_iff hxy).symm
  eq := h.eq.trans (padded_cons_eq_iff hxy).symm
  gt := h.gt.trans (padded_cons_lt_iff hxy.symm).symm

theorem padded_zero (h : ∀ y ∈ ys, digitsValue y = 0) : padded [] = padded ys := by
  refine padded_eq_iff.mpr fun i => ?_
  by_cases hi : i < ys.length
  · rw [getD_eq_getElem ys _ hi, h _ (getElem_mem hi)]
    rfl
  · rw [getD_eq_default ys _ (by omega)]
    rfl

theorem padded_pos (h : ∃ y ∈ ys, digitsValue y ≠ 0) : padded [] < padded ys := by
  induction ys with
  | nil =>
    obtain ⟨y, hy, -⟩ := h
    exact absurd hy not_mem_nil
  | cons z zs ih =>
    -- a missing number counts as an empty one
    rw [show padded [] = padded [[]] from padded_zero (forall_mem_singleton.mpr rfl)]
    by_cases hz : digitsValue z = 0
    · obtain ⟨y, hy, hne⟩ := h
      refine (padded_cons_lt_iff (x := []) hz.symm).mpr (ih ⟨y, ?_, hne⟩)
      exact (mem_cons.mp hy).resolve_left fun heq => hne (heq ▸ hz)
    · exact padded_cons_lt (Nat.pos_of_ne_zero hz)

end Padded

/-! ## One round of the comparison -/

theorem digitsValue_concat (x : Str) (b : UInt8) :
    digitsValue (x ++ [b]) = 10 * digitsValue x + (b.toNat - 0x30) := by
  simp [digitsValue]

theorem digitsValue_eq_zero_iff {x : Str} (h : ∀ b ∈ x, isDigit b) : digitsValue x = 0 ↔ ∀ b ∈ x, b = 0x30 := by
  have hzero : ∀ b, isDigit b → (b.toNat - 0x30 = 0 ↔ b = 0x30) := forall_byte (by decide +kernel)
  induction x using List.reverseRecOn with
  | nil => exact iff_of_true rfl fun _ hb => absurd hb not_mem_nil
  | append_singleton x b ih =>
    have hx : digitsValue x = 0 ↔ ∀ b ∈ x, b = 0x30 := ih fun c hc => h c (mem_append_left _ hc)
    rw [digitsValue_concat, Nat.add_eq_zero_iff, hzero b (h b (by simp)), Nat.mul_eq_zero, or_iff_right (by decide), hx,
      forall_mem_append, forall_mem_singleton]

def Ends (s : Str) : Prop := ∀ b ∈ s.head?, isDigit b = false

theorem ends_nil : Ends [] := nofun

theorem ends_dot (s : Str) : Ends (0x2e :: s) := fun _ h => by cases h; rfl

theorem compareNumbers_step {x y s t : Str} (hx : IsNumber x) (hy : IsNumber y) (hs : Ends s) (ht : Ends t) (n : ℕ) :
    compareNumbers (n + 1) (x ++ s) (y ++ t) =
      if 9 < x.length ∨ 9 < y.length then -2
      else if digitsValue x < digitsValue y then -1
      else if digitsValue y < digitsValue x then 1
      else compareTails (compareNumbers n) s t := by
  have htake : ∀ {x s : Str}, IsNumber x → Ends s →
      (x ++ s).takeWhile isDigit = x ∧ (x ++ s).dropWhile isDigit = s := by
    intro x s hx hs
    refine ⟨takeWhile_append_of_head hx.2 hs, ?_⟩
    rw [dropWhile_append_of_pos hx.2]
    cases s with
    | nil => rfl
    | cons b s => exact dropWhile_cons_of_neg (by simp [hs b rfl])
  rw [compareNumbers]
  simp only [(htake hx hs).1, (htake hx hs).2, (htake hy ht).1, (htake hy ht).2, hx.1, hy.1, false_or]

/-! ## Versions -/

section Versions

variable {x y : Str} {xs ys : List Str}

/-- As long as the numbers agree, the next two have at most nine digits. -/
def InNineDigits : List Str → List Str → Prop
  | x :: xs, y :: ys => x.length ≤ 9 ∧ y.length ≤ 9 ∧ (digitsValue x = digitsValue y → InNineDigits xs ys)
  | _, _ => True

/-- What follows a number in a version. -/
def more : List Str → Str
  | [] => []
  | x :: xs => 0x2e :: [0x2e].intercalate (x :: xs)

theorem intercalate_cons (x : Str) (xs : List Str) : [0x2e].intercalate (x :: xs) = x ++ more xs := by
  cases xs with
  | nil => rw [intercalate_singleton, more, append_nil]
  | cons y ys => rw [intercalate_cons_cons, append_assoc, singleton_append, more]

theorem ends_more (xs : List Str) : Ends (more xs) := by
  cases xs with
  | nil => exact ends_nil
  | cons x xs => exact ends_dot _

theorem onlyZeros_more_iff (h : ∀ x ∈ xs, IsNumber x) : onlyZeros (more xs) ↔ ∀ x ∈ xs, digitsValue x = 0 := by
  have hdot : ∀ b, isDigit b → (((b = 0x2e || b = 0x30 : Bool) = true) ↔ b = 0x30) := forall_byte (by decide +kernel)
  induction xs with
  | nil => exact iff_of_true rfl fun _ hx => absurd hx not_mem_nil
  | cons x xs ih =>
    obtain ⟨hx, hnumbers⟩ := forall_mem_cons.mp h
    have hall : onlyZeros x = true ↔ digitsValue x = 0 := by
      rw [onlyZeros, all_eq_true, digitsValue_eq_zero_iff hx.2]
      exact forall₂_congr fun b hb => hdot b (hx.2 b hb)
    have hrest : onlyZeros (more xs) = true ↔ _ := ih hnumbers
    have hsplit : onlyZeros (more (x :: xs)) = (onlyZeros x && onlyZeros (more xs)) := by
      rw [more, intercalate_cons, onlyZeros, all_cons, all_append]
      rfl
    rw [hsplit, Bool.and_eq_true, hall, hrest, forall_mem_cons]

theorem ranks_zeros (h : ∀ x ∈ xs, IsNumber x) :
    Ranks (if onlyZeros (more xs) then 0 else -1) (padded []) (padded xs) ∧
      Ranks (if onlyZeros (more xs) then 0 else 1) (padded xs) (padded []) := by
  split_ifs with hzeros
  · rw [← padded_zero ((onlyZeros_more_iff h).mp hzeros)]
    exact ⟨ranks_self _, ranks_self _⟩
  · have hpos : ∃ x ∈ xs, digitsValue x ≠ 0 := by
      by_contra! hall
      exact hzeros ((onlyZeros_more_iff h).mpr hall)
    exact ⟨ranks_of_lt (padded_pos hpos), ranks_of_gt (padded_pos hpos)⟩

/-- The comparison of versions in which no number is too long orders them. -/
theorem ranks_compareNumbers {n : ℕ} (hxs : ∀ x ∈ xs, IsNumber x) (hys : ∀ y ∈ ys, IsNumber y) (hne : xs ≠ [])
    (hne' : ys ≠ []) (hnine : InNineDigits xs ys) (hn : ([0x2e].intercalate xs).length ≤ n) :
    Ranks (compareNumbers n ([0x2e].intercalate xs) ([0x2e].intercalate ys)) (padded xs) (padded ys) := by
  induction xs generalizing ys n with
  | nil => exact absurd rfl hne
  | cons x xs ih =>
    cases ys with
    | nil => exact absurd rfl hne'
    | cons y ys =>
      obtain ⟨hxlen, hylen, hrest⟩ := hnine
      obtain ⟨hx, hall⟩ := forall_mem_cons.mp hxs
      obtain ⟨hy, hall'⟩ := forall_mem_cons.mp hys
      have hpos := length_pos_iff.mpr hx.1
      rw [intercalate_cons, length_append] at hn
      obtain ⟨m, rfl⟩ : ∃ m, n = m + 1 := ⟨n - 1, by omega⟩
      rw [intercalate_cons, intercalate_cons, compareNumbers_step hx hy (ends_more xs) (ends_more ys),
        if_neg (by omega)]
      split_ifs with hlt hgt
      · exact ranks_of_lt (padded_cons_lt hlt)
      · exact ranks_of_gt (padded_cons_lt hgt)
      have hsame : digitsValue x = digitsValue y := by omega
      refine Ranks.cons ?_ hsame
      cases xs with
      | nil =>
        cases ys with
        | nil => exact ranks_self _
        | cons z zs => exact (ranks_zeros hall').1
      | cons w ws =>
        cases ys with
        | nil => exact (ranks_zeros hall).2
        | cons z zs =>
          refine ih hall hall' (cons_ne_nil _ _) (cons_ne_nil _ _) (hrest hsame) ?_
          rw [more, length_cons] at hn
          omega

/-- A number that is too long makes them incomparable. -/
theorem compareNumbers_long {n : ℕ} (hxs : ∀ x ∈ xs, IsNumber x) (hys : ∀ y ∈ ys, IsNumber y)
    (hnine : ¬InNineDigits xs ys) : compareNumbers n ([0x2e].intercalate xs) ([0x2e].intercalate ys) = -2 := by
  induction xs generalizing ys n with
  | nil => exact absurd trivial hnine
  | cons x xs ih =>
    cases ys with
    | nil => exact absurd trivial hnine
    | cons y ys =>
      cases n with
      | zero => rfl
      | succ n =>
        obtain ⟨hx, hall⟩ := forall_mem_cons.mp hxs
        obtain ⟨hy, hall'⟩ := forall_mem_cons.mp hys
        rw [intercalate_cons, intercalate_cons, compareNumbers_step hx hy (ends_more xs) (ends_more ys)]
        by_cases hlong : 9 < x.length ∨ 9 < y.length
        · exact if_pos hlong
        rw [if_neg hlong]
        rw [InNineDigits, not_and, not_and, Classical.not_imp] at hnine
        obtain ⟨hsame, hrest⟩ := hnine (by omega) (by omega)
        rw [if_neg (by omega), if_neg (by omega)]
        cases xs with
        | nil => exact absurd trivial hrest
        | cons w ws =>
          cases ys with
          | nil => exact absurd trivial hrest
          | cons z zs => exact ih hall hall' hrest

end Versions

/-- Both begin with the same numbers, and then the first one has the larger number, whatever follows, or goes
on where the other ends with something else than dots and zeros. -/
inductive Overtakes : Str → Str → Prop where
  | greater {x y s t : Str} : IsNumber x → IsNumber y → x.length ≤ 9 → y.length ≤ 9 →
      digitsValue y < digitsValue x → Ends s → Ends t → Overtakes (x ++ s) (y ++ t)
  | longer {x y s : Str} : IsNumber x → IsNumber y → x.length ≤ 9 → y.length ≤ 9 →
      digitsValue x = digitsValue y → Ends s → onlyZeros s = false → Overtakes (x ++ s) y
  | next {x y s t : Str} : IsNumber x → IsNumber y → x.length ≤ 9 → y.length ≤ 9 →
      digitsValue x = digitsValue y → Overtakes s t → Overtakes (x ++ 0x2e :: s) (y ++ 0x2e :: t)

theorem compareTails_eq_one_iff {next : Str → Str → Int} {s t : Str} :
    compareTails next s t = 1 ↔ (t = [] ∧ onlyZeros s = false) ∨
      ∃ s' t', s = 0x2e :: s' ∧ t = 0x2e :: t' ∧ next s' t' = 1 := by
  cases s with
  | nil =>
    cases t with
    | nil => simp [compareTails, onlyZeros]
    | cons d t => cases h : onlyZeros (d :: t) <;> simp [compareTails, h]
  | cons c s =>
    cases t with
    | nil => simp [compareTails]
    | cons d t =>
      by_cases hdots : c = 0x2e ∧ d = 0x2e
      · obtain ⟨rfl, rfl⟩ := hdots
        simp [compareTails]
      · rw [compareTails, if_pos (by tauto)]
        refine iff_of_false (by decide) ?_
        rintro (⟨h, -⟩ | ⟨s', t', hs, ht, -⟩)
        · cases h
        · exact hdots ⟨(List.cons.inj hs).1, (List.cons.inj ht).1⟩

theorem Overtakes.compareNumbers_eq {a b : Str} (h : Overtakes a b) {n : ℕ} (hn : a.length ≤ n) :
    compareNumbers n a b = 1 := by
  induction h generalizing n with
  | @greater x y s t hx hy hxlen hylen hlt hs ht =>
    have hpos := length_pos_iff.mpr hx.1
    rw [length_append] at hn
    obtain ⟨m, rfl⟩ : ∃ m, n = m + 1 := ⟨n - 1, by omega⟩
    rw [compareNumbers_step hx hy hs ht, if_neg (by omega), if_neg (by omega), if_pos hlt]
  | @longer x y s hx hy hxlen hylen hsame hs hzeros =>
    have hpos := length_pos_iff.mpr hx.1
    rw [length_append] at hn
    obtain ⟨m, rfl⟩ : ∃ m, n = m + 1 := ⟨n - 1, by omega⟩
    rw [← append_nil y, compareNumbers_step hx hy hs ends_nil, if_neg (by omega), if_neg (by omega),
      if_neg (by omega)]
    exact compareTails_eq_one_iff.mpr (.inl ⟨rfl, hzeros⟩)
  | @next x y s t hx hy hxlen hylen hsame _ ih =>
    rw [length_append, length_cons] at hn
    obtain ⟨m, rfl⟩ : ∃ m, n = m + 1 := ⟨n - 1, by omega⟩
    rw [compareNumbers_step hx hy (ends_dot s) (ends_dot t), if_neg (by omega), if_neg (by omega), if_neg (by omega)]
    exact compareTails_eq_one_iff.mpr (.inr ⟨s, t, rfl, rfl, ih (by omega)⟩)

theorem overtakes_of_compareNumbers {n : ℕ} {a b : Str} (h : compareNumbers n a b = 1) : Overtakes a b := by
  induction n generalizing a b with
  | zero => cases h
  | succ n ih =>
    -- the numbers the two begin with
    have hsplit : ∀ s : Str, s.takeWhile isDigit ++ s.dropWhile isDigit = s := fun s => takeWhile_append_dropWhile
    have hends : ∀ s : Str, Ends (s.dropWhile isDigit) := by
      intro s b hb
      have hhead := head?_dropWhile_not isDigit s
      rw [Option.mem_def.mp hb] at hhead
      exact hhead
    have hnumber : ∀ s : Str, s.takeWhile isDigit ≠ [] → IsNumber (s.takeWhile isDigit) :=
      fun s hne => ⟨hne, fun b hb => mem_takeWhile_imp hb⟩
    have hbegin : a.takeWhile isDigit ≠ [] ∧ b.takeWhile isDigit ≠ [] := by
      by_contra hnot
      rw [compareNumbers, if_pos (by tauto)] at h
      cases h
    have hx := hnumber a hbegin.1
    have hy := hnumber b hbegin.2
    rw [← hsplit a, ← hsplit b, compareNumbers_step hx hy (hends a) (hends b)] at h
    rw [← hsplit a, ← hsplit b]
    split_ifs at h with hlong hlt hgt
    · exact .greater hx hy (by omega) (by omega) hgt (hends a) (hends b)
    · rcases compareTails_eq_one_iff.mp h with ⟨hb, hzeros⟩ | ⟨s, t, hs, ht, hnext⟩
      · rw [hb, append_nil]
        exact .longer hx hy (by omega) (by omega) (by omega) (hends a) hzeros
      · rw [hs, ht]
        exact .next hx hy (by omega) (by omega) (by omega) (ih hnext)

theorem updateVersionAdmissible_iff {a b : Str} : updateVersionAdmissible a b ↔ Overtakes a b := by
  rw [updateVersionAdmissible, decide_eq_true_eq, compareVersions]
  constructor
  · intro h
    split_ifs at h
    exact overtakes_of_compareNumbers h
  · intro h
    have hone := h.compareNumbers_eq (Nat.le_refl _)
    rw [if_neg, hone]
    rintro (rfl | rfl)
    · cases hone
    · cases a with
      | nil => cases hone
      | cons c a => simp [compareNumbers] at hone

/-! ## The hub's comparison -/

section Hub

open Go

variable {a b : Str}

def numberAt (s : Str) (i : ℕ) : ℕ := digitsValue ((s.splitOn 0x2e).getD i [])

theorem digitsValue_lt {x : Str} (h : ∀ b ∈ x, isDigit b) : digitsValue x < 10 ^ x.length := by
  have hdigit : ∀ b, isDigit b → b.toNat - 0x30 < 10 := forall_byte (by decide +kernel)
  induction x using List.reverseRecOn with
  | nil => exact Nat.one_pos
  | append_singleton x b ih =>
    have hx : digitsValue x < 10 ^ x.length := ih fun c hc => h c (mem_append_left _ hc)
    have hb := hdigit b (h b (by simp))
    rw [digitsValue_concat, length_append, length_singleton, Nat.pow_succ]
    omega

theorem visible_of_isDigit : ∀ b, isDigit b → 0x21 ≤ b.toNat ∧ b.toNat < 0x7f := forall_byte (by decide +kernel)

theorem versionNumber_of_digits {x : Str} (h : ∀ b ∈ x, isDigit b) :
    Hub.versionNumber x = min (digitsValue x) (2 ^ 63 - 1) := by
  rw [Hub.versionNumber, trimSpace_of_visible fun b hb => visible_of_isDigit b (h b hb), takeWhile_eq_self_iff.mpr h]

/-- The hub reads the first three numbers of a version. -/
theorem versionParts_of_isVersion (h : IsVersion a) :
    Hub.versionParts a = (min (numberAt a 0) (2 ^ 63 - 1), min (numberAt a 1) (2 ^ 63 - 1),
      min (numberAt a 2) (2 ^ 63 - 1)) := by
  have hdigits : ∀ i, ∀ b ∈ (a.splitOn 0x2e).getD i [], isDigit b := by
    intro i
    by_cases hi : i < (a.splitOn 0x2e).length
    · rw [getD_eq_getElem _ _ hi]
      exact (h _ (getElem_mem hi)).2
    · rw [getD_eq_default _ _ (by omega)]
      exact fun _ hb => absurd hb not_mem_nil
  -- nothing is trimmed from a version: it is made of digits and dots, and begins with a digit
  have hjoin : [0x2e].intercalate (a.splitOn 0x2e) = a := intercalate_splitOn _
  have hvisible : ∀ b ∈ a, 0x21 ≤ b.toNat ∧ b.toNat < 0x7f := by
    intro b hb
    rw [← hjoin] at hb
    rcases mem_intercalate hb with rfl | ⟨x, hx, hbx⟩
    · decide
    · exact visible_of_isDigit b ((h x hx).2 b hbx)
  have hhead : a.head? ≠ some 0x76 := by
    obtain ⟨x, xs, hsplit⟩ := exists_cons_of_ne_nil (splitOnP_ne_nil (· == (0x2e : UInt8)) a)
    change a.splitOn 0x2e = x :: xs at hsplit
    obtain ⟨c, x, rfl⟩ := exists_cons_of_ne_nil (h x (hsplit ▸ mem_cons_self)).1
    have hc := (h (c :: x) (hsplit ▸ mem_cons_self)).2 c mem_cons_self
    rw [← hjoin, hsplit, intercalate_cons]
    rintro ⟨⟩
    cases hc
  simp only [Hub.versionParts, trimSpace_of_visible hvisible, if_neg hhead, versionNumber_of_digits (hdigits _), numberAt]

theorem compareVersions_gt {i : ℕ} (ha : IsVersion a) (hb : IsVersion b) (hi : i < 3)
    (hsame : ∀ j < i, numberAt a j = numberAt b j) (hlt : numberAt b i < numberAt a i)
    (hsmall : numberAt b i < 2 ^ 63 - 1) : Hub.compareVersions a b = .gt := by
  have hgt : ∀ {m n : ℕ}, n < m → n < 2 ^ 63 - 1 → compare (min m (2 ^ 63 - 1)) (min n (2 ^ 63 - 1)) = .gt := by
    intro m n hmn hn
    rw [Nat.compare_eq_gt]
    omega
  have heq : ∀ {m n : ℕ}, m = n → compare (min m (2 ^ 63 - 1)) (min n (2 ^ 63 - 1)) = .eq := by
    rintro m _ rfl
    exact Nat.compare_eq_eq.mpr rfl
  simp only [Hub.compareVersions, versionParts_of_isVersion ha, versionParts_of_isVersion hb]
  interval_cases i
  · rw [hgt hlt hsmall]
    rfl
  · rw [heq (hsame 0 (by omega)), hgt hlt hsmall]
    rfl
  · rw [heq (hsame 0 (by omega)), heq (hsame 1 (by omega)), hgt hlt hsmall]
    rfl

theorem compareVersions_eq (ha : IsVersion a) (hb : IsVersion b) (hsame : ∀ i < 3, numberAt a i = numberAt b i) :
    Hub.compareVersions a b = .eq := by
  simp only [Hub.compareVersions, versionParts_of_isVersion ha, versionParts_of_isVersion hb, hsame 0 (by omega),
    hsame 1 (by omega), hsame 2 (by omega), Nat.compare_eq_eq.mpr, Ordering.then]

theorem length_le_nine {xs ys : List Str} {i : ℕ} (h : InNineDigits xs ys)
    (hsame : ∀ j < i, digitsValue (xs.getD j []) = digitsValue (ys.getD j [])) (hi : i < xs.length)
    (hi' : i < ys.length) : (ys.getD i []).length ≤ 9 := by
  induction xs generalizing ys i with
  | nil => cases hi
  | cons x xs ih =>
    cases ys with
    | nil => cases hi'
    | cons y ys =>
      cases i with
      | zero => exact h.2.1
      | succ i =>
        have hxy : digitsValue x = digitsValue y := hsame 0 (by omega)
        show (ys.getD i []).length ≤ 9
        exact ih (h.2.2 hxy) (fun j hj => hsame (j + 1) (by omega)) (Nat.lt_of_succ_lt_succ hi)
          (Nat.lt_of_succ_lt_succ hi')

end Hub

/-! ## The law -/

structure VersionLaw (a b : Str) : Prop where
  admissible : updateVersionAdmissible a b →
    IsVersion a ∧ IsVersion b ∧ rank b < rank a ∧ Hub.compareVersions a b = .gt
  order : IsVersion a → IsVersion b → Ranks (compareVersions a b) (rank a) (rank b)

/-- The numbers of two versions have at most nine digits up to the first in which they differ, and a greater
version differs from the other in one of the first three. -/
structure Comparable (a b : Str) : Prop where
  digits : InNineDigits (a.splitOn 0x2e) (b.splitOn 0x2e)
  first : rank b < rank a → ∃ i < 3, numberAt a i ≠ numberAt b i

variable {a b : Str}

theorem compareVersions_of_isVersion (ha : IsVersion a) (hb : IsVersion b) :
    compareVersions a b = compareNumbers a.length ([0x2e].intercalate (a.splitOn 0x2e))
      ([0x2e].intercalate (b.splitOn 0x2e)) := by
  have hne : ∀ {s : Str}, IsVersion s → s ≠ [] := by
    rintro s hs rfl
    exact (hs [] (by simp)).1 rfl
  rw [intercalate_splitOn, intercalate_splitOn, compareVersions,
    if_neg (not_or.mpr ⟨hne ha, hne hb⟩)]

/-- For versions the law holds exactly where they are comparable; for other pairs of texts exactly where the
first does not overtake the second before the place at which one of them is malformed. -/
theorem version_law_iff (a b : Str) :
    VersionLaw a b ↔ if IsVersion a ∧ IsVersion b then Comparable a b else ¬Overtakes a b := by
  split_ifs with h
  · obtain ⟨ha, hb⟩ := h
    have hnea := splitOnP_ne_nil (· == (0x2e : UInt8)) a
    have hneb := splitOnP_ne_nil (· == (0x2e : UInt8)) b
    have hranks : InNineDigits (a.splitOn 0x2e) (b.splitOn 0x2e) → Ranks (compareVersions a b) (rank a) (rank b) := by
      intro hnine
      rw [compareVersions_of_isVersion ha hb]
      exact ranks_compareNumbers ha hb hnea hneb hnine (by rw [intercalate_splitOn])
    constructor
    · intro hlaw
      have horder := hlaw.order ha hb
      refine ⟨?_, fun hlt => ?_⟩
      · by_contra hnine
        have hnone := compareNumbers_long (n := a.length) ha hb hnine
        rw [← compareVersions_of_isVersion ha hb] at hnone
        rw [hnone] at horder
        rcases lt_trichotomy (rank a) (rank b) with hlt | heq | hgt
        · exact absurd (horder.lt.mpr hlt) (by decide)
        · exact absurd (horder.eq.mpr heq) (by decide)
        · exact absurd (horder.gt.mpr hgt) (by decide)
      · by_contra! hsame
        have hgt := (hlaw.admissible (decide_eq_true (horder.gt.mpr hlt))).2.2.2
        rw [compareVersions_eq ha hb hsame] at hgt
        cases hgt
    · intro hcomp
      refine ⟨fun hadmit => ?_, fun _ _ => hranks hcomp.digits⟩
      have hlt := (hranks hcomp.digits).gt.mp (of_decide_eq_true hadmit)
      refine ⟨ha, hb, hlt, ?_⟩
      obtain ⟨i, hsame, hi⟩ := padded_lt_iff.mp hlt
      obtain ⟨k, hk, hdiffer⟩ := hcomp.first hlt
      have hik : i ≤ k := by
        by_contra hki
        exact hdiffer (hsame k (by omega)).symm
      have hsmall : numberAt b i < 2 ^ 63 - 1 := by
        by_cases hib : i < (b.splitOn 0x2e).length
        · have hia : i < (a.splitOn 0x2e).length := by
            by_contra hia
            rw [getD_eq_default (a.splitOn 0x2e) _ (by omega)] at hi
            exact absurd hi (Nat.not_lt_zero _)
          have hlen := length_le_nine hcomp.digits (fun j hj => (hsame j hj).symm) hia hib
          have hdigits := (hb _ (getElem_mem hib)).2
          rw [← getD_eq_getElem (b.splitOn 0x2e) [] hib] at hdigits
          have hpow : 10 ^ ((b.splitOn 0x2e).getD i []).length ≤ 10 ^ 9 := Nat.pow_le_pow_right (by decide) hlen
          have hvalue := digitsValue_lt hdigits
          rw [numberAt]
          omega
        · rw [numberAt, getD_eq_default _ _ (by omega)]
          decide
      exact compareVersions_gt ha hb (by omega) (fun j hj => (hsame j hj).symm) hi hsmall
  · rw [← updateVersionAdmissible_iff]
    constructor
    · intro hlaw hadmit
      obtain ⟨ha, hb, -⟩ := hlaw.admissible hadmit
      exact h ⟨ha, hb⟩
    · intro hnot
      exact ⟨fun hadmit => absurd hadmit hnot, fun ha hb => absurd ⟨ha, hb⟩ h⟩

/-- A version with a tail that is not a number is admitted as an update. -/
theorem malformed_tail_admitted : ¬∀ a b : Str, VersionLaw a b := by
  intro h
  have hversion := ((h (str "2.x") (str "1.0")).admissible (by decide +kernel)).1
  exact absurd hversion (by decide +kernel)

end Ominull.Agent
