import Mathlib.Data.Bool.AllAny
import Mathlib.Algebra.Group.Int.Defs
import Mathlib.Data.List.Basic
import Mathlib.Algebra.Group.Nat.Defs

namespace Ominull

/-- A C or Go string: its bytes (of a C string, those before the terminating zero). -/
abbrev Str := List UInt8

instance Str.lawfulBEq : LawfulBEq Str := inferInstance

/-- The bytes of a literal. -/
def str (s : String) : Str := s.toByteArray.data.toList

/-- The characters of an ASCII literal. -/
def ascii (s : String) : List Char := (str s).map fun b => Char.ofNat b.toNat

def utf8 (s : List Char) : Str := s.flatMap String.utf8EncodeChar

@[simp] theorem utf8_nil : utf8 [] = [] := rfl

@[simp] theorem utf8_cons (c : Char) (s : List Char) :
    utf8 (c :: s) = String.utf8EncodeChar c ++ utf8 s := rfl

@[simp] theorem utf8_append (s t : List Char) : utf8 (s ++ t) = utf8 s ++ utf8 t := by
  simp [utf8]

theorem str_injective : Function.Injective str := by
  intro s t h
  apply String.toByteArray_inj.mp
  apply ByteArray.ext
  exact Array.toList_inj.mp h

theorem ascii_injective : Function.Injective ascii := by
  intro s t h
  refine str_injective (List.map_injective_iff.mpr ?_ h)
  intro a b hab
  have hall : ∀ i : Fin 256, (Char.ofNat i).toNat = i := by decide +kernel
  have heq := congrArg Char.toNat hab
  rw [hall ⟨a.toNat, a.toNat_lt⟩, hall ⟨b.toNat, b.toNat_lt⟩] at heq
  exact UInt8.toNat_inj.mp heq

theorem ascii_inj {s t : String} : ascii s = ascii t ↔ s = t := ascii_injective.eq_iff

/-! ## Decimal numerals -/

def isDigit (b : UInt8) : Bool := 0x30 ≤ b && b ≤ 0x39

/-- `%u`: the decimal digits of a number. -/
def decimal (n : ℕ) : Str := (Nat.toDigits 10 n).map fun c => c.val.toUInt8

/-- `%d`: the digits behind a minus sign when negative. -/
def decimalInt : Int → Str
  | .ofNat n => decimal n
  | .negSucc n => 0x2d :: decimal (n + 1)

/-- The number a run of digits stands for. -/
def digitsValue (s : Str) : ℕ := s.foldl (fun n b => 10 * n + (b.toNat - 0x30)) 0

theorem isDigit_toUInt8 {c : Char} (h : c.isDigit) : isDigit c.val.toUInt8 ∧ c.val.toUInt8.toNat = c.toNat := by
  have h1 : 0x30 ≤ c.val.toNat := by
    simp only [Char.isDigit, Bool.and_eq_true, decide_eq_true_eq] at h
    exact h.1
  have h2 : c.val.toNat ≤ 0x39 := by
    simp only [Char.isDigit, Bool.and_eq_true, decide_eq_true_eq] at h
    exact h.2
  have hn : c.val.toUInt8.toNat = c.val.toNat := by
    rw [UInt32.toNat_toUInt8]
    omega
  refine ⟨?_, hn⟩
  simp only [isDigit, Bool.and_eq_true, decide_eq_true_eq, UInt8.le_iff_toNat_le, hn]
  exact ⟨h1, h2⟩

theorem isDigit_of_mem_decimal {n : ℕ} {b : UInt8} (h : b ∈ decimal n) : isDigit b := by
  obtain ⟨c, hc, rfl⟩ := List.mem_map.mp h
  exact (isDigit_toUInt8 (Nat.isDigit_of_mem_toDigits (by decide) (by decide) hc)).1

theorem decimal_ne_nil (n : ℕ) : decimal n ≠ [] := by
  simp [decimal, Nat.toDigits_ne_nil]

private theorem foldl_digits (cs : List Char) (hcs : ∀ c ∈ cs, c.isDigit) (n : ℕ) :
    (cs.map fun c => c.val.toUInt8).foldl (fun n b => 10 * n + (b.toNat - 0x30)) n = Nat.ofDigitChars 10 cs n := by
  induction cs generalizing n with
  | nil => rfl
  | cons c cs ih =>
    have hc := (isDigit_toUInt8 (hcs c (by simp))).2
    rw [List.map_cons, List.foldl_cons, hc, ih fun d hd => hcs d (by simp [hd])]
    rfl

theorem digitsValue_decimal (n : ℕ) : digitsValue (decimal n) = n := by
  have hcs : ∀ c ∈ Nat.toDigits 10 n, c.isDigit := fun c hc =>
    Nat.isDigit_of_mem_toDigits (by decide) (by decide) hc
  rw [digitsValue, decimal, foldl_digits _ hcs]
  exact Nat.ofDigitChars_ten_toDigits

theorem forall_byte {p : UInt8 → Prop} (h : ∀ i : Fin 256, p (UInt8.ofNat i)) (b : UInt8) : p b := by
  have hb := h ⟨b.toNat, b.toNat_lt⟩
  simpa using hb

end Ominull
