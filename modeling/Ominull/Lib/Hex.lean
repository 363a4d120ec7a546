import Ominull.Lib.Text

namespace Ominull

/-- A lower-case hex digit. -/
def hexDigit (n : ℕ) : UInt8 := UInt8.ofNat (if n < 10 then 0x30 + n else 0x57 + n)

/-- The value of a hex digit of either case. -/
def hexValue (b : UInt8) : Option ℕ :=
  if 0x30 ≤ b ∧ b ≤ 0x39 then some (b.toNat - 0x30)
  else if 0x61 ≤ b ∧ b ≤ 0x66 then some (b.toNat - 0x57)
  else if 0x41 ≤ b ∧ b ≤ 0x46 then some (b.toNat - 0x37)
  else none

/-- Two lower-case digits for each byte. -/
def hexEncode (s : Str) : Str :=
  s.flatMap fun b => [hexDigit (b.toNat / 16), hexDigit (b.toNat % 16)]

/-- The bytes of an even number of hex digits. -/
def hexDecode : Str → Option Str
  | [] => some []
  | [_] => none
  | a :: b :: rest => do
    let a ← hexValue a
    let b ← hexValue b
    let rest ← hexDecode rest
    some (UInt8.ofNat (16 * a + b) :: rest)

theorem hexValue_hexDigit {n : ℕ} (h : n < 16) : hexValue (hexDigit n) = some n := by
  have hall : ∀ i : Fin 16, hexValue (hexDigit i) = some i.val := by decide
  exact hall ⟨n, h⟩

@[simp] theorem length_hexEncode (s : Str) : (hexEncode s).length = 2 * s.length := by
  induction s with
  | nil => rfl
  | cons b s ih =>
    rw [hexEncode, List.flatMap_cons, List.length_append]
    change 2 + (hexEncode s).length = _
    rw [ih, List.length_cons]
    omega

theorem forall_mem_hexEncode {P : UInt8 → Prop} (h : ∀ n < 16, P (hexDigit n)) (s : Str) : ∀ b ∈ hexEncode s, P b := by
  intro b hb
  obtain ⟨c, -, hb⟩ := List.mem_flatMap.mp hb
  have hc := c.toNat_lt
  rcases List.mem_pair.mp hb with rfl | rfl
  · exact h _ (by omega)
  · exact h _ (by omega)

theorem hexDecode_hexEncode (s : Str) : hexDecode (hexEncode s) = some s := by
  induction s with
  | nil => rfl
  | cons b s ih =>
    have hlow : b.toNat % 16 < 16 := Nat.mod_lt _ (by decide)
    have hhigh : b.toNat / 16 < 16 := by
      have := b.toNat_lt
      omega
    have hbyte : UInt8.ofNat (16 * (b.toNat / 16) + b.toNat % 16) = b := by
      rw [Nat.div_add_mod, UInt8.ofNat_toNat]
    change hexDecode (hexDigit _ :: hexDigit _ :: hexEncode s) = _
    simp only [hexDecode, hexValue_hexDigit hlow, hexValue_hexDigit hhigh, ih, hbyte,
      Option.bind_eq_bind, Option.bind_some]

theorem hexEncode_injective : Function.Injective hexEncode := by
  intro s t h
  have hdecode := congrArg hexDecode h
  rw [hexDecode_hexEncode, hexDecode_hexEncode] at hdecode
  exact Option.some.inj hdecode

end Ominull
