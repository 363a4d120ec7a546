import Ominull.Agent.Accept

/-! Reading back the files of a pin: `trust.pin` and `trust.epoch` hold what was written to them. -/

namespace Ominull.Agent

open Lib List

/-! ## Keys in hex -/

theorem hexToBytes_eq_hexDecode {h : Str} {n : ℕ} (hlen : h.length = 2 * n)
    (hhex : ∀ b ∈ h, isHexDigit b = true) : hexToBytes h n = hexDecode h := by
  unfold hexToBytes
  rw [if_neg (by omega)]
  induction n generalizing h with
  | zero =>
    rw [length_eq_zero_iff.mp hlen]
    rfl
  | succ n ih =>
    obtain _ | ⟨a, _ | ⟨b, h⟩⟩ := h
    · cases hlen
    · simp only [length_cons, length_nil] at hlen
      omega
    obtain ⟨x, hx⟩ := Option.isSome_iff_exists.mp (hhex a (by simp))
    obtain ⟨y, hy⟩ := Option.isSome_iff_exists.mp (hhex b (by simp))
    have hlen' : h.length = 2 * n := by
      simp only [length_cons] at hlen
      omega
    have hrest := ih hlen' fun c hc => hhex c (by simp [hc])
    have hshift : ((List.range n).map (· + 1)).mapM
        (fun i => scanHexByte ((a :: b :: h).drop (2 * i))) =
        (List.range n).mapM fun i => scanHexByte (h.drop (2 * i)) := by
      rw [mapM_map]
      rfl
    rw [range_succ_eq_map, mapM_cons, hshift, hrest]
    simp [hexDecode, scanHexByte_pair hx hy, hx, hy]

theorem isHex64_lower (h : Str) : isHex64 (lower h) = isHex64 h := by
  simp only [isHex64, lower, length_map, all_map]
  congr 2
  exact funext fun b => by simp [isHexDigit, hexValue_lowerByte]

theorem hexKey_eq {h : Str} (hh : isHex64 h = true) : hexKey h = hexDecode h := by
  simp only [isHex64, Bool.and_eq_true, decide_eq_true_eq, all_eq_true] at hh
  unfold hexKey
  rw [if_pos (by simpa [isHex64] using hh)]
  exact hexToBytes_eq_hexDecode hh.1 hh.2

theorem hexKey_lower (h : Str) : hexKey (lower h) = hexKey h := by
  by_cases hh : isHex64 h = true
  · rw [hexKey_eq (by rwa [isHex64_lower]), hexDecode_lower, hexKey_eq hh]
  · unfold hexKey
    rw [isHex64_lower, if_neg hh, if_neg hh]

theorem isHex64_of_hexKey {h key : Str} (hk : hexKey h = some key) : isHex64 h = true := by
  unfold hexKey at hk
  split at hk
  · assumption
  · cases hk

/-! ## The pinned bundle -/

/-- A bundle that may be pinned, with the bytes of its keys. -/
structure TrustBundle.Pinnable (b : TrustBundle) (keys : PerKey Str) : Prop where
  tenant : b.tenant = trustTenant
  positive : 1 ≤ b.epoch
  bounded : b.epoch < 2 ^ 63 - 8
  keys : b.keys = some keys
  fits : b.statement.length < 512

def Plain (s : Str) : Prop := (0 : UInt8) ∉ s ∧ (0x0a : UInt8) ∉ s

theorem plain_of_isHex64 {h : Str} (hh : isHex64 h = true) : Plain h := by
  simp only [isHex64, Bool.and_eq_true, all_eq_true] at hh
  exact ⟨fun h0 => absurd (hh.2 _ h0) (by decide), fun h0 => absurd (hh.2 _ h0) (by decide)⟩

theorem plain_decimalInt (n : Int) : Plain (decimalInt n) := by
  have hdigits : ∀ m, Plain (decimal m) := fun m =>
    ⟨fun h0 => absurd (isDigit_of_mem_decimal h0) (by decide),
      fun h0 => absurd (isDigit_of_mem_decimal h0) (by decide)⟩
  cases n with
  | ofNat m => exact hdigits m
  | negSucc m =>
    obtain ⟨hzero, hline⟩ := hdigits (m + 1)
    refine ⟨fun h0 => ?_, fun h0 => ?_⟩
    · rcases mem_cons.mp h0 with h | h
      · exact absurd h (by decide)
      · exact hzero h
    · rcases mem_cons.mp h0 with h | h
      · exact absurd h (by decide)
      · exact hline h

namespace TrustBundle

variable {b : TrustBundle} {keys : PerKey Str}

theorem keys_eq_some (h : b.keys = some keys) : hexKey b.hex.response = some keys.response ∧
    hexKey b.hex.autoIsolate = some keys.autoIsolate ∧ hexKey b.hex.policy = some keys.policy := by
  simp only [TrustBundle.keys, Option.bind_eq_bind, Option.bind_eq_some_iff, Option.some.injEq] at h
  obtain ⟨response, hr, autoIsolate, ha, policy, hp, rfl⟩ := h
  exact ⟨hr, ha, hp⟩

theorem pinText_eq (b : TrustBundle) : b.pinText = str "ominull-trust" ++ (0x20 :: (str "1" ++
    (0x0a :: (str "tenant=" ++ (b.tenant ++ (0x0a :: (str "epoch=" ++ (decimalInt b.epoch ++
    (0x0a :: (str "response_key=" ++ (b.hex.response ++ (0x0a :: (str "auto_isolate_key=" ++
    (b.hex.autoIsolate ++ (0x0a :: (str "policy_key=" ++ (b.hex.policy ++ [0x0a]))))))))))))))))) := by
  have h1 : str "ominull-trust 1\n" = str "ominull-trust" ++ 0x20 :: (str "1" ++ [0x0a]) := by decide
  have h2 : str "\nepoch=" = 0x0a :: str "epoch=" := by decide
  have h3 : str "\nresponse_key=" = 0x0a :: str "response_key=" := by decide
  have h4 : str "\nauto_isolate_key=" = 0x0a :: str "auto_isolate_key=" := by decide
  have h5 : str "\npolicy_key=" = 0x0a :: str "policy_key=" := by decide
  have h6 : str "\n" = [0x0a] := by decide
  simp only [pinText, lines, h1, h2, h3, h4, h5, h6, append_assoc, cons_append,
    nil_append]

theorem scan_pinText (h : b.Pinnable keys) : scan b.pinText = some b := by
  obtain ⟨hr, ha, hp⟩ := keys_eq_some h.keys
  have hline : ∀ {hex key : Str} (r : Str), hexKey hex = some key →
      scanLine 79 (hex ++ 0x0a :: r) = some (hex, 0x0a :: r) := by
    intro hex key r hk
    have hhex := isHex64_of_hexKey hk
    have hlen : hex.length = 64 := by
      simp only [isHex64, Bool.and_eq_true, decide_eq_true_eq] at hhex
      exact hhex.1
    refine scanLine_append ?_ (by omega) (plain_of_isHex64 hhex).2 (by simp)
    rintro rfl
    cases hlen
  have htenant : ∀ r : Str, scanLine 63 (b.tenant ++ 0x0a :: r) = some (b.tenant, 0x0a :: r) := by
    intro r
    rw [h.tenant]
    exact scanLine_append (by decide) (by decide) (by decide) (by simp)
  have hepoch : ∀ r : Str, scanInt (decimalInt b.epoch ++ 0x0a :: r) = some (b.epoch, 0x0a :: r) := by
    intro r
    have hlo := h.positive
    have hhi := h.bounded
    exact scanInt_decimalInt (by omega) (by omega) (by simp [isDigit])
  rw [pinText_eq]
  unfold scan
  rw [scanLiteral_append]
  simp only [Option.bind_eq_bind, Option.bind_some]
  rw [scanLiteral_skipSpaces (by decide) (by decide) (by decide +kernel)]
  simp only [Option.bind_some]
  rw [scanLiteral_skipSpaces (by decide) (by decide) (by decide +kernel)]
  simp only [Option.bind_some, htenant]
  rw [scanLiteral_skipSpaces (by decide) (by decide) (by decide +kernel)]
  simp only [Option.bind_some, hepoch]
  rw [scanLiteral_skipSpaces (by decide) (by decide) (by decide +kernel)]
  simp only [Option.bind_some, hline _ hr]
  rw [scanLiteral_skipSpaces (by decide) (by decide) (by decide +kernel)]
  simp only [Option.bind_some, hline _ ha]
  rw [scanLiteral_skipSpaces (by decide) (by decide) (by decide +kernel)]
  simp only [Option.bind_some, hline _ hp]

theorem zero_not_mem_pinText (h : b.Pinnable keys) : (0 : UInt8) ∉ b.pinText := by
  obtain ⟨hr, ha, hp⟩ := keys_eq_some h.keys
  have hhex : ∀ {hex key : Str}, hexKey hex = some key → (0 : UInt8) ∉ hex := fun hk =>
    (plain_of_isHex64 (isHex64_of_hexKey hk)).1
  have hepoch := (plain_decimalInt b.epoch).1
  have htenant : (0 : UInt8) ∉ b.tenant := by
    rw [h.tenant]
    decide
  have hlines : ∀ l ∈ [str "ominull-trust 1\n", str "tenant=", str "\nepoch=", str "\nresponse_key=",
      str "\nauto_isolate_key=", str "\npolicy_key=", str "\n"], (0 : UInt8) ∉ l := by decide
  simp only [forall_mem_cons] at hlines
  obtain ⟨h1, h2, h3, h4, h5, h6, h7, -⟩ := hlines
  simp only [pinText, lines, mem_append, not_or]
  exact ⟨h1, h2, htenant, h3, hepoch, h4, hhex hr, h5, hhex ha, h6, hhex hp, h7⟩

theorem length_pinText (b : TrustBundle) : b.pinText.length + 8 = b.statement.length := by
  have hpin : (str "ominull-trust 1\n").length = 16 := by decide
  have hstatement : (str "OMINULL-TRUST-BUNDLE-V1\n").length = 24 := by decide
  rw [pinText, statement, length_append, length_append, hpin, hstatement]
  omega

end TrustBundle

theorem readSmall_eq {cap : ℕ} {c : Str} (hne : c ≠ []) (hlen : c.length < cap - 1)
    (hzero : (0 : UInt8) ∉ c) : readSmall cap (some c) = some c := by
  simp only [readSmall, if_pos (And.intro hne hlen), cString_of_forall hzero]

theorem readPin {b : TrustBundle} {keys : PerKey Str} (h : b.Pinnable keys) :
    (readSmall 600 (some b.pinText)).bind parsePin = some (b, keys) := by
  have hlen := b.length_pinText
  have hfits := h.fits
  have hne : b.pinText ≠ [] := by
    rw [b.pinText_eq]
    exact append_ne_nil_of_left_ne_nil (by decide) _
  have hpositive := h.positive
  rw [readSmall_eq hne (by omega) (TrustBundle.zero_not_mem_pinText h), Option.bind_some]
  unfold parsePin
  simp only [TrustBundle.scan_pinText h, h.keys, Option.bind_eq_bind, Option.bind_some]
  rw [if_neg (by omega)]

/-- An epoch file that was written is read back. -/
theorem scanInt_readSmall {cap : ℕ} (hcap : 21 < cap) {n : Int} (hlo : 1 ≤ n) (hhi : n < 2 ^ 63) :
    (readSmall cap (some (decimalInt n ++ str "\n"))).bind scanInt = some (n, str "\n") := by
  have hlength : (decimalInt n).length ≤ 19 := by
    obtain ⟨m, rfl⟩ := Int.eq_ofNat_of_zero_le (a := n) (by omega)
    exact decimal_length_le (by decide) (by omega)
  have hline : (str "\n").length = 1 := by decide
  have hread : readSmall cap (some (decimalInt n ++ str "\n")) = some (decimalInt n ++ str "\n") := by
    apply readSmall_eq
    · exact append_ne_nil_of_right_ne_nil _ (by decide)
    · rw [length_append]
      omega
    · simp only [mem_append, not_or]
      exact ⟨(plain_decimalInt n).1, by decide⟩
  rw [hread, Option.bind_some]
  exact scanInt_decimalInt (by omega) hhi (by decide +kernel)

theorem epochFloorOf_decimalInt {n : Int} (hlo : 1 ≤ n) (hhi : n < 2 ^ 63) :
    epochFloorOf (some (decimalInt n ++ str "\n")) = n := by
  unfold epochFloorOf trustMinEpoch
  simp only [scanInt_readSmall (by decide : 21 < 600) hlo hhi]
  omega

/-! ## What an offer that is accepted looks like -/

theorem readDigits_le {x y : ℕ} {s : Str} (h : TJ.readDigits x s = some y) (hx : x < 2 ^ 63 - 8) :
    y < 2 ^ 63 - 8 := by
  induction s generalizing x with
  | nil =>
    cases h
    exact hx
  | cons b s ih =>
    unfold TJ.readDigits at h
    split at h
    · split at h
      · cases h
      · rename_i hdigit hbound
        refine ih h ?_
        have hb : b.toNat ≤ 0x39 := by
          simp only [isDigit, Bool.and_eq_true, decide_eq_true_eq, UInt8.le_iff_toNat_le] at hdigit
          exact hdigit.2
        omega
    · cases h
      exact hx

/-- A number that `TJ_Int` can have read. -/
def Readable (n : Int) : Prop := -(2 ^ 63 - 8) < n ∧ n < 2 ^ 63 - 8

theorem memberInt_readable {obj key : Str} {n : Int} (h : TJ.memberInt obj key = some n) : Readable n := by
  obtain ⟨v, -, hv⟩ := Option.bind_eq_some_iff.mp h
  unfold TJ.int at hv
  dsimp only at hv
  generalize scanMinus (TJ.ws v) = signed at hv
  split at hv
  · cases hv
  · split at hv
    · obtain ⟨x, hx, rfl⟩ := Option.map_eq_some_iff.mp hv
      have hlt := readDigits_le hx (by decide)
      unfold Readable
      split <;> omega
    · cases hv

end Ominull.Agent
