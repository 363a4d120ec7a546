import Ominull.Lib.Text

/-! Fixed-width integers and length-prefixed strings, and why their concatenation reads back. -/

namespace Ominull.Lib

open List

/-- `n` modulo `256 ^ w` in `w` big-endian bytes. -/
def bigEndian : ℕ → ℕ → Str
  | 0, _ => []
  | w + 1, n => bigEndian w (n / 256) ++ [UInt8.ofNat n]

@[simp] theorem length_bigEndian (w n : ℕ) : (bigEndian w n).length = w := by
  induction w generalizing n with
  | zero => rfl
  | succ w ih => simp [bigEndian, ih]

/-- The bytes tell a number up to multiples of `256 ^ w`. -/
theorem bigEndian_mod {w m n : ℕ} (h : bigEndian w m = bigEndian w n) : m % 256 ^ w = n % 256 ^ w := by
  induction w generalizing m n with
  | zero => rw [Nat.pow_zero, Nat.mod_one, Nat.mod_one]
  | succ w ih =>
    have hlast := append_inj' h (by simp)
    have hbyte := congrArg UInt8.toNat (singleton_inj.mp hlast.2)
    simp only [UInt8.toNat_ofNat', Nat.reducePow] at hbyte
    rw [Nat.pow_succ', Nat.mod_mul, Nat.mod_mul, ih hlast.1, hbyte]

theorem bigEndian_inj {w m n : ℕ} (hm : m < 256 ^ w) (hn : n < 256 ^ w)
    (h : bigEndian w m = bigEndian w n) : m = n := by
  have hmod := bigEndian_mod h
  rwa [Nat.mod_eq_of_lt hm, Nat.mod_eq_of_lt hn] at hmod

/-- A string behind its four-byte length. -/
def frame (s : Str) : Str := bigEndian 4 s.length ++ s

/-- Strings behind their four-byte count. -/
def frames (l : List Str) : Str := bigEndian 4 l.length ++ l.flatMap frame

variable {r r' : Str}

theorem bigEndian_append_inj {w m n : ℕ} (hm : m < 256 ^ w) (hn : n < 256 ^ w)
    (h : bigEndian w m ++ r = bigEndian w n ++ r') : m = n ∧ r = r' := by
  obtain ⟨hnum, hrest⟩ := append_inj h (by simp)
  exact ⟨bigEndian_inj hm hn hnum, hrest⟩

theorem frame_append_inj {s s' : Str} (hs : s.length < 2 ^ 32) (hs' : s'.length < 2 ^ 32)
    (h : frame s ++ r = frame s' ++ r') : s = s' ∧ r = r' := by
  simp only [frame, append_assoc] at h
  obtain ⟨hlen, hrest⟩ := bigEndian_append_inj (by omega) (by omega) h
  exact append_inj hrest hlen

variable {l l' : List Str}

theorem flatMap_frame_inj (hlen : l.length = l'.length) (hl : ∀ s ∈ l, s.length < 2 ^ 32)
    (hl' : ∀ s ∈ l', s.length < 2 ^ 32) (h : l.flatMap frame ++ r = l'.flatMap frame ++ r') : l = l' ∧ r = r' := by
  induction l generalizing l' with
  | nil =>
    obtain rfl := length_eq_zero_iff.mp hlen.symm
    exact ⟨rfl, h⟩
  | cons s l ih =>
    cases l' with
    | nil => cases hlen
    | cons s' l' =>
      simp only [flatMap_cons, append_assoc] at h
      obtain ⟨rfl, hrest⟩ := frame_append_inj (hl s (by simp)) (hl' s' (by simp)) h
      obtain ⟨rfl, hr⟩ := ih (Nat.succ.inj hlen) (fun t ht => hl t (by simp [ht]))
        (fun t ht => hl' t (by simp [ht])) hrest
      exact ⟨rfl, hr⟩

theorem le_length_flatMap_frame (l : List Str) : 4 * l.length ≤ (l.flatMap frame).length := by
  induction l with
  | nil => exact Nat.le_refl 0
  | cons s l ih =>
    have hs : (frame s).length = 4 + s.length := by simp [frame]
    rw [flatMap_cons, length_append, length_cons, hs]
    omega

theorem flatMap_frame_split (hlen : l.length ≤ l'.length) (hl : ∀ s ∈ l, s.length < 2 ^ 32)
    (hl' : ∀ s ∈ l', s.length < 2 ^ 32) (h : l.flatMap frame ++ r = l'.flatMap frame ++ r') :
    l = l'.take l.length ∧ r = (l'.drop l.length).flatMap frame ++ r' := by
  have hsplit : l'.flatMap frame = (l'.take l.length).flatMap frame ++ (l'.drop l.length).flatMap frame := by
    rw [← flatMap_append, take_append_drop]
  rw [hsplit, append_assoc] at h
  apply flatMap_frame_inj _ hl (fun s hs => hl' s (mem_of_mem_take hs)) h
  rw [length_take, Nat.min_eq_left hlen]

/-- Lists of strings of any count read back, where what follows them is shorter than the frames that
counts equal in four bytes differ by. -/
theorem frames_append_inj_of_tail (hr : r.length < 2 ^ 34) (hr' : r'.length < 2 ^ 34)
    (hl : ∀ s ∈ l, s.length < 2 ^ 32) (hl' : ∀ s ∈ l', s.length < 2 ^ 32) (h : frames l ++ r = frames l' ++ r') :
    l = l' ∧ r = r' := by
  simp only [frames, append_assoc] at h
  obtain ⟨hcount, hrest⟩ := append_inj h (by simp)
  have hmod := bigEndian_mod hcount
  -- with different counts the longer list has 2 ^ 32 frames more, in the tail of the shorter
  have hle : ∀ {l l' : List Str} {r r' : Str}, r.length < 2 ^ 34 → (∀ s ∈ l, s.length < 2 ^ 32) →
      (∀ s ∈ l', s.length < 2 ^ 32) → l.length % 256 ^ 4 = l'.length % 256 ^ 4 →
      l.flatMap frame ++ r = l'.flatMap frame ++ r' → ¬l.length < l'.length := by
    intro l l' r r' hr hl hl' hmod h hlt
    obtain ⟨-, htail⟩ := flatMap_frame_split (Nat.le_of_lt hlt) hl hl' h
    have hframes := le_length_flatMap_frame (l'.drop l.length)
    have hlength := congrArg List.length htail
    rw [length_append] at hlength
    rw [length_drop] at hframes
    omega
  have hlen : l.length = l'.length := by
    have h₁ := hle hr hl hl' hmod hrest
    have h₂ := hle hr' hl' hl hmod.symm hrest.symm
    omega
  exact flatMap_frame_inj hlen hl hl' hrest

/-! ## Signed 64-bit integers -/

theorem append_sep_inj {c : UInt8} {s s' : Str} (hs : c ∉ s) (hs' : c ∉ s') (h : s ++ c :: r = s' ++ c :: r') :
    s = s' ∧ r = r' := by
  induction s generalizing s' with
  | nil =>
    cases s' with
    | nil => exact ⟨rfl, (List.cons.inj h).2⟩
    | cons b s' => exact absurd ((List.cons.inj h).1 ▸ mem_cons_self) hs'
  | cons a s ih =>
    cases s' with
    | nil => exact absurd ((List.cons.inj h).1 ▸ mem_cons_self) hs
    | cons b s' =>
      obtain ⟨rfl, hrest⟩ := List.cons.inj h
      obtain ⟨rfl, hr⟩ := ih (fun h => hs (mem_cons_of_mem _ h)) (fun h => hs' (mem_cons_of_mem _ h)) hrest
      exact ⟨rfl, hr⟩

/-- The signed 64-bit value of an integer that may have overflowed. -/
def wrap64 (n : Int) : Int := (n + 2 ^ 63) % 2 ^ 64 - 2 ^ 63

theorem wrap64_bounds (n : Int) : -2 ^ 63 ≤ wrap64 n ∧ wrap64 n < 2 ^ 63 := by
  unfold wrap64
  omega

theorem wrap64_le {n : Int} (h : -2 ^ 63 ≤ n) : wrap64 n ≤ n := by
  unfold wrap64
  omega

theorem wrap64_eq {n : Int} (hlo : -2 ^ 63 ≤ n) (hhi : n < 2 ^ 63) : wrap64 n = n := by
  unfold wrap64
  omega

/-- The unsigned value of a signed 64-bit integer's bits. -/
def unsigned64 (n : Int) : ℕ := (n % 2 ^ 64).toNat

theorem unsigned64_lt (n : Int) : unsigned64 n < 256 ^ 8 := by
  unfold unsigned64
  omega

theorem unsigned64_inj {m n : Int} (hm : -2 ^ 63 ≤ m ∧ m < 2 ^ 63) (hn : -2 ^ 63 ≤ n ∧ n < 2 ^ 63)
    (h : unsigned64 m = unsigned64 n) : m = n := by
  unfold unsigned64 at h
  omega

end Ominull.Lib
