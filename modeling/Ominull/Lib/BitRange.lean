import Mathlib.Data.List.Infix
import Mathlib.Data.List.Sort

/-!
Ranges of bit strings. A range is the bits its members begin with; it is cut in two halves by the next bit.
-/

namespace Ominull.Lib

open List

abbrev Bits := List Bool

/-- A member of one of the ranges. -/
def Covers (l : List Bits) (a : Bits) : Prop := ∃ p ∈ l, p <+: a

/-- Some of the ranges lies within `p` and is smaller. -/
def isCut (cuts : List Bits) (p : Bits) : Bool := cuts.any fun c => p.length < c.length && p.isPrefixOf c

/-- The parts of a range that none of the cuts divides. -/
def leaves (cuts : List Bits) : ℕ → Bits → List Bits
  | 0, p => [p]
  | fuel + 1, p =>
    if isCut cuts p then leaves cuts fuel (p ++ [false]) ++ leaves cuts fuel (p ++ [true]) else [p]

variable {cuts : List Bits} {fuel : ℕ} {p q a : Bits}

theorem isCut_iff : isCut cuts p = true ↔ ∃ c ∈ cuts, p.length < c.length ∧ p <+: c := by
  simp [isCut]

theorem exists_concat (h : p <+: a) (hlt : p.length < a.length) : ∃ b, p ++ [b] <+: a := by
  obtain ⟨rest, rfl⟩ := h
  cases rest with
  | nil => simp at hlt
  | cons b rest => exact ⟨b, rest, by simp⟩

theorem mem_leaves_succ : q ∈ leaves cuts (fuel + 1) p ↔
    (isCut cuts p = true ∧ ∃ b, q ∈ leaves cuts fuel (p ++ [b])) ∨ isCut cuts p = false ∧ q = p := by
  rw [leaves]
  cases isCut cuts p <;> simp

theorem prefix_of_mem_leaves (h : q ∈ leaves cuts fuel p) : p <+: q := by
  induction fuel generalizing p with
  | zero => rw [mem_singleton.mp h]
  | succ fuel ih =>
    rcases mem_leaves_succ.mp h with ⟨-, b, h⟩ | ⟨-, rfl⟩
    · exact (List.prefix_append p [b]).trans (ih h)
    · exact List.prefix_refl q

/-- A part is the range itself, or no longer than a cut of it. -/
theorem length_of_mem_leaves (h : q ∈ leaves cuts fuel p) : q = p ∨ ∃ c ∈ cuts, p <+: c ∧ q.length ≤ c.length := by
  induction fuel generalizing p with
  | zero => exact .inl (mem_singleton.mp h)
  | succ fuel ih =>
    rcases mem_leaves_succ.mp h with ⟨hcut, b, h⟩ | ⟨-, rfl⟩
    · right
      rcases ih h with rfl | ⟨c, hc, hpc, hlen⟩
      · obtain ⟨c, hc, hlt, hpc⟩ := isCut_iff.mp hcut
        exact ⟨c, hc, hpc, by rw [length_append]; exact hlt⟩
      · exact ⟨c, hc, (List.prefix_append p [b]).trans hpc, hlen⟩
    · exact .inl rfl

/-- With enough steps no part is divided. -/
theorem not_isCut_of_mem_leaves (hfuel : ∀ c ∈ cuts, c.length ≤ p.length + fuel) (h : q ∈ leaves cuts fuel p) :
    isCut cuts q = false := by
  induction fuel generalizing p with
  | zero =>
    rw [mem_singleton.mp h, Bool.eq_false_iff, Ne, isCut_iff]
    rintro ⟨c, hc, hlt, -⟩
    have := hfuel c hc
    omega
  | succ fuel ih =>
    rcases mem_leaves_succ.mp h with ⟨-, b, h⟩ | ⟨hcut, rfl⟩
    · refine ih (fun c hc => ?_) h
      have := hfuel c hc
      simp only [length_append, length_singleton]
      omega
    · exact hcut

/-- Every larger range on the way to a part is divided. -/
theorem isCut_above (h : q ∈ leaves cuts fuel p) {s : Bits} (hp : p <+: s) (hs : s <+: q) (hne : s ≠ q) :
    isCut cuts s = true := by
  induction fuel generalizing p with
  | zero =>
    rw [mem_singleton.mp h] at hs hne
    exact absurd (hs.eq_of_length_le hp.length_le) hne
  | succ fuel ih =>
    rcases mem_leaves_succ.mp h with ⟨hcut, b, h⟩ | ⟨-, rfl⟩
    · by_cases heq : s = p
      · rw [heq]
        exact hcut
      · -- the next bit of the range is that of the part it leads to
        have hlt : p.length < s.length := by
          by_contra hle
          exact heq (hp.eq_of_length_le (not_lt.mp hle)).symm
        exact ih h (List.prefix_of_prefix_length_le (prefix_of_mem_leaves h) hs
          (by simpa using Nat.succ_le_of_lt hlt))
    · exact absurd (hs.eq_of_length_le hp.length_le) hne

theorem exists_mem_leaves (hcuts : ∀ c ∈ cuts, p <+: c → c.length ≤ a.length) (h : p <+: a) :
    ∃ q ∈ leaves cuts fuel p, q <+: a := by
  induction fuel generalizing p with
  | zero => exact ⟨p, mem_singleton_self p, h⟩
  | succ fuel ih =>
    by_cases hcut : isCut cuts p = true
    · obtain ⟨c, hc, hlt, hpc⟩ := isCut_iff.mp hcut
      obtain ⟨b, hb⟩ := exists_concat h (hlt.trans_le (hcuts c hc hpc))
      have hsub : p <+: p ++ [b] := List.prefix_append p [b]
      obtain ⟨q, hq, hqa⟩ := ih (fun c hc hbc => hcuts c hc (hsub.trans hbc)) hb
      exact ⟨q, mem_leaves_succ.mpr (.inl ⟨hcut, b, hq⟩), hqa⟩
    · exact ⟨p, mem_leaves_succ.mpr (.inr ⟨by simpa using hcut, rfl⟩), h⟩

/-! ## Joining ranges -/

/-- One range more for a sorted list, kept in reverse: it is dropped if the last one covers it, and joined with the
last one if the two are the halves of a range that is not everything. -/
def joinRange : List Bits × Bool → Bits → List Bits × Bool
  | ([], changed), p => ([p], changed)
  | (last :: rest, changed), p =>
    if last.isPrefixOf p then (last :: rest, changed || last != p)
    else if last.length = p.length ∧ 1 < last.length ∧ last.dropLast.isPrefixOf p ∧ last.getLast? = some false then
      (last.dropLast :: rest, true)
    else (p :: last :: rest, changed)

theorem joinRange_length (out : List Bits × Bool) (p : Bits) : (joinRange out p).1.length ≤ out.1.length + 1 ∧
    ((joinRange out p).2 = true → out.2 = true ∨ (joinRange out p).1.length = out.1.length) := by
  rcases out with ⟨_ | ⟨last, rest⟩, changed⟩
  · simp [joinRange]
  · simp only [joinRange]
    split_ifs <;> simp

theorem foldl_joinRange_length (l : List Bits) (out : List Bits × Bool) :
    (l.foldl joinRange out).1.length ≤ out.1.length + l.length ∧
      ((l.foldl joinRange out).2 = true → out.2 = true ∨ (l.foldl joinRange out).1.length < out.1.length + l.length) := by
  induction l generalizing out with
  | nil => simp
  | cons p l ih =>
    have hp := joinRange_length out p
    have hl := ih (joinRange out p)
    rw [foldl_cons, length_cons]
    refine ⟨by omega, fun h => ?_⟩
    rcases hl.2 h with h | h
    · rcases hp.2 h with h | h
      · exact .inl h
      · right
        omega
    · right
      omega

/-- Sorts the ranges and joins them, until nothing changes. -/
def mergeRanges (le : Bits → Bits → Bool) (l : List Bits) : List Bits :=
  let joined := (l.insertionSort fun p q => le p q).foldl joinRange ([], false)
  if _h : joined.2 then mergeRanges le joined.1.reverse else joined.1.reverse
termination_by l.length
decreasing_by
  have hlength := (foldl_joinRange_length (l.insertionSort fun p q => le p q) ([], false)).2 _h
  simpa [length_insertionSort] using hlength

/-- No range that begins as a bit string does is longer than it. -/
def FitsIn (l : List Bits) (a : Bits) : Prop := ∀ p ∈ l, p.head? = a.head? → p.length ≤ a.length

/-- Two halves that differ in the last bit cover what the range they are halves of covers. -/
theorem prefix_dropLast_iff {last : Bits} (hlast : last.getLast? = some false) (hlong : 1 < last.length)
    (hlen : last.length = p.length) (hparent : last.dropLast <+: p) (hne : ¬last <+: p)
    (hfits : last.head? = a.head? → last.length ≤ a.length) : last.dropLast <+: a ↔ last <+: a ∨ p <+: a := by
  obtain ⟨b, rfl⟩ : ∃ b, last = b ++ [false] := ⟨last.dropLast, (dropLast_append_getLast? _ hlast).symm⟩
  rw [dropLast_concat] at hparent ⊢
  obtain ⟨x, hx⟩ := exists_concat hparent (by rw [← hlen]; simp)
  obtain rfl : b ++ [x] = p := hx.eq_of_length (by rw [← hlen]; simp)
  obtain rfl : x = true := by
    cases x with
    | true => rfl
    | false => exact absurd (List.prefix_refl _) hne
  constructor
  · intro h
    have hb : b ≠ [] := by
      rintro rfl
      simp at hlong
    have hhead : (b ++ [false]).head? = a.head? := by
      obtain ⟨rest, rfl⟩ := h
      rw [head?_append_of_ne_nil _ hb, head?_append_of_ne_nil _ hb]
    obtain ⟨y, hy⟩ := exists_concat h (Nat.lt_of_lt_of_le (by simp) (hfits hhead))
    cases y with
    | false => exact .inl hy
    | true => exact .inr hy
  · rintro (h | h) <;> exact (List.prefix_append b _).trans h

theorem covers_cons {l : List Bits} : Covers (p :: l) a ↔ p <+: a ∨ Covers l a := exists_mem_cons_iff _ _ _

theorem fitsIn_cons {l : List Bits} : FitsIn (p :: l) a ↔ (p.head? = a.head? → p.length ≤ a.length) ∧ FitsIn l a :=
  forall_mem_cons

theorem joinRange_covers {out : List Bits × Bool} (hout : FitsIn (p :: out.1) a) : FitsIn (joinRange out p).1 a ∧
    (Covers (joinRange out p).1 a ↔ p <+: a ∨ Covers out.1 a) := by
  rcases out with ⟨_ | ⟨last, rest⟩, changed⟩
  · exact ⟨hout, covers_cons⟩
  · simp only [fitsIn_cons] at hout
    simp only [joinRange]
    split_ifs with hdrop hjoin
    · rw [List.isPrefixOf_iff_prefix] at hdrop
      refine ⟨fitsIn_cons.mpr hout.2, ?_⟩
      rw [covers_cons, ← or_assoc, or_iff_right_of_imp hdrop.trans]
    · rw [List.isPrefixOf_iff_prefix] at hdrop hjoin
      have hhead : last.dropLast.head? = last.head? := by
        cases last with
        | nil => rfl
        | cons x l =>
          cases l with
          | nil => simp at hjoin
          | cons y l => rfl
      refine ⟨fitsIn_cons.mpr ⟨fun h => ?_, hout.2.2⟩, ?_⟩
      · have := hout.2.1 (hhead ▸ h)
        rw [length_dropLast]
        omega
      · rw [covers_cons, covers_cons, prefix_dropLast_iff hjoin.2.2.2 hjoin.2.1 hjoin.1 hjoin.2.2.1 hdrop hout.2.1]
        tauto
    · exact ⟨fitsIn_cons.mpr ⟨hout.1, fitsIn_cons.mpr hout.2⟩, covers_cons⟩

theorem foldl_joinRange_covers {l : List Bits} {out : List Bits × Bool} (hl : FitsIn l a) (hout : FitsIn out.1 a) :
    FitsIn (l.foldl joinRange out).1 a ∧ (Covers (l.foldl joinRange out).1 a ↔ Covers l a ∨ Covers out.1 a) := by
  induction l generalizing out with
  | nil => exact ⟨hout, by simp [Covers]⟩
  | cons p l ih =>
    rw [fitsIn_cons] at hl
    obtain ⟨hfits, hcovers⟩ := joinRange_covers (fitsIn_cons.mpr ⟨hl.1, hout⟩)
    obtain ⟨hfits', hcovers'⟩ := ih hl.2 hfits
    refine ⟨hfits', ?_⟩
    rw [foldl_cons, hcovers', hcovers, covers_cons]
    tauto

theorem covers_mergeRanges (le : Bits → Bits → Bool) (l : List Bits) (h : FitsIn l a) :
    Covers (mergeRanges le l) a ↔ Covers l a := by
  have hperm {l l' : List Bits} (h : l.Perm l') : (FitsIn l a ↔ FitsIn l' a) ∧ (Covers l a ↔ Covers l' a) := by
    simp only [FitsIn, Covers, h.mem_iff, and_self]
  have hpass {l : List Bits} (h : FitsIn l a) :
      let joined := ((l.insertionSort fun p q => le p q).foldl joinRange ([], false)).1.reverse
      FitsIn joined a ∧ (Covers joined a ↔ Covers l a) := by
    have hsort := hperm (perm_insertionSort (fun p q => le p q) l)
    have hnil : FitsIn (([], false) : List Bits × Bool).1 a := fun p hp => by cases hp
    have hjoin := foldl_joinRange_covers (hsort.1.mpr h) hnil
    have hrev := hperm (reverse_perm ((l.insertionSort fun p q => le p q).foldl joinRange ([], false)).1)
    refine ⟨hrev.1.mpr hjoin.1, hrev.2.trans (hjoin.2.trans ?_)⟩
    simp [Covers]
  induction l using mergeRanges.induct le with
  | case1 l joined hchanged ih =>
    rw [mergeRanges, dif_pos hchanged]
    exact (ih (hpass h).1).trans (hpass h).2
  | case2 l joined hchanged =>
    rw [mergeRanges, dif_neg hchanged]
    exact (hpass h).2

end Ominull.Lib
