import Ominull.Lib.Text

/-!
The pattern of a workload: an asterisk stands for any run of characters within one path segment of one
argument.
-/

namespace Ominull.Detector

open List

def isSeparator (b : UInt8) : Bool := b = 0x2f || b = 0x20

/-- The loop over the places at which an asterisk can end. -/
def asteriskLoop (rest : Str → Bool) : Str → Bool
  | [] => rest []
  | b :: w => if rest (b :: w) then true else if isSeparator b then false else asteriskLoop rest w

def matchWorkload : Str → Str → Bool
  | [], w => w = []
  | b :: p, w =>
    if b = 0x2a then asteriskLoop (matchWorkload p) w
    else
      match w with
      | [] => false
      | c :: w => b = c && matchWorkload p w

/-- The pattern with its asterisks replaced, in order. -/
def replaced : Str → List Str → Str
  | [], _ => []
  | b :: p, fills => if b = 0x2a then fills.headD [] ++ replaced p fills.tail else b :: replaced p fills

def NoSeparator (s : Str) : Prop := ∀ b ∈ s, b ≠ 0x2f ∧ b ≠ 0x20

theorem asteriskLoop_iff {rest : Str → Bool} {w : Str} :
    asteriskLoop rest w = true ↔ ∃ u v, w = u ++ v ∧ NoSeparator u ∧ rest v = true := by
  induction w with
  | nil =>
    rw [asteriskLoop]
    constructor
    · exact fun h => ⟨[], [], rfl, forall_mem_nil _, h⟩
    · rintro ⟨u, v, huv, -, h⟩
      rwa [(append_eq_nil_iff.mp huv.symm).2] at h
  | cons b w ih =>
    rw [asteriskLoop]
    constructor
    · intro h
      split_ifs at h with hrest hb
      · exact ⟨[], b :: w, rfl, forall_mem_nil _, hrest⟩
      · obtain ⟨u, v, rfl, hu, hv⟩ := ih.mp h
        refine ⟨b :: u, v, rfl, forall_mem_cons.mpr ⟨?_, hu⟩, hv⟩
        simpa [isSeparator] using hb
    · rintro ⟨u, v, huv, hu, hv⟩
      cases u with
      | nil =>
        obtain rfl : b :: w = v := huv
        exact if_pos hv
      | cons c u =>
        obtain ⟨rfl, rfl⟩ := List.cons.inj huv
        obtain ⟨hb, hu⟩ := forall_mem_cons.mp hu
        have hsep : isSeparator b = false := by simp [isSeparator, hb]
        split_ifs with hrest hb'
        · rfl
        · exact absurd (hsep.symm.trans hb') Bool.false_ne_true
        · exact ih.mpr ⟨u, v, rfl, hu, hv⟩

/-- A pattern matches what it becomes when each asterisk is replaced by a text without slash and space, and
nothing else. -/
theorem matchWorkload_iff (pattern workload : Str) :
    matchWorkload pattern workload = true ↔
      ∃ fills : List Str, fills.length = pattern.count 0x2a ∧ (∀ s ∈ fills, NoSeparator s) ∧
        replaced pattern fills = workload := by
  induction pattern generalizing workload with
  | nil =>
    simp only [matchWorkload, replaced, decide_eq_true_eq, count_nil, length_eq_zero_iff]
    exact ⟨fun h => ⟨[], rfl, forall_mem_nil _, h.symm⟩, fun ⟨_, _, _, h⟩ => h.symm⟩
  | cons b p ih =>
    by_cases hb : b = 0x2a
    · simp only [matchWorkload, replaced, if_pos hb, asteriskLoop_iff, ih]
      rw [hb, count_cons_self]
      constructor
      · rintro ⟨u, v, rfl, hu, fills, hlen, hfills, rfl⟩
        exact ⟨u :: fills, congrArg Nat.succ hlen, forall_mem_cons.mpr ⟨hu, hfills⟩, rfl⟩
      · rintro ⟨fills, hlen, hfills, rfl⟩
        cases fills with
        | nil => cases hlen
        | cons u fills =>
          obtain ⟨hu, hfills⟩ := forall_mem_cons.mp hfills
          exact ⟨u, _, rfl, hu, fills, Nat.succ.inj hlen, hfills, rfl⟩
    · simp only [matchWorkload, replaced, if_neg hb, count_cons_of_ne hb]
      cases workload with
      | nil => simp
      | cons c w =>
        rw [Bool.and_eq_true, decide_eq_true_eq, ih]
        constructor
        · rintro ⟨rfl, fills, hlen, hfills, rfl⟩
          exact ⟨fills, hlen, hfills, rfl⟩
        · rintro ⟨fills, hlen, hfills, h⟩
          exact ⟨(List.cons.inj h).1, fills, hlen, hfills, (List.cons.inj h).2⟩

/-- No asterisk reaches over a slash or a space: a match has the pattern's separators, in their order. -/
theorem separators_of_match {pattern workload : Str} (h : matchWorkload pattern workload = true) :
    workload.filter isSeparator = pattern.filter isSeparator := by
  induction pattern generalizing workload with
  | nil => rw [of_decide_eq_true h]
  | cons b p ih =>
    unfold matchWorkload at h
    split_ifs at h with hb
    · obtain ⟨u, v, rfl, hu, hv⟩ := asteriskLoop_iff.mp h
      have hnone : u.filter isSeparator = [] := filter_eq_nil_iff.mpr fun c hc => by simp [isSeparator, hu c hc]
      rw [filter_append, hnone, nil_append, ih hv, hb, filter_cons_of_neg (by decide)]
    · cases workload with
      | nil => cases h
      | cons c w =>
        obtain ⟨hbc, hw⟩ := Bool.and_eq_true_iff.mp h
        rw [of_decide_eq_true hbc, filter_cons, filter_cons, ih hw]

theorem separators_of_match_bin : [0x2f, 0x2f] = (str "/*/sh").filter isSeparator :=
  separators_of_match (show matchWorkload (str "/*/sh") (str "/bin/sh") = true by decide)

end Ominull.Detector
