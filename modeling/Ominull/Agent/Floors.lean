import Ominull.Agent.ManifestText
import Mathlib.Data.List.Perm.Subperm

/-! The list of manifest floors: one entry to a policy key, the newest last. -/

namespace Ominull.Agent

open Lib List

theorem eraseIdx_of_findIdx? {α : Type} {p : α → Bool} {l : List α} {i : ℕ}
    (h : l.findIdx? p = some i) : l.eraseIdx i = l.eraseP p := by
  induction l generalizing i with
  | nil => cases h
  | cons a l ih =>
    rw [findIdx?_cons] at h
    split at h
    · cases h
      rename_i ha
      simp [ha]
    · rename_i ha
      obtain ⟨j, hj, rfl⟩ := Option.map_eq_some_iff.mp h
      simp [ha, ih hj]

/-- The floor of a key in a list, zero where it has none. -/
def floorOf (l : List TrustFloor) (key : Str) : Int :=
  match l.find? fun f => f.key = key with
  | some f => f.seq
  | none => 0

structure GoodFloors (P : List Str) (l : List TrustFloor) : Prop where
  nodup : (l.map TrustFloor.key).Nodup
  keys : ∀ f ∈ l, f.key ∈ P
  printable : ∀ f ∈ l, f.Printable

variable {P : List Str} {l : List TrustFloor} {key : Str} {n : Int}

theorem GoodFloors.length_le (h : GoodFloors P l) : l.length ≤ P.length := by
  have hsub : l.map TrustFloor.key ⊆ P := by
    intro k hk
    obtain ⟨f, hf, rfl⟩ := mem_map.mp hk
    exact h.keys f hf
  have hle := (subperm_of_subset h.nodup hsub).length_le
  rwa [length_map] at hle

/-- With room for every key, inserting forgets none. -/
theorem GoodFloors.floorInsert_eq (h : GoodFloors P l) (hP : P.length ≤ maxMfloor) (hkey : key ∈ P) :
    floorInsert l key n = (l.eraseP fun f => f.key = key) ++ [⟨key, n⟩] := by
  unfold floorInsert
  cases hfind : l.findIdx? fun f => f.key = key with
  | some i => simp only [eraseIdx_of_findIdx? hfind]
  | none =>
    have hno : ∀ f ∈ l, f.key ≠ key := by simpa [findIdx?_eq_none_iff] using hfind
    have hroom : l.length ≠ maxMfloor := by
      have hnodup : (key :: l.map TrustFloor.key).Nodup := by
        refine nodup_cons.mpr ⟨fun hmem => ?_, h.nodup⟩
        obtain ⟨f, hf, hk⟩ := mem_map.mp hmem
        exact hno f hf hk
      have hsub : key :: l.map TrustFloor.key ⊆ P := by
        intro k hk
        rcases mem_cons.mp hk with rfl | hk
        · exact hkey
        · obtain ⟨f, hf, rfl⟩ := mem_map.mp hk
          exact h.keys f hf
      have hle := (subperm_of_subset hnodup hsub).length_le
      rw [length_cons, length_map] at hle
      omega
    have herase : (l.eraseP fun f => f.key = key) = l :=
      eraseP_of_forall_not (by simpa using hno)
    simp only [if_neg hroom, herase]

theorem not_mem_eraseP (h : (l.map TrustFloor.key).Nodup) : ∀ f ∈ l.eraseP fun f => f.key = key, f.key ≠ key := by
  induction l with
  | nil => simp
  | cons a l ih =>
    rw [map_cons, nodup_cons] at h
    intro f hf
    by_cases ha : a.key = key
    · rw [eraseP_cons_of_pos (by simpa using ha)] at hf
      rintro rfl
      exact h.1 (ha ▸ mem_map_of_mem hf)
    · rw [eraseP_cons_of_neg (by simpa using ha)] at hf
      rcases mem_cons.mp hf with rfl | hf
      · exact ha
      · exact ih h.2 f hf

theorem find?_eraseP {key' : Str} (hne : key' ≠ key) :
    (l.eraseP fun f => f.key = key).find? (fun f => f.key = key') = l.find? fun f => f.key = key' := by
  induction l with
  | nil => rfl
  | cons a l ih =>
    by_cases ha : a.key = key
    · rw [eraseP_cons_of_pos (by simpa using ha),
        find?_cons_of_neg (by simpa [ha] using hne.symm)]
    · rw [eraseP_cons_of_neg (by simpa using ha)]
      simp only [find?_cons, ih]

theorem GoodFloors.insert (h : GoodFloors P l) (hP : P.length ≤ maxMfloor) (hkey : key ∈ P)
    (hf : (TrustFloor.mk key n).Printable) :
    GoodFloors P (floorInsert l key n) ∧ floorOf (floorInsert l key n) key = n ∧
      ∀ key' ≠ key, floorOf (floorInsert l key n) key' = floorOf l key' := by
  have hother : ∀ f ∈ l.eraseP fun f => f.key = key, f.key ≠ key := not_mem_eraseP h.nodup
  have hsub : (l.eraseP fun f => f.key = key).Sublist l := eraseP_sublist
  rw [h.floorInsert_eq hP hkey]
  refine ⟨⟨?_, ?_, ?_⟩, ?_, fun key' hne => ?_⟩
  · rw [map_append, nodup_append]
    refine ⟨(hsub.map _).nodup h.nodup, by simp, fun a ha b hb => ?_⟩
    obtain ⟨f, hf, rfl⟩ := mem_map.mp ha
    rw [map_singleton, mem_singleton] at hb
    rw [hb]
    exact hother f hf
  · intro f hmem
    rcases mem_append.mp hmem with hmem | hmem
    · exact h.keys f (hsub.subset hmem)
    · rw [mem_singleton.mp hmem]
      exact hkey
  · intro f hmem
    rcases mem_append.mp hmem with hmem | hmem
    · exact h.printable f (hsub.subset hmem)
    · rw [mem_singleton.mp hmem]
      exact hf
  · have hnone : (l.eraseP fun f => f.key = key).find? (fun f => f.key = key) = none := by
      simpa [find?_eq_none] using hother
    simp [floorOf, find?_append, hnone]
  · simp [floorOf, find?_append, find?_eraseP hne, hne.symm]

theorem manifestFloored_iff {t : TrustContext} {seq : Int} (hseq : 0 < seq) :
    t.manifestFloored seq = true ↔ t.haveKey.policy = true ∧ seq ≤ floorOf t.mfloor t.keys.policy := by
  unfold TrustContext.manifestFloored floorOf
  rw [Bool.and_eq_true]
  refine and_congr_right fun _ => ?_
  cases t.mfloor.find? fun f => f.key = t.keys.policy with
  | some f => simp
  | none =>
    simp only [Bool.false_eq_true, false_iff]
    omega

end Ominull.Agent
