import Ominull.Response.Types
import Mathlib.Algebra.Group.Prod
import Mathlib.Algebra.BigOperators.Group.List.Basic
import Mathlib.Tactic.Abel

/-!
Upload accounting. Counts are detached from the ledger under its lock, written without it, and put back
if the write fails.
-/

namespace Ominull.Hub

open Response

/-- An endpoint and a day. -/
abbrev UploadKey := Str × Str

/-- Batches, wire bytes, decoded bytes, gzip batches and replays. -/
abbrev UploadCounts := ℤ × ℤ × ℤ × ℤ × ℤ

abbrev Counters := List (UploadKey × UploadCounts)

namespace Counters

def add (k : UploadKey) (c : UploadCounts) : Counters → Counters
  | [] => [(k, c)]
  | p :: m => if p.1 = k then (k, p.2 + c) :: m else p :: add k c m

/-- Adds every counter of `due`: `restore`, and the upsert into the daily table. -/
def merge (m due : Counters) : Counters := due.foldl (fun m p => m.add p.1 p.2) m

def count (m : Counters) (k : UploadKey) : UploadCounts := (m.map fun p => if p.1 = k then p.2 else 0).sum

@[simp] theorem count_nil (k : UploadKey) : count [] k = 0 := rfl

variable (m : Counters) (k : UploadKey)

@[simp] theorem count_cons (p : UploadKey × UploadCounts) :
    count (p :: m) k = (if p.1 = k then p.2 else 0) + m.count k := List.sum_cons

theorem count_add (k' : UploadKey) (c : UploadCounts) :
    (m.add k' c).count k = m.count k + if k' = k then c else 0 := by
  induction m with
  | nil => simp [add]
  | cons p m ih =>
    rw [add]
    split
    · rename_i hp
      by_cases hk : k' = k <;> simp [hp, hk, add_right_comm]
    · rw [count_cons, count_cons, ih, add_assoc]

theorem count_merge (due : Counters) : (m.merge due).count k = m.count k + due.count k := by
  unfold merge
  induction due generalizing m with
  | nil => simp
  | cons p due ih => rw [List.foldl_cons, ih, count_add, count_cons, add_assoc]

end Counters

def uploadFlushEvery : Time := 60 * second

structure Uploads where
  pending : Counters := []
  /-- When the counts were last detached; unset before the first use. -/
  flushed : Option Time := none
  /-- Detached counts whose write has not ended, and those whose write has failed. -/
  due : List Counters := []
  failed : List Counters := []
  daily : Counters := []
  recorded : Counters := []

inductive UploadEvent where
  | record (endpointID : Str) (now : Time) (wire raw : ℤ) (gzipped replay : Bool)
  | flush (now : Time)
  | write (due : Counters) (ok : Bool)
  | restore (due : Counters)

variable (day : Time → Str)

/-- One locked section of `RecordUpload` or `FlushUploads`, or one transaction of `writeUploads`. -/
def Uploads.step (s : Uploads) : UploadEvent → Uploads
  | .record endpointID now wire raw gzipped replay =>
    let k : UploadKey := (endpointID, day now)
    let c : UploadCounts := (1, wire, raw, if gzipped then 1 else 0, if replay then 1 else 0)
    let flushed := s.flushed.getD now
    let pending := s.pending.add k c
    let s := { s with recorded := (k, c) :: s.recorded }
    if uploadFlushEvery ≤ now - flushed then
      { s with pending := [], flushed := now, due := pending :: s.due }
    else { s with pending := pending, flushed := flushed }
  | .flush now =>
    { s with pending := [], flushed := now, due := if s.pending = [] then s.due else s.pending :: s.due }
  | .write due ok =>
    if due ∈ s.due then
      if ok then { s with due := s.due.erase due, daily := s.daily.merge due }
      else { s with due := s.due.erase due, failed := due :: s.failed }
    else s
  | .restore due =>
    if due ∈ s.failed then { s with failed := s.failed.erase due, pending := s.pending.merge due } else s

def total (l : List Counters) (k : UploadKey) : UploadCounts := (l.map (·.count k)).sum

def Uploads.Balanced (s : Uploads) : Prop :=
  ∀ k, s.pending.count k + total s.due k + total s.failed k + s.daily.count k = s.recorded.count k

@[simp] theorem total_nil (k : UploadKey) : total [] k = 0 := rfl

@[simp] theorem total_cons (m : Counters) (l : List Counters) (k : UploadKey) :
    total (m :: l) k = m.count k + total l k := List.sum_cons

theorem total_erase {l : List Counters} {m : Counters} (h : m ∈ l) (k : UploadKey) :
    total l k = m.count k + total (l.erase m) k :=
  ((List.perm_cons_erase h).map _).sum_eq

theorem Uploads.Balanced.step {s : Uploads} (h : s.Balanced) (e : UploadEvent) : (s.step day e).Balanced := by
  intro k
  have h := h k
  cases e with
  | record endpointID now wire raw gzipped replay =>
    simp only [Uploads.step]
    split
    all_goals
      simp only [Counters.count_add, Counters.count_nil, Counters.count_cons, total_cons, ← h]
      abel
  | flush now =>
    simp only [Uploads.step]
    split
    · rename_i hempty
      rwa [hempty] at h
    · rw [← h, total_cons, Counters.count_nil, zero_add]
  | write due ok =>
    simp only [Uploads.step]
    split_ifs with hdue
    · rw [← h, total_erase hdue, Counters.count_merge]
      abel
    · rw [← h, total_erase hdue, total_cons]
      abel
    · exact h
  | restore due =>
    simp only [Uploads.step]
    split_ifs with hdue
    · rw [← h, total_erase hdue, Counters.count_merge]
      abel
    · exact h

end Ominull.Hub
