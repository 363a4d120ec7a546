import Ominull.Auth.StateFile
import Ominull.Lib.Framing
import Ominull.Lib.Run
import Ominull.Response.Types

/-!
The clock that issues the times of enforcement grants: one for each tenant, kept in a file so that a
restart cannot issue a time again.
-/

namespace Ominull.Auth.EnforcementClock

open Go Lib Response

/-- A reading of the wall clock. `time.Time` counts its seconds from year 1 in 64 bits. -/
structure Reading where
  ns : Time
  least : -2 ^ 63 ≤ unix ns
  most : unix ns < 2 ^ 63 - 62135596800

def maxClockLead : Time := 5 * 60 * second

/-- A time handed out, and the reading of the wall clock it was issued at. -/
structure Issue where
  tenantID : Str
  time : Int
  now : Reading

/-- `enforcementClock` and its file, with the times handed out so far. `last` is `none` for a clock that
could not be read. -/
structure State where
  last : Option (StringMap Int)
  file : StateFile
  issued : List Issue

def State.init : State := ⟨some .empty, .absent, []⟩

def marshalClock (m : StringMap Int) : Str := marshalMap decimalInt m

def newEnforcementClock (stateDir : Bool) (raw : Option (Option Str)) : Option (StringMap Int) :=
  if stateDir then loadMap decodeInt 0 raw else some .empty

/-- The time a call would issue: the wall clock's, or the one after the last. -/
def candidate (m : StringMap Int) (tenantID : Str) (now : Reading) : Int :=
  let last := (m.get tenantID).getD 0
  if unix now.ns ≤ last then wrap64 (last + 1) else unix now.ns

/-- `next`: the time handed out, or `none` for an error, and the state afterwards. -/
def next (stateDir : Bool) (s : State) (tenantID : Str) (now : Reading) (o : Saved) : Option Int × State :=
  match s.last with
  | none => (none, s)
  | some m =>
    let t := candidate m tenantID now
    if maxClockLead < t * second - now.ns then (none, s)
    else
      let m' := m.set tenantID t
      let file := if stateDir then s.file.write (marshalClock m') o else s.file
      if stateDir ∧ o ≠ .done then (none, { s with file := file })
      else (some t, ⟨some m', file, s.issued ++ [⟨tenantID, t, now⟩]⟩)

inductive Event where
  | next (tenantID : Str) (now : Reading) (o : Saved)
  /-- A restart, after a power loss or not; the file may be there and not readable. -/
  | restart (lost readable : Bool)

def step (stateDir : Bool) (s : State) : Event → Option State
  | .next tenantID now o => some (next stateDir s tenantID now o).2
  | .restart lost readable =>
    let file := s.file.reboot lost
    some { s with last := newEnforcementClock stateDir (file.read readable), file := file }

/-- Tenant ids are valid UTF-8, which is what the file can spell, and an authority that has issued a time
restarts only with a state directory. -/
def Kept (stateDir : Bool) (s : State) : Event → Prop
  | .next tenantID _ _ => IsText tenantID
  | .restart _ _ => stateDir = true ∨ s.issued.length = 0

instance (stateDir : Bool) (s : State) (e : Event) : Decidable (Kept stateDir s e) := by
  cases e <;> dsimp only [Kept] <;> infer_instance

/-- The times a tenant was given are in order, and none ran ahead of the wall clock. -/
structure State.Ordered (s : State) : Prop where
  increasing : s.issued.Pairwise fun a b => a.tenantID = b.tenantID → a.time < b.time
  lead : ∀ i ∈ s.issued, i.time * second - i.now.ns ≤ maxClockLead

/-- The map has every issued time, or a later one, and can be written. -/
structure Covers (issued : List Issue) (m : StringMap Int) : Prop where
  last : ∀ i ∈ issued, ∃ v, m.get i.tenantID = some v ∧ i.time ≤ v
  fits : ∀ k v, m.get k = some v → IsText k ∧ -2 ^ 63 ≤ v ∧ v ≤ 2 ^ 63 - 2

structure State.Holds (stateDir : Bool) (s : State) : Prop extends s.Ordered where
  memory : ∀ m ∈ s.last, Covers s.issued m
  file : stateDir = true → s.file.Holds decodeInt 0 (Covers s.issued)

variable {stateDir : Bool} {s t : State} {m m' : StringMap Int} {issued : List Issue} {tenantID : Str} {now : Reading}

theorem Covers.congr (h : Covers issued m) (hget : ∀ k, m'.get k = m.get k) : Covers issued m' where
  last i hi := by
    rw [hget]
    exact h.last i hi
  fits k v hv := h.fits k v (hget k ▸ hv)

theorem covers_empty : Covers [] .empty := ⟨fun _ h => (by cases h), fun _ _ h => (by cases h)⟩

theorem spelled_int {v : Int} (h : -2 ^ 63 ≤ v ∧ v < 2 ^ 63) : Spelled decimalInt decodeInt 0 (.num (decimalInt v)) v where
  fits n := by
    rw [Json.Fits]
    exact numberText_decimalInt v
  text := rfl
  decoded := decodeInt_decimalInt h 0

theorem candidate_bounds (h : Covers issued m) (hlead : ¬maxClockLead < candidate m tenantID now * second - now.ns) :
    (∀ v, m.get tenantID = some v → v < candidate m tenantID now) ∧
      -2 ^ 63 ≤ candidate m tenantID now ∧ candidate m tenantID now ≤ 2 ^ 63 - 2 := by
  have hlast : -2 ^ 63 ≤ (m.get tenantID).getD 0 ∧ (m.get tenantID).getD 0 ≤ 2 ^ 63 - 2 := by
    cases hget : m.get tenantID with
    | none => decide
    | some v => exact (h.fits tenantID v hget).2
  have hafter : (m.get tenantID).getD 0 < candidate m tenantID now := by
    unfold candidate
    dsimp only
    split
    · rw [wrap64_eq (by omega) (by omega)]
      omega
    · omega
  refine ⟨fun v hv => ?_, by omega, ?_⟩
  · rwa [hv, Option.getD_some] at hafter
  · have hmost := Int.lt_mul_of_ediv_lt (show (0 : Int) < 1000000000 by decide) now.most
    have hle : candidate m tenantID now * 1000000000 - now.ns ≤ 5 * 60 * 1000000000 := not_lt.mp hlead
    omega

theorem Covers.set (h : Covers issued m) (hname : IsText tenantID)
    (hlead : ¬maxClockLead < candidate m tenantID now * second - now.ns) :
    Covers (issued ++ [⟨tenantID, candidate m tenantID now, now⟩]) (m.set tenantID (candidate m tenantID now)) := by
  obtain ⟨hafter, hbounds⟩ := candidate_bounds h hlead
  constructor
  · intro i hi
    rw [StringMap.get_set]
    rcases List.mem_append.mp hi with hi | hi
    · obtain ⟨v, hv, hle⟩ := h.last i hi
      split_ifs with heq
      · exact ⟨_, rfl, hle.trans (hafter v (heq ▸ hv)).le⟩
      · exact ⟨v, hv, hle⟩
    · rw [List.mem_singleton.mp hi, if_pos rfl]
      exact ⟨_, rfl, le_rfl⟩
  · intro k v hv
    rw [StringMap.get_set] at hv
    split_ifs at hv with heq
    · cases hv
      exact ⟨heq ▸ hname, hbounds⟩
    · exact h.fits k v hv

theorem Covers.mono {i : Issue} (h : Covers (issued ++ [i]) m) : Covers issued m :=
  ⟨fun j hj => h.last j (List.mem_append_left _ hj), h.fits⟩

theorem Covers.writable (h : Covers issued m) : StateFile.Holds.Writable decimalInt decodeInt 0 m := by
  constructor
  · exact fun p hp => (h.fits _ _ (StringMap.get_of_mem hp)).1
  · intro p hp
    obtain ⟨-, hlow, hhigh⟩ := h.fits _ _ (StringMap.get_of_mem hp)
    exact ⟨_, spelled_int ⟨hlow, by omega⟩⟩

theorem State.Holds.next (h : s.Holds stateDir) (hname : IsText tenantID) (now : Reading) (o : Saved) :
    (next stateDir s tenantID now o).2.Holds stateDir := by
  unfold EnforcementClock.next
  split
  · exact h
  rename_i m hm
  dsimp only
  split
  · exact h
  rename_i hlead
  have hcovers := h.memory m hm
  have hset := hcovers.set hname hlead
  split
  · -- the time is not handed out; the file may have it all the same
    refine ⟨⟨h.increasing, h.lead⟩, h.memory, fun hdir => ?_⟩
    rw [if_pos hdir]
    exact (h.file hdir).write hset.writable (fun m' => hset.mono.congr) o
  · rename_i hdone
    refine ⟨⟨?_, ?_⟩, ?_, fun hdir => ?_⟩
    · rw [List.pairwise_append]
      refine ⟨h.increasing, List.pairwise_singleton _ _, fun i hi j hj => ?_⟩
      obtain rfl := List.mem_singleton.mp hj
      intro (heq : i.tenantID = tenantID)
      obtain ⟨v, hv, hle⟩ := hcovers.last i hi
      exact hle.trans_lt ((candidate_bounds hcovers hlead).1 v (heq ▸ hv))
    · intro i hi
      rcases List.mem_append.mp hi with hi | hi
      · exact h.lead i hi
      · rw [List.mem_singleton.mp hi]
        exact not_lt.mp hlead
    · intro m' hm'
      cases hm'
      exact hset
    · rw [if_pos hdir]
      have ho : o = .done := by
        by_contra hne
        exact hdone ⟨hdir, hne⟩
      subst ho
      exact StateFile.Holds.saved s.file hset.writable fun m' => hset.congr

theorem State.Holds.restart (h : s.Holds stateDir) (hdir : stateDir = true ∨ s.issued.length = 0)
    (lost readable : Bool) :
    State.Holds stateDir
      ⟨newEnforcementClock stateDir ((s.file.reboot lost).read readable), s.file.reboot lost, s.issued⟩ := by
  refine ⟨⟨h.increasing, h.lead⟩, fun m hm => ?_, fun hdir => (h.file hdir).reboot lost⟩
  cases stateDir with
  | true => exact ((h.file rfl).reboot lost).load readable m hm
  | false =>
    cases hm
    rw [List.eq_nil_of_length_eq_zero (hdir.resolve_left Bool.false_ne_true)]
    exact covers_empty

theorem holds_init : State.init.Holds stateDir where
  increasing := List.Pairwise.nil
  lead := fun _ h => (by cases h)
  memory := by
    rintro m ⟨⟩
    exact covers_empty
  file := fun _ => .absent covers_empty

/-- The wall clock so many seconds after the epoch. -/
def secondsAfter (n : ℕ) (h : n < 2 ^ 32) : Reading :=
  ⟨n * second, by simp only [unix, second]; omega, by simp only [unix, second]; omega⟩

/-- Two grants in one second, a failed write, a restart and a clock that was set back. -/
def burst : List Event :=
  [.next (str "t") (secondsAfter 100 (by decide)) .done, .next (str "t") (secondsAfter 100 (by decide)) .done,
   .next (str "t") (secondsAfter 101 (by decide)) .renamed, .restart true true,
   .next (str "t") (secondsAfter 90 (by decide)) .done]

end Ominull.Auth.EnforcementClock
