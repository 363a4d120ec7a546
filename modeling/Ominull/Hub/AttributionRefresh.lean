import Ominull.Lib.Run
import Ominull.Lib.Text
import Ominull.Lib.Threads

/-!
`LoadAttribution` stores a table and clears the cache of answers afterwards, while calls of
`ResolveGeoIP` look addresses up. An answer of the table before, inserted after the clearing, stays.
-/

namespace Ominull.Hub

open Lib

variable {τ ρ : Type}

inductive ResolvePhase (ρ : Type) where
  | lookup
  | table
  | insert (result : ρ)
  | done (result : ρ)
  deriving DecidableEq

/-- The table in force, the cache of answers, and the calls at work on them. The built-in table is
stored once, before any other. -/
structure Attribution (τ ρ : Type) where
  currentAttribution : τ
  geoCache : List (Str × ρ) := []
  calls : Threads Str (ResolvePhase ρ) := .empty
  /-- How many tables were stored, and those whose call has not cleared the cache yet. -/
  loads : ℕ := 0
  clearing : List ℕ := []

inductive AttributionEvent (τ : Type) where
  | store (next : τ)
  | clear (load : ℕ)
  | start (id : ℕ) (ipStr : Str)
  | resolve (id : ℕ)

def geoCacheLimit : ℕ := 65536

/-- Keyed by whatever addresses the fleet reports, so bounded. -/
def cacheInsert (cache : List (Str × ρ)) (ipStr : Str) (result : ρ) : List (Str × ρ) :=
  (ipStr, result) :: (if geoCacheLimit ≤ cache.length then [] else cache).filter (·.1 ≠ ipStr)

namespace Attribution

variable (answer : τ → Str → ρ)

/-- One locked section, or one atomic load or store. -/
def step (s : Attribution τ ρ) : AttributionEvent τ → Option (Attribution τ ρ)
  | .store next => some { s with
      currentAttribution := next, loads := s.loads + 1, clearing := (s.loads + 1) :: s.clearing }
  | .clear load =>
    if load ∈ s.clearing then some { s with geoCache := [], clearing := s.clearing.filter (· ≠ load) }
    else none
  | .start id ipStr => (s.calls.start id ipStr .lookup).map fun calls => { s with calls := calls }
  | .resolve id => (s.calls.find id).bind fun call =>
    match call.phase with
    | .lookup =>
      let found := s.geoCache.find? (·.1 = call.req)
      some { s with calls := s.calls.move id (found.elim .table (.done ·.2)) }
    | .table => some { s with calls := s.calls.move id (.insert (answer s.currentAttribution call.req)) }
    | .insert result => some { s with
        geoCache := cacheInsert s.geoCache call.req result, calls := s.calls.move id (.done result) }
    | .done _ => none

/-- The call that stored the table in force has returned. -/
def Loaded (s : Attribution τ ρ) : Prop := s.loads ≠ 0 ∧ s.loads ∉ s.clearing

instance (s : Attribution τ ρ) : Decidable s.Loaded := inferInstanceAs (Decidable (_ ∧ _))

/-- Who clears the cache for the table in force finds no call with an answer of another one. -/
def NoneBehind (s : Attribution τ ρ) : AttributionEvent τ → Prop
  | .clear load => load = s.loads → ∀ c ∈ s.calls.rows, ∀ r, c.phase = .insert r →
      r = answer s.currentAttribution c.req
  | _ => True

def NoStore (_ : Attribution τ ρ) : AttributionEvent τ → Prop
  | .store _ => False
  | _ => True

/-- What a call holds is the answer of the table `t`; of the calls that are done, only those watched count. -/
def Right (watched : ℕ → Prop) (t : τ) (c : Thread Str (ResolvePhase ρ)) : Prop :=
  match c.phase with
  | .insert r => r = answer t c.req
  | .done r => watched c.id → r = answer t c.req
  | _ => True

structure Fresh (watched : ℕ → Prop) (s : Attribution τ ρ) : Prop where
  cache : ∀ p ∈ s.geoCache, p.2 = answer s.currentAttribution p.1
  calls : ∀ c ∈ s.calls.rows, Right answer watched s.currentAttribution c

variable {answer} {watched : ℕ → Prop} {s u : Attribution τ ρ} {e : AttributionEvent τ}

theorem Fresh.insert (h : Fresh answer watched s) (ipStr : Str) :
    ∀ p ∈ cacheInsert s.geoCache ipStr (answer s.currentAttribution ipStr),
      p.2 = answer s.currentAttribution p.1 := by
  refine List.forall_mem_cons.mpr ⟨rfl, fun p hp => ?_⟩
  have hp := List.mem_of_mem_filter hp
  split at hp
  · cases hp
  · exact h.cache p hp

theorem step_clear {load : ℕ} (hstep : s.step answer (.clear load) = some u) :
    u = { s with geoCache := [], clearing := s.clearing.filter (· ≠ load) } := by
  simp only [step, Option.ite_none_right_eq_some, Option.some.injEq] at hstep
  exact hstep.2.symm

theorem step_frame (he : NoStore s e) (hstep : s.step answer e = some u) :
    u.currentAttribution = s.currentAttribution ∧ u.loads = s.loads ∧
      ∀ n ∈ s.clearing, e ≠ .clear n → n ∈ u.clearing := by
  cases e with
  | store next => exact he.elim
  | clear load =>
    rw [step_clear hstep]
    refine ⟨rfl, rfl, fun n hn hne => List.mem_filter.mpr ⟨hn, ?_⟩⟩
    simpa using fun hload : n = load => hne (hload ▸ rfl)
  | start id ipStr =>
    obtain ⟨calls, -, rfl⟩ := Option.map_eq_some_iff.mp hstep
    exact ⟨rfl, rfl, fun n hn _ => hn⟩
  | resolve id =>
    obtain ⟨c, -, hstep⟩ := Option.bind_eq_some_iff.mp hstep
    split at hstep <;> cases hstep <;> exact ⟨rfl, rfl, fun n hn _ => hn⟩

theorem Fresh.step (h : Fresh answer watched s) (he : NoStore s e) (hstep : s.step answer e = some u) :
    Fresh answer watched u := by
  cases e with
  | store next => exact he.elim
  | clear load =>
    rw [step_clear hstep]
    exact ⟨nofun, h.calls⟩
  | start id ipStr =>
    obtain ⟨calls, hcalls, rfl⟩ := Option.map_eq_some_iff.mp hstep
    exact ⟨h.cache, Threads.forall_start hcalls h.calls trivial⟩
  | resolve id =>
    obtain ⟨c, hc, hstep⟩ := Option.bind_eq_some_iff.mp hstep
    have hmove : ∀ p, Right answer watched s.currentAttribution ⟨id, c.req, p⟩ →
        ∀ x ∈ (s.calls.move id p).rows, Right answer watched s.currentAttribution x :=
      fun p => Threads.forall_move hc fun x hx _ => h.calls x hx
    split at hstep
    · cases hstep
      refine ⟨h.cache, hmove _ ?_⟩
      cases hfound : s.geoCache.find? (·.1 = c.req) with
      | none => trivial
      | some p =>
        have hp := h.cache p (List.mem_of_find?_eq_some hfound)
        rw [show p.1 = c.req by simpa using List.find?_some hfound] at hp
        exact fun _ => hp
    · cases hstep
      exact ⟨h.cache, hmove _ rfl⟩
    · rename_i r hphase
      have hr := h.calls c (Table.mem_of_find hc)
      rw [Right, hphase] at hr
      cases hstep
      exact ⟨hr ▸ h.insert c.req, hmove _ fun _ => hr⟩
    · cases hstep

def init (builtin : τ) : Attribution τ ρ := { currentAttribution := builtin }

theorem fresh_of_run {builtin : τ}
    (hrun : Run (Guarded (NoneBehind answer) (StepOf (step answer))) (init builtin) s) :
    s.Loaded → Fresh answer (fun _ => False) s := by
  refine hrun.preserves (I := fun s => s.Loaded → Fresh answer (fun _ => False) s) ?_ fun h => absurd rfl h.1
  rintro s e u ih ⟨hok, hstep⟩ ⟨hloads, hclearing⟩
  by_cases he : NoStore s e
  · obtain ⟨-, hl, hkept⟩ := step_frame he hstep
    by_cases hclear : e = .clear s.loads
    · subst hclear
      rw [step_clear hstep]
      refine ⟨nofun, fun c hc => ?_⟩
      unfold Right
      split
      · exact hok rfl c hc _ ‹_›
      · exact False.elim
      · trivial
    · exact (ih ⟨hl ▸ hloads, fun hm => hclearing (hl ▸ hkept _ hm hclear)⟩).step he hstep
  · cases e with
    | store next =>
      cases hstep
      exact absurd List.mem_cons_self hclearing
    | _ => exact absurd trivial he

/-- In every run in which no call holds an answer of an older table while the cache is cleared for the
table in force: a call that starts after the load of that table has returned answers from it, if no
other table is stored until then. -/
theorem resolve_after_load {builtin : τ} {id : ℕ} {ipStr : Str} {r : ρ}
    (hrun : Run (Guarded (NoneBehind answer) (StepOf (step answer))) (init builtin) s) (hloaded : s.Loaded)
    (hnew : s.calls.find id = none) (hafter : Run (Guarded NoStore (StepOf (step answer))) s u)
    (hdone : u.calls.find id = some ⟨id, ipStr, .done r⟩) : r = answer s.currentAttribution ipStr := by
  have hs : Fresh answer (· = id) s := by
    have h := fresh_of_run hrun hloaded
    refine ⟨h.cache, fun c hc => ?_⟩
    have hc' := h.calls c hc
    unfold Right at hc' ⊢
    split at hc'
    · exact hc'
    · rintro rfl
      rw [Table.find_of_mem hc] at hnew
      cases hnew
    · trivial
  obtain ⟨hu, hcurrent⟩ : Fresh answer (· = id) u ∧ u.currentAttribution = s.currentAttribution := by
    refine hafter.preserves
      (I := fun u => Fresh answer (· = id) u ∧ u.currentAttribution = s.currentAttribution) ?_ ⟨hs, rfl⟩
    rintro v e w ⟨hv, hcurrent⟩ ⟨he, hstep⟩
    exact ⟨hv.step he hstep, (step_frame he hstep).1.trans hcurrent⟩
  exact hcurrent ▸ hu.calls _ (Table.mem_of_find hdone) rfl

/-- A call that starts after the second table is loaded. -/
theorem resolve_after_load_second :
    let answer : ℕ → Str → ℕ := fun t _ => t
    ∃ s u r, Run (Guarded (NoneBehind answer) (StepOf (step answer))) (init 0) s ∧ s.Loaded ∧
      Run (Guarded NoStore (StepOf (step answer))) s u ∧ u.calls.find 1 = some ⟨1, [], .done r⟩ ∧ r = 5 := by
  intro answer
  have hload : Run (Guarded (NoneBehind answer) (StepOf (step answer))) (init 0) ⟨5, [], .empty, 1, []⟩ :=
    run_of_runList (show runList (step answer) (init 0) [.store 5, .clear 1] = some _ from rfl)
      (by simp [Meets, step, NoneBehind, init, Table.empty])
  obtain ⟨u, hafter, hdone⟩ : ∃ u, Run (Guarded NoStore (StepOf (step answer))) ⟨5, [], .empty, 1, []⟩ u ∧
      u.calls.find 1 = some ⟨1, [], .done 5⟩ :=
    exists_run [.start 1 [], .resolve 1, .resolve 1, .resolve 1]
      (fun u => u.calls.find 1 = some ⟨1, [], .done 5⟩) (by decide +kernel)
      (meets_of_forall (by simp [NoStore])) fun _ _ h => h
  exact ⟨_, u, 5, hload, by decide, hafter, hdone, resolve_after_load hload (by decide) rfl hafter hdone⟩

/-- A call looks an address up in the old table, the new one is stored and the cache cleared, and the
old answer is inserted: a later call finds it. -/
theorem old_answer_after_load :
    let answer : ℕ → Str → ℕ := fun t _ => t
    ∃ s u, runList (step answer) (init 0) [.start 1 [], .resolve 1, .resolve 1, .store 5, .clear 1] = some s ∧
      s.Loaded ∧ s.currentAttribution = 5 ∧ s.calls.find 2 = none ∧
      runList (step answer) s [.resolve 1, .start 2 [], .resolve 2] = some u ∧
      u.calls.find 2 = some ⟨2, [], .done 0⟩ :=
  ⟨_, _, rfl, by decide, rfl, rfl, rfl, rfl⟩

end Attribution

end Ominull.Hub
