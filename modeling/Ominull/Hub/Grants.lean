import Ominull.Agent.Heartbeat
import Ominull.Lib.Table
import Mathlib.Data.List.MinMax
import Mathlib.Data.List.Sort

/-!
The hub's table of enforcement grants. A grant is kept pending while its action runs, released to
agents by a flag, and read back by the heartbeat handler above the watermark the agent reports.
-/

namespace Ominull.Hub

open Lib Agent List

/-- A row of enforcement_grants. Its other columns are copies of fields of the grant. -/
structure StoredGrant where
  grant : ResponseGrant
  payload : Str
  deliverable : Bool
  deriving DecidableEq

namespace StoredGrant

def grantID (g : StoredGrant) : Str := g.grant.grantID

def tenantID (g : StoredGrant) : Str := g.grant.tenantID

def target (g : StoredGrant) : Str := g.grant.endpointID

def kind (g : StoredGrant) : Str := g.grant.actionKind

def issuedAt (g : StoredGrant) : Int := g.grant.issuedAt

def expiresAt (g : StoredGrant) : Int := g.grant.expiresAt

def wire (g : StoredGrant) : ResponseGrant × Str := (g.grant, g.payload)

end StoredGrant

abbrev GrantTable := Table StoredGrant.grantID

namespace GrantTable

/-- `SaveEnforcementGrants`; grants that expired an hour ago are dropped. -/
def save (T : GrantTable) (list : List StoredGrant) (now : Int) : GrantTable :=
  (list.foldl Table.upsert T).filter fun g => now - 3600 ≤ g.expiresAt

def markDeliverable (T : GrantTable) (ids : List Str) : GrantTable :=
  T.modify (fun g => if g.grantID ∈ ids then { g with deliverable := true } else g) fun g => by
    split <;> rfl

def delete (T : GrantTable) (ids : List Str) : GrantTable := T.filter fun g => g.grantID ∉ ids

def pending (T : GrantTable) (issuedBefore : Int) : List StoredGrant :=
  T.rows.filter fun g => !g.deliverable && g.issuedAt ≤ issuedBefore

/-- The rows `LatestIsolationGrant` chooses from. -/
def isolationGrants (T : GrantTable) (endpointID : Str) (after now : Int) : List StoredGrant :=
  T.rows.filter fun g => g.target = endpointID && isIsolationKind g.kind && after < g.issuedAt &&
    now < g.expiresAt && g.deliverable

def latestIsolationGrant (T : GrantTable) (endpointID : Str) (after now : Int) :
    Option StoredGrant :=
  -- the order is named because the library has one of the integers that does not compute
  @List.argmax _ _ Int.instLinearOrder.toPreorder _ StoredGrant.issuedAt
    (T.isolationGrants endpointID after now)

/-- Rows in the order of their issue times. -/
def byIssue (l : List StoredGrant) : List StoredGrant :=
  l.insertionSort fun a b => a.issuedAt ≤ b.issuedAt

def meshGrantsAfter (T : GrantTable) (after now : Int) (limit : ℕ) : List StoredGrant :=
  (byIssue (T.rows.filter fun g => isMeshKind g.kind && after < g.issuedAt && now < g.expiresAt &&
    g.deliverable)).take limit

variable {T : GrantTable} {g : StoredGrant}

theorem mem_byIssue {l : List StoredGrant} : g ∈ byIssue l ↔ g ∈ l :=
  (perm_insertionSort _ l).mem_iff

theorem mem_save {list : List StoredGrant} {now : Int} (h : g ∈ (T.save list now).rows) :
    (g ∈ T.rows ∧ g.grantID ∉ list.map StoredGrant.grantID) ∨ g ∈ list :=
  Table.mem_foldl_upsert (Table.mem_filter.mp h).1

theorem mem_markDeliverable {ids : List Str} (h : g ∈ (T.markDeliverable ids).rows) :
    g ∈ T.rows ∨ ∃ x ∈ T.rows, x.grantID ∈ ids ∧ x.deliverable = false ∧
      g = { x with deliverable := true } := by
  obtain ⟨x, hx, rfl⟩ := Table.mem_modify.mp h
  by_cases hid : x.grantID ∈ ids
  · rw [if_pos hid]
    by_cases hd : x.deliverable = true
    · left
      have hsame : ({ x with deliverable := true } : StoredGrant) = x := by rw [← hd]
      rw [hsame]
      exact hx
    · exact .inr ⟨x, hx, hid, by simpa using hd, rfl⟩
  · rw [if_neg hid]
    exact .inl hx

theorem byIssue_sorted (l : List StoredGrant) : (byIssue l).Pairwise fun a b => a.issuedAt ≤ b.issuedAt := by
  exact pairwise_insertionSort _ l

def DistinctTimes (l : List StoredGrant) : Prop :=
  ∀ a ∈ l, ∀ b ∈ l, a.issuedAt = b.issuedAt → a = b

instance (l : List StoredGrant) : Decidable (DistinctTimes l) :=
  inferInstanceAs (Decidable (∀ a ∈ l, ∀ b ∈ l, a.issuedAt = b.issuedAt → a = b))

theorem byIssue_strict {l : List StoredGrant} (hnodup : l.Nodup) (h : DistinctTimes l) :
    (byIssue l).Pairwise fun a b => a.issuedAt < b.issuedAt := by
  have hne : (byIssue l).Pairwise (· ≠ ·) := (perm_insertionSort _ l).nodup_iff.mpr hnodup
  refine ((byIssue_sorted l).and hne).imp_of_mem fun {a b} ha hb hab => ?_
  have hdiff : a.issuedAt ≠ b.issuedAt := fun heq =>
    hab.2 (h a (mem_byIssue.mp ha) b (mem_byIssue.mp hb) heq)
  omega

theorem nodup_rows (T : GrantTable) : T.rows.Nodup := T.nodup.of_map _

theorem mem_isolationGrants {endpointID : Str} {after now : Int} :
    g ∈ T.isolationGrants endpointID after now ↔ g ∈ T.rows ∧ g.target = endpointID ∧
      isIsolationKind g.kind = true ∧ after < g.issuedAt ∧ now < g.expiresAt ∧ g.deliverable = true := by
  simp [isolationGrants, and_assoc]

theorem mem_meshGrantsAfter {after now : Int} {limit : ℕ} (h : g ∈ T.meshGrantsAfter after now limit) :
    g ∈ T.rows ∧ isMeshKind g.kind = true ∧ after < g.issuedAt := by
  have hmem := List.mem_filter.mp (mem_byIssue.mp (mem_of_mem_take h))
  simp only [Bool.and_eq_true, decide_eq_true_eq] at hmem
  exact ⟨hmem.1, hmem.2.1.1.1, hmem.2.1.1.2⟩

theorem mem_meshGrantsAfter_of_lt {m : StoredGrant} {after now : Int} {limit : ℕ}
    (hm : m ∈ T.meshGrantsAfter after now limit) (hg : g ∈ T.rows) (hkind : isMeshKind g.kind = true)
    (hd : g.deliverable = true) (hnew : after < g.issuedAt) (hvalid : now < g.expiresAt)
    (hlt : g.issuedAt < m.issuedAt) : g ∈ T.meshGrantsAfter after now limit := by
  have hmem : g ∈ byIssue (T.rows.filter fun g => isMeshKind g.kind && after < g.issuedAt &&
      now < g.expiresAt && g.deliverable) :=
    mem_byIssue.mpr (List.mem_filter.mpr ⟨hg, by simp [hkind, hnew, hvalid, hd]⟩)
  have hsorted := byIssue_sorted (T.rows.filter fun g => isMeshKind g.kind && after < g.issuedAt &&
      now < g.expiresAt && g.deliverable)
  rw [← take_append_drop limit (byIssue _)] at hmem hsorted
  rcases mem_append.mp hmem with hmem | hmem
  · exact hmem
  · have hle := (pairwise_append.mp hsorted).2.2 m hm g hmem
    omega

/-- With distinct issue times the newest row is the last of them. -/
theorem latestIsolationGrant_eq {endpointID : Str} {after now : Int}
    (h : DistinctTimes (T.isolationGrants endpointID after now)) :
    T.latestIsolationGrant endpointID after now =
      (byIssue (T.isolationGrants endpointID after now)).getLast? := by
  unfold latestIsolationGrant
  generalize T.isolationGrants endpointID after now = l at h
  cases hlast : (byIssue l).getLast? with
  | none =>
    have hnil : byIssue l = [] := getLast?_eq_none_iff.mp hlast
    have hl : l = [] := eq_nil_iff_forall_not_mem.mpr fun a ha => by
      have := mem_byIssue.mpr ha
      rw [hnil] at this
      cases this
    rw [hl]
    rfl
  | some x =>
    obtain ⟨init, hinit⟩ := getLast?_eq_some_iff.mp hlast
    have hx : x ∈ l := mem_byIssue.mp (by rw [hinit]; simp)
    have hmax : ∀ a ∈ l, a.issuedAt ≤ x.issuedAt := by
      intro a ha
      have hsorted := byIssue_sorted l
      rw [hinit, pairwise_append] at hsorted
      have hmem := mem_byIssue.mpr ha
      rw [hinit, mem_append, mem_singleton] at hmem
      rcases hmem with hmem | rfl
      · exact hsorted.2.2 a hmem x (by simp)
      · exact Int.le_refl _
    cases hargmax : @List.argmax _ _ Int.instLinearOrder.toPreorder _ StoredGrant.issuedAt l with
    | none =>
      rw [argmax_eq_none.mp hargmax] at hx
      cases hx
    | some m =>
      have hm : m ∈ l := argmax_mem hargmax
      have hle : x.issuedAt ≤ m.issuedAt := le_of_mem_argmax hx hargmax
      rw [h m hm x hx (Int.le_antisymm (hmax m hm) hle)]

end GrantTable

end Ominull.Hub
