import Ominull.Hub.RolloutSystem

/-!
What holds in every interleaving of the advance loop with requests. A release queues the held
endpoints and delivers their grants before `FinishAgentRollout` decides whether the rollout is
released at all, so a request that ends the rollout in between is too late.
-/

namespace Ominull.Hub

open Lib Go Response Agent List

namespace RolloutSystem

variable (installable : Str → Endpoint → Bool)

def Waiting (s : RolloutSystem) (id : Str) : Prop :=
  ∃ ro ∈ s.store.rollouts.rows, ro.id = id ∧ ro.state = .canary

instance (s : RolloutSystem) (id : Str) : Decidable (s.Waiting id) :=
  inferInstanceAs (Decidable (∃ _ ∈ s.store.rollouts.rows, _))

/-- What the next operation of a request must not come upon, by its phase: no request ends a rollout
while it is released, and a staged rollout has not been ended when its request releases its other
grants. -/
def Undisturbed (s : RolloutSystem) (staged : Option Str) : RequestPhase → Prop
  | .create .. | .supersede _ => s.tick.releasing = none
  | .halt ro _ => ∀ r ∈ s.tick.releasing, r.id ≠ ro.id
  | .settle => ∀ ro ∈ s.store.rollouts.rows, staged = some ro.id →
      ro.state = .canary ∨ ro.state = .released
  | _ => True

instance (s : RolloutSystem) (staged : Option Str) (phase : RequestPhase) :
    Decidable (s.Undisturbed staged phase) := by
  cases phase <;> dsimp only [Undisturbed] <;> infer_instance

def CheckedWaiting (s : RolloutSystem) : Tick → Prop
  | .check _ ro .. => s.Waiting ro.id
  | _ => True

instance (s : RolloutSystem) (t : Tick) : Decidable (s.CheckedWaiting t) := by
  cases t <;> dsimp only [CheckedWaiting] <;> infer_instance

/-- No rollout is ended between the reads and the writes of those that work on it. -/
def Steady (s : RolloutSystem) : RolloutEvent → Prop
  | .tick => s.CheckedWaiting s.tick
  | .request id .. => ∀ q ∈ s.requests.find id, s.Undisturbed q.staged q.phase
  | _ => True

instance (s : RolloutSystem) (e : RolloutEvent) : Decidable (s.Steady e) := by
  cases e <;> dsimp only [Steady] <;> infer_instance

/-- The authority gives every grant an id of its own. -/
def FreshGrants (s : RolloutSystem) : RolloutEvent → Prop
  | .update _ _ _ _ _ grants _ => ∀ g ∈ grants, ∀ q ∈ s.requests.rows, g.1.grantID ∉ q.kept
  | _ => True

instance (s : RolloutSystem) (e : RolloutEvent) : Decidable (s.FreshGrants e) := by
  cases e <;> dsimp only [FreshGrants] <;> infer_instance

def Same (a b : AgentRollout) : Prop := { a with state := b.state } = b

/-- Every canary of a rollout was read, online, clean and on the version. -/
def AllHealthy (ro : AgentRollout) (now : Time) (read : List Endpoint) : Prop :=
  ∀ c ∈ ro.canary, ∃ ep ∈ read, ep.id = c ∧ Healthy ep ro.version now

/-- A rollout that was halted or superseded has released nothing, and every release follows a check
in which all canaries were healthy. -/
structure Sound (s : RolloutSystem) : Prop where
  unreleased : ∀ ro ∈ s.store.rollouts.rows, ro.state = .halted ∨ ro.state = .superseded →
    (∀ r ∈ s.releases, r.rollout.id ≠ ro.id) ∧
      ∀ g ∈ s.store.grants.rows, g.grantID ∈ ro.heldGrants → g.deliverable = false
  checked : ∀ r ∈ s.releases, AllHealthy r.rollout r.now r.read ∧
    ∃ ro ∈ s.store.rollouts.rows, Same ro r.rollout

def Initial (s : RolloutSystem) : Prop :=
  s.store.rollouts.rows = [] ∧ s.requests.rows = [] ∧ s.tick = .idle ∧ s.releases = []

/-! ## The invariant -/

def Pending (s : RolloutSystem) (ids : List Str) : Prop :=
  ∀ g ∈ s.store.grants.rows, g.grantID ∈ ids → g.deliverable = false

def inHand : Tick → List AgentRollout
  | .idle => []
  | .check _ ro _ _ _ rest | .schedule _ ro _ _ rest | .mark _ ro _ rest | .finish _ ro rest
  | .halt _ ro rest => ro :: rest
  | .withdraw _ _ rest => rest

/-- The grants of a rollout have been made deliverable, and the release is not recorded yet. -/
def Marked (s : RolloutSystem) (id : Str) : Prop :=
  match s.tick with
  | .finish _ ro _ => ro.id = id
  | _ => False

/-- What the advance loop knows of the canaries. -/
def Evidence : Tick → Prop
  | .check now ro read id todo _ => ∀ c ∈ ro.canary, c = id ∨ c ∈ todo ∨
      ∃ ep ∈ read, ep.id = c ∧ Healthy ep ro.version now
  | .schedule now ro read .. | .mark now ro read _ => AllHealthy ro now read
  | _ => True

def Staging (s : RolloutSystem) (q : Request) (canary grants : List Str) : Prop :=
  q.staged = none ∧ canary ≠ [] ∧ s.Pending q.kept ∧ ∀ g ∈ grants, g ∈ q.kept

def PhaseOk (s : RolloutSystem) (q : Request) : Prop :=
  match q.phase with
  | .targets _ _ canary grants => s.Staging q canary (grants.map Prod.snd)
  | .vet _ canary _ heldGrants | .create _ canary _ heldGrants => s.Staging q canary heldGrants
  | .mark ids => (∀ g ∈ ids, g ∈ q.kept) ∧ ∀ ro ∈ s.store.rollouts.rows, q.staged = some ro.id →
      ro.state ≠ .released → ∀ g ∈ ids, g ∉ ro.heldGrants
  | _ => True

structure RowsInv (s : RolloutSystem) : Prop where
  oneActive : ∀ a ∈ s.store.rollouts.rows, ∀ b ∈ s.store.rollouts.rows, a.state = .canary →
    b.state = .canary → a = b
  owner : ∀ ro ∈ s.store.rollouts.rows, ∃ q ∈ s.requests.rows, q.staged = some ro.id ∧
    ∀ g ∈ ro.heldGrants, g ∈ q.kept
  apart : ∀ q ∈ s.requests.rows, ∀ q' ∈ s.requests.rows, ∀ g ∈ q.kept, g ∈ q'.kept → q.id = q'.id
  staged : ∀ q ∈ s.requests.rows, ∀ id, q.staged = some id → ∃ ro ∈ s.store.rollouts.rows, ro.id = id
  canaries : ∀ ro ∈ s.store.rollouts.rows, ro.canary ≠ []

structure TickInv (s : RolloutSystem) : Prop where
  rows : ∀ ro ∈ inHand s.tick, ∃ row ∈ s.store.rollouts.rows, Same row ro
  releasing : ∀ ro, s.tick.releasing = some ro → s.Waiting ro.id
  evidence : Evidence s.tick
  released : ∀ r ∈ s.releases, AllHealthy r.rollout r.now r.read ∧
    ∃ row ∈ s.store.rollouts.rows, Same row r.rollout ∧
      (row.state = .released ∨ ∃ ro, s.tick.releasing = some ro ∧ ro.id = row.id)

structure RolloutInv (s : RolloutSystem) : Prop extends RowsInv s, TickInv s where
  phases : ∀ q ∈ s.requests.rows, s.PhaseOk q
  pending : ∀ ro ∈ s.store.rollouts.rows, ro.state ≠ .released → ¬s.Marked ro.id →
    s.Pending ro.heldGrants

/-! ## What an operation can do -/

variable {a b x : AgentRollout}

section Effects

variable {T T' : RolloutTable} {G G' : GrantTable}

/-- Some of the waiting rollouts take another state. -/
def Ended (p : Str → Bool) (state : RolloutState) (T T' : RolloutTable) : Prop :=
  T'.rows = T.rows.map fun ro => if ro.state = .canary ∧ p ro.id then { ro with state := state } else ro

/-- A grant that is deliverable afterwards was so before, or is one of these. -/
def Delivers (ids : List Str) (G G' : GrantTable) : Prop :=
  ∀ g ∈ G'.rows, g.deliverable = true → g ∈ G.rows ∨ g.grantID ∈ ids

theorem ended_refl (T : RolloutTable) : Ended (fun _ => false) .halted T T := by
  simp [Ended]

theorem ended_supersede (T : RolloutTable) : Ended (fun _ => true) .superseded T T.supersede.2 := by
  simp [Ended, RolloutTable.supersede, Table.modify]

theorem ended_finish (T : RolloutTable) (id : Str) (state : RolloutState) :
    Ended (fun x => x = id) state T (T.finish id state).2 := by
  refine map_congr_left fun ro _ => ?_
  simp only [decide_eq_true_eq, and_comm]

theorem delivers_refl (G : GrantTable) : Delivers [] G G := fun _ hg _ => .inl hg

theorem delivers_delete (G : GrantTable) (ids : List Str) : Delivers [] G (G.delete ids) :=
  fun _ hg _ => .inl (Table.mem_filter.mp hg).1

theorem delivers_mark (G : GrantTable) (ids : List Str) : Delivers ids G (G.markDeliverable ids) := by
  intro g hg _
  rcases GrantTable.mem_markDeliverable hg with hg | ⟨x, -, hid, -, rfl⟩
  · exact .inl hg
  · exact .inr hid

variable {p : Str → Bool} {state : RolloutState}

theorem Same.field {β : Type} (f : AgentRollout → β)
    (hf : ∀ (x : AgentRollout) state, f { x with state := state } = f x) (h : Same a b) : f a = f b := by
  rw [← hf a b.state, show ({ a with state := b.state } : AgentRollout) = b from h]

theorem Same.id (h : Same a b) : a.id = b.id :=
  h.field AgentRollout.id fun _ _ => rfl

theorem Same.canary (h : Same a b) : a.canary = b.canary :=
  h.field AgentRollout.canary fun _ _ => rfl

theorem Same.heldGrants (h : Same a b) : a.heldGrants = b.heldGrants :=
  h.field AgentRollout.heldGrants fun _ _ => rfl

theorem Same.trans {c : AgentRollout} (h : Same a b) (h' : Same b c) : Same a c := by
  unfold Same at h h' ⊢
  rw [← h', ← h]

theorem Ended.mem (h : Ended p state T T') {ro : AgentRollout} (hro : ro ∈ T'.rows) :
    (ro ∈ T.rows ∧ ¬(ro.state = .canary ∧ p ro.id)) ∨
      ∃ x ∈ T.rows, x.state = .canary ∧ p x.id ∧ ro = { x with state := state } := by
  rw [h, mem_map] at hro
  obtain ⟨x, hx, rfl⟩ := hro
  by_cases hp : x.state = .canary ∧ p x.id
  · rw [if_pos hp]
    exact .inr ⟨x, hx, hp.1, hp.2, rfl⟩
  · rw [if_neg hp]
    exact .inl ⟨hx, hp⟩

theorem Ended.kept (h : Ended p state T T') (hx : x ∈ T.rows) :
    ∃ ro ∈ T'.rows, Same ro x ∧ (ro = x ∨ x.state = .canary ∧ p x.id ∧ ro.state = state) := by
  rw [h]
  refine ⟨_, mem_map_of_mem hx, ?_⟩
  by_cases hp : x.state = .canary ∧ p x.id
  · rw [if_pos hp]
    exact ⟨rfl, .inr ⟨hp.1, hp.2, rfl⟩⟩
  · rw [if_neg hp]
    exact ⟨rfl, .inl rfl⟩

theorem Ended.same (h : Ended p state T T') {ro : AgentRollout} (hro : ro ∈ T'.rows) :
    ∃ x ∈ T.rows, Same ro x ∧ (x = ro ∨ x.state = .canary ∧ ro.state = state) := by
  rcases h.mem hro with ⟨hro, -⟩ | ⟨x, hx, hstate, -, rfl⟩
  · exact ⟨ro, hro, rfl, .inl rfl⟩
  · exact ⟨x, hx, rfl, .inr ⟨hstate, rfl⟩⟩

end Effects

/-! ## Frames -/

section Frames

variable {s s' : RolloutSystem} {p : Str → Bool} {state : RolloutState} {ids : List Str}

theorem Pending.frame {kept : List Str} (h : s.Pending kept) (hgrants : Delivers ids s.store.grants s'.store.grants)
    (hids : ∀ g ∈ ids, g ∉ kept) : s'.Pending kept := by
  intro g hg hkept
  by_contra hd
  rcases hgrants g hg (by simpa using hd) with hg | hid
  · exact hd (h g hg hkept)
  · exact hids _ hid hkept

theorem Waiting.frame {id : Str} (h : s.Waiting id)
    (hrows : Ended p state s.store.rollouts s'.store.rollouts) (hp : p id = false) : s'.Waiting id := by
  obtain ⟨x, hx, rfl, hstate⟩ := h
  obtain ⟨ro, hro, -, rfl | ⟨-, hpx, -⟩⟩ := hrows.kept hx
  · exact ⟨ro, hro, rfl, hstate⟩
  · rw [hp] at hpx
    cases hpx

/-- The requests are those of before, in other phases. -/
structure SameRequests (s s' : RolloutSystem) : Prop where
  kept : ∀ q ∈ s.requests.rows, ∃ q' ∈ s'.requests.rows, q'.kept = q.kept ∧ q'.staged = q.staged
  back : ∀ q' ∈ s'.requests.rows, ∃ q ∈ s.requests.rows, q.id = q'.id ∧ q.kept = q'.kept ∧
    q.staged = q'.staged

theorem SameRequests.of_eq (h : s'.requests = s.requests) : SameRequests s s' where
  kept q hq := ⟨q, h ▸ hq, rfl, rfl⟩
  back q hq := ⟨q, h ▸ hq, rfl, rfl, rfl⟩

theorem RowsInv.apart_of (h : RowsInv s)
    (hback : ∀ x ∈ s'.requests.rows, ∃ y ∈ s.requests.rows, y.id = x.id ∧ y.kept = x.kept) :
    ∀ q ∈ s'.requests.rows, ∀ q' ∈ s'.requests.rows, ∀ g ∈ q.kept, g ∈ q'.kept → q.id = q'.id := by
  intro x hx x' hx' g hg hg'
  obtain ⟨y, hy, hid, hky⟩ := hback x hx
  obtain ⟨y', hy', hid', hky'⟩ := hback x' hx'
  rw [← hid, ← hid']
  exact h.apart y hy y' hy' g (hky ▸ hg) (hky' ▸ hg')

theorem RowsInv.frame (h : RowsInv s) (hrows : Ended p state s.store.rollouts s'.store.rollouts)
    (hstate : state ≠ .canary) (hreq : SameRequests s s') : RowsInv s' := by
  have hold : ∀ ro ∈ s'.store.rollouts.rows, ro.state = .canary → ro ∈ s.store.rollouts.rows := by
    intro ro hro hcanary
    rcases hrows.mem hro with ⟨hro, -⟩ | ⟨x, -, -, -, rfl⟩
    · exact hro
    · exact absurd hcanary hstate
  constructor
  · exact fun a ha b hb ha' hb' => h.oneActive a (hold a ha ha') b (hold b hb hb') ha' hb'
  · intro ro hro
    obtain ⟨x, hx, hsame, -⟩ := hrows.same hro
    obtain ⟨q, hq, hstaged, hheld⟩ := h.owner x hx
    obtain ⟨q', hq', hkept, hstaged'⟩ := hreq.kept q hq
    refine ⟨q', hq', ?_, ?_⟩
    · rw [hstaged', hstaged, hsame.id]
    · rw [hsame.heldGrants, hkept]
      exact hheld
  · refine h.apart_of fun q hq => ?_
    obtain ⟨x, hx, hid, hkept, -⟩ := hreq.back q hq
    exact ⟨x, hx, hid, hkept⟩
  · intro q hq id hid
    obtain ⟨x, hx, -, -, hstaged⟩ := hreq.back q hq
    obtain ⟨ro, hro, rfl⟩ := h.staged x hx id (hstaged.trans hid)
    obtain ⟨ro', hro', hsame, -⟩ := hrows.kept hro
    exact ⟨ro', hro', hsame.id⟩
  · intro ro hro
    obtain ⟨x, hx, hsame, -⟩ := hrows.same hro
    rw [hsame.canary]
    exact h.canaries x hx

theorem Staging.frame {q : Request} {canary grants : List Str} (h : s.Staging q canary grants)
    (hgrants : Delivers ids s.store.grants s'.store.grants)
    (hids : q.staged = none → ∀ g ∈ ids, g ∉ q.kept) : s'.Staging q canary grants :=
  ⟨h.1, h.2.1, h.2.2.1.frame hgrants (hids h.1), h.2.2.2⟩

theorem PhaseOk.frame {q : Request} (h : s.PhaseOk q)
    (hgrants : Delivers ids s.store.grants s'.store.grants)
    (hids : q.staged = none → ∀ g ∈ ids, g ∉ q.kept)
    (hrows : ∀ ro ∈ s'.store.rollouts.rows, q.staged = some ro.id → ro.state ≠ .released →
      ∃ x ∈ s.store.rollouts.rows, Same ro x ∧ x.state ≠ .released) : s'.PhaseOk q := by
  unfold PhaseOk at h ⊢
  cases hphase : q.phase <;> rw [hphase] at h <;> dsimp only at h ⊢
  case targets => exact h.frame hgrants hids
  case vet => exact h.frame hgrants hids
  case create => exact h.frame hgrants hids
  case mark =>
    refine ⟨h.1, fun ro hro hstaged hstate g hg => ?_⟩
    obtain ⟨x, hx, hsame, hstate'⟩ := hrows ro hro hstaged hstate
    rw [hsame.heldGrants]
    exact h.2 x hx (hsame.id ▸ hstaged) hstate' g hg

theorem Ended.unreleased {T T' : RolloutTable} (h : Ended p state T T') {ro : AgentRollout} (hro : ro ∈ T'.rows)
    (hstate : ro.state ≠ .released) : ∃ x ∈ T.rows, Same ro x ∧ x.state ≠ .released := by
  obtain ⟨x, hx, hsame, rfl | ⟨hcanary, -⟩⟩ := h.same hro
  · exact ⟨x, hx, hsame, hstate⟩
  · exact ⟨x, hx, hsame, by rw [hcanary]; decide⟩

/-- The advance loop keeps its place while requests work. -/
theorem TickInv.frame (h : TickInv s) (hrows : Ended p state s.store.rollouts s'.store.rollouts)
    (htick : s'.tick = s.tick) (hreleases : s'.releases = s.releases)
    (hp : ∀ ro, s.tick.releasing = some ro → p ro.id = false) : TickInv s' := by
  constructor
  · intro ro hro
    obtain ⟨x, hx, hsame⟩ := h.rows ro (htick ▸ hro)
    obtain ⟨y, hy, hsame', -⟩ := hrows.kept hx
    exact ⟨y, hy, hsame'.trans hsame⟩
  · intro ro hro
    rw [htick] at hro
    exact (h.releasing ro hro).frame hrows (hp ro hro)
  · rw [htick]
    exact h.evidence
  · intro r hr
    rw [hreleases] at hr
    obtain ⟨hall, x, hx, hsame, hstate⟩ := h.released r hr
    obtain ⟨y, hy, hsame', heq⟩ := hrows.kept hx
    refine ⟨hall, y, hy, hsame'.trans hsame, ?_⟩
    rw [htick]
    rcases hstate with hstate | ⟨ro, hro, hid⟩
    · rcases heq with rfl | ⟨hcanary, -, -⟩
      · exact .inl hstate
      · rw [hstate] at hcanary
        cases hcanary
    · exact .inr ⟨ro, hro, hid.trans hsame'.id.symm⟩

end Frames

/-! ## The advance loop -/

section Advance

variable {s s' : RolloutSystem} {p : Str → Bool} {state : RolloutState} {ids : List Str}

theorem RowsInv.owned (h : RowsInv s) {ro : AgentRollout} (hro : ro ∈ s.store.rollouts.rows) {q : Request}
    (hq : q ∈ s.requests.rows) {g : Str} (hg : g ∈ ro.heldGrants) (hkept : g ∈ q.kept) : q.staged = some ro.id := by
  obtain ⟨q', hq', hstaged, hheld⟩ := h.owner ro hro
  rw [Table.eq_of_key hq hq' (h.apart q hq q' hq' g hkept (hheld g hg))]
  exact hstaged

theorem RowsInv.disjoint (h : RowsInv s) (ha : a ∈ s.store.rollouts.rows) (hb : b ∈ s.store.rollouts.rows) {g : Str}
    (hg : g ∈ a.heldGrants) (hg' : g ∈ b.heldGrants) : a.id = b.id := by
  obtain ⟨q, hq, hstaged, hheld⟩ := h.owner a ha
  have hb := h.owned hb hq hg' (hheld g hg)
  rw [hstaged] at hb
  exact Option.some.inj hb

theorem RolloutInv.advance (h : RolloutInv s) (hreq : s'.requests = s.requests)
    (hrows : Ended p state s.store.rollouts s'.store.rollouts) (hstate : state ≠ .canary)
    (hgrants : Delivers ids s.store.grants s'.store.grants)
    (hids : ∀ g ∈ ids, ∃ ro ∈ s.store.rollouts.rows, g ∈ ro.heldGrants) (htick : TickInv s')
    (hpending : ∀ ro ∈ s'.store.rollouts.rows, ro.state ≠ .released → ¬s'.Marked ro.id →
      ¬s.Marked ro.id ∧ ∀ g ∈ ids, g ∉ ro.heldGrants) : RolloutInv s' := by
  refine ⟨h.toRowsInv.frame hrows hstate (.of_eq hreq), htick, fun q hq => ?_, fun ro hro hne hmarked => ?_⟩
  · rw [hreq] at hq
    refine (h.phases q hq).frame hgrants ?_ fun ro hro _ hne => hrows.unreleased hro hne
    intro hstaged g hg hkept
    obtain ⟨ro, hro, hheld⟩ := hids g hg
    have howned := h.owned hro hq hheld hkept
    rw [hstaged] at howned
    cases howned
  · obtain ⟨hmarked', hdisjoint⟩ := hpending ro hro hne hmarked
    obtain ⟨x, hx, hsame, hne'⟩ := hrows.unreleased hro hne
    rw [hsame.id] at hmarked'
    rw [hsame.heldGrants] at hdisjoint ⊢
    exact (h.pending x hx hne' hmarked').frame hgrants hdisjoint

theorem TickInv.recorded (h : TickInv s) (hnone : s.tick.releasing = none) {r : Release}
    (hr : r ∈ s.releases) : AllHealthy r.rollout r.now r.read ∧
      ∃ row ∈ s.store.rollouts.rows, Same row r.rollout ∧ row.state = .released := by
  obtain ⟨hall, row, hrow, hsame, hstate | ⟨ro, hro, -⟩⟩ := h.released r hr
  · exact ⟨hall, row, hrow, hsame, hstate⟩
  · rw [hnone] at hro
    cases hro

theorem TickInv.move (h : TickInv s) (hnone : s.tick.releasing = none) (t : Tick)
    (hrows : ∀ ro ∈ inHand t, ∃ row ∈ s.store.rollouts.rows, Same row ro) (hev : Evidence t)
    (hrel : ∀ ro, t.releasing = some ro → s.Waiting ro.id) (unclean : List (Str × Time)) :
    TickInv { s with unclean := unclean, tick := t } := by
  refine ⟨hrows, hrel, hev, fun r hr => ?_⟩
  obtain ⟨hall, row, hrow, hsame, hstate⟩ := h.recorded hnone hr
  exact ⟨hall, row, hrow, hsame, .inl hstate⟩

/-- The loop releases something of the rollout it has checked. -/
theorem TickInv.release (h : TickInv s) (t : Tick) {ro : AgentRollout}
    (hro : s.tick.releasing = some ro) (hrow : ro ∈ inHand s.tick) (hro' : t.releasing = some ro)
    (hhand : inHand t = inHand s.tick) (hev : Evidence t) {new : List Release}
    (hnew : ∀ r ∈ new, r.rollout = ro ∧ AllHealthy r.rollout r.now r.read) {store : HubStore}
    (hstore : store.rollouts = s.store.rollouts) :
    TickInv { s with store := store, tick := t, releases := s.releases ++ new } := by
  obtain ⟨store, jobs, grants, rollouts⟩ := store
  cases hstore
  refine ⟨?_, ?_, hev, ?_⟩
  · intro x hx
    exact h.rows x (hhand ▸ hx)
  · intro x hx
    exact h.releasing x ((hro.trans hro'.symm).trans hx)
  · intro r hr
    rcases mem_append.mp hr with hr | hr
    · obtain ⟨hall, row, hrow, hsame, hstate⟩ := h.released r hr
      rw [hro] at hstate
      refine ⟨hall, row, hrow, hsame, ?_⟩
      rw [hro']
      exact hstate
    · obtain ⟨rfl, hall⟩ := hnew r hr
      obtain ⟨row, hrow, hsame⟩ := h.rows _ hrow
      exact ⟨hall, row, hrow, hsame, .inr ⟨_, hro', hsame.id.symm⟩⟩

section Next

variable {now : Time} {rest : List AgentRollout}

theorem inHand_next {ro : AgentRollout} (h : ro ∈ inHand (.next now rest)) : ro ∈ rest := by
  cases rest with
  | nil => cases h
  | cons x rest =>
    rw [Tick.next] at h
    cases hc : x.canary <;> rw [hc] at h <;> exact h

/-- A rollout has canaries, so the loop begins with a check. -/
theorem releasing_next (h : ∀ ro ∈ rest, ro.canary ≠ []) : (Tick.next now rest).releasing = none := by
  cases rest with
  | nil => rfl
  | cons x rest =>
    rw [Tick.next]
    cases hc : x.canary with
    | nil => exact absurd hc (h x mem_cons_self)
    | cons c todo => rfl

theorem evidence_next (h : ∀ ro ∈ rest, ro.canary ≠ []) : Evidence (.next now rest) := by
  cases rest with
  | nil => trivial
  | cons x rest =>
    rw [Tick.next]
    cases hc : x.canary with
    | nil => exact absurd hc (h x mem_cons_self)
    | cons c todo =>
      intro d hd
      rw [hc] at hd
      rcases mem_cons.mp hd with rfl | hd
      · exact .inl rfl
      · exact .inr (.inl hd)

theorem not_marked_of_releasing {id : Str} (h : s.tick.releasing = none) : ¬s.Marked id := by
  intro hm
  unfold Marked at hm
  split at hm
  · rename_i ht
    rw [ht] at h
    cases h
  · exact hm

theorem RolloutInv.canaries_inHand (h : RolloutInv s) {ro : AgentRollout} (hro : ro ∈ inHand s.tick) :
    ro.canary ≠ [] := by
  obtain ⟨row, hrow, hsame⟩ := h.rows ro hro
  rw [← hsame.canary]
  exact h.canaries row hrow

theorem TickInv.next (h : TickInv s) (hnone : s.tick.releasing = none)
    (hrows : ∀ ro ∈ rest, ∃ row ∈ s.store.rollouts.rows, Same row ro)
    (hcan : ∀ ro ∈ rest, ro.canary ≠ []) (unclean : List (Str × Time)) :
    TickInv { s with unclean := unclean, tick := .next now rest } := by
  refine h.move hnone _ (fun ro hro => hrows ro (inHand_next hro)) (evidence_next hcan) ?_ unclean
  intro ro hro
  rw [releasing_next hcan] at hro
  cases hro

/-- A step that changes nothing but the place of the loop, and releases nothing yet. -/
theorem RolloutInv.place (h : RolloutInv s) (hnone : s.tick.releasing = none) {t : Tick}
    {unclean : List (Str × Time)} (htick : TickInv { s with unclean := unclean, tick := t }) :
    RolloutInv { s with unclean := unclean, tick := t } :=
  h.advance rfl (ended_refl _) (by decide) (delivers_refl _) nofun htick
    fun _ _ _ _ => ⟨not_marked_of_releasing hnone, nofun⟩

end Next

section Phases

variable {now : Time} {ro : AgentRollout} {read : List Endpoint} {rest : List AgentRollout}

/-- A healthy canary is added to what was read; after the last one the release begins. -/
theorem TickInv.checked (h : TickInv s) {id : Str} {todo : List Str}
    (ht : s.tick = .check now ro read id todo rest) (hwait : s.Waiting ro.id) {ep : Endpoint}
    (hid : ep.id = id) (hep : Healthy ep ro.version now) (unclean : List (Str × Time)) :
    TickInv { s with unclean := unclean, tick := .checked now ro (read ++ [ep]) rest todo } := by
  obtain ⟨store, _, tick, requests, releases⟩ := s
  cases ht
  have hread : ∀ c ∈ ro.canary, c ∈ todo ∨
      ∃ e ∈ read ++ [ep], e.id = c ∧ Healthy e ro.version now := by
    intro c hc
    rcases h.evidence c hc with rfl | hc | ⟨e, he, hc⟩
    · exact .inr ⟨ep, mem_append_right _ mem_cons_self, hid, hep⟩
    · exact .inl hc
    · exact .inr ⟨e, mem_append_left _ he, hc⟩
  cases todo with
  | nil =>
    refine h.move rfl (.schedule ..) h.rows ?_ ?_ unclean
    · intro c hc
      exact (hread c hc).resolve_left nofun
    · intro x hx
      cases hx
      exact hwait
  | cons d todo =>
    refine h.move rfl (.check now ro (read ++ [ep]) d todo rest) h.rows ?_ nofun unclean
    intro c hc
    rcases hread c hc with hc | hc
    · rcases mem_cons.mp hc with rfl | hc
      · exact .inl rfl
      · exact .inr (.inl hc)
    · exact .inr (.inr hc)

theorem RolloutInv.check (h : RolloutInv s) {id : Str} {todo : List Str}
    (ht : s.tick = .check now ro read id todo rest) (hwait : s.Waiting ro.id)
    (hstep : s.stepTick installable = some s') : RolloutInv s' := by
  have htick := h.toTickInv
  obtain ⟨store, _, tick, requests, releases⟩ := s
  cases ht
  obtain rfl := Option.some.inj hstep
  have hhalt : ∀ unclean, TickInv ⟨store, unclean, .halt now ro rest, requests, releases⟩ :=
    htick.move rfl (.halt ..) htick.rows trivial nofun
  apply h.place rfl
  split
  · rename_i hverdict
    obtain ⟨ep, hfound, hep⟩ := healthy_of_verdict hverdict
    have hid : ep.id = id := by simpa using find?_some hfound
    rw [hfound]
    exact htick.checked rfl hwait hid hep _
  · exact hhalt _
  · split
    · exact hhalt _
    · exact htick.next rfl (fun x hx => h.rows x (mem_cons_of_mem _ hx))
        (fun x hx => h.canaries_inHand (mem_cons_of_mem _ hx)) _

/-- `scheduleAgentUpdates` writes jobs only. -/
theorem schedule_store (sched : Schedule) (st : HubStore) (version : Str) :
    ∃ jobs, (sched.step installable st version).2.1 = { st with jobs := jobs } := by
  unfold Schedule.step
  split
  all_goals exact ⟨_, rfl⟩

/-- The loop queues a held endpoint. -/
theorem RolloutInv.schedule (h : RolloutInv s) {sched : Schedule} (ht : s.tick = .schedule now ro read sched rest)
    (hstep : s.stepTick installable = some s') : RolloutInv s' := by
  obtain ⟨store, unclean, tick, requests, releases⟩ := s
  cases ht
  obtain ⟨jobs, hjobs⟩ := schedule_store installable sched store ro.version
  simp only [stepTick, Option.some.injEq] at hstep
  rw [hjobs] at hstep
  generalize (sched.step installable store ro.version).1 = sched' at hstep
  have hcases : Tick.scheduled now ro read rest sched' = .mark now ro read rest ∨
      Tick.scheduled now ro read rest sched' = .schedule now ro read sched' rest := by
    unfold Tick.scheduled
    split
    · exact .inl rfl
    · exact .inr rfl
  subst hstep
  refine h.advance rfl (ended_refl _) (by decide) (delivers_refl _) nofun ?_ fun _ _ _ _ => ⟨id, nofun⟩
  refine h.toTickInv.release _ rfl mem_cons_self ?_ ?_ ?_ ?_ rfl
  · rcases hcases with heq | heq <;> rw [heq] <;> rfl
  · rcases hcases with heq | heq <;> rw [heq] <;> rfl
  · rcases hcases with heq | heq <;> rw [heq] <;> exact h.evidence
  · intro r hr
    obtain ⟨ep, -, rfl⟩ := mem_map.mp hr
    exact ⟨rfl, h.evidence⟩

/-- The loop delivers the held grants. -/
theorem RolloutInv.mark (h : RolloutInv s) (ht : s.tick = .mark now ro read rest)
    (hstep : s.stepTick installable = some s') : RolloutInv s' := by
  obtain ⟨store, unclean, tick, requests, releases⟩ := s
  cases ht
  obtain ⟨row, hrow, hsame⟩ := h.rows ro mem_cons_self
  obtain rfl := Option.some.inj hstep
  refine h.advance rfl (ended_refl _) (by decide) (delivers_mark _ ro.heldGrants) ?_ ?_ ?_
  · exact fun g hg => ⟨row, hrow, hsame.heldGrants ▸ hg⟩
  · refine h.toTickInv.release (.finish now ro rest) rfl mem_cons_self rfl rfl trivial ?_ rfl
    exact forall_mem_singleton.mpr ⟨rfl, h.evidence⟩
  · refine fun x hx _ hmarked => ⟨id, fun g hg hg' => hmarked ?_⟩
    show ro.id = x.id
    rw [← hsame.id]
    exact h.disjoint hrow hx (hsame.heldGrants ▸ hg) hg'

/-- The release is recorded: the rollout was waiting still. -/
theorem RolloutInv.finish (h : RolloutInv s) (ht : s.tick = .finish now ro rest)
    (hstep : s.stepTick installable = some s') : RolloutInv s' := by
  obtain ⟨store, unclean, tick, requests, releases⟩ := s
  cases ht
  have hcan : ∀ x ∈ rest, x.canary ≠ [] := fun x hx => h.canaries_inHand (mem_cons_of_mem _ hx)
  have hrows := ended_finish store.rollouts ro.id .released
  obtain ⟨row, hrow, hid, hwait⟩ := h.releasing ro rfl
  obtain rfl := Option.some.inj hstep
  -- the rows of this rollout are released now
  have hreleased : ∀ x ∈ (store.rollouts.finish ro.id .released).2.rows, x.id = ro.id →
      x.state = .released := by
    intro x hx hxid
    rcases hrows.mem hx with ⟨hx, hnot⟩ | ⟨y, -, -, -, rfl⟩
    · refine absurd ⟨?_, by simpa using hxid⟩ hnot
      rw [Table.eq_of_key hx hrow (hxid.trans hid.symm)]
      exact hwait
    · rfl
  refine h.advance rfl hrows (by decide) (delivers_refl _) nofun ⟨?_, ?_, evidence_next hcan, ?_⟩ ?_
  · intro x hx
    obtain ⟨y, hy, hsame⟩ := h.rows x (mem_cons_of_mem _ (inHand_next hx))
    obtain ⟨z, hz, hsame', -⟩ := hrows.kept hy
    exact ⟨z, hz, hsame'.trans hsame⟩
  · intro x hx
    rw [releasing_next hcan] at hx
    cases hx
  · intro r hr
    obtain ⟨hall, y, hy, hsame, hstate⟩ := h.released r hr
    obtain ⟨z, hz, hsame', heq⟩ := hrows.kept hy
    refine ⟨hall, z, hz, hsame'.trans hsame, .inl ?_⟩
    rcases heq with rfl | ⟨-, -, hz⟩
    · rcases hstate with hstate | ⟨x, hx, hxid⟩
      · exact hstate
      · cases hx
        exact hreleased z hz hxid.symm
    · exact hz
  · exact fun x hx hne _ => ⟨fun hxid => hne (hreleased x hx hxid.symm), nofun⟩

theorem RolloutInv.halt (h : RolloutInv s) (ht : s.tick = .halt now ro rest)
    (hstep : s.stepTick installable = some s') : RolloutInv s' := by
  obtain ⟨store, unclean, tick, requests, releases⟩ := s
  cases ht
  have hrows := ended_finish store.rollouts ro.id .halted
  obtain rfl := Option.some.inj hstep
  refine h.advance rfl hrows (by decide) (delivers_refl _) nofun ?_ fun _ _ _ _ => ⟨id, nofun⟩
  have hframe : TickInv ⟨{ store with rollouts := (store.rollouts.finish ro.id .halted).2 }, unclean,
      .halt now ro rest, requests, releases⟩ := h.toTickInv.frame hrows rfl rfl nofun
  have hin := (forall_mem_cons.mp hframe.rows).2
  split
  · exact hframe.move rfl (.withdraw ..) hin trivial nofun _
  · exact hframe.next rfl hin (fun x hx => h.canaries_inHand (mem_cons_of_mem _ hx)) _

theorem RolloutInv.withdraw (h : RolloutInv s) {ids : List Str} (ht : s.tick = .withdraw now ids rest)
    (hstep : s.stepTick installable = some s') : RolloutInv s' := by
  obtain ⟨store, unclean, tick, requests, releases⟩ := s
  cases ht
  obtain rfl := Option.some.inj hstep
  refine h.advance rfl (ended_refl _) (by decide) (delivers_delete _ ids) nofun ?_ fun _ _ _ _ => ⟨id, nofun⟩
  have hframe : TickInv ⟨{ store with grants := store.grants.delete ids }, unclean,
      .withdraw now ids rest, requests, releases⟩ := h.toTickInv.frame (ended_refl _) rfl rfl fun _ _ => rfl
  exact hframe.next rfl h.rows (fun x hx => h.canaries_inHand hx) _

end Phases

theorem RolloutInv.stepTick (h : RolloutInv s) (hsteady : s.Steady .tick)
    (hstep : s.stepTick installable = some s') : RolloutInv s' := by
  cases ht : s.tick with
  | idle => simp [RolloutSystem.stepTick, ht] at hstep
  | check now ro read id todo rest =>
    refine h.check installable ht ?_ hstep
    rw [Steady, ht] at hsteady
    exact hsteady
  | schedule now ro read sched rest => exact h.schedule installable ht hstep
  | mark now ro read rest => exact h.mark installable ht hstep
  | finish now ro rest => exact h.finish installable ht hstep
  | halt now ro rest => exact h.halt installable ht hstep
  | withdraw now ids rest => exact h.withdraw installable ht hstep

end Advance

/-! ## Requests -/

section Requests

variable {s s' : RolloutSystem} {st st' : HubStore} {q q' : Request}

/-- Phases in which nothing is asked of the grants. -/
def Quiet : RequestPhase → Prop
  | .targets .. | .vet .. | .create .. | .mark _ => False
  | _ => True

inductive RequestMove (st : HubStore) (q : Request) : HubStore → Request → Prop
  | other (jobs : JobTable) (grants : GrantTable) (phase : RequestPhase)
      (hgrants : Delivers [] st.grants grants) (hphase : Quiet phase) :
      RequestMove st q { st with jobs := jobs, grants := grants } { q with phase := phase }
  | chosen {all : Bool} {ids canary : List Str} {grants : List (Str × Str)} {held heldGrants : List Str}
      (hq : q.phase = .targets all ids canary grants)
      (hheld : ∀ g ∈ heldGrants, g ∈ grants.map Prod.snd) :
      RequestMove st q st { q with phase := .vet all canary held heldGrants }
  | vetted {all : Bool} {canary held heldGrants : List Str}
      (hq : q.phase = .vet all canary held heldGrants) :
      RequestMove st q st { q with phase := .create all canary held heldGrants }
  | created {all : Bool} {canary held heldGrants : List Str} {id : Str} {deadline : Time}
      {T : RolloutTable} {phase : RequestPhase} (hq : q.phase = .create all canary held heldGrants)
      (hT : st.rollouts.supersede.2.insert ⟨id, q.version, all, canary, held, heldGrants, deadline, .canary⟩ =
        some T) (hphase : Quiet phase) :
      RequestMove st q { st with rollouts := T } { q with staged := some id, phase := phase }
  | superseded {w : Want} {phase : RequestPhase} (hq : q.phase = .supersede w) (hphase : Quiet phase) :
      RequestMove st q { st with rollouts := st.rollouts.supersede.2 } { q with phase := phase }
  | settled (hq : q.phase = .settle) :
      RequestMove st q st { q with phase := .mark (q.kept.filter (· ∉ st.rollouts.heldGrants)) }
  | marked {ids : List Str} (hq : q.phase = .mark ids) :
      RequestMove st q { st with grants := st.grants.markDeliverable ids } { q with phase := .done }
  | halted {ro : AgentRollout} {todo : List AgentRollout} {phase : RequestPhase}
      (hq : q.phase = .halt ro todo) (hphase : Quiet phase) :
      RequestMove st q { st with rollouts := (st.rollouts.finish ro.id .halted).2 }
        { q with phase := phase }

theorem quiet_halting (todo : List AgentRollout) : Quiet (.halting todo) := by
  cases todo <;> trivial

/-- Every operation of a request is one of these moves. -/
theorem request_move {id : Str} {now : Time} (h : q.step installable st id now = some (st', q')) :
    RequestMove st q st' q' := by
  unfold Request.step at h
  split at h
  · rename_i hq
    extract_lets targets chosen at h
    split at h
    · cases h
      exact .other st.jobs st.grants .refuse (delivers_refl _) trivial
    · cases h
      refine .chosen hq fun g hg => ?_
      obtain ⟨x, hx, rfl⟩ := mem_map.mp hg
      exact mem_map_of_mem (List.mem_filter.mp hx).1
  · rename_i hq
    split at h
    · cases h
      exact .vetted hq
    · cases h
      exact .other st.jobs st.grants .refuse (delivers_refl _) trivial
  · rename_i hq
    obtain ⟨T, hT, hst⟩ := Option.map_eq_some_iff.mp h
    cases hst
    exact .created hq hT trivial
  · rename_i hq
    cases h
    exact .superseded hq trivial
  · cases h
    exact .other st.jobs _ _ (delivers_delete _ _) trivial
  · rename_i sched hq
    obtain ⟨jobs, hjobs⟩ := schedule_store installable sched st q.version
    dsimp only at h
    rw [hjobs] at h
    cases h
    refine .other jobs st.grants _ (delivers_refl _) ?_
    split
    · trivial
    · split <;> trivial
  · rename_i hq
    cases h
    exact .settled hq
  · rename_i hq
    cases h
    exact .marked hq
  · cases h
    exact .other st.jobs _ _ (delivers_delete _ _) trivial
  · cases h
    exact .other st.jobs st.grants _ (delivers_refl _) (quiet_halting _)
  · rename_i hq
    cases h
    refine .halted hq ?_
    split
    · trivial
    · exact quiet_halting _
  · cases h
    exact .other st.jobs _ _ (delivers_delete _ _) (quiet_halting _)
  · cases h
    exact .other _ st.grants _ (delivers_refl _) trivial
  · cases h

structure Moved (R R' : Table Request.id) (q q' : Request) : Prop where
  mem : q ∈ R.rows
  id : q'.id = q.id
  back : ∀ x ∈ R'.rows, x = q' ∨ (x ∈ R.rows ∧ x.id ≠ q.id)
  moved : q' ∈ R'.rows
  kept : ∀ x ∈ R.rows, x.id ≠ q.id → x ∈ R'.rows

theorem moved_update {R : Table Request.id} {id : ℕ} (hq : R.find id = some q) (hid : q'.id = q.id) :
    Moved R (R.update id (fun r => { q' with id := r.id }) fun _ => rfl) q q' := by
  have hmem := Table.mem_of_find hq
  have hkey : q.id = id := Table.key_of_find hq
  have hsame : ∀ x : Request, x.id = id → ({ q' with id := x.id } : Request) = q' := by
    intro x hx
    rw [hx, ← hkey, ← hid]
  refine ⟨hmem, hid, fun x hx => ?_, ?_, fun x hx hne => ?_⟩
  · rcases Table.mem_update.mp hx with ⟨hx, hne⟩ | ⟨y, -, hy, rfl⟩
    · exact .inr ⟨hx, hkey ▸ hne⟩
    · exact .inl (hsame y hy)
  · exact Table.mem_update.mpr (.inr ⟨q, hmem, hkey, hsame q hkey⟩)
  · exact Table.mem_update.mpr (.inl ⟨hx, hkey ▸ hne⟩)

theorem Moved.sameRequests (h : Moved s.requests s'.requests q q') (hkept : q'.kept = q.kept)
    (hstaged : q'.staged = q.staged) : SameRequests s s' := by
  constructor
  · intro x hx
    by_cases hid : x.id = q.id
    · rw [Table.eq_of_key hx h.mem hid]
      exact ⟨q', h.moved, hkept, hstaged⟩
    · exact ⟨x, h.kept x hx hid, rfl, rfl⟩
  · intro x hx
    rcases h.back x hx with rfl | ⟨hx, -⟩
    · exact ⟨q, h.mem, h.id.symm, hkept.symm, hstaged.symm⟩
    · exact ⟨x, hx, rfl, rfl, rfl⟩

theorem phaseOk_of_quiet (h : Quiet q.phase) : s.PhaseOk q := by
  cases hphase : q.phase <;> simp_all [Quiet, PhaseOk]

section Move

variable {p : Str → Bool} {state : RolloutState} {ids : List Str}

/-- A request moves: it may end waiting rollouts other than the one under release, and deliver grants
of its own that no waiting rollout holds. -/
theorem RolloutInv.move (h : RolloutInv s) (hmove : Moved s.requests s'.requests q q')
    (hkept : q'.kept = q.kept) (hstaged : q'.staged = q.staged)
    (hrows : Ended p state s.store.rollouts s'.store.rollouts) (hstate : state ≠ .canary)
    (hgrants : Delivers ids s.store.grants s'.store.grants) (hids : ∀ g ∈ ids, g ∈ q.kept)
    (hfree : ∀ ro ∈ s.store.rollouts.rows, ro.state ≠ .released → ∀ g ∈ ids, g ∉ ro.heldGrants)
    (htick : s'.tick = s.tick) (hreleases : s'.releases = s.releases)
    (hp : ∀ ro, s.tick.releasing = some ro → p ro.id = false) (hphase : s'.PhaseOk q') :
    RolloutInv s' := by
  refine ⟨h.toRowsInv.frame hrows hstate (hmove.sameRequests hkept hstaged),
    h.toTickInv.frame hrows htick hreleases hp, fun x hx => ?_, fun ro hro hne hmarked => ?_⟩
  · rcases hmove.back x hx with rfl | ⟨hx, hid⟩
    · exact hphase
    · refine (h.phases x hx).frame hgrants ?_ fun ro hro _ hne => hrows.unreleased hro hne
      exact fun _ g hg hg' => hid (h.apart x hx q hmove.mem g hg' (hids g hg))
  · obtain ⟨x, hx, hsame, hne'⟩ := hrows.unreleased hro hne
    rw [hsame.id] at hmarked
    rw [hsame.heldGrants]
    refine (h.pending x hx hne' ?_).frame hgrants (hfree x hx hne')
    unfold Marked at hmarked ⊢
    rw [htick] at hmarked
    exact hmarked

theorem RolloutInv.moveOther (h : RolloutInv s) (hmove : Moved s.requests s'.requests q q')
    (hkept : q'.kept = q.kept) (hstaged : q'.staged = q.staged)
    (hrows : s'.store.rollouts = s.store.rollouts)
    (hgrants : Delivers [] s.store.grants s'.store.grants) (htick : s'.tick = s.tick)
    (hreleases : s'.releases = s.releases) (hphase : s'.PhaseOk q') : RolloutInv s' := by
  have hended : Ended (fun _ => false) .halted s.store.rollouts s'.store.rollouts :=
    hrows ▸ ended_refl _
  exact h.move hmove hkept hstaged hended (by decide) hgrants nofun
    nofun htick hreleases (fun _ _ => rfl) hphase

end Move

/-- With one rollout waiting, `AgentRollouts` reads it. -/
theorem RowsInv.mem_active (h : RowsInv s) {ro : AgentRollout} (hro : ro ∈ s.store.rollouts.rows)
    (hstate : ro.state = .canary) (limit : ℕ) (hlimit : 0 < limit) : ro ∈ s.store.rollouts.active limit := by
  have hmem : ∀ x ∈ s.store.rollouts.rows.filter (fun r => r.state = .canary), x = ro := by
    intro x hx
    obtain ⟨hx, hc⟩ := List.mem_filter.mp hx
    exact h.oneActive x hx ro hro (by simpa using hc) hstate
  have hnodup : (s.store.rollouts.rows.filter fun r => r.state = .canary).Nodup :=
    (List.Nodup.of_map _ s.store.rollouts.nodup).filter _
  have hlen : (s.store.rollouts.rows.filter fun r => r.state = .canary).length ≤ 1 := by
    rw [eq_replicate_of_mem hmem] at hnodup
    exact nodup_replicate.mp hnodup
  rw [RolloutTable.active, take_of_length_le]
  · exact mem_reverse.mpr (List.mem_filter.mpr ⟨hro, by simpa using hstate⟩)
  · rw [length_reverse]
    omega

section Create

variable {ro : AgentRollout}

theorem superseded_not_canary {T : RolloutTable} (hx : x ∈ T.supersede.2.rows) : x.state ≠ .canary := by
  rcases (ended_supersede T).mem hx with ⟨-, hnot⟩ | ⟨y, -, -, -, rfl⟩
  · exact fun hc => hnot ⟨hc, rfl⟩
  · exact nofun

theorem RowsInv.insert (h : RowsInv s) (hidle : ∀ x ∈ s.store.rollouts.rows, x.state ≠ .canary)
    (hmove : Moved s.requests s'.requests q q') (hstage : s.Staging q ro.canary ro.heldGrants)
    (hkept : q'.kept = q.kept) (hstaged : q'.staged = some ro.id)
    (hrows : ∀ x, x ∈ s'.store.rollouts.rows ↔ x ∈ s.store.rollouts.rows ∨ x = ro) : RowsInv s' := by
  constructor
  · intro a ha b hb hca hcb
    rcases (hrows a).mp ha with ha | rfl
    · exact absurd hca (hidle a ha)
    · rcases (hrows b).mp hb with hb | rfl
      · exact absurd hcb (hidle b hb)
      · rfl
  · intro x hx
    rcases (hrows x).mp hx with hx | rfl
    · obtain ⟨q0, hq0, hstaged0, hheld⟩ := h.owner x hx
      have hne : q0.id ≠ q.id := by
        intro hid
        rw [Table.eq_of_key hq0 hmove.mem hid, hstage.1] at hstaged0
        cases hstaged0
      exact ⟨q0, hmove.kept q0 hq0 hne, hstaged0, hheld⟩
    · exact ⟨q', hmove.moved, hstaged, hkept ▸ hstage.2.2.2⟩
  · refine h.apart_of fun x hx => ?_
    rcases hmove.back x hx with rfl | ⟨hx, -⟩
    · exact ⟨q, hmove.mem, hmove.id.symm, hkept.symm⟩
    · exact ⟨x, hx, rfl, rfl⟩
  · intro x hx id hid
    rcases hmove.back x hx with rfl | ⟨hx, -⟩
    · rw [hstaged] at hid
      exact ⟨ro, (hrows ro).mpr (.inr rfl), Option.some.inj hid⟩
    · obtain ⟨y, hy, rfl⟩ := h.staged x hx id hid
      exact ⟨y, (hrows y).mpr (.inl hy), rfl⟩
  · intro x hx
    rcases (hrows x).mp hx with hx | rfl
    · exact h.canaries x hx
    · exact hstage.2.1

/-- The rollout of a staging request is added where none waits. -/
theorem RolloutInv.insert (h : RolloutInv s) (hidle : ∀ x ∈ s.store.rollouts.rows, x.state ≠ .canary)
    (hmove : Moved s.requests s'.requests q q') (hstage : s.Staging q ro.canary ro.heldGrants)
    (hkept : q'.kept = q.kept) (hstaged : q'.staged = some ro.id)
    (hT : s.store.rollouts.insert ro = some s'.store.rollouts) (hgrants : s'.store.grants = s.store.grants)
    (htick : s'.tick = s.tick) (hreleases : s'.releases = s.releases) (hnone : s.tick.releasing = none)
    (hphase : Quiet q'.phase) : RolloutInv s' := by
  obtain ⟨happend, hfresh⟩ := Table.insert_rows hT
  have hrows : ∀ x, x ∈ s'.store.rollouts.rows ↔ x ∈ s.store.rollouts.rows ∨ x = ro := by
    intro x
    rw [happend, mem_append, mem_singleton]
  have hold : ∀ x ∈ s.store.rollouts.rows, x ∈ s'.store.rollouts.rows := fun x hx => (hrows x).mpr (.inl hx)
  have hdelivers : Delivers [] s.store.grants s'.store.grants := hgrants ▸ delivers_refl _
  refine ⟨h.toRowsInv.insert hidle hmove hstage hkept hstaged hrows, ⟨?_, ?_, ?_, ?_⟩, ?_, ?_⟩
  · intro x hx
    obtain ⟨y, hy, hsame⟩ := h.rows x (htick ▸ hx)
    exact ⟨y, hold y hy, hsame⟩
  · intro x hx
    rw [htick, hnone] at hx
    cases hx
  · rw [htick]
    exact h.evidence
  · intro r hr
    obtain ⟨hall, y, hy, hsame, hstate⟩ := h.toTickInv.recorded hnone (hreleases ▸ hr)
    exact ⟨hall, y, hold y hy, hsame, .inl hstate⟩
  · intro x hx
    rcases hmove.back x hx with rfl | ⟨hx, -⟩
    · exact phaseOk_of_quiet hphase
    · refine (h.phases x hx).frame hdelivers nofun fun y hy hst hne => ?_
      rcases (hrows y).mp hy with hy | rfl
      · exact ⟨y, hy, rfl, hne⟩
      · -- the id of the new rollout is that of no other
        obtain ⟨z, hz, hid⟩ := h.staged x hx _ hst
        have hfound := Table.find_of_mem hz
        rw [hid, hfresh] at hfound
        cases hfound
  · intro x hx hne _
    rcases (hrows x).mp hx with hx | rfl
    · exact (h.pending x hx hne (not_marked_of_releasing hnone)).frame hdelivers nofun
    · refine Pending.frame (fun g hg hheld => ?_) hdelivers nofun
      exact hstage.2.2.1 g hg (hstage.2.2.2 _ hheld)

theorem RolloutInv.supersede (h : RolloutInv s) (hnone : s.tick.releasing = none) :
    RolloutInv { s with store := { s.store with rollouts := s.store.rollouts.supersede.2 } } := by
  refine h.advance rfl (ended_supersede _) (by decide) (delivers_refl _) nofun ?_
    fun _ _ _ _ => ⟨not_marked_of_releasing hnone, nofun⟩
  exact h.toTickInv.frame (ended_supersede _) rfl rfl fun x hx => by rw [hnone] at hx; cases hx

end Create

variable {requests : Table Request.id}

theorem RolloutInv.phaseOk_settled (h : RolloutInv s) (hok : s.Undisturbed q.staged q.phase) (hq : q.phase = .settle) :
    PhaseOk { s with requests := requests }
      { q with phase := .mark (q.kept.filter (· ∉ s.store.rollouts.heldGrants)) } := by
  refine ⟨fun g hg => (List.mem_filter.mp hg).1, fun ro hro hstaged hne g hg hheld => ?_⟩
  rw [hq] at hok
  have hcanary : ro.state = .canary := (hok ro hro hstaged).resolve_right hne
  have hactive := h.toRowsInv.mem_active hro hcanary 100 (by decide)
  have hg := (List.mem_filter.mp hg).2
  rw [decide_eq_true_eq] at hg
  exact hg (mem_flatMap.mpr ⟨ro, hactive, hheld⟩)

theorem RequestMove.id (h : RequestMove st q st' q') : q'.id = q.id := by
  cases h <;> rfl

theorem RolloutInv.request (h : RolloutInv s) (hmove : RequestMove s.store q st' q')
    (hmoved : Moved s.requests requests q q') (hok : s.Undisturbed q.staged q.phase) :
    RolloutInv { s with store := st', requests := requests } := by
  have hphase := h.phases q hmoved.mem
  cases hmove with
  | other jobs grants phase hgrants hquiet =>
    exact h.moveOther hmoved rfl rfl rfl hgrants rfl rfl (phaseOk_of_quiet hquiet)
  | chosen hq hheld =>
    refine h.moveOther hmoved rfl rfl rfl (delivers_refl _) rfl rfl ?_
    rw [PhaseOk, hq] at hphase
    exact ⟨hphase.1, hphase.2.1, hphase.2.2.1, fun g hg => hphase.2.2.2 g (hheld g hg)⟩
  | vetted hq =>
    refine h.moveOther hmoved rfl rfl rfl (delivers_refl _) rfl rfl ?_
    rw [PhaseOk, hq] at hphase
    exact hphase
  | created hq hT hquiet =>
    rw [PhaseOk, hq] at hphase
    rw [hq] at hok
    refine (h.supersede hok).insert (fun _ => superseded_not_canary) hmoved ?_ rfl rfl hT rfl rfl rfl hok hquiet
    exact hphase
  | superseded hq hquiet =>
    rw [hq] at hok
    refine h.move hmoved rfl rfl (ended_supersede _) (by decide) (delivers_refl _)
      nofun nofun rfl rfl ?_ (phaseOk_of_quiet hquiet)
    intro ro hro
    rw [show s.tick.releasing = none from hok] at hro
    cases hro
  | settled hq =>
    exact h.moveOther hmoved rfl rfl rfl (delivers_refl _) rfl rfl (h.phaseOk_settled hok hq)
  | marked hq =>
    rw [PhaseOk, hq] at hphase
    refine h.move hmoved rfl rfl (ended_refl _) (by decide) (delivers_mark _ _) hphase.1 ?_ rfl rfl
      (fun _ _ => rfl) trivial
    intro ro hro hne g hg hheld
    exact hphase.2 ro hro (h.owned hro hmoved.mem hheld (hphase.1 g hg)) hne g hg hheld
  | halted hq hquiet =>
    rw [hq] at hok
    refine h.move hmoved rfl rfl (ended_finish _ _ _) (by decide) (delivers_refl _)
      nofun nofun rfl rfl ?_ (phaseOk_of_quiet hquiet)
    exact fun ro hro => by simpa using hok ro hro

/-- A new request whose grants, if it has any, are pending and no other's. -/
theorem RolloutInv.accept (h : RolloutInv s) {grants : GrantTable} (hrequests : s.requests.insert q = some requests)
    (hstaged : q.staged = none) (hfresh : ∀ g ∈ q.kept, ∀ x ∈ s.requests.rows, g ∉ x.kept)
    (hgrants : Delivers [] s.store.grants grants)
    (hphase : PhaseOk { s with store := { s.store with grants := grants }, requests := requests } q) :
    RolloutInv { s with store := { s.store with grants := grants }, requests := requests } := by
  have hrows : ∀ x, x ∈ requests.rows ↔ x ∈ s.requests.rows ∨ x = q := by
    intro x
    rw [(Table.insert_rows hrequests).1, mem_append, mem_singleton]
  refine ⟨⟨h.oneActive, ?_, ?_, ?_, h.canaries⟩, ⟨h.rows, h.releasing, h.evidence, h.released⟩, ?_, ?_⟩
  · intro ro hro
    obtain ⟨x, hx, hst, hheld⟩ := h.owner ro hro
    exact ⟨x, (hrows x).mpr (.inl hx), hst, hheld⟩
  · intro x hx x' hx' g hg hg'
    rcases (hrows x).mp hx with hx | rfl
    · rcases (hrows x').mp hx' with hx' | rfl
      · exact h.apart x hx x' hx' g hg hg'
      · exact absurd hg (hfresh g hg' x hx)
    · rcases (hrows x').mp hx' with hx' | rfl
      · exact absurd hg' (hfresh g hg x' hx')
      · rfl
  · intro x hx id hid
    rcases (hrows x).mp hx with hx | rfl
    · exact h.staged x hx id hid
    · rw [hstaged] at hid
      cases hid
  · intro x hx
    rcases (hrows x).mp hx with hx | rfl
    · exact (h.phases x hx).frame hgrants nofun fun ro hro _ hne => ⟨ro, hro, rfl, hne⟩
    · exact hphase
  · intro ro hro hne hmarked
    exact (h.pending ro hro hne hmarked).frame hgrants nofun

end Requests

/-! ## Runs -/

section Runs

variable {s s' : RolloutSystem}

theorem pending_save {store : HubStore} {grants : List (ResponseGrant × Str)} {now : Int}
    (hstore : store.grants = s.store.grants.save (grants.map fun g => ⟨g.1, g.2, false⟩) now) :
    Pending { s with store := store } (grants.map (·.1.grantID)) := by
  intro g hg hkept
  rw [hstore] at hg
  rcases GrantTable.mem_save hg with ⟨-, hnot⟩ | hg
  · rw [map_map] at hnot
    exact absurd hkept hnot
  · obtain ⟨x, -, rfl⟩ := mem_map.mp hg
    rfl

theorem delivers_save (G : GrantTable) (grants : List (ResponseGrant × Str)) (now : Int) :
    Delivers [] G (G.save (grants.map fun g => ⟨g.1, g.2, false⟩) now) := by
  intro g hg hd
  rcases GrantTable.mem_save hg with ⟨hg, -⟩ | hg
  · exact .inl hg
  · obtain ⟨x, -, rfl⟩ := mem_map.mp hg
    cases hd

theorem phaseOk_first {id : ℕ} {version : Str} {all : Bool} {ids canary : List Str}
    {grants : List (ResponseGrant × Str)} (h : s.Pending (grants.map (·.1.grantID))) :
    s.PhaseOk ⟨id, version, grants.map (·.1.grantID), none, firstPhase all ids canary grants⟩ := by
  unfold firstPhase
  split
  · trivial
  · rename_i hcanary
    refine ⟨rfl, hcanary, h, fun g hg => ?_⟩
    rw [map_map] at hg
    exact hg

theorem RolloutInv.step (h : RolloutInv s) {e : RolloutEvent} (hsteady : s.Steady e)
    (hfresh : s.FreshGrants e) (hstep : s.step installable e = some s') : RolloutInv s' := by
  cases e with
  | endpoints eps | completed endpointID =>
    cases hstep
    exact h.advance rfl (ended_refl _) (by decide) (delivers_refl _) nofun
      (h.toTickInv.frame (ended_refl _) rfl rfl fun _ _ => rfl)
      fun _ _ _ hm => ⟨hm, nofun⟩
  | start now =>
    dsimp only [RolloutSystem.step] at hstep
    split at hstep
    · rename_i hidle
      cases hstep
      have hnone : s.tick.releasing = none := by rw [hidle]; rfl
      have hrows : ∀ ro ∈ s.store.rollouts.active 20, ro ∈ s.store.rollouts.rows := by
        intro ro hro
        exact (List.mem_filter.mp (mem_reverse.mp (mem_of_mem_take hro))).1
      exact h.place hnone (h.toTickInv.next hnone (fun ro hro => ⟨ro, hrows ro hro, rfl⟩)
        (fun ro hro => h.canaries ro (hrows ro hro)) _)
    · cases hstep
  | tick => exact h.stepTick installable hsteady hstep
  | update id version all ids canary grants now =>
    obtain ⟨requests, hrequests, rfl⟩ := Option.map_eq_some_iff.mp hstep
    have hapart : ∀ g ∈ grants.map (·.1.grantID), ∀ x ∈ s.requests.rows, g ∉ x.kept := by
      intro g hg
      obtain ⟨x, hx, rfl⟩ := mem_map.mp hg
      exact hfresh x hx
    split
    · rename_i hgrants
      subst hgrants
      exact h.accept hrequests rfl hapart (delivers_refl _) (phaseOk_first fun _ _ hg => by cases hg)
    · exact h.accept hrequests rfl hapart (delivers_save _ _ _) (phaseOk_first (pending_save rfl))
  | rollback id version =>
    obtain ⟨requests, hrequests, rfl⟩ := Option.map_eq_some_iff.mp hstep
    exact h.accept hrequests rfl nofun (delivers_refl _) trivial
  | request id rolloutID now =>
    obtain ⟨q, hq, hstep⟩ := Option.bind_eq_some_iff.mp hstep
    obtain ⟨⟨store, q'⟩, hmove, hstep⟩ := Option.bind_eq_some_iff.mp hstep
    cases hstep
    have hmove := request_move installable hmove
    exact h.request hmove (moved_update hq hmove.id) (hsteady q hq)

theorem RolloutInv.initial (h : s.Initial) : RolloutInv s := by
  obtain ⟨hrows, hrequests, htick, hreleases⟩ := h
  constructor
  · constructor <;> simp [hrows, hrequests]
  · constructor <;> simp [hreleases, htick, inHand, Tick.releasing, Evidence]
  · simp [hrequests]
  · simp [hrows]

theorem RolloutInv.state_releasing (h : RolloutInv s) {ro : AgentRollout} (hro : ro ∈ s.store.rollouts.rows)
    (hx : s.tick.releasing = some x) (hid : x.id = ro.id) : ro.state = .canary := by
  obtain ⟨y, hy, hyid, hstate⟩ := h.releasing x hx
  rw [Table.eq_of_key hro hy (hid.symm.trans hyid.symm)]
  exact hstate

theorem RolloutInv.sound (h : RolloutInv s) : s.Sound := by
  refine ⟨fun ro hro hended => ?_, fun r hr => ?_⟩
  · have hstates : ro.state ≠ .canary ∧ ro.state ≠ .released := by
      rcases hended with hended | hended <;> simp [hended]
    have hne : ∀ x, s.tick.releasing = some x → x.id ≠ ro.id :=
      fun x hx hid => hstates.1 (h.state_releasing hro hx hid)
    refine ⟨fun r hr hid => ?_, ?_⟩
    · obtain ⟨-, row, hrow, hsame, hstate⟩ := h.released r hr
      have hrowid : row.id = ro.id := hsame.id.trans hid
      rcases hstate with hstate | ⟨x, hx, hxid⟩
      · rw [Table.eq_of_key hrow hro hrowid] at hstate
        exact hstates.2 hstate
      · exact hne x hx (hxid.trans hrowid)
    · refine h.pending ro hro hstates.2 ?_
      · intro hmarked
        unfold Marked at hmarked
        split at hmarked
        · rename_i ht
          exact hne _ (by rw [ht]; rfl) hmarked
        · exact hmarked
  · obtain ⟨hall, row, hrow, hsame, -⟩ := h.released r hr
    exact ⟨hall, row, hrow, hsame⟩

/-- In every run in which no rollout is ended between the reads and the writes of those that work on
it: a rollout that was halted or superseded has released nothing, and held endpoints are released
only after a check in which every canary was healthy. -/
theorem rollout_releases_sound (hstart : s.Initial)
    (hrun : Run (Guarded (fun s e => s.Steady e ∧ s.FreshGrants e)
      (StepOf (RolloutSystem.step installable))) s s') : s'.Sound := by
  have hinv : RolloutInv s' :=
    hrun.preserves (fun _ _ _ h hstep => h.step installable hstep.1.1 hstep.1.2 hstep.2)
      (RolloutInv.initial hstart)
  exact hinv.sound

end Runs

/-! Version 2.0 for two endpoints, of which e1 is the canary. -/

def sampleEndpoint (id version : Str) (lastSeenAt : Time) : Endpoint where
  id := id
  driverVersion := version
  updateCapability := str "deb"
  provenanceStatus := str "native"
  installType := str "deb"
  packageIdentifier := str "ominull-agent"
  registeredPackageVersion := version
  lastSeenAt := lastSeenAt

def updateGrant (id endpointID : Str) : ResponseGrant × Str :=
  ({ version := 2, grantID := id, tenantID := str "t", endpointID := endpointID,
     actionKind := str "agent_update", actionDigest := [], issuedAt := 0, expiresAt := 900 }, [])

def rolloutStart : RolloutSystem where
  store := ⟨[sampleEndpoint (str "e1") (str "1.0") 0, sampleEndpoint (str "e2") (str "1.0") 0],
    Table.empty, Table.empty, Table.empty⟩

/-- A request stages the rollout; it queues the canary and releases the canary's grant. -/
def staging : List RolloutEvent :=
  .update 0 (str "2.0") false [str "e1", str "e2"] [str "e1"]
      [updateGrant (str "g1") (str "e1"), updateGrant (str "g2") (str "e2")] 0 ::
    List.replicate 9 (.request 0 (str "r1") 0)

/-- The canary runs the new version; the advance loop checks it, queues e2 and releases g2. -/
def advancing : List RolloutEvent :=
  [.endpoints [sampleEndpoint (str "e1") (str "2.0") 0, sampleEndpoint (str "e2") (str "1.0") 0],
    .start 0, .tick, .tick, .tick, .tick, .tick]

theorem rollout_releases_sound_sample :
    ∃ s, runList (RolloutSystem.step fun _ _ => true) rolloutStart (staging ++ advancing ++ [.tick]) = some s ∧
      s.releases.length = 2 ∧ s.Sound := by
  refine exists_runList (fun s => s.releases.length = 2) (by decide +kernel) fun s hs hlength => ⟨hlength, ?_⟩
  exact rollout_releases_sound _ ⟨rfl, rfl, rfl, rfl⟩ (run_of_runList hs (by decide +kernel))

/-- An update of the fleet to another version supersedes the rollout before its release is recorded:
the rollout ends superseded, with e2 queued and its grant deliverable. -/
theorem superseded_rollout_released : ∃ s, rolloutStart.Initial ∧
    runList (RolloutSystem.step fun _ _ => true) rolloutStart
      (staging ++ advancing ++ [.update 1 (str "3.0") true [] [] [] 0, .request 1 [] 0, .tick]) = some s ∧
    Meets (RolloutSystem.step fun _ _ => true) FreshGrants rolloutStart
      (staging ++ advancing ++ [.update 1 (str "3.0") true [] [] [] 0, .request 1 [] 0, .tick]) ∧
    ∃ ro ∈ s.store.rollouts.rows, ro.state = .superseded ∧
      (∃ r ∈ s.releases, r.rollout.id = ro.id ∧ r.endpoint = some (str "e2")) ∧
      ∃ g ∈ s.store.grants.rows, g.grantID ∈ ro.heldGrants ∧ g.deliverable = true := by
  exact exists_and_left.mpr ⟨⟨rfl, rfl, rfl, rfl⟩,
    exists_runList _ (by decide +kernel) fun s _ hreleased => ⟨by decide +kernel, hreleased⟩⟩

end RolloutSystem

end Ominull.Hub
