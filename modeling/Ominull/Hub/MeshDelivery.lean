import Ominull.Hub.IsolationDelivery
import Ominull.Lib.Run

/-!
Mesh grants reach an agent through one watermark: a heartbeat answer carries the oldest deliverable
grants above it, and what the agent processes moves it up. Grants are issued, kept and released by
requests that run side by side, so one that is released late may already lie below the watermark.
-/

namespace Ominull.Hub

open Lib Agent List

def maxMeshGrantsSent : ℕ := 4

/-- The grants `addTrustControl` puts into a heartbeat answer. -/
def answerFor (T : GrantTable) (tenantID endpointID : Str) (isoSeen meshSeen now : Int) :
    List StoredGrant :=
  (T.latestIsolationGrant endpointID isoSeen now).toList ++
    (T.meshGrantsAfter meshSeen now maxMeshGrantsSent).filter fun g => g.tenantID = tenantID

/-- The hub's grants and one agent. The answer is the one under way to the agent; `sent` and
`processed` are the grants of all answers, and of those the agent has received. -/
structure MeshSystem where
  table : GrantTable
  clock : Int
  agent : TrustContext
  answer : Option (List StoredGrant) := none
  sent : List StoredGrant := []
  processed : List StoredGrant := []

inductive MeshEvent where
  /-- `keepApprovalGrants`, before the action runs -/
  | keep (grants : List (ResponseGrant × Str))
  /-- `signDetectorIsolation` -/
  | detect (g : ResponseGrant) (payload : Str)
  /-- `MarkGrantsDeliverable`, after the action succeeded -/
  | release (ids : List Str)
  /-- `DeleteEnforcementGrants`, after it failed -/
  | withdraw (ids : List Str)
  | tick (now : Int)
  /-- the agent reports its watermarks and the hub answers -/
  | beat
  /-- the answer does not arrive -/
  | drop
  /-- the agent processes the answer; the outcomes are those of its writes -/
  | receive (now : Int) (disk : Disk File) (outcomes : List Outcome)
  /-- the agent's keys, manifest or other settings change -/
  | reconfigure (t : TrustContext)

namespace MeshSystem

def step (C : Crypto) (tenantID : Str) (s : MeshSystem) : MeshEvent → Option MeshSystem
  | .keep grants => some { s with table := s.table.save (grants.map fun g => ⟨g.1, g.2, false⟩) s.clock }
  | .detect g payload =>
    if g.actionKind = str "auto_isolate" then
      some { s with table := s.table.save [⟨g, payload, true⟩] s.clock }
    else none
  | .release ids => some { s with table := s.table.markDeliverable ids }
  | .withdraw ids => some { s with table := s.table.delete ids }
  | .tick now => if s.clock ≤ now then some { s with clock := now } else none
  | .beat =>
    let answer := answerFor s.table tenantID s.agent.endpointID s.agent.state.isoSeen
      s.agent.state.meshSeen s.clock
    some { s with answer := some answer, sent := s.sent ++ answer }
  | .drop => some { s with answer := none }
  | .receive now disk outcomes => do
    let answer ← s.answer
    let r ← ((deliver C now s.agent answer).exec disk outcomes).result
    some { s with agent := r.2, answer := none, processed := s.processed ++ answer }
  | .reconfigure t => if t.state = s.agent.state then some { s with agent := t } else none

def IsMesh (tenantID : Str) (g : StoredGrant) : Prop := isMeshKind g.kind = true ∧ g.tenantID = tenantID

instance (tenantID : Str) (g : StoredGrant) : Decidable (IsMesh tenantID g) :=
  inferInstanceAs (Decidable (_ ∧ _))

/-- The tenant's mesh grants were issued at different times, after the epoch. -/
def IssuedApart (tenantID : Str) (T : GrantTable) : Prop :=
  (∀ g ∈ T.rows, IsMesh tenantID g → 0 < g.issuedAt) ∧
    ∀ g ∈ T.rows, IsMesh tenantID g → ∀ g' ∈ T.rows, IsMesh tenantID g' →
      g.issuedAt = g'.issuedAt → g = g'

/-- What the authority guarantees about the grants it signs. -/
def Issued (tenantID : Str) (s : MeshSystem) : MeshEvent → Prop
  | .keep grants =>
    IssuedApart tenantID (s.table.save (grants.map fun g => ⟨g.1, g.2, false⟩) s.clock)
  | _ => True

def InOrder (tenantID : Str) (s : MeshSystem) : MeshEvent → Prop
  | .release ids => ∀ g ∈ s.table.rows, g.grantID ∈ ids → g.deliverable = false → IsMesh tenantID g →
      ∀ m ∈ s.sent, IsMesh tenantID m → m.issuedAt < g.issuedAt
  | _ => True

/-- Every deliverable mesh grant that has not expired is above the agent's watermark or was
processed by it. -/
def NoneLost (tenantID : Str) (s : MeshSystem) : Prop :=
  ∀ g ∈ s.table.rows, IsMesh tenantID g → g.deliverable = true → s.clock < g.expiresAt →
    g.issuedAt ≤ s.agent.state.meshSeen → g ∈ s.processed

instance (tenantID : Str) (T : GrantTable) : Decidable (IssuedApart tenantID T) :=
  inferInstanceAs (Decidable (_ ∧ _))

instance (tenantID : Str) (s : MeshSystem) (e : MeshEvent) : Decidable (Issued tenantID s e) := by
  cases e <;> dsimp only [Issued] <;> infer_instance

instance (tenantID : Str) (s : MeshSystem) (e : MeshEvent) : Decidable (InOrder tenantID s e) := by
  cases e <;> dsimp only [InOrder] <;> infer_instance

instance (tenantID : Str) (s : MeshSystem) : Decidable (s.NoneLost tenantID) :=
  inferInstanceAs (Decidable (∀ _ ∈ s.table.rows, _ → _ → _ → _ → _))

def Initial (s : MeshSystem) : Prop :=
  s.table.rows = [] ∧ s.agent.state.meshSeen = 0 ∧ s.answer = none ∧ s.sent = [] ∧ s.processed = []

instance (s : MeshSystem) : Decidable s.Initial :=
  inferInstanceAs (Decidable (_ ∧ _ ∧ _ ∧ _ ∧ _))

section Agent

variable {C : Crypto} {t u : TrustContext} {now : Int} {d : Disk File} {os : List Outcome}

theorem applyGrant_meshSeen {g : ResponseGrant} {payload : Str} {c : Bool}
    (h : ((applyGrant C t g payload now).exec d os).result = some (c, u)) :
    u.state.meshSeen = t.state.meshSeen ∨
      (isMeshKind g.actionKind = true ∧ u.state.meshSeen = g.issuedAt) := by
  rcases applyGrant_result h with rfl | ⟨changed, s, hjudge, -, -, -, rfl, -⟩
  · exact .inl rfl
  · have hseen : s.meshSeen = (t.state.mark (isMeshKind g.actionKind) g.issuedAt).meshSeen :=
      judgeGrant_seen hjudge true
    rw [hseen]
    cases isMeshKind g.actionKind
    · exact .inl rfl
    · exact .inr ⟨rfl, rfl⟩

/-- Processing a list leaves the mesh watermark, or moves it to the issue time of a mesh grant of
the list. -/
theorem applyGrants_meshSeen {gs : List StoredGrant} {c c' : Bool}
    (h : ((applyGrants C now (gs.map StoredGrant.wire) (c, t)).exec d os).result = some (c', u)) :
    u.state.meshSeen = t.state.meshSeen ∨
      ∃ m ∈ gs, isMeshKind m.kind = true ∧ u.state.meshSeen = m.issuedAt := by
  induction gs generalizing t c d os with
  | nil =>
    cases h
    exact .inl rfl
  | cons g gs ih =>
    obtain ⟨⟨c₁, t₁⟩, hfirst, hrest⟩ := Prog.exec_bind_result h
    rcases ih hrest with heq | ⟨m, hm, hkind, heq⟩
    · rcases applyGrant_meshSeen hfirst with h₁ | ⟨hkind, h₁⟩
      · exact .inl (heq.trans h₁)
      · exact .inr ⟨g, mem_cons_self, hkind, heq.trans h₁⟩
    · exact .inr ⟨m, mem_cons_of_mem _ hm, hkind, heq⟩

end Agent

section Invariant

variable {C : Crypto} {tenantID : Str} {s s' : MeshSystem}

def Live (tenantID : Str) (s : MeshSystem) (g : StoredGrant) : Prop :=
  g ∈ s.table.rows ∧ IsMesh tenantID g ∧ g.deliverable = true ∧ s.clock < g.expiresAt

structure MeshInv (tenantID : Str) (s : MeshSystem) : Prop where
  apart : IssuedApart tenantID s.table
  lost : ∀ g, Live tenantID s g → g.issuedAt ≤ s.agent.state.meshSeen → g ∈ s.processed
  /-- the answer under way has no gap -/
  complete : ∀ gs ∈ s.answer, ∀ g, Live tenantID s g → s.agent.state.meshSeen < g.issuedAt →
    ∀ m ∈ gs, IsMesh tenantID m → g.issuedAt ≤ m.issuedAt → g ∈ gs
  answered : ∀ gs ∈ s.answer, ∀ m ∈ gs, m ∈ s.sent ∧ (isMeshKind m.kind = true → m.tenantID = tenantID)
  mark : s.agent.state.meshSeen = 0 ∨
    ∃ m ∈ s.sent, IsMesh tenantID m ∧ s.agent.state.meshSeen = m.issuedAt

theorem MeshInv.shrink (h : MeshInv tenantID s) (hapart : IssuedApart tenantID s'.table)
    (hlive : ∀ g, Live tenantID s' g → Live tenantID s g)
    (hseen : s'.agent.state.meshSeen = s.agent.state.meshSeen) (hanswer : s'.answer = s.answer)
    (hsent : s'.sent = s.sent) (hprocessed : s'.processed = s.processed) : MeshInv tenantID s' := by
  refine ⟨hapart, fun g hg => ?_, fun gs hgs g hg => ?_, fun gs hgs => ?_, ?_⟩
  · rw [hseen, hprocessed]
    exact h.lost g (hlive g hg)
  · rw [hseen]
    rw [hanswer] at hgs
    exact h.complete gs hgs g (hlive g hg)
  · rw [hanswer] at hgs
    rw [hsent]
    exact h.answered gs hgs
  · rw [hseen, hsent]
    exact h.mark

theorem IssuedApart.sub {T T' : GrantTable} (h : IssuedApart tenantID T)
    (hsub : ∀ g ∈ T'.rows, IsMesh tenantID g → g ∈ T.rows) : IssuedApart tenantID T' :=
  ⟨fun g hg hm => h.1 g (hsub g hg hm) hm,
    fun g hg hm g' hg' hm' => h.2 g (hsub g hg hm) hm g' (hsub g' hg' hm') hm'⟩

theorem IssuedApart.mark {T : GrantTable} (h : IssuedApart tenantID T) (ids : List Str) :
    IssuedApart tenantID (T.markDeliverable ids) := by
  have hrow : ∀ g ∈ (T.markDeliverable ids).rows, ∃ x ∈ T.rows, x.grant = g.grant ∧
      g = if x.grantID ∈ ids then { x with deliverable := true } else x := by
    intro g hg
    obtain ⟨x, hx, rfl⟩ := Table.mem_modify.mp hg
    refine ⟨x, hx, ?_, rfl⟩
    split <;> rfl
  have hmesh : ∀ {g x : StoredGrant}, x.grant = g.grant → IsMesh tenantID g → IsMesh tenantID x :=
    fun heq hm => by
      unfold IsMesh StoredGrant.kind StoredGrant.tenantID
      rw [heq]
      exact hm
  constructor
  · intro g hg hm
    obtain ⟨x, hx, heq, -⟩ := hrow g hg
    have hpos := h.1 x hx (hmesh heq hm)
    unfold StoredGrant.issuedAt at hpos ⊢
    rwa [heq] at hpos
  · intro g hg hm g' hg' hm' htime
    obtain ⟨x, hx, heq, rfl⟩ := hrow g hg
    obtain ⟨x', hx', heq', rfl⟩ := hrow g' hg'
    unfold StoredGrant.issuedAt at htime
    rw [← heq, ← heq'] at htime
    rw [h.2 x hx (hmesh heq hm) x' hx' (hmesh heq' hm') htime]

theorem MeshInv.below (h : MeshInv tenantID s) {g : StoredGrant} (hpos : 0 < g.issuedAt)
    (hsent : ∀ m ∈ s.sent, IsMesh tenantID m → m.issuedAt < g.issuedAt) : s.agent.state.meshSeen < g.issuedAt := by
  rcases h.mark with hzero | ⟨m, hm, hmesh, heq⟩
  · omega
  · rw [heq]
    exact hsent m hm hmesh

theorem release_inv (h : MeshInv tenantID s) (ids : List Str)
    (horder : InOrder tenantID s (.release ids)) :
    MeshInv tenantID { s with table := s.table.markDeliverable ids } := by
  -- a live grant was live before, or has just become deliverable and is above all that was sent
  have hlive : ∀ g, Live tenantID { s with table := s.table.markDeliverable ids } g →
      Live tenantID s g ∨ (0 < g.issuedAt ∧ ∀ m ∈ s.sent, IsMesh tenantID m → m.issuedAt < g.issuedAt) := by
    rintro g ⟨hg, hmesh, hd, hvalid⟩
    rcases GrantTable.mem_markDeliverable hg with hold | ⟨x, hx, hid, hpending, rfl⟩
    · exact .inl ⟨hold, hmesh, hd, hvalid⟩
    · exact .inr ⟨h.apart.1 x hx hmesh, horder x hx hid hpending hmesh⟩
  refine ⟨h.apart.mark ids, fun g hg hle => ?_, fun gs hgs g hg hnew m hm hmesh hle => ?_, h.answered,
    h.mark⟩
  · rcases hlive g hg with hold | ⟨hpos, habove⟩
    · exact h.lost g hold hle
    · exact absurd hle (not_le.mpr (h.below hpos habove))
  · rcases hlive g hg with hold | ⟨-, habove⟩
    · exact h.complete gs hgs g hold hnew m hm hmesh hle
    · exact absurd hle (not_le.mpr (habove m (h.answered gs hgs m hm).1 hmesh))

theorem mem_answerFor {T : GrantTable} {endpointID : Str} {isoSeen meshSeen now : Int}
    {m : StoredGrant} (h : m ∈ answerFor T tenantID endpointID isoSeen meshSeen now)
    (hkind : isMeshKind m.kind = true) :
    m ∈ T.meshGrantsAfter meshSeen now maxMeshGrantsSent ∧ m.tenantID = tenantID := by
  rcases mem_append.mp h with h | h
  · have hiso := (GrantTable.mem_isolationGrants.mp (argmax_mem (Option.mem_toList.mp h))).2.2.1
    rw [not_isMeshKind hiso] at hkind
    cases hkind
  · simpa using List.mem_filter.mp h

theorem beat_inv (h : MeshInv tenantID s) {answer : List StoredGrant}
    (hanswer : answer = answerFor s.table tenantID s.agent.endpointID s.agent.state.isoSeen
      s.agent.state.meshSeen s.clock) :
    MeshInv tenantID { s with answer := some answer, sent := s.sent ++ answer } := by
  have hmem : ∀ m ∈ answer, isMeshKind m.kind = true →
      m ∈ s.table.meshGrantsAfter s.agent.state.meshSeen s.clock maxMeshGrantsSent ∧
        m.tenantID = tenantID := by
    intro m hm
    rw [hanswer] at hm
    exact mem_answerFor hm
  refine ⟨h.apart, h.lost, ?_, ?_, ?_⟩
  · rintro gs ⟨⟩ g ⟨hg, hmesh, hd, hvalid⟩ hnew m hm hmeshm hle
    obtain ⟨hafter, -⟩ := hmem m hm hmeshm.1
    have hrow := (GrantTable.mem_meshGrantsAfter hafter).1
    rcases lt_or_eq_of_le hle with hlt | heq
    · have hin := GrantTable.mem_meshGrantsAfter_of_lt hafter hg hmesh.1 hd hnew hvalid hlt
      rw [hanswer]
      exact mem_append_right _ (List.mem_filter.mpr ⟨hin, by simpa using hmesh.2⟩)
    · rw [h.apart.2 g hg hmesh m hrow hmeshm heq]
      exact hm
  · rintro gs ⟨⟩ m hm
    exact ⟨mem_append_right _ hm, fun hkind => (hmem m hm hkind).2⟩
  · rcases h.mark with hzero | ⟨m, hm, hmesh, heq⟩
    · exact .inl hzero
    · exact .inr ⟨m, mem_append_left _ hm, hmesh, heq⟩

theorem receive_inv (h : MeshInv tenantID s) {answer : List StoredGrant} {u : TrustContext}
    (hanswer : s.answer = some answer)
    (hseen : u.state.meshSeen = s.agent.state.meshSeen ∨
      ∃ m ∈ answer, isMeshKind m.kind = true ∧ u.state.meshSeen = m.issuedAt) :
    MeshInv tenantID { s with agent := u, answer := none, processed := s.processed ++ answer } := by
  have hmark : ∀ m ∈ answer, isMeshKind m.kind = true → m ∈ s.sent ∧ IsMesh tenantID m := fun m hm hkind =>
    ⟨(h.answered answer hanswer m hm).1, hkind, (h.answered answer hanswer m hm).2 hkind⟩
  refine ⟨h.apart, fun g hg hle => ?_, fun gs hgs => (by cases hgs), fun gs hgs => (by cases hgs), ?_⟩
  · by_cases hold : g.issuedAt ≤ s.agent.state.meshSeen
    · exact mem_append_left _ (h.lost g hg hold)
    · -- the watermark moved past it, so it was in the answer
      rcases hseen with heq | ⟨m, hm, hkind, heq⟩
      · rw [heq] at hle
        exact absurd hle hold
      · rw [heq] at hle
        exact mem_append_right _
          (h.complete answer hanswer g hg (not_le.mp hold) m hm (hmark m hm hkind).2 hle)
  · rcases hseen with heq | ⟨m, hm, hkind, heq⟩
    · rw [heq]
      exact h.mark
    · exact .inr ⟨m, (hmark m hm hkind).1, (hmark m hm hkind).2, heq⟩

theorem step_inv {e : MeshEvent} (h : MeshInv tenantID s) (hok : Issued tenantID s e ∧ InOrder tenantID s e)
    (hstep : s.step C tenantID e = some s') : MeshInv tenantID s' := by
  cases e with
  | keep grants =>
    cases hstep
    refine h.shrink hok.1 ?_ rfl rfl rfl rfl
    rintro g ⟨hg, hmesh, hd, hvalid⟩
    rcases GrantTable.mem_save hg with ⟨hg, -⟩ | hg
    · exact ⟨hg, hmesh, hd, hvalid⟩
    · obtain ⟨x, -, rfl⟩ := mem_map.mp hg
      cases hd
  | detect g payload =>
    dsimp only [step] at hstep
    split at hstep
    · rename_i hkind
      cases hstep
      have hold : ∀ x ∈ (s.table.save [⟨g, payload, true⟩] s.clock).rows, IsMesh tenantID x →
          x ∈ s.table.rows := by
        intro x hx hmesh
        rcases GrantTable.mem_save hx with ⟨hx, -⟩ | hx
        · exact hx
        · rw [mem_singleton.mp hx] at hmesh
          have hauto : isMeshKind g.actionKind = true := hmesh.1
          rw [hkind] at hauto
          exact absurd hauto (by decide)
      refine h.shrink (h.apart.sub hold) ?_ rfl rfl rfl rfl
      rintro x ⟨hx, hmesh, hrest⟩
      exact ⟨hold x hx hmesh, hmesh, hrest⟩
    · cases hstep
  | release ids =>
    cases hstep
    exact release_inv h ids hok.2
  | withdraw ids =>
    cases hstep
    have hold : ∀ x ∈ (s.table.delete ids).rows, x ∈ s.table.rows := fun x hx =>
      (Table.mem_filter.mp hx).1
    refine h.shrink (h.apart.sub fun x hx _ => hold x hx) ?_ rfl rfl rfl rfl
    rintro x ⟨hx, hrest⟩
    exact ⟨hold x hx, hrest⟩
  | tick now =>
    dsimp only [step] at hstep
    split at hstep
    · rename_i hlater
      cases hstep
      refine h.shrink h.apart ?_ rfl rfl rfl rfl
      rintro x ⟨hx, hmesh, hd, hvalid⟩
      exact ⟨hx, hmesh, hd, lt_of_le_of_lt hlater hvalid⟩
    · cases hstep
  | beat =>
    cases hstep
    exact beat_inv h rfl
  | drop =>
    cases hstep
    exact ⟨h.apart, h.lost, fun gs hgs => (by cases hgs), fun gs hgs => (by cases hgs), h.mark⟩
  | receive now disk outcomes =>
    obtain ⟨answer, hanswer, hstep⟩ := Option.bind_eq_some_iff.mp hstep
    obtain ⟨⟨c, u⟩, hresult, hstep⟩ := Option.bind_eq_some_iff.mp hstep
    cases hstep
    exact receive_inv h hanswer (applyGrants_meshSeen hresult)
  | reconfigure t =>
    dsimp only [step] at hstep
    split at hstep
    · rename_i hstate
      cases hstep
      refine h.shrink h.apart (fun x hx => hx) ?_ rfl rfl rfl
      rw [hstate]
    · cases hstep

end Invariant

def meshPayload (route : Str) : Str :=
  str "\x7b\"route\":\"" ++ route ++ str "\",\"body\":\x7b\"target_ip\":\"10.0.0.9\"\x7d," ++
    str "\"targets\":[\"mesh:10.0.0.9\"]\x7d"

def meshGrant (id route : Str) (issuedAt : Int) : ResponseGrant × Str :=
  let g : ResponseGrant :=
    { version := 2, grantID := id, tenantID := str "t", endpointID := str "mesh:10.0.0.9",
      actionKind := str "mesh_quarantine",
      actionDigest := sha256Hex Crypto.sample (meshPayload route), issuedAt := issuedAt,
      expiresAt := issuedAt + 900 }
  ({ g with signature := hexEncode (Crypto.sample.sign (str "rk") g.canonical) }, meshPayload route)

def quarantineGrant : ResponseGrant × Str := meshGrant (str "m1") (str "/api/v1/mesh/quarantine") 2000

def liftGrant : ResponseGrant × Str := meshGrant (str "m2") (str "/api/v1/mesh/unquarantine") 2100

def meshStart : MeshSystem where
  table := Table.empty
  clock := 2150
  agent := { sampleHost with
    manifest := some ⟨str "t", str "e1", str "respond", [str "mesh"], 1, 0, [], []⟩
    state := { present := true } }

def exchange : List MeshEvent := [.beat, .receive 2150 (fun _ => none) [.done]]

end MeshSystem

/-! ## Several tenants -/

/-- The deliverable mesh grants after a watermark, oldest first. -/
def deliverableMesh (T : GrantTable) (meshSeen now : Int) : List StoredGrant :=
  GrantTable.byIssue (T.rows.filter fun g => isMeshKind g.kind && meshSeen < g.issuedAt && now < g.expiresAt &&
    g.deliverable)

/-- The answer with the tenant's own grants, whatever the other tenants have. -/
def answerForTenant (T : GrantTable) (tenantID endpointID : Str) (isoSeen meshSeen now : Int) : List StoredGrant :=
  (T.latestIsolationGrant endpointID isoSeen now).toList ++
    ((deliverableMesh T meshSeen now).filter fun g => g.tenantID = tenantID).take maxMeshGrantsSent

/-- A limit applied before a filter loses nothing if the filter keeps all within the limit, or nothing behind it. -/
theorem filter_take_eq_iff {α : Type*} (p : α → Bool) (n : ℕ) (l : List α) :
    (l.take n).filter p = (l.filter p).take n ↔ (∀ x ∈ l.take n, p x = true) ∨ ∀ x ∈ l.drop n, p x = false := by
  have hsplit : l.filter p = (l.take n).filter p ++ (l.drop n).filter p := by
    rw [← filter_append, take_append_drop]
  have hlen : (l.take n).length ≤ n := length_take_le n l
  have hle := length_filter_le p (l.take n)
  constructor
  · intro h
    by_cases hall : ∀ x ∈ l.take n, p x = true
    · exact .inl hall
    · right
      have hlt : ((l.take n).filter p).length < (l.take n).length := by
        apply lt_of_le_of_ne hle
        rw [Ne, length_filter_eq_length_iff]
        exact hall
      have hlength := congrArg List.length h
      rw [hsplit, length_take, length_append] at hlength
      have hnil : (l.drop n).filter p = [] := length_eq_zero_iff.mp (by omega)
      intro x hx
      simpa using filter_eq_nil_iff.mp hnil x hx
  · rintro (hall | hnone)
    · have hkept : (l.take n).filter p = l.take n := filter_eq_self.mpr hall
      rw [hsplit, hkept]
      by_cases hn : n ≤ l.length
      · rw [take_left' (length_take_of_le hn)]
      · rw [drop_of_length_le (by omega), filter_nil, append_nil, take_take, min_self]
    · have hnil : (l.drop n).filter p = [] := filter_eq_nil_iff.mpr fun x hx => by simp [hnone x hx]
      rw [hsplit, hnil, append_nil]
      exact (take_of_length_le (hle.trans hlen)).symm

theorem answerFor_tenant_iff (T : GrantTable) (tenantID endpointID : Str) (isoSeen meshSeen now : Int) :
    answerFor T tenantID endpointID isoSeen meshSeen now = answerForTenant T tenantID endpointID isoSeen meshSeen now ↔
      (∀ g ∈ (deliverableMesh T meshSeen now).take maxMeshGrantsSent, g.tenantID = tenantID) ∨
        ∀ g ∈ (deliverableMesh T meshSeen now).drop maxMeshGrantsSent, g.tenantID ≠ tenantID := by
  unfold answerFor answerForTenant
  rw [append_cancel_left_eq]
  change ((deliverableMesh T meshSeen now).take maxMeshGrantsSent).filter _ = _ ↔ _
  rw [filter_take_eq_iff]
  simp only [decide_eq_true_eq, decide_eq_false_iff_not, ne_eq]

def tenantGrant (id tenantID : Str) (issuedAt : Int) : StoredGrant :=
  ⟨{ grantID := id, tenantID := tenantID, actionKind := str "mesh_quarantine", issuedAt := issuedAt, expiresAt := 90 }, [], true⟩

/-- Four grants of one tenant and a newer one of another, which no answer carries. -/
def twoTenants : GrantTable :=
  ⟨[tenantGrant (str "g1") (str "acme") 1, tenantGrant (str "g2") (str "acme") 2, tenantGrant (str "g3") (str "acme") 3,
    tenantGrant (str "g4") (str "acme") 4, tenantGrant (str "g5") (str "beta") 5], by decide +kernel⟩

theorem other_tenant_displaces :
    answerFor twoTenants (str "beta") (str "ep") 0 0 10 = [] ∧
      answerForTenant twoTenants (str "beta") (str "ep") 0 0 10 = [tenantGrant (str "g5") (str "beta") 5] := by
  decide +kernel

end Ominull.Hub
