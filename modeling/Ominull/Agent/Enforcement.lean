import Ominull.Agent.Frame

/-!
What may change the enforcement state. A run of heartbeats is broken into its calls of `applyGrant`;
the state moves only in those calls, and each of them is described by `GrantCall.Sound`.
-/

namespace Ominull.Agent

open Lib List

def TrustState.isolation (s : TrustState) : Bool × Str × Int × Str × List Str × List TrustRule :=
  (s.isolated, s.source, s.isoAt, s.isoGrant, s.allow, s.rules)

/-- What the host enforces: the isolation and the mesh slots. -/
def TrustState.enforced (s : TrustState) :=
  (s.isolation, s.mesh)

def TrustState.Quarantined (s : TrustState) (ip : Str) : Prop :=
  ∃ m ∈ s.mesh, m.ip = ip ∧ m.on = true

/-- A change that puts an isolation in force, or changes one that stays in force, or quarantines an
address. -/
def AddsRestriction (s s' : TrustState) : Prop :=
  (s'.isolated = true ∧ s'.isolation ≠ s.isolation) ∨ ∃ ip, s'.Quarantined ip ∧ ¬s.Quarantined ip

structure GrantCall where
  before : TrustContext
  grant : ResponseGrant
  payload : Str
  now : Int
  after : TrustContext
  log : List (File × Option Outcome)

namespace GrantCall

def Changes (c : GrantCall) : Prop := c.after.state.enforced ≠ c.before.state.enforced

/-- The grant names this host, or the mesh address whose slot it moves. -/
def NamesTarget (c : GrantCall) : Prop :=
  (isIsolationKind c.grant.actionKind = true ∧ c.grant.endpointID = c.before.endpointID ∧
      ∀ ip, c.after.state.Quarantined ip ↔ c.before.state.Quarantined ip) ∨
    (isMeshKind c.grant.actionKind = true ∧ c.after.state.isolation = c.before.state.isolation ∧
      ∃ ip, c.grant.endpointID = str "mesh:" ++ ip ∧
        ∀ ip', ip' ≠ ip → (c.after.state.Quarantined ip' ↔ c.before.state.Quarantined ip'))

/-- What entitles a grant to change the state: it is signed with the pinned key of its kind over this payload,
an action for this host, in its time window widened by a minute; and what restricts the host is allowed. -/
structure Authorised (C : Crypto) (c : GrantCall) : Prop where
  signed : ∃ key, c.before.keyFor c.grant.actionKind = some key ∧ c.grant.signedBy C key = true
  covers : c.grant.covers C c.payload = true
  action : ∃ a, parseAction c.payload c.grant.actionKind c.grant.endpointID c.before.endpointID = .ok a
  target : c.NamesTarget
  notEarly : c.grant.issuedAt - 60 ≤ c.now
  notLate : c.now ≤ c.grant.expiresAt + 60
  allowed : AddsRestriction c.before.state c.after.state →
    c.before.allows c.grant.actionKind = true

/-- What holds of every call: only an authorised grant changes what is enforced, the watermarks do
not fall, a detector's grant leaves an isolation in force as it is, and a state that could not be
written is not published. -/
structure Sound (C : Crypto) (c : GrantCall) : Prop where
  authorised : c.Changes → c.Authorised C
  isoSeen : c.before.state.isoSeen ≤ c.after.state.isoSeen
  meshSeen : c.before.state.meshSeen ≤ c.after.state.meshSeen
  auto : c.grant.actionKind = str "auto_isolate" → c.before.state.isolated = true →
    c.after.state.isolation = c.before.state.isolation
  unsaved : (∃ o, (File.enforcementState, some o) ∈ c.log ∧ o ≠ Outcome.done) →
    c.after.state = c.before.state
  identity : c.after.endpointID = c.before.endpointID
  present : c.before.state.present = true → c.after.state.present = true
  marked : c.Changes → c.before.state.seen (isMeshKind c.grant.actionKind) < c.grant.issuedAt ∧
    c.after.state.seen (isMeshKind c.grant.actionKind) = c.grant.issuedAt

end GrantCall

section Mesh

variable {m : TrustMeshSlot}

theorem mem_forgetMesh {now : Int} {fuel : ℕ} {l : List TrustMeshSlot} (h : m ∈ forgetMesh now fuel l) : m ∈ l := by
  induction fuel generalizing l with
  | zero => exact h
  | succ fuel ih =>
    cases l with
    | nil => exact h
    | cons a l =>
      unfold forgetMesh at h
      split at h
      · split at h
        · cases h
        · rename_i last hlast
          have hmem := mem_of_getLast? hlast
          rcases mem_cons.mp (ih h) with rfl | hm
          · exact mem_cons_of_mem _ hmem
          · exact mem_cons_of_mem _ ((dropLast_sublist l).subset hm)
      · rcases mem_cons.mp h with rfl | hm
        · exact mem_cons_self
        · exact mem_cons_of_mem _ (ih hm)

/-- A slot that is on is never forgotten. -/
theorem mem_forgetMesh_of_on {now : Int} {fuel : ℕ} {l : List TrustMeshSlot} (hon : m.on = true) (h : m ∈ l) :
    m ∈ forgetMesh now fuel l := by
  induction fuel generalizing l with
  | zero => exact h
  | succ fuel ih =>
    cases l with
    | nil => exact h
    | cons a l =>
      unfold forgetMesh
      split
      case isTrue hforget =>
        -- the slot in front is off, so it is not this one
        have hm : m ∈ l := by
          rcases mem_cons.mp h with rfl | hm
          · simp [hon] at hforget
          · exact hm
        split
        case h_1 hnone =>
          rw [getLast?_eq_none_iff.mp hnone] at hm
          exact hm
        case h_2 last hlast =>
          apply ih
          obtain ⟨l', rfl⟩ := getLast?_eq_some_iff.mp hlast
          simpa [or_comm] using hm
      case isFalse =>
        rcases mem_cons.mp h with rfl | hm
        · exact mem_cons_self
        · exact mem_cons_of_mem _ (ih hm)

theorem quarantined_forgetMesh (s : TrustState) (now : Int) (ip : Str) :
    ({ s with mesh := forgetMesh now s.mesh.length s.mesh } : TrustState).Quarantined ip ↔
      s.Quarantined ip := by
  constructor
  · rintro ⟨m, hm, hip, hon⟩
    exact ⟨m, mem_forgetMesh hm, hip, hon⟩
  · rintro ⟨m, hm, hip, hon⟩
    exact ⟨m, mem_forgetMesh_of_on hon hm, hip, hon⟩

theorem mem_updateFirst {α : Type} {p : α → Bool} {f : α → α} {l : List α} {b : α}
    (h : b ∈ updateFirst p f l) : b ∈ l ∨ ∃ a ∈ l, p a = true ∧ b = f a := by
  induction l with
  | nil => cases h
  | cons a l ih =>
    unfold updateFirst at h
    split at h
    case isTrue hp =>
      rcases mem_cons.mp h with rfl | hb
      · exact .inr ⟨a, mem_cons_self, hp, rfl⟩
      · exact .inl (mem_cons_of_mem _ hb)
    case isFalse =>
      rcases mem_cons.mp h with rfl | hb
      · exact .inl mem_cons_self
      · rcases ih hb with hb | ⟨x, hx, hpx, rfl⟩
        · exact .inl (mem_cons_of_mem _ hb)
        · exact .inr ⟨x, mem_cons_of_mem _ hx, hpx, rfl⟩

theorem mem_updateFirst_of_not {α : Type} {p : α → Bool} {f : α → α} {l : List α} {b : α}
    (hb : b ∈ l) (hp : p b = false) : b ∈ updateFirst p f l := by
  induction l with
  | nil => cases hb
  | cons a l ih =>
    unfold updateFirst
    split
    case isTrue ha =>
      rcases mem_cons.mp hb with rfl | hb
      · rw [hp] at ha
        cases ha
      · exact mem_cons_of_mem _ hb
    case isFalse =>
      rcases mem_cons.mp hb with rfl | hb
      · exact mem_cons_self
      · exact mem_cons_of_mem _ (ih hb)

namespace TrustState

variable {s : TrustState} {issuedAt : Int} {a : TrustAction} {ip : Str}

theorem applyMesh_rest (s : TrustState) (issuedAt : Int) (a : TrustAction) :
    (s.applyMesh issuedAt a).2.isolation = s.isolation ∧
    (s.applyMesh issuedAt a).2.isoSeen = s.isoSeen ∧
    (s.applyMesh issuedAt a).2.meshSeen = s.meshSeen := by
  unfold applyMesh
  dsimp only
  split <;> split_ifs <;> exact ⟨rfl, rfl, rfl⟩

theorem mem_applyMesh_of_ne (hne : m.ip ≠ a.ip) : m ∈ (s.applyMesh issuedAt a).2.mesh ↔ m ∈ s.mesh := by
  unfold applyMesh
  dsimp only
  split
  · split
    · constructor
      · intro hm
        rcases mem_updateFirst hm with hm | ⟨x, -, hx, rfl⟩
        · exact hm
        · exact absurd (by simpa using hx) hne
      · exact fun hm => mem_updateFirst_of_not hm (by simpa using hne)
    · exact Iff.rfl
  · split
    · split
      all_goals
        simp only [mem_append, mem_singleton, or_iff_left_iff_imp]
        rintro rfl
        exact absurd rfl hne
    · exact Iff.rfl

theorem mem_of_mem_applyMesh (hop : a.op ≠ .meshOn) (hon : m.on = true) (h : m ∈ (s.applyMesh issuedAt a).2.mesh) :
    m ∈ s.mesh := by
  unfold applyMesh at h
  simp only [hop, decide_false] at h
  split at h
  · split at h
    · rcases mem_updateFirst h with hm | ⟨x, -, -, rfl⟩
      · exact hm
      · cases hon
    · exact h
  · simpa using h

theorem applyMesh_quarantined_of_ne (hne : ip ≠ a.ip) :
    (s.applyMesh issuedAt a).2.Quarantined ip ↔ s.Quarantined ip := by
  refine exists_congr fun m => ?_
  constructor
  · rintro ⟨hm, rfl, hon⟩
    exact ⟨(mem_applyMesh_of_ne hne).mp hm, rfl, hon⟩
  · rintro ⟨hm, rfl, hon⟩
    exact ⟨(mem_applyMesh_of_ne hne).mpr hm, rfl, hon⟩

variable {g : ResponseGrant}

theorem applyIsolation_rest : (s.applyIsolation g a).2.mesh = s.mesh ∧
    (s.applyIsolation g a).2.isoSeen = s.isoSeen ∧
    (s.applyIsolation g a).2.meshSeen = s.meshSeen := by
  unfold applyIsolation
  split_ifs <;> exact ⟨rfl, rfl, rfl⟩

theorem applyIsolation_release (hop : a.op = .release) (h : (s.applyIsolation g a).2.isolated = true) :
    (s.applyIsolation g a).2.isolation = s.isolation := by
  unfold applyIsolation at h ⊢
  split
  · rfl
  · rename_i hlate
    simp [hlate, hop] at h

theorem applyIsolation_auto (hop : a.op = .autoIsolate) (hiso : s.isolated = true) :
    (s.applyIsolation g a).2.isolation = s.isolation := by
  unfold applyIsolation
  split
  · rfl
  · simp [hop, hiso]

theorem isolation_mark (s : TrustState) (mesh : Bool) (n : Int) : (s.mark mesh n).isolation = s.isolation := by
  cases mesh <;> rfl

theorem mesh_mark (s : TrustState) (mesh : Bool) (n : Int) : (s.mark mesh n).mesh = s.mesh := by
  cases mesh <;> rfl

end TrustState

end Mesh

section Parse

variable {payload kind grantEndpoint self : Str} {a : TrustAction}

theorem parseAction_ok (h : parseAction payload kind grantEndpoint self = .ok a) :
    (kind = str "mesh_quarantine" ∧
      ∃ route body targets, parseMesh route body grantEndpoint targets = .ok a) ∨
    (kind ≠ str "mesh_quarantine" ∧ grantEndpoint = self ∧
      ∃ route body targets, parseEndpointAction payload kind route body self targets = .ok a) := by
  unfold parseAction at h
  split at h
  · cases h
  split at h
  · cases h
  split at h
  · cases h
  split at h
  · cases h
  split at h
  · cases h
  split at h
  · exact .inl ⟨‹_›, _, _, _, h⟩
  split at h
  · cases h
  · rename_i hother
    push Not at hother
    exact .inr ⟨‹_›, hother.2, _, _, _, h⟩

variable {route : Str} {targets : List Str}

theorem parseMesh_ok {body : Str} (h : parseMesh route body grantEndpoint targets = .ok a) :
    grantEndpoint = str "mesh:" ++ a.ip := by
  unfold parseMesh at h
  dsimp only at h
  split at h
  · cases h
  split at h
  · cases h
  split at h
  · cases h
  · rename_i hsame
    push Not at hsame
    cases h
    exact hsame.2

/-- A detector's grant carries nothing but an automatic isolation. -/
theorem parseEndpointAction_auto {body : Str}
    (h : parseEndpointAction payload (str "auto_isolate") route body self targets = .ok a) : a.op = .autoIsolate := by
  unfold parseEndpointAction at h
  rw [if_pos rfl] at h
  split_ifs at h
  cases hrules : parseBaselines payload self with
  | error e => simp [hrules, bind, Except.bind] at h
  | ok rules =>
    simp only [hrules, bind, Except.bind] at h
    cases h
    rfl

/-- An isolation change isolates or releases. -/
theorem parseEndpointAction_change {body : Str}
    (h : parseEndpointAction payload (str "isolation_change") route body self targets = .ok a) :
    a.op = .isolate ∨ a.op = .release := by
  unfold parseEndpointAction at h
  rw [if_neg (by decide), if_neg (by decide), if_neg (by simp)] at h
  unfold parseIsolation at h
  split at h
  · cases h
  · rename_i op single hroute
    split_ifs at h with _ hop
    · cases hallow : parseAllow body with
      | error e => simp [hallow, bind, Except.bind] at h
      | ok allow =>
        cases hrules : parseBaselines payload self with
        | error e => simp [hallow, hrules, bind, Except.bind] at h
        | ok rules =>
          simp only [hallow, hrules, bind, Except.bind] at h
          cases h
          exact .inl rfl
    · cases h
      unfold isolationRoute at hroute
      split_ifs at hroute <;> cases hroute
      · contradiction
      · contradiction
      · exact .inr rfl
      · exact .inr rfl

end Parse

section Verify

variable {C : Crypto} {t u : TrustContext} {g : ResponseGrant} {payload : Str} {now : Int}

theorem windowRefusal_eq_none (h : g.windowRefusal now = none) (hbound : g.issuedAt < 2 ^ 63) :
    g.issuedAt - 60 ≤ now ∧ now ≤ g.expiresAt + 60 := by
  unfold ResponseGrant.windowRefusal at h
  split_ifs at h with hwindow hearly hlate
  push Not at hwindow
  have hissued := wrap64_eq (n := g.issuedAt - 60) (by omega) (by omega)
  have hexpires := wrap64_le (n := g.expiresAt + 60) (by omega)
  omega

theorem verifyGrantCore_none (h : (verifyGrantCore C t g payload now).1 = none) :
    (∃ key, t.keyFor g.actionKind = some key ∧ g.signedBy C key = true) ∧
      g.covers C payload = true ∧ g.windowRefusal now = none := by
  unfold verifyGrantCore at h
  split at h
  · cases h
  split at h
  · cases h
  case h_2 key hkey =>
    split_ifs at h with _ hcovers _ hsigned
    exact ⟨⟨key, hkey, by simpa using hsigned⟩, by simpa using hcovers, h⟩

variable {changed : Bool}

/-- What is saved for a grant: the moved mark alone, or the outcome of its action. -/
theorem judgeGrant_some {s : TrustState} (h : judgeGrant C t g payload now = some (changed, s)) :
    s = t.state.mark (isMeshKind g.actionKind) g.issuedAt ∨
      ∃ a, (verifyGrantCore C t g payload now).1 = none ∧
        parseAction payload g.actionKind g.endpointID t.endpointID = .ok a ∧
        (a.op.restricts = true → t.allows g.actionKind = true) ∧
        s = ((t.state.mark (isMeshKind g.actionKind) g.issuedAt).applyAction
          (isMeshKind g.actionKind) g a now).2 := by
  unfold judgeGrant at h
  split at h
  · split at h
    · cases h
      exact .inl rfl
    · cases h
  case h_2 genuine hverify =>
    split at h
    · cases h
    case h_2 a hparse =>
      split at h
      · cases h
        exact .inl rfl
      · rename_i hallowed
        refine .inr ⟨a, by rw [hverify], hparse, ?_, by cases h; rfl⟩
        simpa using hallowed

variable {d : Disk File} {os : List Outcome}

/-- A state is published only as it was written. -/
theorem publish_result {c : Bool} {s : TrustState} (h : ((publish t changed s).exec d os).result = some (c, u)) :
    u = t ∨ (u = { t with state := { s with present := true } } ∧
      ∀ o, (File.enforcementState, some o) ∈ ((publish t changed s).exec d os).log →
        o = Outcome.done) := by
  unfold publish TrustState.save at h ⊢
  split at h
  case isTrue hlong =>
    cases h
    exact .inl rfl
  case isFalse hfits =>
    rw [if_neg hfits]
    cases os with
    | nil => cases h
    | cons o os =>
      cases o with
      | done =>
        cases h
        refine .inr ⟨rfl, fun o ho => ?_⟩
        rcases mem_cons.mp ho with heq | hmem
        · cases heq
          rfl
        · cases hmem
      | failed | unsynced =>
        cases h
        exact .inl rfl

/-- A call either leaves the context alone or publishes the state its grant was judged to give, for a
grant newer than its watermark. -/
theorem applyGrant_result {c : Bool} (h : ((applyGrant C t g payload now).exec d os).result = some (c, u)) :
    u = t ∨ ∃ changed s, judgeGrant C t g payload now = some (changed, s) ∧
      (isMeshKind g.actionKind = true ∨ isIsolationKind g.actionKind = true) ∧
      t.state.seen (isMeshKind g.actionKind) < g.issuedAt ∧
      (isIsolationKind g.actionKind = true → g.endpointID = t.endpointID) ∧
      u = { t with state := { s with present := true } } ∧
      ∀ o, (File.enforcementState, some o) ∈ ((applyGrant C t g payload now).exec d os).log →
        o = Outcome.done := by
  unfold applyGrant at h ⊢
  dsimp only at h ⊢
  split at h
  · cases h
    exact .inl rfl
  split at h
  · cases h
    exact .inl rfl
  split at h
  · cases h
    exact .inl rfl
  split at h
  · cases h
    exact .inl rfl
  case h_2 hkind hseen hend _ changed s hjudge =>
    rcases publish_result h with rfl | ⟨hu, hlog⟩
    · exact .inl rfl
    · refine .inr ⟨changed, s, hjudge, ?_, by omega, by simpa using hend, hu, ?_⟩
      · by_cases hmesh : isMeshKind g.actionKind = true
        · exact .inl hmesh
        · right
          by_contra hiso
          exact hkind (by simp [hmesh, hiso])
      · rw [if_neg hkind, if_neg hseen, if_neg hend]
        exact hlog

theorem applyAction_mesh (s : TrustState) (g : ResponseGrant) (a : TrustAction) (now : Int) :
    (s.applyAction true g a now).2.isolation = s.isolation ∧
      (s.applyAction true g a now).2.isoSeen = s.isoSeen ∧
      (s.applyAction true g a now).2.meshSeen = s.meshSeen ∧
      ∀ ip, (s.applyAction true g a now).2.Quarantined ip ↔
        (s.applyMesh g.issuedAt a).2.Quarantined ip := by
  obtain ⟨hiso, hseen, hmesh⟩ := s.applyMesh_rest g.issuedAt a
  exact ⟨hiso, hseen, hmesh, quarantined_forgetMesh _ now⟩

theorem applyAction_isolation (s : TrustState) (g : ResponseGrant) (a : TrustAction) (now : Int) :
    (s.applyAction false g a now).2.isolation = (s.applyIsolation g a).2.isolation ∧
      (s.applyAction false g a now).2.isoSeen = s.isoSeen ∧
      (s.applyAction false g a now).2.meshSeen = s.meshSeen ∧
      ∀ ip, (s.applyAction false g a now).2.Quarantined ip ↔ s.Quarantined ip := by
  obtain ⟨hmesh, hseen, hmeshSeen⟩ := TrustState.applyIsolation_rest (s := s) (g := g) (a := a)
  refine ⟨rfl, hseen, hmeshSeen, fun ip => ?_⟩
  refine (quarantined_forgetMesh (s.applyIsolation g a).2 now ip).trans ?_
  unfold TrustState.Quarantined
  rw [hmesh]

theorem isMeshKind_iff {kind : Str} : isMeshKind kind = true ↔ kind = str "mesh_quarantine" := by
  simp [isMeshKind]

theorem isIsolationKind_iff {kind : Str} : isIsolationKind kind = true ↔
    kind = str "isolation_change" ∨ kind = str "auto_isolate" := by
  simp [isIsolationKind]

theorem isMeshKind_of_isIsolationKind {kind : Str} (h : isIsolationKind kind = true) : isMeshKind kind = false := by
  rcases isIsolationKind_iff.mp h with rfl | rfl <;> decide

/-- A verified mesh grant: its address is the only one whose quarantine can change, and it can be
put under quarantine only if that is allowed. -/
theorem meshAction_sound {a : TrustAction} {s : TrustState}
    (hparse : parseAction payload (str "mesh_quarantine") g.endpointID t.endpointID = .ok a)
    (hallow : a.op.restricts = true → t.allows (str "mesh_quarantine") = true)
    (hs : s = ((t.state.mark true g.issuedAt).applyAction true g a now).2) :
    s.isolation = t.state.isolation ∧ g.endpointID = str "mesh:" ++ a.ip ∧
      (∀ ip, ip ≠ a.ip → (s.Quarantined ip ↔ t.state.Quarantined ip)) ∧
      (AddsRestriction t.state s → t.allows (str "mesh_quarantine") = true) := by
  obtain ⟨hiso, -, -, hquar⟩ := applyAction_mesh (t.state.mark true g.issuedAt) g a now
  rw [← hs] at hiso hquar
  have hiso' : s.isolation = t.state.isolation := by
    rw [hiso, TrustState.isolation_mark]
  have hmark : ∀ ip, (t.state.mark true g.issuedAt).Quarantined ip ↔ t.state.Quarantined ip :=
    fun ip => Iff.rfl
  have htarget : g.endpointID = str "mesh:" ++ a.ip := by
    rcases parseAction_ok hparse with ⟨-, _, _, _, hmesh⟩ | ⟨hne, -⟩
    · exact parseMesh_ok hmesh
    · exact absurd rfl hne
  refine ⟨hiso', htarget, fun ip hne => ?_, ?_⟩
  · rw [hquar, TrustState.applyMesh_quarantined_of_ne hne, hmark]
  · rintro (⟨-, hchanged⟩ | ⟨ip, hnow, hbefore⟩)
    · exact absurd hiso' hchanged
    · apply hallow
      by_contra hop
      -- an action that restricts nothing is no quarantine
      have hoff : a.op ≠ .meshOn := fun heq => hop (by rw [heq]; rfl)
      obtain ⟨m, hm, hip, hon⟩ := (hquar ip).mp hnow
      have hold := TrustState.mem_of_mem_applyMesh (s := t.state.mark true g.issuedAt) hoff hon hm
      exact hbefore ((hmark ip).mp ⟨m, hold, hip, hon⟩)

/-- A verified isolation grant: quarantines stay, and what leaves an isolation in force with a
change is allowed. -/
theorem isolationAction_sound {a : TrustAction} {s : TrustState}
    (hkind : isIsolationKind g.actionKind = true)
    (hparse : parseAction payload g.actionKind g.endpointID t.endpointID = .ok a)
    (hallow : a.op.restricts = true → t.allows g.actionKind = true)
    (hs : s = ((t.state.mark false g.issuedAt).applyAction false g a now).2) :
    (∀ ip, s.Quarantined ip ↔ t.state.Quarantined ip) ∧
      (AddsRestriction t.state s → t.allows g.actionKind = true) ∧
      (g.actionKind = str "auto_isolate" → t.state.isolated = true →
        s.isolation = t.state.isolation) := by
  obtain ⟨hiso, -, -, hquar⟩ :=
    applyAction_isolation (t.state.mark false g.issuedAt) g a now
  rw [← hs] at hiso hquar
  have hmark : ∀ ip, (t.state.mark false g.issuedAt).Quarantined ip ↔ t.state.Quarantined ip :=
    fun ip => Iff.rfl
  have hop : (g.actionKind = str "auto_isolate" ∧ a.op = .autoIsolate) ∨
      g.actionKind = str "isolation_change" ∧ (a.op = .isolate ∨ a.op = .release) := by
    rcases parseAction_ok hparse with ⟨hmesh, -⟩ | ⟨-, -, route, body, targets, haction⟩
    · exact absurd (isMeshKind_iff.mpr hmesh) (by simp [isMeshKind_of_isIsolationKind hkind])
    · rcases isIsolationKind_iff.mp hkind with h | h
      · rw [h] at haction
        exact .inr ⟨h, parseEndpointAction_change haction⟩
      · rw [h] at haction
        exact .inl ⟨h, parseEndpointAction_auto haction⟩
  refine ⟨fun ip => (hquar ip).trans (hmark ip), ?_, ?_⟩
  · rintro (⟨hnow, hchanged⟩ | ⟨ip, hnow, hbefore⟩)
    · apply hallow
      rcases hop with ⟨-, hop⟩ | ⟨-, hop | hop⟩
      · rw [hop]; rfl
      · rw [hop]; rfl
      · -- a release that leaves an isolation in force did nothing
        have hisolated : ((t.state.mark false g.issuedAt).applyIsolation g a).2.isolated = true := by
          rw [← hnow]
          exact (congrArg Prod.fst hiso).symm
        have hsame := TrustState.applyIsolation_release hop hisolated
        rw [← hiso, TrustState.isolation_mark] at hsame
        exact absurd hsame hchanged
    · exact absurd ((hquar ip).mp hnow) hbefore
  · intro hauto hisolated
    have hop' : a.op = .autoIsolate := by
      rcases hop with ⟨-, hop⟩ | ⟨hchange, -⟩
      · exact hop
      · exact absurd (hauto.symm.trans hchange) (by decide)
    have hmarked : (t.state.mark false g.issuedAt).isolated = true := hisolated
    rw [hiso, TrustState.applyIsolation_auto hop' hmarked, TrustState.isolation_mark]

theorem seen_mark (s : TrustState) (mesh : Bool) (n : Int) : (s.mark mesh n).seen mesh = n := by
  cases mesh <;> rfl

theorem judgeGrant_seen {s : TrustState} (h : judgeGrant C t g payload now = some (changed, s)) (mesh : Bool) :
    s.seen mesh = (t.state.mark (isMeshKind g.actionKind) g.issuedAt).seen mesh := by
  rcases judgeGrant_some h with rfl | ⟨a, -, -, -, rfl⟩
  · rfl
  · generalize t.state.mark (isMeshKind g.actionKind) g.issuedAt = marked
    cases isMeshKind g.actionKind
    · obtain ⟨-, hiso, hm, -⟩ := applyAction_isolation marked g a now
      cases mesh
      · exact hiso
      · exact hm
    · obtain ⟨-, hiso, hm, -⟩ := applyAction_mesh marked g a now
      cases mesh
      · exact hiso
      · exact hm

theorem seen_le_mark {s : TrustState} {mesh : Bool} {n : Int} (h : s.seen mesh < n) (m : Bool) :
    s.seen m ≤ (s.mark mesh n).seen m := by
  cases mesh <;> cases m
  case false.false | true.true => exact Int.le_of_lt h
  case false.true | true.false => exact Int.le_refl _

/-- What a verified grant entitles its call to. -/
theorem authorised_of_action {a : TrustAction} {s : TrustState} {log : List (File × Option Outcome)}
    (hbound : g.issuedAt < 2 ^ 63)
    (hkind : isMeshKind g.actionKind = true ∨ isIsolationKind g.actionKind = true)
    (hend : isIsolationKind g.actionKind = true → g.endpointID = t.endpointID)
    (hverify : (verifyGrantCore C t g payload now).1 = none)
    (hparse : parseAction payload g.actionKind g.endpointID t.endpointID = .ok a)
    (hallow : a.op.restricts = true → t.allows g.actionKind = true)
    (hs : s = ((t.state.mark (isMeshKind g.actionKind) g.issuedAt).applyAction
      (isMeshKind g.actionKind) g a now).2) :
    GrantCall.Authorised C ⟨t, g, payload, now, { t with state := { s with present := true } }, log⟩ := by
  obtain ⟨hsigned, hcovers, hwindow⟩ := verifyGrantCore_none hverify
  obtain ⟨hearly, hlate⟩ := windowRefusal_eq_none hwindow hbound
  by_cases hmesh : isMeshKind g.actionKind = true
  · have hname := isMeshKind_iff.mp hmesh
    rw [hmesh] at hs
    rw [hname] at hallow
    obtain ⟨hiso, htarget, hother, hadds⟩ := meshAction_sound (hname ▸ hparse) hallow hs
    exact ⟨hsigned, hcovers, ⟨a, hparse⟩, .inr ⟨hmesh, hiso, a.ip, htarget, hother⟩, hearly, hlate,
      fun h => hname ▸ hadds h⟩
  · have hiso : isIsolationKind g.actionKind = true := hkind.resolve_left hmesh
    rw [Bool.eq_false_iff.mpr hmesh] at hs
    obtain ⟨hquar, hadds, -⟩ := isolationAction_sound hiso hparse hallow hs
    exact ⟨hsigned, hcovers, ⟨a, hparse⟩, .inl ⟨hiso, hend hiso, hquar⟩, hearly, hlate, hadds⟩

/-- Every call that returns is sound. -/
theorem sound_of_result {c : Bool} (hbound : g.issuedAt < 2 ^ 63)
    (h : ((applyGrant C t g payload now).exec d os).result = some (c, u)) :
    GrantCall.Sound C ⟨t, g, payload, now, u, ((applyGrant C t g payload now).exec d os).log⟩ := by
  rcases applyGrant_result h with rfl | ⟨changed, s, hjudge, hkind, hseen, hend, rfl, hlog⟩
  · exact ⟨fun hc => absurd rfl hc, Int.le_refl _, Int.le_refl _, fun _ _ => rfl, fun _ => rfl, rfl,
      id, fun hc => absurd rfl hc⟩
  · have hmarks : ∀ mesh, t.state.seen mesh ≤ s.seen mesh := fun mesh => by
      rw [judgeGrant_seen hjudge]
      exact seen_le_mark hseen mesh
    refine ⟨fun hchanges => ?_, hmarks false, hmarks true, ?_, ?_, rfl, fun _ => rfl,
      fun _ => ⟨hseen, ?_⟩⟩
    · rcases judgeGrant_some hjudge with rfl | ⟨a, hverify, hparse, hallow, hs⟩
      · -- a moved mark is no change
        refine absurd ?_ hchanges
        exact Prod.ext (TrustState.isolation_mark ..) (TrustState.mesh_mark ..)
      · exact authorised_of_action hbound hkind hend hverify hparse hallow hs
    · intro hauto hisolated
      rcases judgeGrant_some hjudge with rfl | ⟨a, hverify, hparse, hallow, hs⟩
      · exact TrustState.isolation_mark ..
      · have hiso : isIsolationKind g.actionKind = true := isIsolationKind_iff.mpr (.inr hauto)
        rw [isMeshKind_of_isIsolationKind hiso] at hs
        exact (isolationAction_sound hiso hparse hallow hs).2.2 hauto hisolated
    · rintro ⟨o, ho, hne⟩
      exact absurd (hlog o ho) hne
    · exact (judgeGrant_seen hjudge _).trans (seen_mark ..)

end Verify

end Ominull.Agent
