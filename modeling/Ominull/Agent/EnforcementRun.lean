import Ominull.Agent.Enforcement

/-! The enforcement state over a run of heartbeats from an arbitrary hub, each on an arbitrary clock
and with arbitrary failures of its writes. -/

namespace Ominull.Agent

open Lib List

/-- A heartbeat: the answer, this host's clock, the disk it finds and how its writes end. -/
structure Beat where
  resp : Str
  now : Int
  disk : Disk File
  outcomes : List Outcome

def grantCalls (C : Crypto) (now : Int) :
    List (ResponseGrant × Str) → TrustContext → Disk File → List Outcome → List GrantCall
  | [], _, _, _ => []
  | (g, payload) :: gs, t, d, os =>
    let e := (applyGrant C t g payload now).exec d os
    match e.result with
    | none => []
    | some (_, u) =>
      ⟨t, g, payload, now, u, e.log⟩ :: grantCalls C now gs u e.disk (os.drop e.log.length)

namespace Beat

def run (C : Crypto) (t : TrustContext) (b : Beat) : Option TrustContext :=
  ((processHeartbeat C t b.resp b.now).exec b.disk b.outcomes).result.map Prod.snd

/-- The calls of a heartbeat on a host that has its state: they follow what the answer brings in
keys and manifests. -/
def calls (C : Crypto) (t : TrustContext) (b : Beat) : List GrantCall :=
  if b.resp = [] then []
  else
    let e := (heartbeatTrust C t b.resp).exec b.disk b.outcomes
    match e.result with
    | none => []
    | some u =>
      grantCalls C b.now (answerGrants b.resp) u e.disk (b.outcomes.drop e.log.length)

end Beat

/-- The context after a run of heartbeats, none when the machine stopped in one of them. -/
def runBeats (C : Crypto) : TrustContext → List Beat → Option TrustContext
  | t, [] => some t
  | t, b :: bs => (b.run C t).bind fun u => runBeats C u bs

def callsAlong (C : Crypto) : TrustContext → List Beat → List GrantCall
  | _, [] => []
  | t, b :: bs =>
    b.calls C t ++ match b.run C t with
      | none => []
      | some u => callsAlong C u bs

/-- The calls lead from one host to the other: each finds the identity and state the one before it
left. -/
def Linked : Str × TrustState → List GrantCall → Str × TrustState → Prop
  | h, [], h' => h' = h
  | h, c :: cs, h' => c.before.host = h ∧ Linked c.after.host cs h'

namespace Linked

variable {h h' h'' : Str × TrustState} {cs ds : List GrantCall} {C : Crypto}

theorem append (hc : Linked h cs h') (hd : Linked h' ds h'') : Linked h (cs ++ ds) h'' := by
  induction cs generalizing h with
  | nil =>
    cases hc
    exact hd
  | cons c cs ih => exact ⟨hc.1, ih hc.2⟩

theorem sound (hl : Linked h cs h') (hs : ∀ c ∈ cs, c.Sound C) :
    h'.1 = h.1 ∧ (h.2.present = true → h'.2.present = true) ∧ ∀ mesh, h.2.seen mesh ≤ h'.2.seen mesh := by
  induction cs generalizing h with
  | nil =>
    cases hl
    exact ⟨rfl, id, fun mesh => Int.le_refl _⟩
  | cons c cs ih =>
    obtain ⟨rfl, hrest⟩ := hl
    have hc := hs c mem_cons_self
    obtain ⟨hid, hpresent, hseen⟩ := ih hrest fun d hd => hs d (mem_cons_of_mem _ hd)
    refine ⟨hid.trans hc.identity, hpresent ∘ hc.present, fun mesh => ?_⟩
    refine Int.le_trans ?_ (hseen mesh)
    cases mesh
    · exact hc.isoSeen
    · exact hc.meshSeen

theorem sound_before (hl : Linked h cs h') (hs : ∀ c ∈ cs, c.Sound C) {c : GrantCall} (hc : c ∈ cs) :
    c.before.endpointID = h.1 ∧ ∀ mesh, h.2.seen mesh ≤ c.before.state.seen mesh := by
  induction cs generalizing h with
  | nil => cases hc
  | cons d cs ih =>
    obtain ⟨rfl, hrest⟩ := hl
    rcases mem_cons.mp hc with rfl | hmem
    · exact ⟨rfl, fun mesh => Int.le_refl _⟩
    · have hone : ∀ e ∈ [d], e.Sound C := by
        intro e he
        rw [mem_singleton.mp he]
        exact hs d mem_cons_self
      have hlinked : Linked d.before.host [d] d.after.host := ⟨rfl, rfl⟩
      have hfirst := sound hlinked hone
      obtain ⟨hid, hseen⟩ := ih hrest (fun e he => hs e (mem_cons_of_mem _ he)) hmem
      exact ⟨hid.trans hfirst.1, fun mesh => Int.le_trans (hfirst.2.2 mesh) (hseen mesh)⟩

/-- Two calls on grants of one kind and one issue time, as on the same grant twice, do not both
change the state. -/
theorem changes_once (hl : Linked h cs h') (hs : ∀ c ∈ cs, c.Sound C) :
    cs.Pairwise fun c d => c.grant.actionKind = d.grant.actionKind →
      c.grant.issuedAt = d.grant.issuedAt → c.Changes → ¬d.Changes := by
  induction cs generalizing h with
  | nil => exact List.Pairwise.nil
  | cons c cs ih =>
    have htail : ∀ d ∈ cs, d.Sound C := fun d hd => hs d (mem_cons_of_mem _ hd)
    refine pairwise_cons.mpr ⟨?_, ih hl.2 htail⟩
    intro d hd hkind hissued hchanged hagain
    -- the first call set its watermark to the issue time, the second would have to find it lower
    have hset := ((hs c mem_cons_self).marked hchanged).2
    have hlow := ((htail d hd).marked hagain).1
    have hkept := (hl.2.sound_before htail hd).2 (isMeshKind d.grant.actionKind)
    rw [hkind] at hset
    simp only [TrustContext.host] at hkept
    omega

end Linked

section Run

variable {C : Crypto} {t u : TrustContext}

theorem answerGrants_issuedAt_lt {resp payload : Str} {g : ResponseGrant}
    (h : (g, payload) ∈ answerGrants resp) : g.issuedAt < 2 ^ 63 := by
  unfold answerGrants at h
  split at h
  · obtain ⟨v, -, hv⟩ := mem_filterMap.mp h
    unfold readGrantObject at hv
    simp only [Option.bind_eq_bind, Option.bind_eq_some_iff] at hv
    obtain ⟨grant, -, b64, -, hv⟩ := hv
    split at hv
    · cases hv
    · obtain ⟨⟨g', rest⟩, hextract, hv⟩ := Option.bind_eq_some_iff.mp hv
      split at hv
      · cases hv
      · cases hv
        exact extractGrantObject_issuedAt_lt hextract
  · cases h

theorem grantCalls_linked {now : Int} {gs : List (ResponseGrant × Str)} {changed changed' : Bool}
    {d : Disk File} {os : List Outcome} (hgs : ∀ g ∈ gs, g.1.issuedAt < 2 ^ 63)
    (h : ((applyGrants C now gs (changed, t)).exec d os).result = some (changed', u)) :
    (∀ c ∈ grantCalls C now gs t d os, c.Sound C) ∧
      Linked t.host (grantCalls C now gs t d os) u.host := by
  induction gs generalizing t changed d os with
  | nil =>
    cases h
    exact ⟨fun c hc => absurd hc not_mem_nil, rfl⟩
  | cons g gs ih =>
    obtain ⟨⟨c, v⟩, hfirst, hrest⟩ := Prog.exec_bind_result h
    obtain ⟨hsound, hlinked⟩ := ih (fun g hg => hgs g (mem_cons_of_mem _ hg)) hrest
    unfold grantCalls
    simp only [hfirst]
    refine ⟨fun call hcall => ?_, rfl, hlinked⟩
    rcases mem_cons.mp hcall with rfl | hmem
    · exact sound_of_result (hgs _ mem_cons_self) hfirst
    · exact hsound call hmem

theorem Beat.calls_linked {b : Beat} (hpresent : t.state.present = true) (h : b.run C t = some u) :
    (∀ c ∈ b.calls C t, c.Sound C) ∧ Linked t.host (b.calls C t) u.host := by
  obtain ⟨⟨changed, v⟩, hresult, rfl⟩ := Option.map_eq_some_iff.mp h
  unfold processHeartbeat at hresult
  unfold Beat.calls
  by_cases hempty : b.resp = []
  · rw [if_pos hempty] at hresult ⊢
    cases hresult
    exact ⟨fun c hc => absurd hc not_mem_nil, rfl⟩
  · rw [if_neg hempty] at hresult ⊢
    obtain ⟨w, hw, hgrants⟩ := Prog.exec_bind_result hresult
    have hhost : w.host = t.host := (heartbeatTrust_within b.resp).result hw
    have hstate : w.state.present = true := by
      rw [show w.state = t.state from congrArg Prod.snd hhost]
      exact hpresent
    rw [if_pos hstate] at hgrants
    simp only [hw]
    rw [← hhost]
    exact grantCalls_linked (fun ⟨g, payload⟩ hg => answerGrants_issuedAt_lt hg) hgrants

theorem callsAlong_linked {beats : List Beat} (hpresent : t.state.present = true) (h : runBeats C t beats = some u) :
    (∀ c ∈ callsAlong C t beats, c.Sound C) ∧ Linked t.host (callsAlong C t beats) u.host := by
  induction beats generalizing t with
  | nil =>
    cases h
    exact ⟨fun c hc => absurd hc not_mem_nil, rfl⟩
  | cons b beats ih =>
    obtain ⟨v, hbeat, hrest⟩ := Option.bind_eq_some_iff.mp h
    obtain ⟨hsound, hlinked⟩ := Beat.calls_linked hpresent hbeat
    obtain ⟨hsound', hlinked'⟩ := ih ((hlinked.sound hsound).2.1 hpresent) hrest
    simp only [callsAlong, hbeat]
    refine ⟨fun c hc => ?_, hlinked.append hlinked'⟩
    rcases mem_append.mp hc with hc | hc
    · exact hsound c hc
    · exact hsound' c hc

/-- A host with its keys pinned and a manifest that allows isolation. -/
def sampleHost : TrustContext where
  endpointID := str "e1"
  keys := ⟨str "rk", str "ak", str "pk"⟩
  haveKey := ⟨true, true, true⟩
  tenant := str "t"
  manifest := some ⟨str "t", str "e1", str "respond", [str "isolate"], 1, 0, [], []⟩
  state := { present := true, isoSeen := 1000, isoAt := 1000, meshSeen := 1000 }

def samplePayload : Str :=
  str "\x7b\"route\":\"/api/v1/endpoints/isolate\",\"body\":\x7b\"endpoint_id\":\"e1\"\x7d," ++
    str "\"targets\":[\"e1\"]\x7d"

def samplePayloadB64 : Str :=
  str "eyJyb3V0ZSI6Ii9hcGkvdjEvZW5kcG9pbnRzL2lzb2xhdGUiLCJib2R5Ijp7ImVuZHBvaW50X2lkIjoi" ++
    str "ZTEifSwidGFyZ2V0cyI6WyJlMSJdfQ=="

def sampleIsolation : ResponseGrant :=
  let g : ResponseGrant :=
    { version := 2, grantID := str "g1", tenantID := str "t", endpointID := str "e1",
      actionKind := str "isolation_change", actionDigest := sha256Hex Crypto.sample samplePayload,
      issuedAt := 2000, expiresAt := 2300 }
  { g with signature := hexEncode (Crypto.sample.sign (str "rk") g.canonical) }

/-- A heartbeat answer that carries the isolation, for a host that can save its state twice. -/
def sampleBeat : Beat where
  resp :=
    str "\x7b\"enforcement_grants\":[\x7b\"grant\":\x7b\"version\":2,\"grant_id\":\"g1\"," ++
    str "\"tenant_id\":\"t\",\"endpoint_id\":\"e1\",\"action_kind\":\"isolation_change\"," ++
    str "\"issued_at\":2000,\"expires_at\":2300,\"action_digest\":\"" ++
    sampleIsolation.actionDigest ++ str "\",\"signature\":\"" ++ sampleIsolation.signature ++
    str "\"\x7d,\"payload_b64\":\"" ++ samplePayloadB64 ++ str "\"\x7d]\x7d"
  now := 2010
  disk := fun _ => none
  outcomes := [.done, .done]

/-- Over every run of heartbeats on a host that has its state: the state moves only in calls of
`applyGrant`, each of which is sound for this host; no two calls on one grant both change it; and
neither watermark falls. -/
theorem enforcement_changes_by_grants (beats : List Beat) (hpresent : t.state.present = true)
    (hrun : runBeats C t beats = some u) :
    Linked t.host (callsAlong C t beats) u.host ∧
      (∀ c ∈ callsAlong C t beats, c.Sound C ∧ c.before.endpointID = t.endpointID) ∧
      ((callsAlong C t beats).Pairwise fun c d => c.grant.actionKind = d.grant.actionKind →
        c.grant.issuedAt = d.grant.issuedAt → c.Changes → ¬d.Changes) ∧
      t.state.isoSeen ≤ u.state.isoSeen ∧ t.state.meshSeen ≤ u.state.meshSeen := by
  obtain ⟨hsound, hlinked⟩ := callsAlong_linked hpresent hrun
  obtain ⟨-, -, hseen⟩ := hlinked.sound hsound
  exact ⟨hlinked, fun c hc => ⟨hsound c hc, (hlinked.sound_before hsound hc).1⟩,
    hlinked.changes_once hsound, hseen false, hseen true⟩

/-- The isolation is sent twice; the host isolates itself. -/
theorem enforcement_changes_by_grants_sample : ∃ u,
    runBeats Crypto.sample sampleHost [sampleBeat, sampleBeat] = some u ∧ u.state.isolated = true ∧
      ∀ c ∈ callsAlong Crypto.sample sampleHost [sampleBeat, sampleBeat],
        c.Sound Crypto.sample ∧ c.before.endpointID = str "e1" := by
  have hrun : (runBeats Crypto.sample sampleHost [sampleBeat, sampleBeat]).map (·.state.isolated) =
      some true := by decide +kernel
  obtain ⟨u, hu, hisolated⟩ := Option.map_eq_some_iff.mp hrun
  exact ⟨u, hu, hisolated, (enforcement_changes_by_grants _ rfl hu).2.1⟩

end Run

end Ominull.Agent
