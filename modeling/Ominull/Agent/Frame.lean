import Ominull.Agent.Heartbeat

/-! What each part of a heartbeat may change: which files it writes and which parts of the trust
context it touches. -/

namespace Ominull.Agent

open Lib

def routineFiles : List File := [.routineEpoch, .routinePin]

def pinFiles : List File := [.trustEpoch, .trustPin]

def manifestFiles : List File := [.manifestFloor, .manifestState]

def TrustContext.host (t : TrustContext) : Str × TrustState := (t.endpointID, t.state)

def RoutineChange (t u : TrustContext) : Prop := ∃ r, u = { t with routine := r }

/-- The two contexts differ in the manifest and its floors alone. -/
def ManifestChange (t u : TrustContext) : Prop :=
  ∃ m l dirty, u = { t with manifest := m, mfloor := l, mfloorDirty := dirty }

theorem ManifestChange.host {t u : TrustContext} (h : ManifestChange t u) : u.host = t.host := by
  obtain ⟨m, l, dirty, rfl⟩ := h
  rfl

def StateChange (t u : TrustContext) : Prop := ∃ s, u = { t with state := s }

theorem StateChange.trans {t u v : TrustContext} (h : StateChange t u) (h' : StateChange u v) : StateChange t v := by
  obtain ⟨s, rfl⟩ := h
  obtain ⟨s', rfl⟩ := h'
  exact ⟨s', rfl⟩

variable {C : Crypto} {t : TrustContext}

/-! ## Routine keys -/

theorem pinRoutine_within (r : RoutineKeys) (epoch : Int) (list sig : Str) (keys : List TrustRoutineKey) :
    (pinRoutine r epoch list sig keys).Within (· ∈ routineFiles) fun _ => True := by
  unfold pinRoutine raiseRoutineFloor
  rw [Prog.within_bind]
  refine Prog.within_ite (fun _ => ⟨by decide, fun ok => ?_⟩) fun _ => ⟨by decide, fun _ => trivial⟩
  cases ok
  · trivial
  · exact ⟨by decide, fun _ => trivial⟩

theorem acceptRoutineKeys_within (obj : Str) :
    (acceptRoutineKeys C t obj).Within (· ∈ routineFiles) (RoutineChange t) := by
  unfold acceptRoutineKeys
  split
  · exact ⟨_, rfl⟩
  · iterate 4 refine Prog.within_ite (fun _ => ⟨_, rfl⟩) fun _ => ?_
    rw [Prog.within_bind]
    exact (pinRoutine_within ..).imp fun r _ => ⟨r, rfl⟩

theorem heartbeatRoutine_within (resp : Str) :
    (heartbeatRoutine C t resp).Within (· ∈ routineFiles) (RoutineChange t) := by
  unfold heartbeatRoutine
  split
  · exact acceptRoutineKeys_within _
  · exact ⟨_, rfl⟩

theorem loadRoutineOnce_within : (loadRoutineOnce C t).Within (· ∈ routineFiles) (RoutineChange t) := by
  unfold loadRoutineOnce
  split_ifs
  · exact ⟨_, rfl⟩
  · exact fun _ _ => ⟨_, rfl⟩

/-! ## Manifests and their floors -/

theorem takeStoredManifest_change (content : Option Str) : ManifestChange t (takeStoredManifest C t content) := by
  unfold takeStoredManifest
  split
  · exact ⟨_, _, _, rfl⟩
  · dsimp only
    split_ifs <;> exact ⟨_, _, _, rfl⟩

theorem flushFloors_within : (flushFloors t).Within (· ∈ manifestFiles) (ManifestChange t) := by
  unfold flushFloors
  split_ifs
  · refine ⟨by decide, fun ok => ?_⟩
    cases ok <;> exact ⟨_, _, _, rfl⟩
  · exact ⟨_, _, _, rfl⟩

theorem raiseManifestFloor_within (seq : Int) :
    (raiseManifestFloor t seq).Within (· ∈ manifestFiles) fun r => ManifestChange t r.2 := by
  refine Prog.within_ite (fun _ => ⟨_, _, _, rfl⟩) fun _ => ?_
  refine Prog.within_ite (fun _ => ⟨_, _, _, rfl⟩) fun _ => ⟨by decide, fun ok => ?_⟩
  cases ok <;> exact ⟨_, _, _, rfl⟩

theorem acceptManifest_within (v : Str) : (acceptManifest C t v).Within (· ∈ manifestFiles) (ManifestChange t) := by
  unfold acceptManifest
  split
  case h_1 => exact ⟨_, _, _, rfl⟩
  case h_2 m _ =>
    iterate 3 refine Prog.within_ite (fun _ => ⟨_, _, _, rfl⟩) fun _ => ?_
    refine ⟨by decide, fun ok => ?_⟩
    refine Prog.within_ite (fun _ => ⟨_, _, _, rfl⟩) fun _ => ?_
    rw [Prog.within_bind]
    refine (raiseManifestFloor_within (t := { t with manifest := some m }) m.seq).imp fun r hr => ?_
    obtain ⟨m', l, dirty, hr⟩ := hr
    exact ⟨m', l, dirty, hr⟩

theorem heartbeatManifest_within (resp : Str) :
    (heartbeatManifest C t resp).Within (· ∈ manifestFiles) (ManifestChange t) := by
  unfold heartbeatManifest
  split
  · exact Prog.within_ite (fun _ => ⟨_, _, _, rfl⟩) fun _ => acceptManifest_within _
  · exact ⟨_, _, _, rfl⟩

/-! ## The trust offer -/

theorem pinBundle_within (b : TrustBundle) (keys : PerKey Str) :
    (pinBundle C t b keys).Within (· ∈ pinFiles) fun u => u.host = t.host := by
  refine ⟨by decide, fun ok => ?_⟩
  cases ok
  · rfl
  · refine ⟨by decide, fun ok => ?_⟩
    cases ok
    · rfl
    · exact fun content => (takeStoredManifest_change content).host

theorem acceptBundle_within (b : TrustBundle) (keys : PerKey Str) (sig : Str) :
    (acceptBundle C t b keys sig).Within (· ∈ pinFiles) fun u => u.host = t.host := by
  iterate 5 refine Prog.within_ite (fun _ => rfl) fun _ => ?_
  exact Prog.within_ite (fun _ => rfl) fun _ => pinBundle_within b keys

theorem heartbeatPin_within (resp : Str) :
    (heartbeatPin C t resp).Within (· ∈ pinFiles) fun u => u.host = t.host := by
  unfold heartbeatPin
  split
  · unfold pinKeys
    split
    · rfl
    · refine Prog.within_ite (fun _ => rfl) fun _ => ?_
      split
      · rfl
      · exact acceptBundle_within _ _ _
  · rfl

theorem heartbeatTrust_within (resp : Str) : (heartbeatTrust C t resp).Within
    (· ∈ routineFiles ++ pinFiles ++ manifestFiles) fun u => u.host = t.host := by
  unfold heartbeatTrust
  simp only [Prog.within_bind]
  refine loadRoutineOnce_within.mono (by decide) fun u hu => ?_
  refine (heartbeatPin_within resp).mono (by decide) fun v hv => ?_
  refine (heartbeatRoutine_within resp).mono (by decide) fun w hw => ?_
  refine flushFloors_within.mono (by decide) fun x hx => ?_
  refine (heartbeatManifest_within resp).mono (by decide) fun y hy => ?_
  obtain ⟨r, rfl⟩ := hu
  obtain ⟨r', rfl⟩ := hw
  obtain ⟨m, l, dirty, rfl⟩ := hx
  obtain ⟨m', l', dirty', rfl⟩ := hy
  exact hv

/-! ## Grants -/

theorem save_within (s : TrustState) : s.save.Within (· ∈ [File.enforcementState]) fun _ => True := by
  unfold TrustState.save
  split
  · trivial
  · exact ⟨by decide, fun _ => trivial⟩

theorem publish_within (changed : Bool) (s : TrustState) :
    (publish t changed s).Within (· ∈ [File.enforcementState]) fun r => StateChange t r.2 := by
  unfold publish
  rw [Prog.within_bind]
  refine (save_within s).imp fun saved _ => ?_
  cases saved <;> exact ⟨_, rfl⟩

theorem applyGrant_within (g : ResponseGrant) (payload : Str) (now : Int) :
    (applyGrant C t g payload now).Within (· ∈ [File.enforcementState]) fun r => StateChange t r.2 := by
  have hsame : StateChange t t := ⟨_, rfl⟩
  iterate 3 refine Prog.within_ite (fun _ => hsame) fun _ => ?_
  split
  · exact hsame
  · exact publish_within ..

theorem applyGrants_within (now : Int) (gs : List (ResponseGrant × Str)) (changed : Bool) :
    (applyGrants C now gs (changed, t)).Within (· ∈ [File.enforcementState]) fun r => StateChange t r.2 := by
  induction gs generalizing t changed with
  | nil => exact ⟨_, rfl⟩
  | cons g gs ih =>
    unfold applyGrants
    rw [Prog.within_bind]
    refine (applyGrant_within ..).imp fun r hr => ?_
    exact (ih _).imp fun r' hr' => hr.trans hr'

theorem adopt_within (resp : Str) (now : Int) :
    (adopt t resp now).Within (· ∈ [File.enforcementState]) fun r => ∀ u ∈ r, StateChange t u := by
  unfold adopt
  split
  · intro u hu
    cases hu
  · unfold bootstrap
    simp only [Prog.within_bind]
    refine (save_within _).imp fun saved _ u hu => ?_
    cases hu
    exact ⟨_, rfl⟩

/-- What holds behind the trust part of a heartbeat, and does not look at the enforcement state, holds at its
end. -/
theorem processHeartbeat_wp {ok : File → Option Outcome → Prop} {I : Disk File → Prop}
    {Q : TrustContext → Disk File → Prop} {resp : Str} {now : Int} {d : Disk File} (hstay : Q t d)
    (htrust : (heartbeatTrust C t resp).wp ok I Q d) (hstop : ∀ u d, Q u d → I d)
    (hstate : ∀ u s d d', (∀ f ≠ .enforcementState, d' f = d f) → Q u d → Q { u with state := s } d') :
    (processHeartbeat C t resp now).wp ok I (fun r d' => Q r.2 d') d := by
  have hframe : ∀ {α : Type} {p : Prog File α} {F : α → Prop} {u : TrustContext} {d : Disk File},
      p.Within (· ∈ [File.enforcementState]) F → Q u d → p.wp ok I (fun a d' => F a ∧ Q u d') d := by
    intro α p F u d hp hu
    have hwp : p.wp ok _ _ d := hp.wp (R := Q u) (fun e e' he hq => hstate u u.state e e'
      (fun f hf => he f fun hmem => hf (List.mem_singleton.mp hmem)) hq) hu
    exact Prog.wp_mono (fun _ => hstop u _) (fun _ _ h => h) hwp
  have hgrants : ∀ {u : TrustContext} {d : Disk File} (changed : Bool), Q u d →
      (applyGrants C now (answerGrants resp) (changed, u)).wp ok I (fun r d' => Q r.2 d') d := by
    intro u d changed hu
    refine Prog.wp_mono (fun _ => id) ?_ (hframe (applyGrants_within ..) hu)
    rintro r d' ⟨⟨s, hs⟩, hq⟩
    rw [hs]
    exact hstate u s d' d' (fun _ _ => rfl) hq
  refine Prog.wp_ite (fun _ => hstay) fun _ => ?_
  refine Prog.wp_seq htrust ?_
  intro u d₁ hu
  refine Prog.wp_ite (fun _ => hgrants false hu) fun _ => ?_
  refine Prog.wp_seq (hframe (adopt_within ..) hu) ?_
  rintro adopted d₂ ⟨hadopted, hq⟩
  cases adopted with
  | none => exact hq
  | some u' =>
    obtain ⟨s, rfl⟩ := hadopted u' rfl
    exact hgrants true (hstate u s d₂ d₂ (fun _ _ => rfl) hq)

end Ominull.Agent
