import Ominull.Agent.PinDisk

/-! The pinned bundle over the life of a host: heartbeats from an arbitrary hub, starts, re-pins and
stops between any two writes. -/

namespace Ominull.Agent

open Lib

section Frame

variable {C : Crypto} {d d₁ d₂ d' : Disk File} {v w : PinView}

theorem PinStop.congr (h : ∀ f ∈ pinFiles, d' f = d₁ f) (hs : PinStop C d d₁) : PinStop C d d' :=
  ⟨hs.disk.congr h, by rw [diskFloor_congr h]; exact hs.floor⟩

theorem PinMove.congr (h : ∀ f ∈ pinFiles, d' f = d₁ f) (hm : PinMove C d v d₁ w) : PinMove C d v d' w :=
  ⟨hm.toPinStop.congr h, hm.agent.congr h, by rw [validPin_congr h]; exact hm.move⟩

theorem PinStop.trans (h : PinStop C d d₁) (h' : PinStop C d₁ d₂) : PinStop C d d₂ :=
  ⟨h'.disk, Int.le_trans h.floor h'.floor⟩

theorem PinMove.trans (h : PinMove C d v d₁ v) (h' : PinMove C d₁ v d₂ w) : PinMove C d v d₂ w := by
  refine ⟨h.toPinStop.trans h'.toPinStop, h'.agent, ?_⟩
  refine h'.move.imp_right (Or.imp_right ?_)
  exact fun ⟨hnone, hle, hvalid⟩ => ⟨hnone, Int.le_trans h.floor hle, hvalid⟩

theorem pin_frame {α : Type} {p : Prog File α} {files : List File} {Q : α → Prop}
    (h : p.Within (· ∈ files) Q) (hfiles : ∀ f ∈ pinFiles, f ∉ files) (hm : PinMove C d v d₁ w) :
    p.wp atomicPins (PinStop C d) (fun a d' => Q a ∧ PinMove C d v d' w) d₁ := by
  have hframe : p.wp atomicPins _ _ d₁ := h.wp (R := fun d' => PinMove C d v d' w)
    (fun e e' he hm => hm.congr fun f hf => he f (hfiles f hf)) hm
  exact Prog.wp_mono (fun _ hs => hs.toPinStop) (fun _ _ hq => hq) hframe

end Frame

section Heartbeat

variable {C : Crypto} {d : Disk File} {t : TrustContext} {resp : Str}

theorem heartbeatTrust_pin (hd : PinDisk C d) (ha : PinAgent C d t.pinView) :
    (heartbeatTrust C t resp).wp atomicPins (PinStop C d) (fun u d' => PinMove C d t.pinView d' u.pinView) d := by
  refine Prog.wp_seq (pin_frame loadRoutineOnce_within (by decide) (PinMove.refl hd ha)) ?_
  rintro - d₁ ⟨⟨r, rfl⟩, hm₁⟩
  rw [Prog.wp_bind]
  have hpin := heartbeatPin_wp (t := { t with routine := r }) hm₁.disk hm₁.agent resp
  refine Prog.wp_mono (fun _ hs => hm₁.toPinStop.trans hs) ?_ hpin
  intro u d₂ hm₂
  refine Prog.wp_seq (pin_frame (heartbeatRoutine_within resp) (by decide) (hm₁.trans hm₂)) ?_
  rintro - d₃ ⟨⟨r', rfl⟩, hm₃⟩
  refine Prog.wp_seq (pin_frame flushFloors_within (by decide) hm₃) ?_
  rintro - d₄ ⟨⟨m, l, dirty, rfl⟩, hm₄⟩
  refine Prog.wp_mono (fun _ => id) ?_
    (pin_frame (heartbeatManifest_within resp) (by decide) hm₄)
  rintro - d₅ ⟨⟨m', l', dirty', rfl⟩, hm₅⟩
  exact hm₅

/-- A heartbeat, whatever the hub answers. -/
theorem processHeartbeat_pin {now : Int} (hd : PinDisk C d) (ha : PinAgent C d t.pinView) :
    (processHeartbeat C t resp now).wp atomicPins (PinStop C d)
      (fun r d' => PinMove C d t.pinView d' r.2.pinView) d := by
  refine processHeartbeat_wp (PinMove.refl hd ha) (heartbeatTrust_pin hd ha) (fun _ _ h => h.toPinStop) ?_
  exact fun u s d₁ d₂ hf h => h.congr fun f hmem => hf f (by rintro rfl; revert hmem; decide)

end Heartbeat

section Repin

variable {C : Crypto} {d d₁ d' : Disk File} {t : TrustContext} {v : PinView}

/-- What a re-pin found to revoke: the floor and, if there is a pin, its epoch. -/
structure RepinView (C : Crypto) (d : Disk File) (t : TrustContext) : Prop where
  floor : t.epochFloor = diskFloor d
  epoch : ∀ b keys, PinFile C d b keys → t.epoch = b.epoch

/-- Where a re-pin may leave the disk, from the moment it has revoked the pin or earlier. The pin is
still the one it found or is gone, and the floor has moved only if a start would have taken the pin. -/
structure Repinned (C : Crypto) (d d' : Disk File) : Prop extends PinStop C d d' where
  file : ∀ b keys, PinFile C d' b keys → PinFile C d b keys
  idle : (∀ b keys, ¬ValidPin C d b keys) → diskFloor d' = diskFloor d
  revoked : d' .trustPin = none → ∀ b keys, PinFile C d b keys → b.epoch < diskFloor d'

theorem Repinned.congr (h : ∀ f ∈ pinFiles, d' f = d₁ f) (hr : Repinned C d d₁) : Repinned C d d' := by
  refine ⟨hr.toPinStop.congr h, ?_, ?_, ?_⟩
  · rw [pinFile_congr h]
    exact hr.file
  · rw [diskFloor_congr h]
    exact hr.idle
  · rw [diskFloor_congr h, h .trustPin (by decide)]
    exact hr.revoked

theorem Repinned.refl (hd : PinDisk C d) : Repinned C d d :=
  ⟨⟨hd, Int.le_refl _⟩, fun _ _ => id, fun _ => rfl, fun hnone b keys hb => by
    cases hnone.symm.trans hb.content⟩

theorem Repinned.agent (hr : Repinned C d d') (ha : PinAgent C d v) : PinAgent C d' v := by
  have hvalid : ∀ b keys, ValidPin C d' b keys → ValidPin C d b keys := fun b keys hv =>
    ⟨hr.file b keys hv.1, Int.le_trans hr.floor hv.2⟩
  rcases ha with hu | ⟨b, hb⟩
  · exact .inl ⟨hu.haveKey, hu.floor.trans (hr.idle hu.stale).symm,
      fun b keys hv => hu.stale b keys (hvalid b keys hv)⟩
  · exact .inr ⟨b, { hb with
      floor := Int.le_trans hb.floor hr.floor, same := fun b' keys hv => hb.same b' keys (hvalid b' keys hv) }⟩

/-- The disk once the floor is above the pin, with the pin there or gone. -/
structure Revoked (C : Crypto) (d d' : Disk File) : Prop extends Repinned C d d' where
  below : ∀ b keys, PinFile C d b keys → b.epoch < diskFloor d'

theorem Revoked.congr (h : ∀ f ∈ pinFiles, d' f = d₁ f) (hr : Revoked C d d₁) : Revoked C d d' :=
  ⟨hr.toRepinned.congr h, by rw [diskFloor_congr h]; exact hr.below⟩

theorem Revoked.remove (hr : Revoked C d d₁) (o : Outcome) : Revoked C d (Prog.after d₁ .trustPin none o) := by
  cases o with
  | failed => exact hr
  | done | unsynced =>
    have hpin : Function.update d₁ .trustPin none .trustPin = none := Function.update_self ..
    have hbelow : ∀ b keys, PinFile C d b keys →
        b.epoch < diskFloor (Function.update d₁ .trustPin none) := by
      exact hr.below
    refine ⟨⟨⟨⟨.inl hpin, ?_, ?_⟩, ?_⟩, fun b keys hb => ?_, ?_, fun _ => hbelow⟩, hbelow⟩
    · exact hr.disk.floor_pos
    · exact hr.disk.floor_lt
    · exact hr.floor
    · cases hpin.symm.trans hb.content
    · exact hr.idle

/-- The write of the floor that revokes the pin. -/
theorem revokePin_wp (hd : PinDisk C d) (ht : RepinView C d t) (hsame : ∀ f ∈ pinFiles, d₁ f = d f) :
    (revokePin t).wp atomicPins (Repinned C d) (fun ok d' => Repinned C d d' ∧ (ok = true → Revoked C d d')) d₁ := by
  have hhere : Repinned C d d₁ := (Repinned.refl hd).congr hsame
  have hpin : d₁ .trustPin = d .trustPin := hsame _ (by decide)
  unfold revokePin
  rw [Prog.wp_bind, Prog.wp_readFile, hpin]
  rcases hd.pin with hnone | ⟨b, keys, hfile, hle⟩
  · rw [hnone]
    refine ⟨hhere, fun _ => ⟨hhere, fun b keys hb => ?_⟩⟩
    cases hnone.symm.trans hb.content
  · rw [hfile.content]
    have hepoch := ht.epoch b keys hfile
    have hfloor := ht.floor
    have hbound := hfile.pinnable.bounded
    have hlt := hd.floor_lt
    -- the next floor is the first above the pin, or the floor there is
    obtain ⟨next, hnext⟩ : ∃ n, n = if t.epochFloor < t.epoch + 1 then t.epoch + 1 else t.epochFloor :=
      ⟨_, rfl⟩
    have hge : diskFloor d ≤ next ∧ b.epoch < next ∧ next < 2 ^ 63 - 7 := by
      rw [hnext]
      split <;> omega
    have hidle : (∀ b keys, ¬ValidPin C d b keys) → next = diskFloor d := by
      intro hstale
      have hlow : ¬diskFloor d ≤ b.epoch := fun hle => hstale b keys ⟨hfile, hle⟩
      rw [hnext, if_neg (by omega)]
      exact hfloor
    change (Prog.writeFile .trustEpoch (decimalInt (if t.epochFloor < t.epoch + 1 then t.epoch + 1
      else t.epochFloor) ++ str "\n")).wp _ _ _ d₁
    rw [← hnext, Prog.wp_writeFile]
    refine ⟨fun _ => hhere, fun o ho => ?_⟩
    obtain ⟨hd₂, hfloor₂, hfile₂⟩ := (hd.congr hsame).raise (n := next)
      (by rw [diskFloor_congr hsame]; exact hge.1) hge.2.2
    cases o with
    | unsynced => exact absurd rfl (ho (by decide))
    | failed => exact ⟨hhere, nofun⟩
    | done =>
      have hbelow : ∀ b' keys', PinFile C d b' keys' → b'.epoch < next := by
        intro b' keys' hb'
        obtain ⟨rfl, -⟩ := hfile.unique hb'
        exact hge.2.1
      have hrevoked : Revoked C d
          (Function.update d₁ .trustEpoch (some (decimalInt next ++ str "\n"))) := by
        refine ⟨⟨⟨hd₂, ?_⟩, ?_, ?_, ?_⟩, ?_⟩
        · rw [hfloor₂]
          exact hge.1
        · rw [hfile₂, pinFile_congr hsame]
          exact fun _ _ => id
        · rw [hfloor₂]
          exact hidle
        · rw [hfloor₂]
          exact fun _ => hbelow
        · rw [hfloor₂]
          exact hbelow
      exact ⟨hrevoked.toRepinned, fun _ => hrevoked⟩

theorem removeIfPresent_within (f : File) : (removeIfPresent f).Within (· ∈ [f]) fun _ => True := by
  intro c
  refine Prog.within_ite (fun _ => trivial) fun _ => ?_
  exact ⟨List.mem_singleton.mpr rfl, fun _ _ => trivial⟩

theorem removePin_wp (hr : Revoked C d d₁) :
    (removeIfPresent .trustPin).wp atomicPins (Repinned C d) (fun _ d' => Revoked C d d') d₁ := by
  refine Prog.wp_ite (fun _ => hr) fun _ => ?_
  exact ⟨fun _ => hr.toRepinned, fun o _ => hr.remove o⟩

theorem removeOther_wp {f : File} (hf : f ∉ pinFiles) (hr : Revoked C d d₁) :
    (removeIfPresent f).wp atomicPins (Repinned C d) (fun _ d' => Revoked C d d') d₁ := by
  have hother : ∀ g ∈ pinFiles, g ∉ [f] := by
    intro g hg hmem
    rw [List.mem_singleton.mp hmem] at hg
    exact hf hg
  have hframe : (removeIfPresent f).wp atomicPins _ _ d₁ :=
    (removeIfPresent_within f).wp (R := Revoked C d)
      (fun e e' he hr => hr.congr fun g hg => he g (hother g hg)) hr
  exact Prog.wp_mono (fun _ hs => hs.toRepinned) (fun _ _ hq => hq.2) hframe

theorem saveDirtyFloors_within : (saveDirtyFloors t).Within (· ∈ manifestFiles) fun _ => True := by
  exact Prog.within_ite (fun _ => ⟨by decide, fun _ => trivial⟩) fun _ => trivial

theorem repin_wp (hd : PinDisk C d) (ht : RepinView C d t) :
    (repin t).wp atomicPins (Repinned C d) (fun _ d' => Repinned C d d') d := by
  unfold repin
  rw [Prog.wp_bind]
  have hfloors : (saveDirtyFloors t).wp atomicPins _ _ d := saveDirtyFloors_within.wp
    (R := fun d' => ∀ f ∈ pinFiles, d' f = d f)
    (fun e e' he hr f hf => (he f (by revert hf; cases f <;> decide)).trans (hr f hf)) (fun _ _ => rfl)
  refine Prog.wp_mono (fun d' hsame => (Repinned.refl hd).congr hsame) ?_ hfloors
  rintro ok d₁ ⟨-, hsame⟩
  refine Prog.wp_ite (fun _ => (Repinned.refl hd).congr hsame) fun _ => ?_
  refine Prog.wp_seq (revokePin_wp hd ht hsame) ?_
  rintro ok d₂ ⟨hre, hrevoked⟩
  refine Prog.wp_ite (fun _ => hre) fun hok => ?_
  refine Prog.wp_seq (removePin_wp (hrevoked (by simpa using hok))) ?_
  intro pin d₃ hr₃
  refine Prog.wp_seq (removeOther_wp (f := .responsePub) (by decide) hr₃) ?_
  intro response d₄ hr₄
  refine Prog.wp_seq (removeOther_wp (f := .autoIsolatePub) (by decide) hr₄) ?_
  intro autoIsolate d₅ hr₅
  refine Prog.wp_seq (removeOther_wp (f := .policyPub) (by decide) hr₅) ?_
  exact fun policy d₆ hr₆ => hr₆.toRepinned

theorem repinProcess_wp {endpointID : Str} (hd : PinDisk C d) :
    (repinProcess C endpointID).wp atomicPins (Repinned C d) (fun _ d' => Repinned C d d') d := by
  unfold repinProcess
  rw [Prog.wp_bind]
  refine init_wp fun t state ht => repin_wp hd ⟨?_, fun b keys hfile => ?_⟩
  · exact (congrArg PinView.epochFloor (ht.pinView (C := C) state)).trans (takePin_epochFloor ..)
  · exact (congrArg PinView.epoch (ht.pinView (C := C) state)).trans (takePin_epoch _ hfile)

def repinFiles : List File := [.trustEpoch, .trustPin, .responsePub, .autoIsolatePub, .policyPub]

/-- What a re-pin does once the floors are saved. -/
theorem revoke_within (t : TrustContext) :
    (do
      let ok ← revokePin t
      if !ok then pure false
      else do
        let pin ← removeIfPresent .trustPin
        let response ← removeIfPresent .responsePub
        let autoIsolate ← removeIfPresent .autoIsolatePub
        let policy ← removeIfPresent .policyPub
        pure (pin && response && autoIsolate && policy) : Prog File Bool).Within
      (· ∈ repinFiles) fun _ => True := by
  have hremove : ∀ f ∈ repinFiles, (removeIfPresent f).Within (· ∈ repinFiles) fun _ => True := by
    intro f hf
    refine (removeIfPresent_within f).mono (fun g hg => ?_) fun _ => id
    rw [List.mem_singleton.mp hg]
    exact hf
  have hrevoke : (revokePin t).Within (· ∈ repinFiles) fun _ => True := by
    exact fun pin => Prog.within_ite (fun _ => trivial) fun _ => ⟨by decide, fun _ => trivial⟩
  rw [Prog.within_bind]
  refine hrevoke.imp fun ok _ => ?_
  refine Prog.within_ite (fun _ => trivial) fun _ => ?_
  simp only [Prog.within_bind, Prog.within_pure]
  refine (hremove .trustPin (by decide)).imp fun _ _ => ?_
  refine (hremove .responsePub (by decide)).imp fun _ _ => ?_
  refine (hremove .autoIsolatePub (by decide)).imp fun _ _ => ?_
  exact hremove .policyPub (by decide)

theorem repin_within (t : TrustContext) : (repin t).Within (· ∈ repinFiles ++ manifestFiles) fun _ => True := by
  unfold repin
  rw [Prog.within_bind]
  refine saveDirtyFloors_within.mono (by decide) fun saved _ => ?_
  refine Prog.within_ite (fun _ => trivial) fun _ => ?_
  exact (revoke_within t).mono (by decide) fun _ => id

end Repin

section Life

variable {C : Crypto} {endpointID : Str} {s₀ s s' s'' : Host} {e : Event}

/-- The life of a host whose pin files are written atomically. -/
abbrev Life (C : Crypto) (endpointID : Str) : Host → Host → Prop :=
  Run (Guarded (AtomicPins C endpointID) (Step C endpointID))

structure HostInv (C : Crypto) (s : Host) : Prop where
  disk : PinDisk C s.disk
  agent : ∀ t ∈ s.agent, PinAgent C s.disk t.pinView

def TrustContext.NoKey (t : TrustContext) : Prop := t.haveKey = ⟨false, false, false⟩

/-- What an event does to the pin: the floor on disk does not fall, and keys an agent holds it held
before, unless they are of a bundle not below that floor. -/
structure PinEvent (C : Crypto) (s : Host) (e : Event) (s' : Host) : Prop where
  inv : HostInv C s'
  floor : diskFloor s.disk ≤ diskFloor s'.disk
  keys : ∀ u ∈ s'.agent, u.NoKey ∨ (e ≠ .start ∧ ∃ t ∈ s.agent, u.pinView = t.pinView) ∨
    diskFloor s.disk ≤ u.epoch

theorem HostInv.fresh (h : s.Fresh) : HostInv C s := by
  obtain ⟨hagent, hfiles⟩ := h
  have hfloor : diskFloor s.disk = 1 := by
    unfold diskFloor
    rw [hfiles .trustEpoch (by decide)]
    rfl
  refine ⟨⟨.inl (hfiles .trustPin (by decide)), by omega, by omega⟩, fun t ht => ?_⟩
  rw [hagent] at ht
  cases ht

theorem start_pin (hs : HostInv C s) : PinEvent C s .start (s.step C endpointID .start) := by
  have hwp : (init C endpointID).wp (fun _ _ => True) (fun _ => True)
      (fun t d' => PinMove C s.disk (TrustContext.pinView { endpointID := endpointID.take 63 }) s.disk
        t.pinView) s.disk :=
    init_wp fun t state ht => by
      rw [ht.pinView]
      exact takePin_move _ rfl hs.disk
  have hsound := Prog.wp_sound hwp [] fun _ _ => trivial
  refine ⟨⟨hs.disk, fun t ht => ?_⟩, Int.le_refl _, fun u hu => ?_⟩
  · rw [show ((init C endpointID).exec s.disk []).result = some t from ht] at hsound
    exact hsound.agent
  · rw [show ((init C endpointID).exec s.disk []).result = some u from hu] at hsound
    rcases hsound.move with heq | hnone | ⟨-, hle, -⟩
    · exact .inl (congrArg PinView.haveKey heq)
    · exact .inl hnone
    · exact .inr (.inr hle)

theorem beat_pin {resp : Str} {now : Int} {os : List Outcome} (hs : HostInv C s)
    (hok : AtomicPins C endpointID s (.beat resp now os)) :
    PinEvent C s (.beat resp now os) (s.step C endpointID (.beat resp now os)) := by
  have hbeat := beat_sound (fun t ht => processHeartbeat_pin hs.disk (hs.agent t ht)) hok
  generalize s.step C endpointID (.beat resp now os) = s' at hbeat ⊢
  cases hbeat with
  | idle hagent => exact ⟨hs, Int.le_refl _, fun u hu => by cases hagent.symm.trans hu⟩
  | stopped h => exact ⟨⟨h.disk, fun u hu => by cases hu⟩, h.floor, fun u hu => by cases hu⟩
  | @done t r d hagent h =>
    refine ⟨⟨h.disk, fun u hu => ?_⟩, h.floor, fun u hu => ?_⟩
    · cases hu
      exact h.agent
    · cases hu
      rcases h.move with heq | hnone | ⟨-, hle, -⟩
      · exact .inr (.inl ⟨nofun, t, hagent, heq⟩)
      · exact .inl hnone
      · exact .inr (.inr hle)

theorem repin_repinned {os : List Outcome} (hs : HostInv C s) (hok : AtomicPins C endpointID s (.repin os)) :
    Repinned C s.disk (s.step C endpointID (.repin os)).disk :=
  Prog.wp_always (repinProcess_wp hs.disk) os hok

theorem step_pin (hs : HostInv C s)
    (h : Guarded (AtomicPins C endpointID) (Step C endpointID) s e s') : PinEvent C s e s' := by
  obtain ⟨hok, rfl⟩ := h
  cases e with
  | start => exact start_pin hs
  | beat resp now os => exact beat_pin hs hok
  | repin os =>
    have hr := repin_repinned hs hok
    refine ⟨⟨hr.disk, fun t ht => hr.agent (hs.agent t ht)⟩, hr.floor, fun u hu => ?_⟩
    exact .inr (.inl ⟨nofun, u, hu, rfl⟩)
  | stop => exact ⟨⟨hs.disk, fun u hu => by cases hu⟩, Int.le_refl _, fun u hu => by cases hu⟩

theorem Life.inv (hs : HostInv C s) (h : Life C endpointID s s') : HostInv C s' :=
  h.preserves (fun _ _ _ hi hstep => (step_pin hi hstep).inv) hs

theorem Life.floor (hs : HostInv C s) (h : Life C endpointID s s') : diskFloor s.disk ≤ diskFloor s'.disk := by
  refine Run.monotone (I := HostInv C) (R := fun s s' => diskFloor s.disk ≤ diskFloor s'.disk)
    (fun _ => Int.le_refl _) (fun _ _ _ => Int.le_trans) ?_ ?_ h hs
  · exact fun _ _ _ hi hstep => (step_pin hi hstep).inv
  · exact fun _ _ _ hi hstep => (step_pin hi hstep).floor

/-- The three keys are those of one bundle, and its statement for this tenant was verified under the
release key. -/
def TrustContext.OneBundle (C : Crypto) (t : TrustContext) : Prop :=
  ∃ b : TrustBundle, b.Released C ∧ b.tenant = trustTenant ∧ b.epoch = t.epoch ∧ b.keys = some t.keys

theorem PinAgent.oneBundle {d : Disk File} {t : TrustContext} (h : PinAgent C d t.pinView)
    (hkey : ¬t.NoKey) : t.pinned = true ∧ t.OneBundle C ∧ t.epoch ≤ diskFloor d := by
  rcases h with hu | ⟨b, hb⟩
  · exact absurd hu.haveKey hkey
  · have hhave : t.haveKey = ⟨true, true, true⟩ := hb.haveKey
    have hepoch : t.epoch = b.epoch := hb.epoch
    refine ⟨by simp [TrustContext.pinned, hhave], ⟨b, hb.released, hb.pinnable.tenant, hepoch.symm,
      hb.pinnable.keys⟩, ?_⟩
    rw [hepoch]
    exact hb.floor

theorem not_noKey {t : TrustContext} (h : t.pinned = true) : ¬t.NoKey := by
  intro hnone
  rw [TrustContext.pinned, hnone] at h
  cases h

/-- The epoch in force does not fall. -/
theorem Life.epoch_le (hs : HostInv C s) (h : Life C endpointID s s') {t u : TrustContext} (ht : t ∈ s.agent)
    (htp : t.pinned = true) (hu : u ∈ s'.agent) (hup : u.pinned = true) : t.epoch ≤ u.epoch := by
  -- the floor on disk is the witness: it is never below an epoch that was in force
  have hinv : HostInv C s' ∧ t.epoch ≤ diskFloor s'.disk ∧
      ∀ u ∈ s'.agent, u.NoKey ∨ t.epoch ≤ u.epoch := by
    refine h.preserves (I := fun s' => HostInv C s' ∧ t.epoch ≤ diskFloor s'.disk ∧
      ∀ u ∈ s'.agent, u.NoKey ∨ t.epoch ≤ u.epoch) ?_ ⟨hs, ?_, ?_⟩
    · rintro s₁ e s₂ ⟨hi, hfloor, hagent⟩ hstep
      have hev := step_pin hi hstep
      refine ⟨hev.inv, Int.le_trans hfloor hev.floor, fun u hu => ?_⟩
      rcases hev.keys u hu with hnone | ⟨-, w, hw, hview⟩ | hle
      · exact .inl hnone
      · have hkeys : u.haveKey = w.haveKey := congrArg PinView.haveKey hview
        have hepoch : u.epoch = w.epoch := congrArg PinView.epoch hview
        rw [hepoch]
        exact (hagent w hw).imp_left hkeys.trans
      · exact .inr (Int.le_trans hfloor hle)
    · exact ((hs.agent t ht).oneBundle (not_noKey htp)).2.2
    · intro u hu
      cases ht.symm.trans hu
      exact .inr (Int.le_refl _)
  exact (hinv.2.2 u hu).resolve_left (not_noKey hup)

/-- After a re-pin that removed a pin, keys that are taken are of a later epoch. -/
theorem Life.later_epoch {os : List Outcome} (hs : HostInv C s)
    (hok : AtomicPins C endpointID s (.repin os))
    (hgone : (s.step C endpointID (.repin os)).disk .trustPin = none) {b : TrustBundle}
    {keys : PerKey Str} (hb : (readSmall 600 (s.disk .trustPin)).bind parsePin = some (b, keys))
    (hlife : Life C endpointID (s.step C endpointID (.repin os)) s')
    (hstep : Guarded (AtomicPins C endpointID) (Step C endpointID) s' e s'') {u : TrustContext}
    (hu : u ∈ s''.agent) (hup : u.pinned = true) :
    (e ≠ .start ∧ ∃ t ∈ s'.agent, u.pinView = t.pinView) ∨ b.epoch < u.epoch := by
  have hr := repin_repinned hs hok
  have hbelow : b.epoch < diskFloor (s.step C endpointID (.repin os)).disk := by
    rcases hs.disk.pin with hnone | ⟨b', keys', hfile, -⟩
    · rw [hnone] at hb
      cases hb
    · rw [hfile.content, readPin hfile.pinnable] at hb
      cases hb
      exact hr.revoked hgone b keys hfile
  have hinv := (step_pin hs ⟨hok, rfl⟩).inv
  have hfloor := Life.floor hinv hlife
  rcases (step_pin (Life.inv hinv hlife) hstep).keys u hu with hnone | hsame | hle
  · exact absurd hnone (not_noKey hup)
  · exact .inl hsame
  · exact .inr (by omega)

/-- On a host that starts with nothing pinned: whoever holds a key holds the three keys of one released bundle,
the epoch in force never decreases, and once a re-pin has removed a pin, whatever is pinned after it is of a
later epoch. -/
theorem pin_never_rolled_back (h₀ : s₀.Fresh) (hrun : Life C endpointID s₀ s) :
    (∀ t ∈ s.agent, ¬t.NoKey → t.pinned = true ∧ t.OneBundle C) ∧
      (∀ s', Life C endpointID s s' → ∀ t ∈ s.agent, ∀ u ∈ s'.agent,
        t.pinned = true → u.pinned = true → t.epoch ≤ u.epoch) ∧
      ∀ os, AtomicPins C endpointID s (.repin os) →
        (s.step C endpointID (.repin os)).disk .trustPin = none →
        ∀ b keys, (readSmall 600 (s.disk .trustPin)).bind parsePin = some (b, keys) →
        ∀ s₁ e s₂, Life C endpointID (s.step C endpointID (.repin os)) s₁ →
        Guarded (AtomicPins C endpointID) (Step C endpointID) s₁ e s₂ →
        ∀ u ∈ s₂.agent, u.pinned = true →
          (e ≠ .start ∧ ∃ t ∈ s₁.agent, u.pinView = t.pinView) ∨ b.epoch < u.epoch := by
  have hs : HostInv C s := Life.inv (HostInv.fresh h₀) hrun
  refine ⟨fun t ht hkey => ?_, fun s' hlife t ht u hu htp hup => ?_, ?_⟩
  · obtain ⟨hpinned, hbundle, -⟩ := (hs.agent t ht).oneBundle hkey
    exact ⟨hpinned, hbundle⟩
  · exact Life.epoch_le hs hlife ht htp hu hup
  · intro os hok hgone b keys hb s₁ e s₂ hlife hstep u hu hup
    exact Life.later_epoch hs hok hgone hb hlife hstep hu hup

def sampleOffer : Str :=
  str "\x7b\"trust\":\x7b\"response_key\":\"" ++ List.replicate 64 0x61 ++
    str "\",\"auto_isolate_key\":\"" ++ List.replicate 64 0x62 ++ str "\",\"policy_key\":\"" ++
    List.replicate 64 0x63 ++ str "\",\"tenant_id\":\"default\",\"epoch\":3," ++
    str "\"bundle_sig\":\"CmNjY2NjY2M=\"\x7d\x7d"

def pinnedHost : Host :=
  (freshHost.step Crypto.sample (str "e1") .start).step Crypto.sample (str "e1")
    (.beat sampleOffer 0 [.done, .done])

theorem pin_never_rolled_back_sample : Life Crypto.sample (str "e1") freshHost pinnedHost ∧
    ∃ t ∈ pinnedHost.agent, t.epoch = 3 ∧ t.pinned = true ∧ t.OneBundle Crypto.sample := by
  have hrun : Life Crypto.sample (str "e1") freshHost pinnedHost :=
    ((Run.refl freshHost).tailGuarded (a := .start) rfl (by decide +kernel)).tailGuarded
      (a := .beat sampleOffer 0 [.done, .done]) rfl (by decide +kernel)
  have hagent : pinnedHost.agent.map (fun t => (t.pinned, t.epoch)) = some (true, 3) := by
    decide +kernel
  obtain ⟨t, ht, hkeys⟩ := Option.map_eq_some_iff.mp hagent
  have hpinned : t.pinned = true := congrArg Prod.fst hkeys
  have hfresh : freshHost.Fresh := ⟨rfl, fun _ _ => rfl⟩
  exact ⟨hrun, t, ht, congrArg Prod.snd hkeys,
    (pin_never_rolled_back hfresh hrun).1 t ht (not_noKey hpinned)⟩

end Life

end Ominull.Agent
