import Ominull.Agent.ManifestBeat

/-! The manifest in force over the life of a host: heartbeats from an arbitrary hub, starts, re-pins,
failed writes and stops between any two writes. -/

namespace Ominull.Agent

open Lib

variable {C : Crypto} {endpointID : Str} {P : List Str} {H : Str → Int} {d d' : Disk File}
  {t : TrustContext} {L : List (File × Option Outcome)}

variable {ok : File → Option Outcome → Prop}

section Heartbeat

theorem CarryDisk.congr (hf : ∀ f ∈ pinFiles ++ manifestFiles, d' f = d f)
    (h : CarryDisk C endpointID P H d) : CarryDisk C endpointID P H d' := by
  have hpin : ∀ f ∈ pinFiles, d' f = d f := fun f hmem => hf f (by simp [hmem])
  refine ⟨h.pin.congr hpin, h.manifest.congr hf, ?_⟩
  unfold PinsIn
  rw [pinFile_congr hpin]
  exact h.pins

theorem Carry.congr (hf : ∀ f ∈ pinFiles ++ manifestFiles, d' f = d f)
    (h : Carry C endpointID P H L d t) (r : RoutineKeys) (s : TrustState) :
    Carry C endpointID P H L d' { t with routine := r, state := s } :=
  h.congr_pin (fun f hmem => hf f (by simp [hmem])) (h.toCarryDisk.congr hf) rfl (h.agent.congr hf r s)

theorem carry_frame {α : Type} {p : Prog File α} {files : List File} {Q : α → Prop}
    (hp : p.Within (· ∈ files) Q) (hfiles : ∀ f ∈ pinFiles ++ manifestFiles, f ∉ files)
    (h : Carry C endpointID P H L d t) :
    p.wp (logged L) (CarryDisk C endpointID P H)
      (fun a d' => Q a ∧ Carry C endpointID P H L d' t) d := by
  have hframe : p.wp (logged L) _ _ d := hp.wp (R := fun d' => Carry C endpointID P H L d' t)
    (fun e e' he hc => hc.congr (fun f hf => he f (hfiles f hf)) t.routine t.state) h
  exact Prog.wp_mono (fun _ hc => hc.toCarryDisk) (fun _ _ hq => hq) hframe

/-- A part that does not write the pin files, after a part whose pin may be of a key outside `P`. -/
theorem guarded_phase {α : Type} {p : Prog File α} {files : List File} {F : α → Prop} {X : Prop}
    {I : Disk File → Prop} {Q : α → Disk File → Prop} (hw : p.Within (· ∈ files) F)
    (hfiles : ∀ f ∈ pinFiles, f ∉ files) (hx : PinsIn C P d → X) (hp : X → p.wp ok I Q d) :
    p.wp ok (fun d' => PinsIn C P d' → I d') (fun a d' => PinsIn C P d' → Q a d') d := by
  by_cases hpins : PinsIn C P d
  · refine Prog.wp_mono ?_ ?_ (hp (hx hpins))
    · exact fun _ hI _ => hI
    · exact fun _ _ hQ _ => hQ
  · have hframe : p.wp ok _ _ d := hw.wp (R := fun d' => ¬PinsIn C P d') (fun e e' he hno => by
      unfold PinsIn
      rw [pinFile_congr fun f hf => he f (hfiles f hf)]
      exact hno) hpins
    refine Prog.wp_mono ?_ ?_ hframe
    · exact fun _ hno hyes => absurd hyes hno
    · exact fun _ _ hno hyes => absurd hyes hno.2

variable {resp : Str}

theorem heartbeatTrust_carry (hP : P.length ≤ maxMfloor) (hbind : Binding C P)
    (h : Carry C endpointID P H L d t) :
    (heartbeatTrust C t resp).wp (logged L) (fun d' => PinsIn C P d' → CarryDisk C endpointID P H d')
      (fun u d' => PinsIn C P d' → Carry C endpointID P H L d' u) d := by
  unfold heartbeatTrust
  rw [Prog.wp_bind]
  refine Prog.wp_mono ?_ ?_ (carry_frame loadRoutineOnce_within (by decide) h)
  · exact fun _ hc _ => hc
  rintro - d₁ ⟨⟨r, rfl⟩, h₁⟩
  refine Prog.wp_seq (heartbeatPin_carry hP (h₁.congr (fun _ _ => rfl) r t.state) resp) ?_
  intro u d₂ h₂
  refine Prog.wp_seq (guarded_phase (heartbeatRoutine_within resp) (by decide) h₂
    fun h => carry_frame (heartbeatRoutine_within resp) (by decide) h) ?_
  intro v d₃ h₃
  have h₃' : PinsIn C P d₃ → Carry C endpointID P H L d₃ v := by
    intro hpins
    obtain ⟨⟨r', rfl⟩, hc⟩ := h₃ hpins
    exact hc.congr (fun _ _ => rfl) r' u.state
  refine Prog.wp_seq (guarded_phase flushFloors_within (by decide) h₃'
    fun h => flushFloors_carry hP h) ?_
  intro w d₄ h₄
  exact guarded_phase (heartbeatManifest_within resp) (by decide) h₄
    fun h => heartbeatManifest_carry hP hbind h resp

/-- A heartbeat, whatever the hub answers. -/
theorem processHeartbeat_carry {now : Int} (hP : P.length ≤ maxMfloor) (hbind : Binding C P)
    (h : Carry C endpointID P H L d t) :
    (processHeartbeat C t resp now).wp (logged L)
      (fun d' => PinsIn C P d' → CarryDisk C endpointID P H d')
      (fun r d' => PinsIn C P d' → Carry C endpointID P H L d' r.2) d := by
  refine processHeartbeat_wp (fun _ => h) (heartbeatTrust_carry hP hbind h)
    (fun _ _ hc hpins => (hc hpins).toCarryDisk) ?_
  intro u s d₁ d₂ hf hc hpins
  have hsame : ∀ f ∈ pinFiles ++ manifestFiles, d₂ f = d₁ f := fun f hmem =>
    hf f (by rintro rfl; revert hmem; decide)
  unfold PinsIn at hpins
  rw [pinFile_congr fun f hmem => hsame f (List.mem_append_left _ hmem)] at hpins
  exact (hc hpins).congr hsame u.routine s

end Heartbeat

section Start

theorem Loaded.loading (hd : PinDisk C d) (hpins : PinsIn C P d)
    (hfloors : GoodFloors P (floorsOf (d .manifestFloor))) (ht : Loaded d endpointID t) :
    Loading C endpointID P d t := by
  have hmove : PinMove C d (TrustContext.pinView { endpointID := endpointID.take 63 }) d t.pinView := by
    rw [ht.pin]
    exact takePin_move _ rfl hd
  have hcur : Current C d t := hmove.current rfl
  refine ⟨ht.identity, ?_, ht.manifest, ht.mfloorDirty, hcur, fun hhave => ?_⟩
  · rw [ht.mfloor]
    exact hfloors
  · rcases hcur with hu | ⟨b, -, hvalid⟩
    · have hno : t.haveKey = ⟨false, false, false⟩ := hu.haveKey
      rw [hno] at hhave
      cases hhave
    · exact hpins b _ hvalid.1

theorem init_manifest (hP : P.length ≤ maxMfloor) (hd : CarryDisk C endpointID P H d) {I : Disk File → Prop} :
    (init C endpointID).wp ok I (fun t d' => d' = d ∧ ManifestAgent C endpointID P H d t) d := by
  refine init_wp fun t state ht => ⟨rfl, ?_⟩
  have hload := ht.loading hd.pin hd.pins hd.manifest.floors
  have hagent := takeStoredManifest_agent hP hd.manifest hload (by rw [ht.mfloor]; exact hd.manifest.covered)
  exact hagent.congr (fun _ _ => rfl) _ state

end Start

section Repin

/-- A disk that covers all that another covers. -/
structure Kept (C : Crypto) (endpointID : Str) (P : List Str) (d d' : Disk File) : Prop where
  stored : d' .manifestState = d .manifestState
  floors : GoodFloors P (floorsOf (d' .manifestFloor))
  covered : ∀ key n, Covered C endpointID d key n → Covered C endpointID d' key n

/-- A disk whose floors alone cover all that another disk covers. -/
structure Floored (C : Crypto) (endpointID : Str) (P : List Str) (d d' : Disk File) : Prop where
  stored : d' .manifestState = d .manifestState
  floors : GoodFloors P (floorsOf (d' .manifestFloor))
  covered : ∀ key n, Covered C endpointID d key n → n ≤ floorOf (floorsOf (d' .manifestFloor)) key

theorem Floored.kept (h : Floored C endpointID P d d') : Kept C endpointID P d d' :=
  ⟨h.stored, h.floors, fun key n hcov => .inl (h.covered key n hcov)⟩

theorem ManifestDisk.kept (hk : Kept C endpointID P d d') (h : ManifestDisk C endpointID P H d) :
    ManifestDisk C endpointID P H d' := by
  refine ⟨hk.floors, fun key => hk.covered key _ (h.covered key), ?_⟩
  rw [hk.stored]
  exact h.stored

theorem ManifestAgent.kept (hk : Kept C endpointID P d d') (h : ManifestAgent C endpointID P H d t) :
    ManifestAgent C endpointID P H d' t := by
  refine { h with inForce := fun m hm => ?_ }
  have hforce := h.inForce m hm
  refine { hforce with covered := hk.covered _ _ hforce.covered, stored := ?_ }
  rw [hk.stored]
  exact hforce.stored

theorem repin_kept (hP : P.length ≤ maxMfloor) (hd : GoodFloors P (floorsOf (d .manifestFloor)))
    (hgood : GoodFloors P t.mfloor) (hclean : t.mfloorDirty = false → t.mfloor = floorsOf (d .manifestFloor))
    (hcov : ∀ key n, Covered C endpointID d key n → n ≤ floorOf t.mfloor key) :
    (repin t).wp ok (Kept C endpointID P d) (fun _ d' => Kept C endpointID P d d') d := by
  have hhere : Kept C endpointID P d d := ⟨rfl, hd, fun _ _ => id⟩
  have hsaved : Floored C endpointID P d (Function.update d .manifestFloor (some (floorsText t.mfloor))) := by
    have hwritten := floorsOf_written (d := d) hP hgood
    refine ⟨Function.update_of_ne (by decide) _ _, ?_, ?_⟩
    · rw [hwritten]
      exact hgood
    · rw [hwritten]
      exact hcov
  have hsave : (saveDirtyFloors t).wp ok (Kept C endpointID P d)
      (fun saved d' => Kept C endpointID P d d' ∧ (saved = true → Floored C endpointID P d d')) d := by
    refine Prog.wp_ite (fun _ => ⟨fun _ => hhere, fun o _ => ?_⟩) fun hdirty => ⟨hhere, fun _ => ?_⟩
    · cases o with
      | failed => exact ⟨hhere, nofun⟩
      | unsynced => exact ⟨hsaved.kept, nofun⟩
      | done => exact ⟨hsaved.kept, fun _ => hsaved⟩
    · have hsame := hclean (by simpa using hdirty)
      refine ⟨rfl, hd, ?_⟩
      rw [← hsame]
      exact hcov
  refine Prog.wp_seq hsave ?_
  rintro saved d₁ ⟨hkept, hfloored⟩
  refine Prog.wp_ite (fun _ => hkept) fun hok => ?_
  have hframe : Prog.wp ok _ _ _ d₁ := (revoke_within t).wp (R := Floored C endpointID P d)
    (fun e e' he hf => ⟨(he .manifestState (by decide)).trans hf.stored,
      by rw [he .manifestFloor (by decide)]; exact hf.floors,
      by rw [he .manifestFloor (by decide)]; exact hf.covered⟩) (hfloored (by simpa using hok))
  exact Prog.wp_mono (fun _ hf => hf.kept) (fun _ _ hf => hf.2.kept) hframe

theorem repinProcess_kept (hP : P.length ≤ maxMfloor) (hd : CarryDisk C endpointID P H d) :
    (repinProcess C endpointID).wp ok (Kept C endpointID P d) (fun _ d' => Kept C endpointID P d d') d := by
  unfold repinProcess
  rw [Prog.wp_bind]
  refine init_wp fun t state ht => ?_
  have hload := ht.loading hd.pin hd.pins hd.manifest.floors
  obtain ⟨hgood, hclean, hcov⟩ := takeStoredManifest_floors hP hload
  rw [ht.mfloor] at hclean hcov
  exact repin_kept hP hd.manifest.floors hgood hclean hcov

end Repin

section Life

def pinnedPolicy (d : Disk File) : Option Str :=
  ((readSmall 600 (d .trustPin)).bind parsePin).map fun p => p.2.policy

def startPins (d : Disk File) : Bool :=
  (takePin { endpointID := [] } (d .trustEpoch) (d .trustPin)).pinned

section

variable (C : Crypto) (endpointID : Str) (P : List Str)

/-- Where another process has re-pinned under a running agent, no event of that agent stores a manifest
and then fails to write the manifest's floor. -/
def FloorFollows (s : Host) (e : Event) : Prop :=
  ∀ t ∈ s.agent, t.pinned = true → startPins s.disk = false →
    (.manifestState, some .done) ∈ s.log C endpointID e →
    (.manifestFloor, some .failed) ∉ s.log C endpointID e

instance (s : Host) (e : Event) : Decidable (FloorFollows C endpointID s e) :=
  inferInstanceAs (Decidable (∀ _ ∈ s.agent, _ → _ → _ → _))

/-- The policy key pinned after the event, if there is one, is among `P`. -/
def PolicyIn (s : Host) (e : Event) : Prop := ∀ key ∈ pinnedPolicy (s.step C endpointID e).disk, key ∈ P

instance (s : Host) (e : Event) : Decidable (PolicyIn C endpointID P s e) :=
  inferInstanceAs (Decidable (∀ _ ∈ pinnedPolicy _, _))

def ManifestOk (s : Host) (e : Event) : Prop :=
  AtomicPins C endpointID s e ∧ PolicyIn C endpointID P s e ∧ FloorFollows C endpointID s e

instance (s : Host) (e : Event) : Decidable (ManifestOk C endpointID P s e) :=
  inferInstanceAs (Decidable (_ ∧ _ ∧ _))

/-- The life of a host whose pin files are written atomically, on which only the policy keys `P` are
ever pinned, and where a manifest's floor follows it once another process has re-pinned. -/
abbrev ManifestLife : Host → Host → Prop :=
  Run (Guarded (ManifestOk C endpointID P) (Step C endpointID))

structure ManifestInv (H : Str → Int) (s : Host) : Prop where
  host : HostInv C s
  manifest : ManifestDisk C endpointID P H s.disk
  pins : PinsIn C P s.disk
  agent : ∀ t ∈ s.agent, ManifestAgent C endpointID P H s.disk t

end

variable {s₀ s s' : Host} {e : Event}

theorem pinsIn_of_policyIn (h : ∀ key ∈ pinnedPolicy d, key ∈ P) : PinsIn C P d := by
  intro b keys hfile
  refine h _ ?_
  unfold pinnedPolicy
  rw [hfile.content, readPin hfile.pinnable]
  rfl

theorem validPin_of_startPins (hd : PinDisk C d) (h : startPins d = true) : ∃ b keys, ValidPin C d b keys := by
  have hmove := takePin_move { endpointID := [] } rfl hd
  rcases hmove.current rfl with hu | ⟨b, -, hvalid⟩
  · exact absurd hu.haveKey (not_noKey h)
  · exact ⟨b, _, hvalid⟩

theorem ManifestInv.disk (h : ManifestInv C endpointID P H s) : CarryDisk C endpointID P H s.disk :=
  ⟨h.host.disk, h.manifest, h.pins⟩

theorem ManifestInv.of_carry (hs : HostInv C s) (hd : CarryDisk C endpointID P H s.disk)
    (ha : ∀ t ∈ s.agent, ManifestAgent C endpointID P H s.disk t) : ManifestInv C endpointID P H s :=
  ⟨hs, hd.manifest, hd.pins, ha⟩

theorem beat_manifest {resp : Str} {now : Int} {os : List Outcome} (hP : P.length ≤ maxMfloor)
    (hbind : Binding C P) (h : ManifestInv C endpointID P H s)
    (hok : ManifestOk C endpointID P s (.beat resp now os))
    (hhost : HostInv C (s.step C endpointID (.beat resp now os))) :
    ManifestInv C endpointID P H (s.step C endpointID (.beat resp now os)) := by
  obtain ⟨hatomic, hpolicy, hfollows⟩ := hok
  have hcarry : ∀ t, s.agent = some t →
      Carry C endpointID P H (s.log C endpointID (.beat resp now os)) s.disk t := by
    intro t hagent
    refine ⟨h.disk, h.host.agent t hagent, h.agent t hagent, fun hdone hfailed hhave => ?_⟩
    by_cases hstart : startPins s.disk = true
    · exact validPin_of_startPins h.host.disk hstart
    · have hkey : ¬t.NoKey := by
        intro hno
        rw [show t.haveKey = ⟨false, false, false⟩ from hno] at hhave
        cases hhave
      have hpinned := ((h.host.agent t hagent).oneBundle hkey).1
      exact absurd hfailed (hfollows t hagent hpinned (by simpa using hstart) hdone)
  have hpins : PinsIn C P (s.step C endpointID (.beat resp now os)).disk := pinsIn_of_policyIn hpolicy
  have hbeat := beat_sound (fun t ht => processHeartbeat_carry hP hbind (hcarry t ht))
    fun w hw => ⟨hw, hatomic w hw⟩
  generalize s.step C endpointID (.beat resp now os) = s' at hhost hpins hbeat ⊢
  cases hbeat with
  | idle hagent => exact h
  | stopped hd => exact .of_carry hhost (hd hpins) fun u hu => by cases hu
  | done hagent hd =>
    refine .of_carry hhost (hd hpins).toCarryDisk fun u hu => ?_
    cases hu
    exact (hd hpins).agent

theorem step_manifest (hP : P.length ≤ maxMfloor) (hbind : Binding C P) (h : ManifestInv C endpointID P H s)
    (hstep : Guarded (ManifestOk C endpointID P) (Step C endpointID) s e s') : ManifestInv C endpointID P H s' := by
  obtain ⟨hok, rfl⟩ := hstep
  have hhost : HostInv C (s.step C endpointID e) := (step_pin h.host ⟨hok.1, rfl⟩).inv
  cases e with
  | start =>
    have hwp : (init C endpointID).wp (fun _ _ => True) (fun _ => True) _ s.disk :=
      init_manifest hP h.disk
    have hsound := Prog.wp_sound hwp [] fun _ _ => trivial
    refine .of_carry hhost h.disk fun t ht => ?_
    rw [show ((init C endpointID).exec s.disk []).result = some t from ht] at hsound
    exact hsound.2
  | beat resp now os => exact beat_manifest hP hbind h hok hhost
  | repin os =>
    have hwp : (repinProcess C endpointID).wp (fun _ _ => True) _ _ s.disk :=
      repinProcess_kept hP h.disk
    have hkept : Kept C endpointID P s.disk ((repinProcess C endpointID).exec s.disk os).disk :=
      Prog.wp_always hwp os fun _ _ => trivial
    exact .of_carry hhost ⟨hhost.disk, h.manifest.kept hkept, pinsIn_of_policyIn hok.2.1⟩
      fun t ht => (h.agent t ht).kept hkept
  | stop => exact .of_carry hhost h.disk fun t ht => by cases ht

theorem ManifestInv.fresh (h : s.Fresh) : ManifestInv C endpointID P (fun _ => 0) s := by
  obtain ⟨hagent, hfiles⟩ := h
  have hfloor : floorsOf (s.disk .manifestFloor) = [] := by
    rw [hfiles .manifestFloor (by decide)]
    rfl
  refine ⟨HostInv.fresh ⟨hagent, hfiles⟩, ⟨?_, fun key => .inl ?_, fun key _ m hm => ?_⟩,
    fun b keys hfile => ?_, fun t ht => ?_⟩
  · rw [hfloor]
    exact ⟨List.nodup_nil, fun f hf => absurd hf List.not_mem_nil, fun f hf => absurd hf List.not_mem_nil⟩
  · rw [hfloor]
    exact Int.le_refl _
  · rw [hfiles .manifestState (by decide)] at hm
    cases hm
  · cases (hfiles .trustPin (by decide)).symm.trans hfile.content
  · cases hagent.symm.trans ht

/-- A manifest in force moves the bound of its key. -/
theorem ManifestInv.raise (h : ManifestInv C endpointID P H s) (ht : t ∈ s.agent) {m : TrustManifest}
    (hm : m ∈ t.manifest) : ManifestInv C endpointID P (Function.update H t.keys.policy m.seq) s := by
  have hagent := h.agent t ht
  have hforce := hagent.inForce m hm
  refine ⟨h.host, ⟨h.manifest.floors, ?_, ?_⟩, h.pins, fun u hu => ?_⟩
  · exact (Function.forall_update_iff H (p := Covered C endpointID s.disk)).mpr
      ⟨hforce.covered, fun key _ => h.manifest.covered key⟩
  · exact (Function.forall_update_iff H (p := fun key n => key ∈ P → ∀ m,
      storedManifest (s.disk .manifestState) = some m → Signed C endpointID key m → n ≤ m.seq)).mpr
      ⟨fun _ => hforce.stored, fun key _ => h.manifest.stored key⟩
  · cases Option.mem_unique ht hu
    refine { hagent with known := ?_, inForce := fun m' hm' => ?_ }
    · exact (Function.forall_update_iff H (p := fun key n => n ≤ floorOf t.mfloor key ∨ t.haveKey.policy = true ∧
        key = t.keys.policy ∧ ∃ m ∈ t.manifest, n ≤ m.seq)).mpr
        ⟨.inr ⟨haveKey_of_verify hforce.verified, rfl, m, hm, Int.le_refl _⟩, fun key _ => hagent.known key⟩
    · cases Option.mem_unique hm hm'
      refine { hforce with bound := ?_ }
      rw [Function.update_self]

theorem ManifestLife.inv (hP : P.length ≤ maxMfloor) (hbind : Binding C P) (h : ManifestInv C endpointID P H s)
    (hrun : ManifestLife C endpointID P s s') : ManifestInv C endpointID P H s' :=
  hrun.preserves (fun _ _ _ hi hstep => step_manifest hP hbind hi hstep) h

/-- On a host that starts with nothing pinned, where at most eight policy keys are ever pinned, over every
sequence of events in which a manifest's floor follows it once another process has re-pinned: a manifest in
force verified under the policy key held at that time, and the sequence number in force under one policy key
never decreases. -/
theorem manifest_never_rolled_back (hP : P.length ≤ maxMfloor) (hbind : Binding C P) (h₀ : s₀.Fresh)
    (hrun : ManifestLife C endpointID P s₀ s) :
    (∀ t ∈ s.agent, ∀ m ∈ t.manifest, t.manifestVerify C m = true) ∧
      (∀ s', ManifestLife C endpointID P s s' → ∀ t ∈ s.agent, ∀ m ∈ t.manifest, ∀ u ∈ s'.agent,
        ∀ m' ∈ u.manifest, u.keys.policy = t.keys.policy → m.seq ≤ m'.seq) ∧
      (∀ t ∈ s.agent, (t.mfloor.map TrustFloor.key).Nodup) ∧
      ((floorsOf (s.disk .manifestFloor)).map TrustFloor.key).Nodup := by
  have hinv := ManifestLife.inv hP hbind (ManifestInv.fresh h₀) hrun
  refine ⟨fun t ht m hm => ((hinv.agent t ht).inForce m hm).verified, ?_,
    fun t ht => (hinv.agent t ht).floors.nodup, hinv.manifest.floors.nodup⟩
  intro s' hlife t ht m hm u hu m' hm' hkey
  -- from here on the bound of this key is the number in force
  have hlater := ManifestLife.inv hP hbind (hinv.raise ht hm) hlife
  have hbound := ((hlater.agent u hu).inForce m' hm').bound
  rwa [hkey, Function.update_self] at hbound

/-! Answers that offer a bundle with one policy key or another, and manifests signed with it. -/

def offerText (policy : UInt8) (epoch : Int) (sig : Str) : Str :=
  str "\"trust\":\x7b\"response_key\":\"" ++ List.replicate 64 0x61 ++
    str "\",\"auto_isolate_key\":\"" ++ List.replicate 64 0x62 ++ str "\",\"policy_key\":\"" ++
    List.replicate 64 policy ++ str "\",\"tenant_id\":\"default\",\"epoch\":" ++ decimalInt epoch ++
    str ",\"bundle_sig\":\"" ++ sig ++ str "\"\x7d,"

def sampleManifest (key : UInt8) (seq : Int) : TrustManifest :=
  let m : TrustManifest := ⟨str "default", str "e1", str "respond", [str "isolate"], seq, 0, [], []⟩
  { m with signature := hexEncode (Crypto.sample.sign (List.replicate 32 key) m.canonical) }

def answerText (offer : Str) (m : TrustManifest) : Str :=
  str "\x7b" ++ offer ++ str "\"capability_manifest\":" ++ m.json ++ str "\x7d"

/-- The offers with policy keys `cc…` and `dd…`. -/
def offerC (epoch : Int) : Str := offerText 0x63 epoch (str "CmNjY2NjY2M=")

def offerD (epoch : Int) : Str := offerText 0x64 epoch (str "CmRkZGRkZGQ=")

def allDone : List Outcome := [.done, .done, .done, .done]

def manifestHost : Host :=
  freshHost.events Crypto.sample (str "e1")
    [.start, .beat (answerText (offerC 1) (sampleManifest 0xcc 5)) 0 allDone]

theorem manifest_never_rolled_back_sample :
    ManifestLife Crypto.sample (str "e1") [List.replicate 32 0xcc] freshHost manifestHost ∧
      ∃ t ∈ manifestHost.agent, ∃ m ∈ t.manifest, m.seq = 5 ∧
        t.manifestVerify Crypto.sample m = true := by
  have hrun : ManifestLife Crypto.sample (str "e1") [List.replicate 32 0xcc] freshHost manifestHost :=
    Along.run (by decide +kernel)
  have hagent : (manifestHost.agent.bind TrustContext.manifest).map TrustManifest.seq = some 5 := by
    decide +kernel
  obtain ⟨m, hm, hseq⟩ := Option.map_eq_some_iff.mp hagent
  obtain ⟨t, ht, htm⟩ := Option.bind_eq_some_iff.mp hm
  have hbind : Binding Crypto.sample [List.replicate 32 0xcc] := by
    intro key hkey key' hkey' msg sig _ _
    rw [List.mem_singleton.mp hkey, List.mem_singleton.mp hkey']
  have hfresh : freshHost.Fresh := ⟨rfl, fun _ _ => rfl⟩
  exact ⟨hrun, t, ht, m, htm, hseq,
    (manifest_never_rolled_back (by decide) hbind hfresh hrun).1 t ht m htm⟩

/-- A re-pin runs under the agent, which then takes manifest 7 and cannot write its floor. -/
def repinnedHost : Host :=
  manifestHost.events Crypto.sample (str "e1")
    [.repin [.done, .done], .beat (answerText [] (sampleManifest 0xcc 7)) 0 [.done, .failed]]

/-- The host after a restart, a second policy key, and the first one again. -/
def rolledBackHost : Host :=
  repinnedHost.events Crypto.sample (str "e1")
    [.start, .beat (answerText (offerD 2) (sampleManifest 0xdd 1)) 0 allDone, .repin [.done, .done],
      .start, .beat (answerText (offerC 3) (sampleManifest 0xcc 6)) 0 allDone]

def TwoPolicies (s : Host) (e : Event) : Prop :=
  AtomicPins Crypto.sample (str "e1") s e ∧
    PolicyIn Crypto.sample (str "e1") [List.replicate 32 0xcc, List.replicate 32 0xdd] s e

instance (s : Host) (e : Event) : Decidable (TwoPolicies s e) := inferInstanceAs (Decidable (_ ∧ _))

/-- The policy key an agent holds and the sequence number in force. -/
def Host.inForce (s : Host) : Option (Str × Option Int) :=
  s.agent.map fun t => (t.keys.policy, t.manifest.map TrustManifest.seq)

/-- Manifest 7 was in force under a policy key, and later manifest 6 is under the same key. -/
theorem manifest_rolled_back :
    Run (Guarded TwoPolicies (Step Crypto.sample (str "e1"))) freshHost repinnedHost ∧
      Run (Guarded TwoPolicies (Step Crypto.sample (str "e1"))) repinnedHost rolledBackHost ∧
      repinnedHost.inForce = some (List.replicate 32 0xcc, some 7) ∧
      rolledBackHost.inForce = some (List.replicate 32 0xcc, some 6) := by
  have hall : Along Crypto.sample (str "e1") TwoPolicies freshHost
        [.start, .beat (answerText (offerC 1) (sampleManifest 0xcc 5)) 0 allDone] ∧
      Along Crypto.sample (str "e1") TwoPolicies manifestHost
        [.repin [.done, .done], .beat (answerText [] (sampleManifest 0xcc 7)) 0 [.done, .failed]] ∧
      Along Crypto.sample (str "e1") TwoPolicies repinnedHost
        [.start, .beat (answerText (offerD 2) (sampleManifest 0xdd 1)) 0 allDone,
          .repin [.done, .done], .start,
          .beat (answerText (offerC 3) (sampleManifest 0xcc 6)) 0 allDone] ∧
      repinnedHost.inForce = some (List.replicate 32 0xcc, some 7) ∧
      rolledBackHost.inForce = some (List.replicate 32 0xcc, some 6) := by
    decide +kernel
  obtain ⟨hfirst, hrepin, hlast, hseven, hsix⟩ := hall
  exact ⟨hfirst.run.trans hrepin.run, hlast.run, hseven, hsix⟩

end Life

end Ominull.Agent
