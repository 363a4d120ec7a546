import Ominull.Agent.ManifestDisk

/-! What a heartbeat does to the manifest and its floor, write by write. -/

namespace Ominull.Agent

open Lib

section Definitions

variable (C : Crypto) (endpointID : Str) (P : List Str) (H : Str → Int)

structure CarryDisk (d : Disk File) : Prop where
  pin : PinDisk C d
  manifest : ManifestDisk C endpointID P H d
  pins : PinsIn C P d

/-- What holds between two writes of a heartbeat with this log. Where the log has a manifest that was
stored and a floor that was not, the pin the agent holds is on disk. -/
structure Carry (L : List (File × Option Outcome)) (d : Disk File) (t : TrustContext) : Prop
    extends CarryDisk C endpointID P H d where
  pinAgent : PinAgent C d t.pinView
  agent : ManifestAgent C endpointID P H d t
  backed : (.manifestState, some .done) ∈ L → (.manifestFloor, some .failed) ∈ L →
    t.haveKey.policy = true → ∃ b keys, ValidPin C d b keys

/-- A policy key's signature is its own. -/
def Binding : Prop :=
  ∀ key ∈ P, ∀ key' ∈ P, ∀ msg sig, C.verify key msg sig = true → C.verify key' msg sig = true →
    key = key'

end Definitions

/-- The writes of a log whose pin files are written atomically. -/
def logged (L : List (File × Option Outcome)) (f : File) (o : Option Outcome) : Prop :=
  (f, o) ∈ L ∧ atomicPins f o

variable {C : Crypto} {endpointID : Str} {P : List Str} {H : Str → Int} {d d' : Disk File}
  {t : TrustContext} {m : TrustManifest} {l : List TrustFloor} {L : List (File × Option Outcome)}

theorem Signed.unique {key key' : Str} (hbind : Binding C P) (hkey : key ∈ P) (hkey' : key' ∈ P)
    (h : Signed C endpointID key m) (h' : Signed C endpointID key' m) : key = key' := by
  unfold Signed TrustManifest.verify at h h'
  rw [Bool.and_eq_true] at h h'
  cases hsig : hexToBytes m.signature 64 with
  | none =>
    rw [hsig] at h
    cases h.2
  | some sig =>
    rw [hsig] at h h'
    exact hbind key hkey key' hkey' _ sig h.2 h'.2

/-! ## Writing the floors -/

theorem pinFiles_update (f : File) (hf : f ∉ pinFiles) (c : Option Str) :
    ∀ g ∈ pinFiles, Function.update d f c g = d g := by
  intro g hg
  refine Function.update_of_ne ?_ _ _
  rintro rfl
  exact hf hg

theorem floorsOf_written (hP : P.length ≤ maxMfloor) (hl : GoodFloors P l) :
    floorsOf (Function.update d .manifestFloor (some (floorsText l)) .manifestFloor) = l := by
  exact floorsOf_floorsText hl.printable (Nat.le_trans hl.length_le hP)

theorem CarryDisk.writeFloors (hP : P.length ≤ maxMfloor) (hd : CarryDisk C endpointID P H d)
    (hl : GoodFloors P l) (hcov : ∀ key, H key ≤ floorOf l key) :
    CarryDisk C endpointID P H (Function.update d .manifestFloor (some (floorsText l))) := by
  have hpin := pinFiles_update (d := d) .manifestFloor (by decide) (some (floorsText l))
  have hwritten := floorsOf_written (d := d) hP hl
  refine ⟨hd.pin.congr hpin, ⟨?_, fun key => .inl ?_, ?_⟩, ?_⟩
  · rw [hwritten]
    exact hl
  · rw [hwritten]
    exact hcov key
  · exact hd.manifest.stored
  · unfold PinsIn
    rw [pinFile_congr hpin]
    exact hd.pins

theorem ManifestAgent.writeFloors (hP : P.length ≤ maxMfloor) (ha : ManifestAgent C endpointID P H d t)
    (hl : GoodFloors P l) (hm : ∀ m ∈ t.manifest, m.seq ≤ floorOf l t.keys.policy) :
    ManifestAgent C endpointID P H (Function.update d .manifestFloor (some (floorsText l))) t := by
  refine { ha with inForce := fun m hmem => ?_ }
  have hforce := ha.inForce m hmem
  refine { hforce with covered := .inl ?_, stored := ?_ }
  · rw [floorsOf_written hP hl]
    exact hm m hmem
  · exact hforce.stored

theorem ManifestAgent.setFloors (ha : ManifestAgent C endpointID P H d t) (hl : GoodFloors P l)
    (hcov : ∀ key, H key ≤ floorOf l key) :
    ManifestAgent C endpointID P H d { t with mfloor := l, mfloorDirty := false } := by
  exact { ha with
    floors := hl, known := fun key => .inl (hcov key), inForce := fun m hm => { ha.inForce m hm with }, dirty := nofun }

theorem Carry.congr_pin (h : Carry C endpointID P H L d t) {u : TrustContext}
    (hf : ∀ f ∈ pinFiles, d' f = d f) (hd : CarryDisk C endpointID P H d')
    (hview : u.pinView = t.pinView) (ha : ManifestAgent C endpointID P H d' u) :
    Carry C endpointID P H L d' u := by
  refine ⟨hd, ?_, ha, ?_⟩
  · rw [hview]
    exact h.pinAgent.congr hf
  · rw [validPin_congr hf, show u.haveKey = t.haveKey from congrArg PinView.haveKey hview]
    exact h.backed

theorem Carry.keys_eq (h : Carry C endpointID P H L d t) {b : TrustBundle} {keys : PerKey Str}
    (hvalid : ValidPin C d b keys) : keys = t.keys := by
  rcases h.pinAgent with hu | ⟨b', hb⟩
  · exact absurd hvalid (hu.stale b keys)
  · obtain rfl := hb.same b keys hvalid
    exact hvalid.1.pinnable.unique hb.pinnable

theorem flushFloors_carry (hP : P.length ≤ maxMfloor) (h : Carry C endpointID P H L d t) :
    (flushFloors t).wp (logged L) (CarryDisk C endpointID P H) (fun u d' => Carry C endpointID P H L d' u) d := by
  refine Prog.wp_ite (fun hdirty => ?_) fun _ => h
  obtain ⟨m, hm, hle⟩ := h.agent.dirty hdirty
  have hforce : ∀ m' ∈ t.manifest, m'.seq ≤ floorOf t.mfloor t.keys.policy := by
    intro m' hm'
    cases Option.mem_unique hm hm'
    exact hle
  have hcov : ∀ key, H key ≤ floorOf t.mfloor key := by
    intro key
    rcases h.agent.known key with hk | ⟨-, rfl, m', hm', hk⟩
    · exact hk
    · exact Int.le_trans hk (hforce m' hm')
  have hpin := pinFiles_update (d := d) .manifestFloor (by decide) (some (floorsText t.mfloor))
  have hdisk := h.toCarryDisk.writeFloors hP h.agent.floors hcov
  have hagent := h.agent.writeFloors hP h.agent.floors hforce
  refine ⟨fun _ => h.toCarryDisk, fun o _ => ?_⟩
  cases o with
  | failed => exact h
  | unsynced => exact h.congr_pin hpin hdisk rfl hagent
  | done => exact h.congr_pin hpin hdisk rfl (hagent.setFloors h.agent.floors hcov)

/-! ## Taking a manifest -/

structure NewManifest (C : Crypto) (endpointID : Str) (P : List Str) (H : Str → Int) (t : TrustContext)
    (m : TrustManifest) : Prop where
  printable : m.Printable
  verified : t.manifestVerify C m = true
  policy : t.keys.policy ∈ P
  signed : Signed C endpointID t.keys.policy m
  newer : ∀ old ∈ t.manifest, old.seq < m.seq
  above : floorOf t.mfloor t.keys.policy < m.seq
  bound : H t.keys.policy ≤ m.seq
  length : t.keys.policy.length = 32

section Taking

variable (hP : P.length ≤ maxMfloor) (hbind : Binding C P) (h : Carry C endpointID P H L d t)

include h

theorem newManifest (hm : m.Printable) (hnewer : ∀ old ∈ t.manifest, old.seq < m.seq)
    (hfloored : ¬t.manifestFloored m.seq = true) (hverify : t.manifestVerify C m = true) :
    NewManifest C endpointID P H t m := by
  have hhave := haveKey_of_verify hverify
  obtain ⟨b, hpin⟩ : ∃ b, Pinned C d t.pinView b := by
    rcases h.pinAgent with hu | hb
    · have hno : t.haveKey = ⟨false, false, false⟩ := hu.haveKey
      rw [hno] at hhave
      cases hhave
    · exact hb
  have hsigned := (manifestVerify_iff hpin h.agent.identity).mp hverify
  have habove : floorOf t.mfloor t.keys.policy < m.seq := by
    rw [manifestFloored_iff hsigned.seq_pos] at hfloored
    exact Int.not_le.mp fun hle => hfloored ⟨hhave, hle⟩
  refine ⟨hm, hverify, h.agent.policy hhave, hsigned, hnewer, habove, ?_, hpin.pinnable.policy_length⟩
  rcases h.agent.known t.keys.policy with hle | ⟨-, -, old, hold, hle⟩
  · omega
  · have hlt := hnewer old hold
    omega

variable (hm : NewManifest C endpointID P H t m)

include hm

/-- Storing a newer manifest covers whatever was covered, up to its number under its own key. -/
theorem covered_stored {key : Str} {n : Int} (hcov : Covered C endpointID d key n)
    (hle : key = t.keys.policy → n ≤ m.seq) :
    Covered C endpointID (Function.update d .manifestState (some m.json)) key n := by
  have hpin := pinFiles_update (d := d) .manifestState (by decide) (some m.json)
  rcases hcov with hfloor | ⟨b, keys, m', hvalid, rfl, -⟩
  · refine .inl ?_
    exact hfloor
  · have hkeys := h.keys_eq hvalid
    refine .inr ⟨b, keys, m, ?_, rfl, ?_, ?_, hle (by rw [hkeys])⟩
    · rw [validPin_congr hpin]
      exact hvalid
    · exact storedManifest_json hm.printable
    · rw [hkeys]
      exact hm.signed

theorem ManifestAgent.take (hclean : t.mfloorDirty = false) (hstored : storedManifest (d' .manifestState) = some m)
    (hcov : Covered C endpointID d' t.keys.policy m.seq) :
    ManifestAgent C endpointID P H d' { t with manifest := some m } := by
  refine ⟨h.agent.identity, h.agent.floors, h.agent.policy, fun key => ?_, fun m' hm' => ?_, fun hd => ?_⟩
  · by_cases hkey : key = t.keys.policy
    · rw [hkey]
      exact .inr ⟨haveKey_of_verify hm.verified, rfl, m, rfl, hm.bound⟩
    · exact .inl ((h.agent.known key).resolve_right fun hk => hkey hk.2.1)
  · cases hm'
    refine ⟨hm.verified, hm.bound, hcov, fun m' hm' _ => ?_⟩
    cases hstored.symm.trans hm'
    exact Int.le_refl _
  · cases hclean.symm.trans hd

include hbind

theorem CarryDisk.store :
    CarryDisk C endpointID P H (Function.update d .manifestState (some m.json)) := by
  have hpin := pinFiles_update (d := d) .manifestState (by decide) (some m.json)
  refine ⟨h.pin.congr hpin, ⟨?_, fun key => ?_, fun key hkey m' hm' hsigned => ?_⟩, ?_⟩
  · exact h.manifest.floors
  · refine covered_stored h hm (h.manifest.covered key) ?_
    rintro rfl
    exact hm.bound
  · rw [Function.update_self, storedManifest_json hm.printable] at hm'
    cases hm'
    rw [hsigned.unique hbind hkey hm.policy hm.signed]
    exact hm.bound
  · unfold PinsIn
    rw [pinFile_congr hpin]
    exact h.pins

theorem Carry.store :
    Carry C endpointID P H L (Function.update d .manifestState (some m.json)) t := by
  refine h.congr_pin (pinFiles_update .manifestState (by decide) _) (CarryDisk.store hbind h hm) rfl
    ⟨h.agent.identity, h.agent.floors, h.agent.policy, h.agent.known, fun old hold => ?_, h.agent.dirty⟩
  have hforce := h.agent.inForce old hold
  have hlt := hm.newer old hold
  refine ⟨hforce.verified, hforce.bound, ?_, fun m' hm' _ => ?_⟩
  · exact covered_stored h hm hforce.covered fun _ => Int.le_of_lt hlt
  · rw [Function.update_self, storedManifest_json hm.printable] at hm'
    cases hm'
    exact Int.le_of_lt hlt

include hP

/-- The floor of a manifest that has been stored and taken. -/
theorem raiseFloor_carry (hclean : t.mfloorDirty = false) (hdone : (.manifestState, some .done) ∈ L) :
    (raiseManifestFloor { t with manifest := some m } m.seq).wp (logged L)
      (CarryDisk C endpointID P H) (fun r d' => Carry C endpointID P H L d' r.2)
      (Function.update d .manifestState (some m.json)) := by
  have hhave := haveKey_of_verify hm.verified
  have hunfloored : ¬(TrustContext.manifestFloored { t with manifest := some m } m.seq) = true := by
    intro hfloored
    have hle := ((manifestFloored_iff hm.signed.seq_pos).mp hfloored).2
    exact absurd hm.above (Int.not_lt.mpr hle)
  have hstored := CarryDisk.store hbind h hm
  have hstate : storedManifest (Function.update d .manifestState (some m.json) .manifestState) = some m := by
    exact storedManifest_json hm.printable
  have hpin := pinFiles_update (d := d) .manifestState (by decide) (some m.json)
  obtain ⟨hgood, hself, hother⟩ := h.agent.floors.insert hP hm.policy
    (printable_floor hm.signed hm.printable hm.length)
  have hcov : ∀ key, H key ≤ floorOf (floorInsert t.mfloor t.keys.policy m.seq) key := by
    intro key
    by_cases hkey : key = t.keys.policy
    · rw [hkey, hself]
      exact hm.bound
    · rw [hother key hkey]
      exact (h.agent.known key).resolve_right fun hk => hkey hk.2.1
  -- once the floor is written, the manifest is behind it
  have hwritten := hstored.writeFloors hP hgood hcov
  have htaken : ManifestAgent C endpointID P H (Function.update (Function.update d .manifestState
      (some m.json)) .manifestFloor (some (floorsText (floorInsert t.mfloor t.keys.policy m.seq))))
      { t with manifest := some m } := ManifestAgent.take h hm hclean
    (by rw [Function.update_of_ne (by decide)]; exact hstate)
    (.inl (by rw [floorsOf_written hP hgood]; exact Int.le_of_eq hself.symm))
  have hpin' : ∀ f ∈ pinFiles, Function.update (Function.update d .manifestState (some m.json))
      .manifestFloor (some (floorsText (floorInsert t.mfloor t.keys.policy m.seq))) f = d f := by
    intro f hf
    rw [pinFiles_update .manifestFloor (by decide) _ f hf]
    exact hpin f hf
  unfold raiseManifestFloor
  rw [if_neg (by simp [hhave]), if_neg (by simp [hunfloored]), Prog.wp_bind, if_neg hunfloored]
  refine ⟨fun _ => hstored, fun o ho => ?_⟩
  cases o with
  | failed =>
    obtain ⟨b, keys, hvalid⟩ := h.backed hdone ho.1 hhave
    have hpolicy : keys.policy = t.keys.policy := by rw [h.keys_eq hvalid]
    rw [← validPin_congr hpin] at hvalid
    exact h.congr_pin hpin hstored rfl (ManifestAgent.take h hm hclean hstate
      (.inr ⟨b, keys, m, hvalid, hpolicy, hstate, hm.signed, Int.le_refl _⟩))
  | unsynced => exact h.congr_pin hpin' hwritten rfl htaken
  | done => exact h.congr_pin hpin' hwritten rfl (htaken.setFloors hgood hcov)

omit hm

theorem acceptManifest_carry (hclean : t.mfloorDirty = false) (v : Str) :
    (acceptManifest C t v).wp (logged L) (CarryDisk C endpointID P H)
      (fun u d' => Carry C endpointID P H L d' u) d := by
  unfold acceptManifest
  split
  case h_1 => exact h
  case h_2 m hparse =>
    refine Prog.wp_ite (fun _ => h) fun hold => ?_
    refine Prog.wp_ite (fun _ => h) fun hfloored => ?_
    refine Prog.wp_ite (fun _ => h) fun hverify => ?_
    have hnewer : ∀ old ∈ t.manifest, old.seq < m.seq := by
      intro old hmem
      rw [show t.manifest = some old from hmem] at hold
      simpa using hold
    have hm : NewManifest C endpointID P H t m :=
      newManifest h (TrustManifest.parse_printable hparse) hnewer hfloored (by simpa using hverify)
    refine ⟨fun _ => h.toCarryDisk, fun o ho => ?_⟩
    cases o with
    | failed => exact h
    | unsynced => exact h.store hbind hm
    | done =>
      change Prog.wp (logged L) _ _ (raiseManifestFloor _ _ >>= _) _
      rw [Prog.wp_bind]
      exact Prog.wp_mono (fun _ => id) (fun r d' hr => hr) (raiseFloor_carry hP hbind h hm hclean ho.1)

theorem heartbeatManifest_carry (resp : Str) :
    (heartbeatManifest C t resp).wp (logged L) (CarryDisk C endpointID P H)
      (fun u d' => Carry C endpointID P H L d' u) d := by
  unfold heartbeatManifest
  split
  · exact Prog.wp_ite (fun _ => h) fun hclean =>
      acceptManifest_carry hP hbind h (by simpa using hclean) _
  · exact h

end Taking

/-! ## Taking the trust offer -/

theorem heartbeatPin_of_pinned (h : t.pinned = true) (resp : Str) : heartbeatPin C t resp = pure t := by
  unfold heartbeatPin pinKeys
  split
  · split
    · rfl
    · rw [if_pos h]
  · rfl

/-- What a trust offer may do to the context: no key is taken, or three are and the stored manifest is
looked for. -/
def OfferChange (C : Crypto) (t u : TrustContext) (stored : Option Str) : Prop :=
  (∃ floor failed, u = { t with epochFloor := floor, failedBundle := failed }) ∨
    ∃ floor keys tenant epoch, u = takeStoredManifest C { t with
      epochFloor := floor, keys := keys, haveKey := ⟨true, true, true⟩, tenant := tenant,
      epoch := epoch } stored

theorem pinBundle_change (b : TrustBundle) (keys : PerKey Str) {ok : File → Option Outcome → Prop} :
    (pinBundle C t b keys).wp ok (fun _ => True) (fun u d' => OfferChange C t u (d' .manifestState)) d := by
  refine ⟨fun _ => trivial, fun o _ => ?_⟩
  cases o with
  | failed | unsynced => exact .inl ⟨_, _, rfl⟩
  | done =>
    refine ⟨fun _ => trivial, fun o _ => ?_⟩
    cases o with
    | failed | unsynced => exact .inl ⟨_, _, rfl⟩
    | done => exact .inr ⟨_, _, _, _, rfl⟩

theorem heartbeatPin_change (resp : Str) {ok : File → Option Outcome → Prop} :
    (heartbeatPin C t resp).wp ok (fun _ => True) (fun u d' => OfferChange C t u (d' .manifestState)) d := by
  have hsame : OfferChange C t t (d .manifestState) := .inl ⟨_, _, rfl⟩
  unfold heartbeatPin
  split
  · unfold pinKeys
    split
    · exact hsame
    · refine Prog.wp_ite (fun _ => hsame) fun _ => ?_
      split
      · exact hsame
      · iterate 5 refine Prog.wp_ite (fun _ => hsame) fun _ => ?_
        exact Prog.wp_ite (fun _ => .inl ⟨_, _, rfl⟩) fun _ => pinBundle_change _ _
  · exact hsame

theorem ManifestAgent.unpinned (ha : ManifestAgent C endpointID P H d t) (hkey : t.haveKey = ⟨false, false, false⟩) :
    t.manifest = none ∧ t.mfloorDirty = false ∧ ∀ key, H key ≤ floorOf t.mfloor key := by
  have hpolicy : t.haveKey.policy ≠ true := by
    rw [hkey]
    decide
  have hmanifest : ∀ m, t.manifest ≠ some m := by
    intro m hm
    exact hpolicy (haveKey_of_verify (ha.inForce m hm).verified)
  refine ⟨Option.eq_none_iff_forall_ne_some.mpr hmanifest, ?_, fun key => ?_⟩
  · rw [← Bool.not_eq_true]
    intro hdirty
    obtain ⟨m, hm, -⟩ := ha.dirty hdirty
    exact hmanifest m hm
  · exact (ha.known key).resolve_right fun hk => hpolicy hk.1

/-- Where no bundle on disk is one a start takes, the floors cover alone, and still do when the pin
files change. -/
theorem ManifestDisk.repinned (hd : ManifestDisk C endpointID P H d) (hstale : ∀ b keys, ¬ValidPin C d b keys)
    (hf : ∀ f ∈ manifestFiles, d' f = d f) : ManifestDisk C endpointID P H d' := by
  refine ⟨?_, fun key => .inl ?_, ?_⟩
  · rw [hf .manifestFloor (by decide)]
    exact hd.floors
  · rw [hf .manifestFloor (by decide)]
    rcases hd.covered key with hle | ⟨b, keys, -, hvalid, -⟩
    · exact hle
    · exact absurd hvalid (hstale b keys)
  · rw [hf .manifestState (by decide)]
    exact hd.stored

theorem heartbeatPin_carry (hP : P.length ≤ maxMfloor) (h : Carry C endpointID P H L d t) (resp : Str) :
    (heartbeatPin C t resp).wp (logged L) (fun d' => PinsIn C P d' → CarryDisk C endpointID P H d')
      (fun u d' => PinsIn C P d' → Carry C endpointID P H L d' u) d := by
  rcases h.pinAgent with hu | ⟨b, hb⟩
  · have hkey : t.haveKey = ⟨false, false, false⟩ := hu.haveKey
    obtain ⟨hmanifest, hclean, hcov⟩ := h.agent.unpinned hkey
    have hmove : (heartbeatPin C t resp).wp (logged L) _ _ d :=
      Prog.wp_allow (fun _ _ hlog => hlog.2) (heartbeatPin_wp h.pin h.pinAgent resp)
    have hfiles : (heartbeatPin C t resp).wp (logged L) _ _ d := (heartbeatPin_within resp).wp
      (R := fun d' => ∀ f ∈ manifestFiles, d' f = d f)
      (fun e e' he hr f hf => (he f (by revert hf; cases f <;> decide)).trans (hr f hf)) (fun _ _ => rfl)
    have hdisk : ∀ d', PinStop C d d' → (∀ f ∈ manifestFiles, d' f = d f) → PinsIn C P d' →
        CarryDisk C endpointID P H d' :=
      fun d' hs hf hpins => ⟨hs.disk, h.manifest.repinned hu.stale hf, hpins⟩
    refine Prog.wp_mono ?_ ?_ (Prog.wp_and (Prog.wp_and hmove hfiles) (heartbeatPin_change resp))
    · exact fun d' hs hpins => hdisk d' hs.1.1 hs.1.2 hpins
    · rintro u d' ⟨⟨hm, -, hf⟩, hchange⟩ hpins
      have hd' := hdisk d' hm.toPinStop hf hpins
      rcases hchange with ⟨floor, failed, rfl⟩ | ⟨floor, keys, tenant, epoch, rfl⟩
      · refine ⟨hd', hm.agent, ⟨h.agent.identity, h.agent.floors, h.agent.policy,
          fun key => .inl (hcov key), fun m hm => ?_, h.agent.dirty⟩, fun _ _ hhave => ?_⟩
        · cases hmanifest.symm.trans hm
        · have hno : t.haveKey.policy = false := by rw [hkey]
          cases hno.symm.trans hhave
      · obtain ⟨t', ht'⟩ : ∃ t' : TrustContext, t' = { t with
          epochFloor := floor, keys := keys, haveKey := ⟨true, true, true⟩, tenant := tenant,
          epoch := epoch } := ⟨_, rfl⟩
        rw [← ht'] at hm ⊢
        have hview : (takeStoredManifest C t' (d' .manifestState)).pinView = t'.pinView :=
          (takeStoredManifest_change _).pinView
        have hcur : Current C d' t' := by
          rw [hview] at hm
          exact hm.current hkey
        obtain ⟨b, hpin, hvalid⟩ : ∃ b, Pinned C d' t'.pinView b ∧ ValidPin C d' b t'.keys := by
          rcases hcur with hno | hb
          · have hfalse := hno.haveKey
            rw [ht'] at hfalse
            cases hfalse
          · exact hb
        have hload : Loading C endpointID P d' t' := by
          refine ⟨?_, ?_, ?_, ?_, hcur, fun _ => hpins b _ hvalid.1⟩
          all_goals rw [ht']
          exacts [h.agent.identity, h.agent.floors, hmanifest, hclean]
        refine ⟨hd', hm.agent, takeStoredManifest_agent hP hd'.manifest hload fun key => .inl ?_,
          fun _ _ _ => ⟨b, _, hvalid⟩⟩
        rw [ht']
        exact hcov key
  · have hhave : t.haveKey = ⟨true, true, true⟩ := hb.haveKey
    rw [heartbeatPin_of_pinned (by simp [TrustContext.pinned, hhave])]
    exact fun _ => h

end Ominull.Agent
