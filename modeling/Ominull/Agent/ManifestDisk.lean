import Ominull.Agent.Floors
import Ominull.Agent.PinRun

/-!
The manifest and its floor on disk and in memory. A bound `H` gives for every policy key a sequence
number that has been in force under it; the invariant says that no disk or agent goes back behind
it. The policy keys that are ever pinned are among `P`.
-/

namespace Ominull.Agent

open Lib

section Definitions

variable (C : Crypto) (endpointID : Str) (P : List Str) (H : Str → Int)

def Signed (key : Str) (m : TrustManifest) : Prop :=
  m.verify C (endpointID.take 63) trustTenant key = true

/-- With these floors, a start on this disk does not go behind sequence number `n` of the policy key:
there is a floor, or the pin and the stored manifest give one. -/
def CoveredBy (l : List TrustFloor) (d : Disk File) (key : Str) (n : Int) : Prop :=
  n ≤ floorOf l key ∨
    ∃ b keys m, ValidPin C d b keys ∧ keys.policy = key ∧
      storedManifest (d .manifestState) = some m ∧ Signed C endpointID key m ∧ n ≤ m.seq

def Covered (d : Disk File) : Str → Int → Prop :=
  CoveredBy C endpointID (floorsOf (d .manifestFloor)) d

def PinsIn (d : Disk File) : Prop := ∀ b keys, PinFile C d b keys → keys.policy ∈ P

structure ManifestDisk (d : Disk File) : Prop where
  floors : GoodFloors P (floorsOf (d .manifestFloor))
  covered : ∀ key, Covered C endpointID d key (H key)
  stored : ∀ key ∈ P, ∀ m, storedManifest (d .manifestState) = some m →
    Signed C endpointID key m → H key ≤ m.seq

structure InForce (d : Disk File) (t : TrustContext) (m : TrustManifest) : Prop where
  verified : t.manifestVerify C m = true
  bound : H t.keys.policy ≤ m.seq
  covered : Covered C endpointID d t.keys.policy m.seq
  stored : ∀ m', storedManifest (d .manifestState) = some m' →
    Signed C endpointID t.keys.policy m' → m.seq ≤ m'.seq

structure ManifestAgent (d : Disk File) (t : TrustContext) : Prop where
  identity : t.endpointID = endpointID.take 63
  floors : GoodFloors P t.mfloor
  policy : t.haveKey.policy = true → t.keys.policy ∈ P
  known : ∀ key, H key ≤ floorOf t.mfloor key ∨
    (t.haveKey.policy = true ∧ key = t.keys.policy ∧ ∃ m ∈ t.manifest, H key ≤ m.seq)
  inForce : ∀ m ∈ t.manifest, InForce C endpointID H d t m
  dirty : t.mfloorDirty = true → ∃ m ∈ t.manifest, m.seq ≤ floorOf t.mfloor t.keys.policy

end Definitions

variable {C : Crypto} {endpointID : Str} {P : List Str} {H : Str → Int} {d d' : Disk File}
  {t : TrustContext} {m : TrustManifest}

/-! ## The pin and the manifest key -/

variable {key : Str}

theorem hexDecode_length {h : Str} (hk : hexDecode h = some key) : h.length = 2 * key.length := by
  induction h using hexDecode.induct generalizing key with
  | case1 =>
    cases hk
    rfl
  | case2 => cases hk
  | case3 a b rest ih =>
    simp only [hexDecode, Option.bind_eq_bind, Option.bind_eq_some_iff, Option.some.injEq] at hk
    obtain ⟨x, -, y, -, rest', hrest, rfl⟩ := hk
    rw [List.length_cons, List.length_cons, ih hrest, List.length_cons]
    omega

theorem hexKey_length {h : Str} (hk : hexKey h = some key) : key.length = 32 := by
  have hhex := isHex64_of_hexKey hk
  rw [hexKey_eq hhex] at hk
  have hlen := hexDecode_length hk
  simp only [isHex64, Bool.and_eq_true, decide_eq_true_eq] at hhex
  omega

variable {b : TrustBundle} {keys : PerKey Str}

theorem TrustBundle.Pinnable.policy_length (h : b.Pinnable keys) : keys.policy.length = 32 :=
  hexKey_length (TrustBundle.keys_eq_some h.keys).2.2

theorem TrustBundle.Pinnable.unique {keys' : PerKey Str} (h : b.Pinnable keys) (h' : b.Pinnable keys') : keys = keys' :=
  Option.some.inj (h.keys.symm.trans h'.keys)

theorem manifestVerify_iff (hpin : Pinned C d t.pinView b) (hid : t.endpointID = endpointID.take 63) :
    t.manifestVerify C m = true ↔ Signed C endpointID t.keys.policy m := by
  have hhave : t.haveKey = ⟨true, true, true⟩ := hpin.haveKey
  have htenant : t.tenant = trustTenant := hpin.tenant.trans hpin.pinnable.tenant
  simp [TrustContext.manifestVerify, Signed, hhave, htenant, hid]

theorem haveKey_of_verify (h : t.manifestVerify C m = true) : t.haveKey.policy = true := by
  rw [TrustContext.manifestVerify, Bool.and_eq_true] at h
  exact h.1

theorem Signed.seq_pos (h : Signed C endpointID key m) : 0 < m.seq := by
  unfold Signed TrustManifest.verify at h
  simp only [Bool.and_eq_true, decide_eq_true_eq] at h
  exact h.1.1.1.1.1.1

theorem printable_floor (hsigned : Signed C endpointID key m) (hm : m.Printable) (hkey : key.length = 32) :
    (TrustFloor.mk key m.seq).Printable := by
  have hlt := hm.seq.2
  refine ⟨hkey, hsigned.seq_pos, ?_⟩
  change m.seq < 2 ^ 63
  omega

variable {c : Option Str}

theorem storedManifest_printable (h : storedManifest c = some m) : m.Printable := by
  obtain ⟨v, -, hv⟩ := Option.bind_eq_some_iff.mp h
  exact TrustManifest.parse_printable hv

/-- The bundle an agent holds is the one on disk that a start takes, or it holds none and there is
none. -/
def Current (C : Crypto) (d : Disk File) (t : TrustContext) : Prop :=
  Unpinned C d t.pinView ∨ ∃ b, Pinned C d t.pinView b ∧ ValidPin C d b t.keys

theorem PinMove.current {v : PinView} (hm : PinMove C d v d' t.pinView)
    (hv : v.haveKey = ⟨false, false, false⟩) : Current C d' t := by
  rcases hm.agent with hu | ⟨b, hb⟩
  · exact .inl hu
  · refine .inr ⟨b, hb, ?_⟩
    have hkey : t.pinView.haveKey ≠ ⟨false, false, false⟩ := by
      rw [hb.haveKey]
      decide
    rcases hm.move with heq | hnone | ⟨-, -, b', hvalid⟩
    · exact absurd (heq ▸ hv) hkey
    · exact absurd hnone hkey
    · have hsame := hb.same b' _ hvalid
      rw [hsame] at hvalid
      exact hvalid

/-! ## Taking the stored manifest -/

/-- A context that has its keys, or none, and looks for the stored manifest. -/
structure Loading (C : Crypto) (endpointID : Str) (P : List Str) (d : Disk File) (t : TrustContext) :
    Prop where
  identity : t.endpointID = endpointID.take 63
  floors : GoodFloors P t.mfloor
  manifest : t.manifest = none
  clean : t.mfloorDirty = false
  current : Current C d t
  policy : t.haveKey.policy = true → t.keys.policy ∈ P

theorem Loading.pinned (ht : Loading C endpointID P d t) (hverify : t.manifestVerify C m = true) :
    t.haveKey.policy = true ∧ Signed C endpointID t.keys.policy m ∧ ∃ b, ValidPin C d b t.keys := by
  have hhave := haveKey_of_verify hverify
  rcases ht.current with hu | ⟨b, hpin, hvalid⟩
  · have hno : t.haveKey = ⟨false, false, false⟩ := hu.haveKey
    rw [hno] at hhave
    cases hhave
  · exact ⟨hhave, (manifestVerify_iff hpin ht.identity).mp hverify, b, hvalid⟩

theorem Loading.verify (ht : Loading C endpointID P d t) (hvalid : ValidPin C d b keys)
    (hsigned : Signed C endpointID keys.policy m) : keys = t.keys ∧ t.manifestVerify C m = true := by
  rcases ht.current with hu | ⟨b', hpin, hvalid'⟩
  · exact absurd hvalid (hu.stale b keys)
  · have hkeys := (hvalid.1.unique hvalid'.1).2
    refine ⟨hkeys, (manifestVerify_iff hpin ht.identity).mpr ?_⟩
    rw [← hkeys]
    exact hsigned

theorem takeStoredManifest_some (hmanifest : t.manifest = none) (hstored : storedManifest c = some m)
    (hverify : t.manifestVerify C m = true) :
    takeStoredManifest C t c = if t.manifestFloored m.seq then { t with manifest := some m }
      else { t with manifest := some m, mfloor := floorInsert t.mfloor t.keys.policy m.seq,
                    mfloorDirty := true } := by
  unfold takeStoredManifest
  simp only [hstored, hverify, hmanifest, Bool.not_true, Bool.false_eq_true, if_false]
  rfl

theorem takeStoredManifest_none (hno : ¬∃ m, storedManifest c = some m ∧ t.manifestVerify C m = true) :
    takeStoredManifest C t c = t := by
  unfold takeStoredManifest
  split
  · rfl
  · rename_i m hstored
    exact if_pos (by simpa using fun hverify => hno ⟨m, hstored, hverify⟩)

/-- The floors a load ends with: they cover alone what was covered before, and they are those it
found unless it marked them. -/
theorem takeStoredManifest_floors (hP : P.length ≤ maxMfloor) (ht : Loading C endpointID P d t) :
    let u := takeStoredManifest C t (d .manifestState)
    GoodFloors P u.mfloor ∧ (u.mfloorDirty = false → u.mfloor = t.mfloor) ∧
      ∀ key n, CoveredBy C endpointID t.mfloor d key n → n ≤ floorOf u.mfloor key := by
  by_cases htaken : ∃ m, storedManifest (d .manifestState) = some m ∧ t.manifestVerify C m = true
  · obtain ⟨m, hstored, hverify⟩ := htaken
    obtain ⟨hhave, hsigned, b, hvalid⟩ := ht.pinned hverify
    -- the pin and the stored manifest cover no more than the manifest's number
    have hcase : ∀ key n, CoveredBy C endpointID t.mfloor d key n →
        n ≤ floorOf t.mfloor key ∨ key = t.keys.policy ∧ n ≤ m.seq := by
      intro key n hcov
      rcases hcov with hle | ⟨b', keys, m', hvalid', rfl, hstored', -, hle⟩
      · exact .inl hle
      · cases hstored.symm.trans hstored'
        rw [(hvalid'.1.unique hvalid.1).2]
        exact .inr ⟨rfl, hle⟩
    rw [takeStoredManifest_some ht.manifest hstored hverify]
    split
    · rename_i hfloored
      have hle := ((manifestFloored_iff hsigned.seq_pos).mp hfloored).2
      refine ⟨ht.floors, fun _ => rfl, fun key n hcov => ?_⟩
      rcases hcase key n hcov with h | ⟨rfl, h⟩
      · exact h
      · exact Int.le_trans h hle
    · rename_i hfloored
      have hlt : ¬m.seq ≤ floorOf t.mfloor t.keys.policy := fun hle =>
        hfloored ((manifestFloored_iff hsigned.seq_pos).mpr ⟨hhave, hle⟩)
      have hfloor := printable_floor hsigned (storedManifest_printable hstored)
        hvalid.1.pinnable.policy_length
      obtain ⟨hgood, hself, hother⟩ := ht.floors.insert hP (ht.policy hhave) hfloor
      refine ⟨hgood, fun hclean => absurd (show true = false from hclean) (by decide), fun key n hcov => ?_⟩
      by_cases hkey : key = t.keys.policy
      · rw [hkey, hself]
        rcases hcase key n hcov with h | ⟨-, h⟩
        · rw [hkey] at h
          omega
        · exact h
      · rw [hother key hkey]
        exact (hcase key n hcov).resolve_right fun h => hkey h.1
  · rw [takeStoredManifest_none htaken]
    refine ⟨ht.floors, fun _ => rfl, fun key n hcov => ?_⟩
    rcases hcov with hle | ⟨b, keys, m, hvalid, rfl, hstored, hsigned, -⟩
    · exact hle
    · exact absurd ⟨m, hstored, (ht.verify hvalid hsigned).2⟩ htaken

/-- Taking the stored manifest keeps the floors behind everything that was in force: what is not
covered by a floor is covered by the manifest that is taken. -/
theorem takeStoredManifest_agent (hP : P.length ≤ maxMfloor) (hd : ManifestDisk C endpointID P H d)
    (ht : Loading C endpointID P d t)
    (hcovered : ∀ key, CoveredBy C endpointID t.mfloor d key (H key)) :
    ManifestAgent C endpointID P H d (takeStoredManifest C t (d .manifestState)) := by
  obtain ⟨hgood, -, hcov⟩ := takeStoredManifest_floors hP ht
  by_cases htaken : ∃ m, storedManifest (d .manifestState) = some m ∧ t.manifestVerify C m = true
  · obtain ⟨m, hstored, hverify⟩ := htaken
    obtain ⟨hhave, hsigned, b, hvalid⟩ := ht.pinned hverify
    have hself : ∀ l, CoveredBy C endpointID l d t.keys.policy m.seq := fun _ =>
      .inr ⟨b, t.keys, m, hvalid, rfl, hstored, hsigned, Int.le_refl _⟩
    obtain ⟨l, dirty, hu⟩ : ∃ l dirty, takeStoredManifest C t (d .manifestState) =
        { t with manifest := some m, mfloor := l, mfloorDirty := dirty } := by
      rw [takeStoredManifest_some ht.manifest hstored hverify]
      split
      · exact ⟨_, _, rfl⟩
      · exact ⟨_, _, rfl⟩
    rw [hu] at hgood hcov ⊢
    refine ⟨ht.identity, hgood, ht.policy, fun key => .inl (hcov key _ (hcovered key)), fun m' hm' => ?_,
      fun _ => ⟨m, rfl, hcov _ _ (hself _)⟩⟩
    cases hm'
    refine ⟨hverify, hd.stored _ (ht.policy hhave) m hstored hsigned, hself _, fun m' hm' _ => ?_⟩
    cases hstored.symm.trans hm'
    exact Int.le_refl _
  · rw [takeStoredManifest_none htaken] at hgood hcov ⊢
    refine ⟨ht.identity, hgood, ht.policy, fun key => .inl (hcov key _ (hcovered key)), fun m hm => ?_,
      fun hd' => ?_⟩
    · cases ht.manifest.symm.trans hm
    · cases ht.clean.symm.trans hd'

/-! ## The conditions look at the pin and manifest files -/

section Congr

variable (hf : ∀ f ∈ pinFiles ++ manifestFiles, d' f = d f)

include hf

theorem coveredBy_congr (l : List TrustFloor) : CoveredBy C endpointID l d' = CoveredBy C endpointID l d := by
  have hvalid : ValidPin C d' = ValidPin C d := validPin_congr fun f hmem => hf f (by simp [hmem])
  funext key n
  rw [CoveredBy, CoveredBy, hvalid, hf .manifestState (by decide)]

theorem covered_congr : Covered C endpointID d' = Covered C endpointID d := by
  rw [Covered, Covered, hf .manifestFloor (by decide), coveredBy_congr hf]

theorem ManifestDisk.congr (h : ManifestDisk C endpointID P H d) : ManifestDisk C endpointID P H d' := by
  refine ⟨?_, ?_, ?_⟩
  · rw [hf .manifestFloor (by decide)]
    exact h.floors
  · rw [covered_congr hf]
    exact h.covered
  · rw [hf .manifestState (by decide)]
    exact h.stored

theorem ManifestAgent.congr (h : ManifestAgent C endpointID P H d t) (r : RoutineKeys) (s : TrustState) :
    ManifestAgent C endpointID P H d' { t with routine := r, state := s } := by
  refine { h with inForce := fun m hm => { h.inForce m hm with covered := ?_, stored := ?_ } }
  · rw [covered_congr hf]
    exact (h.inForce m hm).covered
  · rw [hf .manifestState (by decide)]
    exact (h.inForce m hm).stored

end Congr

end Ominull.Agent
