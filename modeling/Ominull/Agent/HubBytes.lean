import Ominull.Agent.CanonicalBuffer
import Ominull.Go.Lower
import Ominull.Response.Trust

/-!
The agent's canonical bytes beside the hub's. Both frame every text; what they differ in is the texts
that hold hex, which the hub trims and lower-cases as Unicode and the agent lower-cases as ASCII.
-/

namespace Ominull.Agent

open Go Lib Response

/-- A grant of the hub, field by field in the agent's struct. -/
def ResponseGrant.ofHub (g : EndpointGrant) : ResponseGrant where
  version := g.version.toNat
  grantID := g.grantID
  tenantID := g.tenantID
  endpointID := g.endpointID
  actionKind := g.actionKind
  actionDigest := g.actionDigest
  operatorID := g.operatorID
  responseSessionID := g.responseSessionID
  issuedAt := g.issuedAt
  expiresAt := g.expiresAt
  nonce := g.nonce
  jobID := g.jobID
  signerKeyID := g.signerKeyID
  signature := g.signature

/-- A manifest of the hub in the agent's struct, which has no version. -/
def TrustManifest.ofHub (m : CapabilityManifest) : TrustManifest where
  tenantID := m.tenantID
  endpointID := m.endpointID
  profile := m.profile
  caps := m.caps
  seq := m.seq
  issuedAt := m.issuedAt
  signerKeyID := m.signerKeyID
  signature := m.signature

/-- A grant of the hub whose fields fit the agent's. -/
structure FitsGrant (g : EndpointGrant) : Prop where
  version : 0 ≤ g.version
  held : (ResponseGrant.ofHub g).Held

/-- A grant of a version the agent knows, with a job where the version has one, and hex fields both
sides lower-case alike. -/
structure AgreesGrant (g : EndpointGrant) : Prop where
  version : g.version = grantVersion ∨ (g.version = grantVersionJob ∧ g.jobID ≠ [])
  actionDigest : LowersAlike g.actionDigest
  nonce : LowersAlike g.nonce
  signerKeyID : LowersAlike g.signerKeyID

/-- A manifest of the one version there is whose key id both sides lower-case alike. -/
structure AgreesManifest (m : CapabilityManifest) : Prop where
  version : m.v % 2 ^ 32 = 1
  signerKeyID : LowersAlike m.signerKeyID

theorem hexNormalizedFrame_append_eq_iff {s r t : Str} (hs : s.length < 2 ^ 30) :
    hexNormalizedFrame s ++ r = writeHexNormalized s ++ t ↔ LowersAlike s ∧ r = t := by
  have hagent : (lower s).length < 2 ^ 32 := by
    rw [lower, List.length_map]
    omega
  have hhub : (hexNormalized s).length < 2 ^ 32 := by
    have := length_toLower_trimSpace_le s
    unfold hexNormalized
    omega
  rw [← toLower_trimSpace_eq_lower_iff]
  constructor
  · intro h
    obtain ⟨htext, hrest⟩ := frame_append_inj hagent hhub h
    exact ⟨htext.symm, hrest⟩
  · rintro ⟨htext, rfl⟩
    rw [hexNormalizedFrame, writeHexNormalized, hexNormalized, htext]

theorem hexNormalizedFrame_eq_iff {s : Str} (hs : s.length < 2 ^ 30) :
    hexNormalizedFrame s = writeHexNormalized s ↔ LowersAlike s := by
  simpa using hexNormalizedFrame_append_eq_iff (r := []) (t := []) hs

/-! ## Grants -/

theorem writeUint32_eq {n : Int} (hn : 0 ≤ n) (hlt : n.toNat < 2 ^ 32) :
    Response.writeUint32 n = bigEndian 4 n.toNat := by
  rw [Response.writeUint32, Int.emod_eq_of_lt hn (by omega)]

theorem canonical_ofHub_iff {g : EndpointGrant} (h : FitsGrant g)
    (hv : g.version = grantVersion ∨ (g.version = grantVersionJob ∧ g.jobID ≠ [])) :
    (ResponseGrant.ofHub g).canonical = g.canonicalBytes ↔
      LowersAlike g.actionDigest ∧ LowersAlike g.nonce ∧ LowersAlike g.signerKeyID := by
  have htexts := h.held.texts
  simp only [ResponseGrant.texts, List.forall_mem_cons] at htexts
  have hdigest : g.actionDigest.length < 2 ^ 30 := htexts.2.2.2.2.1.1.trans (by decide)
  have hnonce : g.nonce.length < 2 ^ 30 := htexts.2.2.2.2.2.2.2.1.1.trans (by decide)
  have hsigner : g.signerKeyID.length < 2 ^ 30 := htexts.2.2.2.2.2.2.2.2.2.1.1.trans (by decide)
  unfold ResponseGrant.canonical EndpointGrant.canonicalBytes EndpointGrant.tag Response.writeInt64
  rw [writeUint32_eq h.version h.held.version]
  rcases hv with hv | ⟨hv, -⟩
  · have hagent : (ResponseGrant.ofHub g).version = 2 := congrArg Int.toNat hv
    have hhub : g.version ≠ grantVersionJob := by
      rw [hv]
      decide
    rw [if_pos hagent, if_pos hagent, if_neg hhub, if_neg hhub]
    simp only [ResponseGrant.ofHub, List.append_cancel_left_eq, List.nil_append,
      hexNormalizedFrame_append_eq_iff hdigest, hexNormalizedFrame_append_eq_iff hnonce,
      hexNormalizedFrame_eq_iff hsigner]
  · have hagent : (ResponseGrant.ofHub g).version ≠ 2 := by
      rw [show (ResponseGrant.ofHub g).version = 3 from congrArg Int.toNat hv]
      decide
    rw [if_neg hagent, if_neg hagent, if_pos hv, if_pos hv]
    simp only [ResponseGrant.ofHub, List.append_cancel_left_eq,
      hexNormalizedFrame_append_eq_iff hdigest, hexNormalizedFrame_append_eq_iff hnonce,
      hexNormalizedFrame_eq_iff hsigner]

theorem ofHub_unsupported_iff {g : EndpointGrant} :
    ((ResponseGrant.ofHub g).version ≠ 2 ∧
        ((ResponseGrant.ofHub g).version ≠ 3 ∨ (ResponseGrant.ofHub g).jobID = [])) ↔
      ¬(g.version = grantVersion ∨ (g.version = grantVersionJob ∧ g.jobID ≠ [])) := by
  have htwo : g.version.toNat = 2 ↔ g.version = 2 := by omega
  have hthree : g.version.toNat = 3 ↔ g.version = 3 := by omega
  tauto

theorem encodeGrant_ofHub {g : EndpointGrant} (h : FitsGrant g) :
    encodeGrant 1024 (ResponseGrant.ofHub g) ≠ .error .overflow ∧
      (encodeGrant 1024 (ResponseGrant.ofHub g) = .ok g.canonicalBytes ↔ AgreesGrant g) := by
  have hroom : ¬1024 < (ResponseGrant.ofHub g).canonical.length := by
    have := h.held.length_canonical_le
    omega
  rw [encodeGrant_eq, if_neg hroom]
  by_cases hv : g.version = grantVersion ∨ (g.version = grantVersionJob ∧ g.jobID ≠ [])
  · rw [if_neg fun hno => ofHub_unsupported_iff.mp hno hv]
    constructor
    · intro hfull
      cases hfull
    rw [Except.ok.injEq, canonical_ofHub_iff h hv]
    exact ⟨fun ⟨hd, hn, hk⟩ => ⟨hv, hd, hn, hk⟩, fun ha => ⟨ha.actionDigest, ha.nonce, ha.signerKeyID⟩⟩
  · rw [if_pos (ofHub_unsupported_iff.mpr hv)]
    constructor
    · intro hfull
      cases hfull
    · exact iff_of_false nofun fun ha => hv ha.version

/-! ## Manifests -/

theorem bigEndian_one_eq_writeUint32_iff {n : Int} {r t : Str} :
    bigEndian 4 1 ++ r = Response.writeUint32 n ++ t ↔ n % 2 ^ 32 = 1 ∧ r = t := by
  constructor
  · intro h
    obtain ⟨hn, hrest⟩ := writeUint32_append_inj (m := 1) h
    exact ⟨hn.symm, hrest⟩
  · rintro ⟨hn, rfl⟩
    rw [Response.writeUint32, hn]
    rfl

theorem encodeManifest_ofHub {m : CapabilityManifest} (h : (TrustManifest.ofHub m).Held) :
    encodeManifest 1024 (TrustManifest.ofHub m) ≠ .error .overflow ∧
      (encodeManifest 1024 (TrustManifest.ofHub m) = .ok m.canonicalBytes ↔ AgreesManifest m) := by
  have hroom : ¬1024 < (TrustManifest.ofHub m).canonical.length := by
    have := h.length_canonical_le
    omega
  have htexts := h.texts
  simp only [TrustManifest.texts, List.forall_mem_cons] at htexts
  have hsigner : m.signerKeyID.length < 2 ^ 30 := htexts.2.2.2.1.1.trans (by decide)
  rw [encodeManifest_eq, if_neg hroom]
  constructor
  · intro hfull
    cases hfull
  rw [Except.ok.injEq]
  unfold TrustManifest.canonical CapabilityManifest.canonicalBytes Response.writeInt64
  simp only [TrustManifest.ofHub, List.append_cancel_left_eq, bigEndian_one_eq_writeUint32_iff,
    hexNormalizedFrame_eq_iff hsigner]
  exact ⟨fun h => ⟨h.1, h.2⟩, fun ha => ⟨ha.version, ha.signerKeyID⟩⟩

/-- A grant as the authority signs it, but for the digest. -/
def sampleHubGrant (digest : Str) : EndpointGrant :=
  { version := 3, grantID := str "g", tenantID := str "t", endpointID := str "e", actionKind := str "isolate",
    actionDigest := digest, operatorID := str "o", responseSessionID := str "s", issuedAt := 1,
    expiresAt := 61, nonce := str "0A", jobID := str "j", signerKeyID := str "aB" }

theorem sampleHubGrant_fits : FitsGrant (sampleHubGrant (str "C0FFEE")) ∧
    FitsGrant (sampleHubGrant (str "c0ffee ")) :=
  ⟨⟨by decide +kernel, by decide +kernel, by decide +kernel, by decide +kernel, by decide +kernel⟩,
    ⟨by decide +kernel, by decide +kernel, by decide +kernel, by decide +kernel, by decide +kernel⟩⟩

end Ominull.Agent
