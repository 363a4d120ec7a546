import Ominull.Auth.SignGrant
import Ominull.Response.Trust

/-! What the canonical bytes of grants, capability manifests and action proofs say. -/

namespace Ominull.Response

open Go Lib

/-- A value of an `int64`. -/
def IsInt64 (n : Int) : Prop := -2 ^ 63 ≤ n ∧ n < 2 ^ 63

instance decidableIsInt64 (n : Int) : Decidable (IsInt64 n) :=
  inferInstanceAs (Decidable (-2 ^ 63 ≤ n ∧ n < 2 ^ 63))

def Short (texts : List Str) : Prop := ∀ s ∈ texts, s.length < 2 ^ 32

instance decidableShort (texts : List Str) : Decidable (Short texts) :=
  inferInstanceAs (Decidable (∀ s ∈ texts, s.length < 2 ^ 32))

theorem short_nil : Short [] := nofun

theorem short_cons {s : Str} {l : List Str} : Short (s :: l) ↔ s.length < 2 ^ 32 ∧ Short l :=
  List.forall_mem_cons

theorem short_append {l l' : List Str} : Short (l ++ l') ↔ Short l ∧ Short l' := List.forall_mem_append

namespace EndpointGrant

/-- The signed fields of a grant, its hex fields normalised. -/
def content (g : EndpointGrant) : EndpointGrant :=
  { g with
    actionDigest := hexNormalized g.actionDigest
    nonce := hexNormalized g.nonce
    jobID := if g.version = grantVersionJob then g.jobID else []
    signerKeyID := hexNormalized g.signerKeyID
    signature := [] }

def texts (g : EndpointGrant) : List Str :=
  [g.grantID, g.tenantID, g.endpointID, g.actionKind, hexNormalized g.actionDigest, g.operatorID,
    g.responseSessionID, hexNormalized g.nonce, g.jobID, hexNormalized g.signerKeyID]

structure Fits (g : EndpointGrant) : Prop where
  version : g.version = grantVersion ∨ g.version = grantVersionJob
  short : Short g.texts
  issuedAt : IsInt64 g.issuedAt
  expiresAt : IsInt64 g.expiresAt

theorem Fits.tag_length {g : EndpointGrant} (_ : g.Fits) : g.tag.length < 2 ^ 32 := by
  unfold tag
  split_ifs
  · decide
  · decide

theorem Fits.version_of_tag {g g' : EndpointGrant} (h : g.Fits) (h' : g'.Fits) (htag : g.tag = g'.tag) :
    g.version = g'.version := by
  unfold tag at htag
  rcases h.version with hv | hv
  · rcases h'.version with hv' | hv'
    · rw [hv, hv']
    · rw [hv, hv'] at htag
      exact absurd htag (by decide)
  · rcases h'.version with hv' | hv'
    · rw [hv, hv'] at htag
      exact absurd htag (by decide)
    · rw [hv, hv']

theorem content_of_canonicalBytes {g g' : EndpointGrant} (h : g.Fits) (h' : g'.Fits)
    (heq : g.canonicalBytes = g'.canonicalBytes) : g.content = g'.content := by
  have hs := h.short
  have hs' := h'.short
  simp only [texts, short_cons] at hs hs'
  obtain ⟨s₁, s₂, s₃, s₄, s₅, s₆, s₇, s₈, s₉, s₁₀, -⟩ := hs
  obtain ⟨s₁', s₂', s₃', s₄', s₅', s₆', s₇', s₈', s₉', s₁₀', -⟩ := hs'
  obtain ⟨htag, heq⟩ := frame_append_inj h.tag_length h'.tag_length heq
  have hversion := h.version_of_tag h' htag
  obtain ⟨-, heq⟩ := writeUint32_append_inj heq
  obtain ⟨hgrant, heq⟩ := frame_append_inj s₁ s₁' heq
  obtain ⟨htenant, heq⟩ := frame_append_inj s₂ s₂' heq
  obtain ⟨hendpoint, heq⟩ := frame_append_inj s₃ s₃' heq
  obtain ⟨hkind, heq⟩ := frame_append_inj s₄ s₄' heq
  obtain ⟨hdigest, heq⟩ := frame_append_inj s₅ s₅' heq
  obtain ⟨hoperator, heq⟩ := frame_append_inj s₆ s₆' heq
  obtain ⟨hsession, heq⟩ := frame_append_inj s₇ s₇' heq
  obtain ⟨hissued, heq⟩ := writeInt64_append_inj h.issuedAt h'.issuedAt heq
  obtain ⟨hexpires, heq⟩ := writeInt64_append_inj h.expiresAt h'.expiresAt heq
  obtain ⟨hnonce, heq⟩ := frame_append_inj s₈ s₈' heq
  have hlast : (if g.version = grantVersionJob then g.jobID else []) =
      (if g'.version = grantVersionJob then g'.jobID else []) ∧
      hexNormalized g.signerKeyID = hexNormalized g'.signerKeyID := by
    rw [← hversion] at heq ⊢
    split_ifs at heq ⊢
    · obtain ⟨hjob, heq⟩ := frame_append_inj s₉ s₉' heq
      exact ⟨hjob, (frame_append_inj s₁₀ s₁₀' (congrArg (· ++ []) heq)).1⟩
    · exact ⟨rfl, (frame_append_inj s₁₀ s₁₀' (congrArg (· ++ []) heq)).1⟩
  simp only [content, hversion, hgrant, htenant, hendpoint, hkind, hdigest, hoperator, hsession, hissued,
    hexpires, hnonce, hlast.2, mk.injEq, true_and, and_true]
  exact hversion ▸ hlast.1

end EndpointGrant

namespace CapabilityManifest

/-- The signed fields of a manifest: its version as it is written, its key id normalised. -/
def content (m : CapabilityManifest) : CapabilityManifest :=
  { m with v := m.v % 2 ^ 32, signerKeyID := hexNormalized m.signerKeyID, signature := [] }

structure Fits (m : CapabilityManifest) : Prop where
  short : Short ([m.tenantID, m.endpointID, m.profile, hexNormalized m.signerKeyID] ++ m.caps)
  seq : IsInt64 m.seq
  issuedAt : IsInt64 m.issuedAt

theorem content_of_canonicalBytes {m m' : CapabilityManifest} (h : m.Fits) (h' : m'.Fits)
    (heq : m.canonicalBytes = m'.canonicalBytes) : m.content = m'.content := by
  have hs := h.short
  have hs' := h'.short
  simp only [short_append, short_cons] at hs hs'
  obtain ⟨⟨s₁, s₂, s₃, s₄, -⟩, hcaps⟩ := hs
  obtain ⟨⟨s₁', s₂', s₃', s₄', -⟩, hcaps'⟩ := hs'
  have htail : ∀ (a b : Int) {t : Str}, t.length < 2 ^ 32 →
      (writeInt64 a ++ (writeInt64 b ++ frame t)).length < 2 ^ 34 := by
    simp only [writeInt64, frame, List.length_append, length_bigEndian]
    omega
  obtain ⟨-, heq⟩ := frame_append_inj (by decide) (by decide) heq
  obtain ⟨hv, heq⟩ := writeUint32_append_inj heq
  obtain ⟨htenant, heq⟩ := frame_append_inj s₁ s₁' heq
  obtain ⟨hendpoint, heq⟩ := frame_append_inj s₂ s₂' heq
  obtain ⟨hprofile, heq⟩ := frame_append_inj s₃ s₃' heq
  obtain ⟨hlist, heq⟩ := frames_append_inj_of_tail (htail _ _ s₄) (htail _ _ s₄') hcaps hcaps' heq
  obtain ⟨hseq, heq⟩ := writeInt64_append_inj h.seq h'.seq heq
  obtain ⟨hissued, heq⟩ := writeInt64_append_inj h.issuedAt h'.issuedAt heq
  have hsigner := (frame_append_inj s₄ s₄' (congrArg (· ++ []) heq)).1
  simp only [content, hv, htenant, hendpoint, hprofile, hlist, hseq, hissued, hsigner]

end CapabilityManifest

end Ominull.Response

namespace Ominull.Auth

open Go Lib Response

namespace ActionProof

/-- The signed fields of a proof: its version as it is written, where 0 stands for the current one, its
hex fields normalised. -/
def content (p : ActionProof) : ActionProof :=
  { p with
    version := (if p.version = 0 then proofVersion else p.version) % 2 ^ 32
    actionDigest := hexNormalized p.actionDigest
    nonce := hexNormalized p.nonce
    signature := [] }

structure FitsFrames (p : ActionProof) : Prop where
  short : Short ([p.sessionID, p.tenantID, p.actionKind, hexNormalized p.actionDigest, hexNormalized p.nonce] ++
    p.targetEndpoints)
  timestamp : IsInt64 p.timestamp

theorem content_of_canonicalBytes {p p' : ActionProof} (h : p.FitsFrames) (h' : p'.FitsFrames)
    (heq : p.canonicalBytes = p'.canonicalBytes) : p.content = p'.content := by
  have hs := h.short
  have hs' := h'.short
  simp only [short_append, short_cons] at hs hs'
  obtain ⟨⟨s₁, s₂, s₃, s₄, s₅, -⟩, htargets⟩ := hs
  obtain ⟨⟨s₁', s₂', s₃', s₄', s₅', -⟩, htargets'⟩ := hs'
  have htail : ∀ (a : Int) {t : Str}, t.length < 2 ^ 32 → (writeInt64 a ++ frame t).length < 2 ^ 34 := by
    simp only [writeInt64, frame, List.length_append, length_bigEndian]
    omega
  obtain ⟨-, heq⟩ := frame_append_inj (by decide) (by decide) heq
  obtain ⟨hversion, heq⟩ := writeUint32_append_inj heq
  obtain ⟨hsession, heq⟩ := frame_append_inj s₁ s₁' heq
  obtain ⟨htenant, heq⟩ := frame_append_inj s₂ s₂' heq
  obtain ⟨hkind, heq⟩ := frame_append_inj s₃ s₃' heq
  obtain ⟨hdigest, heq⟩ := frame_append_inj s₄ s₄' heq
  obtain ⟨hlist, heq⟩ := frames_append_inj_of_tail (htail _ s₅) (htail _ s₅') htargets htargets' heq
  obtain ⟨htime, heq⟩ := writeInt64_append_inj h.timestamp h'.timestamp heq
  have hnonce := (frame_append_inj s₅ s₅' (congrArg (· ++ []) heq)).1
  simp only [content, hversion, hsession, htenant, hkind, hdigest, hlist, htime, hnonce]

end ActionProof

inductive Signed where
  | grant (g : EndpointGrant)
  | manifest (m : CapabilityManifest)
  | proof (p : ActionProof)

namespace Signed

def canonicalBytes : Signed → Str
  | grant g => g.canonicalBytes
  | manifest m => m.canonicalBytes
  | proof p => p.canonicalBytes

/-- The kind of the value and its signed fields. -/
def content : Signed → Signed
  | grant g => .grant g.content
  | manifest m => .manifest m.content
  | proof p => .proof p.content

/-- A grant of version 2 or 3, a manifest or a proof, whose texts, the hex ones normalised, are shorter
than `2 ^ 32` bytes. -/
def Fits : Signed → Prop
  | grant g => g.Fits
  | manifest m => m.Fits
  | proof p => p.FitsFrames

/-- The domain tag the bytes start with. -/
def tag : Signed → Str
  | grant g => g.tag
  | manifest _ => str "OMINULL-CAPABILITY-MANIFEST-V1"
  | proof _ => str "OMINULL-ACTION-PROOF-V2"

theorem Fits.tag_length {x : Signed} (h : x.Fits) : x.tag.length < 2 ^ 32 := by
  cases x with
  | grant g => exact EndpointGrant.Fits.tag_length h
  | manifest m => exact (by decide : (str "OMINULL-CAPABILITY-MANIFEST-V1").length < 2 ^ 32)
  | proof p => exact (by decide : (str "OMINULL-ACTION-PROOF-V2").length < 2 ^ 32)

theorem tag_of_canonicalBytes {x y : Signed} (hx : x.Fits) (hy : y.Fits)
    (h : x.canonicalBytes = y.canonicalBytes) : x.tag = y.tag := by
  have htagged : ∀ z : Signed, ∃ r, z.canonicalBytes = frame z.tag ++ r := fun z => by
    cases z with
    | grant g | manifest m | proof p => exact ⟨_, rfl⟩
  obtain ⟨r, hr⟩ := htagged x
  obtain ⟨r', hr'⟩ := htagged y
  rw [hr, hr'] at h
  exact (frame_append_inj hx.tag_length hy.tag_length h).1

theorem grant_tag (g : EndpointGrant) : g.tag ≠ str "OMINULL-CAPABILITY-MANIFEST-V1" ∧
    g.tag ≠ str "OMINULL-ACTION-PROOF-V2" := by
  unfold EndpointGrant.tag
  split_ifs
  · decide
  · decide

/-- Equal canonical bytes are of values of one kind with the same signed fields. -/
theorem content_unambiguous (x y : Signed) (hx : x.Fits) (hy : y.Fits)
    (h : x.canonicalBytes = y.canonicalBytes) : x.content = y.content := by
  have htag := tag_of_canonicalBytes hx hy h
  cases x with
  | grant g =>
    cases y with
    | grant g' => exact congrArg grant (EndpointGrant.content_of_canonicalBytes hx hy h)
    | manifest m => exact absurd htag (grant_tag g).1
    | proof p => exact absurd htag (grant_tag g).2
  | manifest m =>
    cases y with
    | grant g => exact absurd htag.symm (grant_tag g).1
    | manifest m' => exact congrArg manifest (CapabilityManifest.content_of_canonicalBytes hx hy h)
    | proof p => exact absurd htag (by decide : str "OMINULL-CAPABILITY-MANIFEST-V1" ≠ str "OMINULL-ACTION-PROOF-V2")
  | proof p =>
    cases y with
    | grant g => exact absurd htag.symm (grant_tag g).2
    | manifest m => exact absurd htag (by decide : str "OMINULL-ACTION-PROOF-V2" ≠ str "OMINULL-CAPABILITY-MANIFEST-V1")
    | proof p' => exact congrArg proof (ActionProof.content_of_canonicalBytes hx hy h)

/-- A proof as a browser sends it, for the version it names. -/
def sampleProof (version : Int) (nonce : Str) : ActionProof :=
  { version := version, sessionID := str "s", tenantID := str "t", actionKind := actionKindScriptExec,
    actionDigest := str "ab", targetEndpoints := [str "e1", str "e2"], timestamp := 7, nonce := nonce,
    signature := [] }

theorem sampleProof_fits {version : Int} {nonce : Str} (h : (hexNormalized nonce).length < 2 ^ 32) :
    (sampleProof version nonce).FitsFrames := by
  refine ⟨?_, (by decide : IsInt64 7)⟩
  have hfixed : Short [str "s", str "t", actionKindScriptExec, hexNormalized (str "ab")] := by decide +kernel
  have htargets : Short [str "e1", str "e2"] := by decide +kernel
  exact short_append.mpr ⟨short_append.mpr ⟨hfixed, short_cons.mpr ⟨h, short_nil⟩⟩, htargets⟩

/-- The bytes of a proof with no version and a nonce in capitals between blanks are those of one with
the current version and the plain nonce: their signed fields agree. -/
theorem content_unambiguous_sampleProof :
    (Signed.proof (sampleProof 0 (str " A1 "))).content = (Signed.proof (sampleProof 2 (str "a1"))).content :=
  content_unambiguous _ _ (sampleProof_fits (by decide +kernel))
    (sampleProof_fits (by decide +kernel)) (by decide +kernel)

/-- Two proofs that differ in their version only have the same canonical bytes. -/
theorem version_ambiguous :
    sampleProof 0 (str "a1") ≠ sampleProof 2 (str "a1") ∧
      (Signed.proof (sampleProof 0 (str "a1"))).canonicalBytes =
        (Signed.proof (sampleProof 2 (str "a1"))).canonicalBytes := by
  decide +kernel

end Signed

end Ominull.Auth
