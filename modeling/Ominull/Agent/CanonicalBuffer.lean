import Ominull.Agent.Manifest

/-!
The agent's canonical encoder as it writes: field after field into a buffer of fixed size, giving up
at the first one that does not fit.
-/

namespace Ominull.Agent

open Lib

inductive EncodeError where
  | overflow
  | unsupported
  deriving DecidableEq

/-- A write to a buffer of `cap` bytes, given what is in it. -/
def CanonicalWrite := ℕ → Str → Except EncodeError Str

namespace CanonicalBuf

def put (bytes : Str) : CanonicalWrite := fun cap buf =>
  if cap < buf.length + bytes.length then .error .overflow else .ok (buf ++ bytes)

/-- One write after another; the second is not tried when the first fails. -/
def andThen (v w : CanonicalWrite) : CanonicalWrite := fun cap buf =>
  match v cap buf with
  | .error e => .error e
  | .ok buf => w cap buf

def writeUint32 (n : ℕ) : CanonicalWrite := put (bigEndian 4 n)

def writeInt64 (n : Int) : CanonicalWrite := put (bigEndian 8 (unsigned64 n))

/-- `CanonicalBuf_WriteBytes`, and so `CanonicalBuf_WriteString`: the length, then the bytes. -/
def writeString (s : Str) : CanonicalWrite := andThen (writeUint32 s.length) (put s)

def writeHexNormalized (s : Str) : CanonicalWrite := andThen (writeUint32 s.length) (put (lower s))

def writeStringSlice (items : List Str) : CanonicalWrite :=
  andThen (writeUint32 items.length) (items.foldr (fun s w => andThen (writeString s) w) (put []))

def all (writes : List CanonicalWrite) : CanonicalWrite := writes.foldr andThen (put [])

end CanonicalBuf

open CanonicalBuf

/-- `EncodeGrantV2Canonical` into a buffer of `cap` bytes. -/
def encodeGrantV2 (cap : ℕ) (g : ResponseGrant) : Except EncodeError Str :=
  all [writeString (str "OMINULL-ENDPOINT-GRANT-V2"), writeUint32 g.version, writeString g.grantID,
    writeString g.tenantID, writeString g.endpointID, writeString g.actionKind,
    writeHexNormalized g.actionDigest, writeString g.operatorID, writeString g.responseSessionID,
    writeInt64 g.issuedAt, writeInt64 g.expiresAt, writeHexNormalized g.nonce,
    writeHexNormalized g.signerKeyID] cap []

/-- `EncodeGrantCanonical` into a buffer of `cap` bytes. -/
def encodeGrant (cap : ℕ) (g : ResponseGrant) : Except EncodeError Str :=
  if g.version = 2 then encodeGrantV2 cap g
  else if g.version ≠ 3 ∨ g.jobID = [] then .error .unsupported
  else
    all [writeString (str "OMINULL-ENDPOINT-GRANT-V3"), writeUint32 g.version, writeString g.grantID,
      writeString g.tenantID, writeString g.endpointID, writeString g.actionKind,
      writeHexNormalized g.actionDigest, writeString g.operatorID, writeString g.responseSessionID,
      writeInt64 g.issuedAt, writeInt64 g.expiresAt, writeHexNormalized g.nonce, writeString g.jobID,
      writeHexNormalized g.signerKeyID] cap []

/-- `Trust_ManifestCanonical` into a buffer of `cap` bytes. -/
def encodeManifest (cap : ℕ) (m : TrustManifest) : Except EncodeError Str :=
  all [writeString (str "OMINULL-CAPABILITY-MANIFEST-V1"), writeUint32 1, writeString m.tenantID,
    writeString m.endpointID, writeString m.profile, writeStringSlice m.caps, writeInt64 m.seq,
    writeInt64 m.issuedAt, writeHexNormalized m.signerKeyID] cap []

/-! ## A sequence of writes is one write -/

namespace CanonicalBuf

theorem put_andThen (s t : Str) : andThen (put s) (put t) = put (s ++ t) := by
  funext cap buf
  unfold andThen put
  by_cases hs : cap < buf.length + s.length
  · have hst : cap < buf.length + (s ++ t).length := by
      rw [List.length_append]
      omega
    rw [if_pos hs, if_pos hst]
  · rw [if_neg hs]
    simp only [List.length_append, Nat.add_assoc, List.append_assoc]

theorem writeString_eq (s : Str) : writeString s = put (frame s) := put_andThen _ _

theorem writeHexNormalized_eq (s : Str) : writeHexNormalized s = put (hexNormalizedFrame s) := by
  rw [writeHexNormalized, writeUint32, put_andThen, hexNormalizedFrame, frame]
  rw [show (lower s).length = s.length from List.length_map ..]

theorem writeStringSlice_eq (items : List Str) : writeStringSlice items = put (frames items) := by
  have hitems : items.foldr (fun s w => andThen (writeString s) w) (put []) = put (items.flatMap frame) := by
    induction items with
    | nil => rfl
    | cons s items ih => rw [List.foldr_cons, ih, writeString_eq, put_andThen, List.flatMap_cons]
  rw [writeStringSlice, hitems, writeUint32, put_andThen, frames]

theorem put_nil (bytes : Str) (cap : ℕ) :
    put bytes cap [] = if cap < bytes.length then .error .overflow else .ok bytes := by
  unfold put
  rw [List.length_nil, Nat.zero_add, List.nil_append]

end CanonicalBuf

/-- The encoder refuses the versions it does not know, and otherwise gives the canonical bytes where they
fit. -/
theorem encodeGrant_eq (cap : ℕ) (g : ResponseGrant) :
    encodeGrant cap g =
      if g.version ≠ 2 ∧ (g.version ≠ 3 ∨ g.jobID = []) then .error .unsupported
      else if cap < g.canonical.length then .error .overflow
      else .ok g.canonical := by
  unfold encodeGrant encodeGrantV2 ResponseGrant.canonical
  simp only [writeString_eq, writeHexNormalized_eq, writeUint32, writeInt64, all, List.foldr_cons,
    List.foldr_nil, put_andThen, List.append_nil, put_nil]
  by_cases htwo : g.version = 2
  · simp only [htwo, if_true, ne_eq, not_true_eq_false, false_and, if_false, List.nil_append]
  · simp only [htwo, if_false, ne_eq, not_false_eq_true, true_and]

theorem encodeManifest_eq (cap : ℕ) (m : TrustManifest) :
    encodeManifest cap m = if cap < m.canonical.length then .error .overflow else .ok m.canonical := by
  unfold encodeManifest TrustManifest.canonical
  simp only [writeString_eq, writeHexNormalized_eq, writeStringSlice_eq, writeUint32, writeInt64, all,
    List.foldr_cons, List.foldr_nil, put_andThen, List.append_nil, put_nil]

/-! ## Room -/

theorem length_hexNormalizedFrame (s : Str) : (hexNormalizedFrame s).length = 4 + s.length := by
  rw [hexNormalizedFrame, frame, List.length_append, length_bigEndian, lower, List.length_map]

theorem length_frame (s : Str) : (frame s).length = 4 + s.length := by
  rw [frame, List.length_append, length_bigEndian]

theorem ResponseGrant.Held.length_canonical_le {g : ResponseGrant} (h : g.Held) : g.canonical.length ≤ 722 := by
  have htexts := h.texts
  simp only [ResponseGrant.texts, List.forall_mem_cons] at htexts
  have htag : (if g.version = 2 then str "OMINULL-ENDPOINT-GRANT-V2" else str "OMINULL-ENDPOINT-GRANT-V3").length = 25 := by
    split
    · decide
    · decide
  have hjob : (if g.version = 2 then [] else frame g.jobID).length ≤ 4 + g.jobID.length := by
    split
    · exact Nat.zero_le _
    · rw [length_frame]
  simp only [ResponseGrant.canonical, List.length_append, length_frame, length_hexNormalizedFrame,
    length_bigEndian, htag]
  omega

/-- The texts of a manifest, its capabilities apart, with the sizes of their buffers. -/
def TrustManifest.texts (m : TrustManifest) : List (Str × ℕ) :=
  [(m.tenantID, 64), (m.endpointID, 64), (m.profile, 24), (m.signerKeyID, 65), (m.signature, 129)]

structure TrustManifest.Held (m : TrustManifest) : Prop where
  texts : ∀ t ∈ m.texts, t.1.length < t.2 ∧ (0 : UInt8) ∉ t.1
  capCount : m.caps.length ≤ maxCaps
  caps : ∀ c ∈ m.caps, c.length < 24 ∧ (0 : UInt8) ∉ c
  seq : -2 ^ 63 ≤ m.seq ∧ m.seq < 2 ^ 63
  issuedAt : -2 ^ 63 ≤ m.issuedAt ∧ m.issuedAt < 2 ^ 63

theorem length_flatMap_frame_le {l : List Str} {n : ℕ} (h : ∀ s ∈ l, s.length ≤ n) :
    (l.flatMap frame).length ≤ l.length * (4 + n) := by
  induction l with
  | nil => exact Nat.zero_le _
  | cons s l ih =>
    obtain ⟨hs, hl⟩ := List.forall_mem_cons.mp h
    have hrest := ih hl
    rw [List.flatMap_cons, List.length_append, length_frame, List.length_cons, Nat.succ_mul]
    omega

theorem TrustManifest.Held.length_canonical_le {m : TrustManifest} (h : m.Held) : m.canonical.length ≤ 611 := by
  have htexts := h.texts
  simp only [TrustManifest.texts, List.forall_mem_cons] at htexts
  have hcaps : (m.caps.flatMap frame).length ≤ 12 * (4 + 23) :=
    (length_flatMap_frame_le fun c hc => Nat.le_of_lt_succ (h.caps c hc).1).trans
      (Nat.mul_le_mul_right _ h.capCount)
  have htag : (str "OMINULL-CAPABILITY-MANIFEST-V1").length = 30 := by decide
  simp only [TrustManifest.canonical, frames, List.length_append, length_frame, length_hexNormalizedFrame,
    length_bigEndian, htag]
  omega

end Ominull.Agent
