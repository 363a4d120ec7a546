import Mathlib.Data.Set.List
import Ominull.Go.RoundTrip
import Ominull.Response.Trust

/-! Capability manifests as they stand in a file: indented JSON, which is read back as it was. -/

namespace Ominull.Response

open Go Lib List

namespace CapabilityManifest

/-- `json.MarshalIndent` of a manifest at a depth; a nil list of capabilities is `null`. -/
def marshalIndent (sp : Spacing) (d : ℕ) (m : CapabilityManifest) : Str :=
  spacedStruct sp d
    [(str "v", decimalInt m.v), (str "tenant_id", quote m.tenantID), (str "endpoint_id", quote m.endpointID),
     (str "profile", quote m.profile),
     (str "caps", if m.caps = [] then str "null" else spacedArray sp (d + 1) (m.caps.map quote)),
     (str "seq", decimalInt m.seq), (str "issued_at", decimalInt m.issuedAt),
     (str "signer_key_id", quote m.signerKeyID), (str "signature", quote m.signature)]

def zero : CapabilityManifest := ⟨0, [], [], [], [], 0, 0, [], []⟩

def fields : List (Go.Field CapabilityManifest) :=
  [⟨ascii "v", fun v m => (decodeInt v m.v).map fun x => { m with v := x }⟩,
   ⟨ascii "tenant_id", fun v m => (decodeString v m.tenantID).map fun x => { m with tenantID := x }⟩,
   ⟨ascii "endpoint_id", fun v m => (decodeString v m.endpointID).map fun x => { m with endpointID := x }⟩,
   ⟨ascii "profile", fun v m => (decodeString v m.profile).map fun x => { m with profile := x }⟩,
   ⟨ascii "caps", fun v m => (decodeSlice decodeString [] v m.caps).map fun x => { m with caps := x }⟩,
   ⟨ascii "seq", fun v m => (decodeInt v m.seq).map fun x => { m with seq := x }⟩,
   ⟨ascii "issued_at", fun v m => (decodeInt v m.issuedAt).map fun x => { m with issuedAt := x }⟩,
   ⟨ascii "signer_key_id", fun v m => (decodeString v m.signerKeyID).map fun x => { m with signerKeyID := x }⟩,
   ⟨ascii "signature", fun v m => (decodeString v m.signature).map fun x => { m with signature := x }⟩]

/-- A manifest whose texts are valid UTF-8 and whose numbers are 64 bits wide. -/
structure WellFormed (m : CapabilityManifest) : Prop where
  v : -2 ^ 63 ≤ m.v ∧ m.v < 2 ^ 63
  tenantID : IsText m.tenantID
  endpointID : IsText m.endpointID
  profile : IsText m.profile
  caps : ∀ c ∈ m.caps, IsText c
  seq : -2 ^ 63 ≤ m.seq ∧ m.seq < 2 ^ 63
  issuedAt : -2 ^ 63 ≤ m.issuedAt ∧ m.issuedAt < 2 ^ 63
  signerKeyID : IsText m.signerKeyID
  signature : IsText m.signature

def capsJson (caps : List (List Char)) : Json := if caps = [] then .null else .arr (caps.map .str)

def members (v : Int) (tenantID endpointID profile : List Char) (caps : List (List Char)) (seq issuedAt : Int)
    (signerKeyID signature : List Char) : List (List Char × Json) :=
  [(ascii "v", .num (decimalInt v)), (ascii "tenant_id", .str tenantID), (ascii "endpoint_id", .str endpointID),
   (ascii "profile", .str profile), (ascii "caps", capsJson caps), (ascii "seq", .num (decimalInt seq)),
   (ascii "issued_at", .num (decimalInt issuedAt)), (ascii "signer_key_id", .str signerKeyID),
   (ascii "signature", .str signature)]

theorem encodeSpaced_capsJson (sp : Spacing) (d : ℕ) (caps : List (List Char)) :
    encodeSpaced sp d (capsJson caps) =
      if caps.map utf8 = [] then str "null" else spacedArray sp d ((caps.map utf8).map quote) := by
  by_cases hnil : caps = []
  · rw [hnil]
    rfl
  · have hquote : (caps.map utf8).map quote = (caps.map Json.str).map (encodeSpaced sp (d + 1)) := by
      rw [map_map, map_map]
      apply map_congr_left
      intro cs _
      show quote (utf8 cs) = encodeSpaced sp (d + 1) (.str cs)
      rw [quote_utf8, encodeSpaced]
    rw [capsJson, if_neg hnil, if_neg (by simpa using hnil), hquote, spacedArray_eq_encodeSpaced]

theorem marshalIndent_eq_encodeSpaced (sp : Spacing) (d : ℕ) (v : Int) (tenantID endpointID profile : List Char)
    (caps : List (List Char)) (seq issuedAt : Int) (signerKeyID signature : List Char) :
    marshalIndent sp d ⟨v, utf8 tenantID, utf8 endpointID, utf8 profile, caps.map utf8, seq, issuedAt,
        utf8 signerKeyID, utf8 signature⟩ =
      encodeSpaced sp d (.obj (members v tenantID endpointID profile caps seq issuedAt signerKeyID signature)) := by
  rw [← spacedStruct_eq_encodeSpaced]
  simp only [marshalIndent, members, map_cons, map_nil, encodeSpaced_capsJson, quote_utf8]
  rfl

theorem fits_members {k : ℕ} (v : Int) (tenantID endpointID profile : List Char) (caps : List (List Char))
    (seq issuedAt : Int) (signerKeyID signature : List Char) :
    (Json.obj (members v tenantID endpointID profile caps seq issuedAt signerKeyID signature)).Fits (k + 2) := by
  have hcaps : (capsJson caps).Fits (k + 1) := by
    unfold capsJson
    split
    · simp [Json.Fits]
    · rw [Json.Fits, elemsFit_iff]
      intro x hx
      obtain ⟨cs, -, rfl⟩ := mem_map.mp hx
      simp [Json.Fits]
  have hnumber : ∀ n : Int, (Json.num (decimalInt n)).Fits (k + 1) := by
    intro n
    exact numberText_decimalInt n
  have hstring : ∀ cs : List Char, (Json.str cs).Fits (k + 1) := by
    simp [Json.Fits]
  rw [Json.Fits, membersFit_iff]
  simp only [members, forall_mem_cons, hcaps, hnumber, hstring, true_and]
  exact forall_mem_nil _

theorem decodeSlice_capsJson (caps : List (List Char)) :
    decodeSlice decodeString [] (capsJson caps) [] = some (caps.map utf8) := by
  unfold capsJson
  split
  case isTrue hnil =>
    rw [hnil]
    rfl
  case isFalse =>
    apply decodeSlice_fresh
    rw [forall₂_map_left_iff, forall₂_map_right_iff, forall₂_same]
    exact fun _ _ => rfl

theorem decodeStruct_members {v : Int} (caps : List (List Char)) {seq issuedAt : Int}
    (hv : -2 ^ 63 ≤ v ∧ v < 2 ^ 63) (hseq : -2 ^ 63 ≤ seq ∧ seq < 2 ^ 63)
    (hissuedAt : -2 ^ 63 ≤ issuedAt ∧ issuedAt < 2 ^ 63) (tenantID endpointID profile signerKeyID signature : List Char) :
    decodeStruct fields (.obj (members v tenantID endpointID profile caps seq issuedAt signerKeyID signature)) zero =
      some ⟨v, utf8 tenantID, utf8 endpointID, utf8 profile, caps.map utf8, seq, issuedAt, utf8 signerKeyID,
        utf8 signature⟩ := by
  have hsetV : ∀ m, storeMember fields m (ascii "v", .num (decimalInt v)) = some { m with v := v } :=
    fun m => congrArg (Option.map _) (decodeInt_decimalInt hv m.v)
  have hsetTenant : ∀ m, storeMember fields m (ascii "tenant_id", .str tenantID) =
      some { m with tenantID := utf8 tenantID } := fun _ => rfl
  have hsetEndpoint : ∀ m, storeMember fields m (ascii "endpoint_id", .str endpointID) =
      some { m with endpointID := utf8 endpointID } := fun _ => rfl
  have hsetProfile : ∀ m, storeMember fields m (ascii "profile", .str profile) =
      some { m with profile := utf8 profile } := fun _ => rfl
  have hsetCaps : ∀ m, m.caps = [] → storeMember fields m (ascii "caps", capsJson caps) =
      some { m with caps := caps.map utf8 } := by
    intro m hm
    show (decodeSlice decodeString [] (capsJson caps) m.caps).map _ = _
    rw [hm, decodeSlice_capsJson]
    rfl
  have hsetSeq : ∀ m, storeMember fields m (ascii "seq", .num (decimalInt seq)) = some { m with seq := seq } :=
    fun m => congrArg (Option.map _) (decodeInt_decimalInt hseq m.seq)
  have hsetIssuedAt : ∀ m, storeMember fields m (ascii "issued_at", .num (decimalInt issuedAt)) =
      some { m with issuedAt := issuedAt } :=
    fun m => congrArg (Option.map _) (decodeInt_decimalInt hissuedAt m.issuedAt)
  have hsetSigner : ∀ m, storeMember fields m (ascii "signer_key_id", .str signerKeyID) =
      some { m with signerKeyID := utf8 signerKeyID } := fun _ => rfl
  have hsetSignature : ∀ m, storeMember fields m (ascii "signature", .str signature) =
      some { m with signature := utf8 signature } := fun _ => rfl
  show (members v tenantID endpointID profile caps seq issuedAt signerKeyID signature).foldlM
    (storeMember fields) zero = _
  simp only [members, foldlM_cons, foldlM_nil, hsetV, hsetTenant, hsetEndpoint, hsetProfile, hsetCaps,
    hsetSeq, hsetIssuedAt, hsetSigner, hsetSignature, zero, Option.bind_eq_bind, Option.bind_some]
  rfl

/-- A JSON value that stands for a manifest: written as it is, and decoded to it. -/
structure Spells (j : Json) (m : CapabilityManifest) : Prop where
  fits : ∀ k, j.Fits (k + 2)
  text : ∀ sp d, marshalIndent sp d m = encodeSpaced sp d j
  decoded : decodePtr (decodeStruct fields) zero j none = some (some m)

theorem exists_spells {m : CapabilityManifest} (h : m.WellFormed) : ∃ j, Spells j m := by
  obtain ⟨v, tenantID, endpointID, profile, caps, seq, issuedAt, signerKeyID, signature⟩ := m
  obtain ⟨hv, ⟨tenantID, rfl⟩, ⟨endpointID, rfl⟩, ⟨profile, rfl⟩, hcaps, hseq, hissuedAt, ⟨signerKeyID, rfl⟩,
    ⟨signature, rfl⟩⟩ := h
  have htexts : caps ∈ Set.range (List.map utf8) := by
    rw [Set.range_list_map]
    exact fun c hc => (hcaps c hc).imp fun cs hcs => hcs.symm
  obtain ⟨caps, rfl⟩ := htexts
  have hdecoded := decodeStruct_members caps hv hseq hissuedAt tenantID endpointID profile signerKeyID signature
  exact ⟨_, fun k => fits_members .., fun sp d => marshalIndent_eq_encodeSpaced .., congrArg (Option.map some) hdecoded⟩

end CapabilityManifest

open CapabilityManifest

/-- `json.MarshalIndent` of a list of manifests, a blank for each level. -/
def marshalManifests (ms : List CapabilityManifest) : Str :=
  spacedArray (.indent (str " ")) 0 (ms.map (marshalIndent (.indent (str " ")) 1))

/-- `json.Unmarshal` into a list of pointers to manifests. -/
def unmarshalManifests (raw : Str) : Option (List (Option CapabilityManifest)) :=
  (parse raw).bind fun v => decodeSlice (decodePtr (decodeStruct fields) zero) none v []

/-- Well-formed manifests are read back as they were written. -/
theorem unmarshal_marshalManifests {ms : List CapabilityManifest} (h : ∀ m ∈ ms, m.WellFormed) :
    unmarshalManifests (marshalManifests ms) = some (ms.map some) := by
  obtain ⟨js, hjs⟩ : ∃ js, List.Forall₂ Spells js ms := by
    induction ms with
    | nil => exact ⟨[], .nil⟩
    | cons m ms ih =>
      obtain ⟨hm, hms⟩ := forall_mem_cons.mp h
      obtain ⟨j, hj⟩ := exists_spells hm
      obtain ⟨js, hjs⟩ := ih hms
      exact ⟨j :: js, .cons hj hjs⟩
  have htexts : ms.map (marshalIndent (.indent (str " ")) 1) = js.map (encodeSpaced (.indent (str " ")) 1) := by
    clear h
    induction hjs with
    | nil => rfl
    | cons hj _ ih => rw [map_cons, map_cons, hj.text, ih]
  have hfits : (Json.arr js).Fits maxNestingDepth := by
    show Json.Fits (9999 + 1) _
    rw [Json.Fits, elemsFit_iff]
    clear h htexts
    induction hjs with
    | nil => exact forall_mem_nil _
    | cons hj _ ih => exact forall_mem_cons.mpr ⟨hj.fits 9997, ih⟩
  have hblank : Blank (str " ") := all_iff_forall_prop.mp (by decide)
  rw [unmarshalManifests, marshalManifests, htexts, spacedArray_eq_encodeSpaced,
    parse_encodeSpaced (Spacing.blank_indent hblank) hfits]
  apply decodeSlice_fresh
  rw [forall₂_map_right_iff]
  exact hjs.imp fun _ _ hj => hj.decoded

end Ominull.Response
