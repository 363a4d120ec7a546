import Ominull.Response.ManifestFile

/-!
The authority's book of capability manifests: what it answers the hub on its own, how an approved
change is written down, and the file the book is kept in.
-/

namespace Ominull.Auth

open Go Lib Response

/-- One line of plain words: control, space and format characters become blanks, and runs of blanks one. -/
def cleanText (s : Str) (max : ℕ) : Str :=
  let blanked := (runes s).map fun r =>
    if isControlRune r.char || isSpaceRune r.char || isFormatRune r.char then ' ' else r.char
  let words := (blanked.splitOn ' ').filter (· ≠ [])
  utf8 (([' '].intercalate words).take max)

theorem isText_cleanText (s : Str) (max : ℕ) : IsText (cleanText s max) := ⟨_, rfl⟩

def validTenant (t : Str) : Bool := t ≠ [] && t.all fun b => b ≠ 0x23 && b ≠ 0x2f && b ≠ 0x5c && b ≠ 0

def bookKey (tenantID endpointID : Str) : Str := tenantID ++ 0 :: endpointID

def entryKey (m : CapabilityManifest) : Str := bookKey m.tenantID m.endpointID

/-- `manifestBook`, and its file as it was last saved. -/
structure ManifestBook where
  items : Table entryKey
  file : Option Str

namespace ManifestBook

def empty : ManifestBook := ⟨.empty, none⟩

/-- The order of the file: by tenant and endpoint, put together. -/
def sortRows (l : List CapabilityManifest) : List CapabilityManifest :=
  l.insertionSort fun a b => ¬b.tenantID ++ b.endpointID < a.tenantID ++ a.endpointID

/-- `saveLocked`: without a state directory nothing is written, and a write may fail. -/
def saveLocked (stateDir writes : Bool) (b : ManifestBook) : Option ManifestBook :=
  if !stateDir then some b
  else if writes then some { b with file := some (marshalManifests (sortRows b.items.rows)) }
  else none

/-- `newManifestBook` on what reading the file gives; a file that cannot be read or parsed is an
empty book. `none` where the authority does not come up: a `null` in the list is a nil pointer. -/
def newManifestBook (stateDir : Bool) (raw : Option Str) : Option (Table entryKey) :=
  if !stateDir then some .empty
  else
    match raw.bind unmarshalManifests with
    | none => some .empty
    | some list => (list.mapM id).map fun ms => ms.foldl Table.upsert .empty

end ManifestBook

/-- What signing one manifest meets: the tenant's policy key, the clock, and whether the file is written. -/
structure Signing where
  key : Option Str
  now : Int
  writes : Bool

def slotKey (tenantID : Str) (key : Option Str) : Option Str := if validTenant tenantID then key else none

section

variable (C : Crypto) (stateDir : Bool)

def policyKeyID (key : Str) : Str := hexEncode (C.sha256 (C.publicKey key))

/-- `signManifestLocked`: the manifest, or `none` for an error, and the book afterwards. -/
def signManifestLocked (tenantID ep profile : Str) (seq : Int) (w : Signing) (b : ManifestBook) :
    Option CapabilityManifest × ManifestBook :=
  match profileCaps profile, slotKey tenantID w.key with
  | some caps, some priv =>
    let m := CapabilityManifest.sign C priv ⟨1, tenantID, ep, profile, caps, seq, wrap64 w.now, [], []⟩
    let prev := b.items.find (bookKey tenantID ep)
    match ManifestBook.saveLocked stateDir w.writes { b with items := b.items.upsert m } with
    | some b' => (some m, b')
    | none =>
      -- the entry is put back
      let items := b.items.upsert m
      match prev with
      | none => (none, { b with items := items.filter fun r => entryKey r ≠ bookKey tenantID ep })
      | some p => (none, { b with items := items.upsert p })
  | _, _ => (none, b)

/-- `ManifestRequest`, with what the calls it makes meet. -/
structure ManifestRequest where
  tenantID : Str
  endpointID : Str
  profile : Str
  policyKey : Option Str
  resign : Signing
  refresh : Signing
  narrow : Signing
  initial : Signing

def profileInitialAllowed (profile : Str) : Bool := profile = str "monitor" || profile = str "respond"

/-- Goes on with the manifest of the last step, if it gave one. -/
def andThen (r : Option CapabilityManifest × ManifestBook)
    (f : CapabilityManifest → ManifestBook → Option CapabilityManifest × ManifestBook) :
    Option CapabilityManifest × ManifestBook :=
  match r with
  | (some m, b) => f m b
  | (none, b) => (none, b)

/-- The next manifest of an endpoint where one is due, else the one it has. -/
def renew (due : Bool) (tenantID ep profile : Str) (w : Signing) (m : CapabilityManifest) (b : ManifestBook) :
    Option CapabilityManifest × ManifestBook :=
  if due then signManifestLocked C stateDir tenantID ep profile (wrap64 (m.seq + 1)) w b else (some m, b)

def retired (req : ManifestRequest) (m : CapabilityManifest) : Bool :=
  match slotKey req.tenantID req.policyKey with
  | some key => m.signerKeyID ≠ policyKeyID C key
  | none => false

def outdated (m : CapabilityManifest) : Bool := (profileCaps m.profile).isSome && !m.matchesProfile

def ManifestRequest.endpoint (req : ManifestRequest) : Str := trimSpace req.endpointID

def ManifestRequest.valid (req : ManifestRequest) : Bool :=
  validTenant req.tenantID && req.endpoint ≠ [] && req.endpoint.length ≤ 128 &&
    cleanText req.endpoint 128 = req.endpoint && !(str "mesh:").isPrefixOf req.endpoint

/-- `EndpointManifest`: the answer, or `none` for an error, and the book afterwards. -/
def endpointManifest (req : ManifestRequest) (b : ManifestBook) : Option CapabilityManifest × ManifestBook :=
  if !req.valid then (none, b)
  else
    match b.items.find (bookKey req.tenantID req.endpoint) with
    | some m =>
      andThen (renew C stateDir (retired C req m) req.tenantID req.endpoint m.profile req.resign m b) fun m b =>
        andThen (renew C stateDir (outdated m) req.tenantID req.endpoint m.profile req.refresh m b) fun m b =>
          renew C stateDir (req.profile ≠ [] && profileNarrows m.profile req.profile) req.tenantID req.endpoint
            req.profile req.narrow m b
    | none =>
      let profile := if req.profile = [] then str "respond" else req.profile
      if profileInitialAllowed profile then
        signManifestLocked C stateDir req.tenantID req.endpoint profile 1 req.initial b
      else (none, b)

structure CapabilityPayload where
  endpointID : Str
  profile : Str

/-- An authorized action that changes a manifest: its payload as `decodeJSON` reads it, route and body. -/
structure CapabilityChange where
  tenantID : Str
  targets : List Str
  payload : Option (Str × Option CapabilityPayload)
  signing : Signing

def nextSeq (cur : Option CapabilityManifest) : Int :=
  match cur with
  | some m => wrap64 (m.seq + 1)
  | none => 1

def allowIsolationRoute : Str := str "/api/v1/endpoints/allow-isolation"

/-- `applyCapabilityChange`: whether it succeeded, and the book afterwards. -/
def applyCapabilityChange (au : CapabilityChange) (b : ManifestBook) : Bool × ManifestBook :=
  match au.payload with
  | some (route, some body) =>
    if au.targets ≠ [body.endpointID] then (false, b)
    else
      let cur := b.items.find (bookKey au.tenantID body.endpointID)
      if route = allowIsolationRoute && cur.any (fun m => profileHas m.profile capIsolate) then (true, b)
      else
        let profile := if route = allowIsolationRoute then str "respond" else body.profile
        let (m, b') := signManifestLocked C stateDir au.tenantID body.endpointID profile (nextSeq cur) au.signing b
        (m.isSome, b')
  | _ => (false, b)

end

/-! ## What signing does to the book -/

section

variable {C : Crypto} {stateDir : Bool} {tenantID ep profile : Str} {seq : Int} {w : Signing} {b b' : ManifestBook}
  {m : CapabilityManifest} {r : Option CapabilityManifest}

structure Written (stateDir : Bool) (tenantID ep profile : Str) (seq : Int) (b : ManifestBook) (m : CapabilityManifest)
    (b' : ManifestBook) : Prop where
  tenant : validTenant tenantID = true
  content : ∃ caps now signer signature, profileTable profile = some caps ∧
    m = ⟨1, tenantID, ep, profile, caps, seq, wrap64 now, hexEncode signer, hexEncode signature⟩
  items : b'.items = b.items.upsert m
  file : stateDir = true → b'.file = some (marshalManifests (ManifestBook.sortRows b'.items.rows))

theorem Written.key (h : Written stateDir tenantID ep profile seq b m b') : entryKey m = bookKey tenantID ep := by
  obtain ⟨caps, now, signer, signature, -, rfl⟩ := h.content
  rfl

theorem Written.profile_eq (h : Written stateDir tenantID ep profile seq b m b') : m.profile = profile := by
  obtain ⟨caps, now, signer, signature, -, rfl⟩ := h.content
  rfl

theorem Written.seq_eq (h : Written stateDir tenantID ep profile seq b m b') : m.seq = seq := by
  obtain ⟨caps, now, signer, signature, -, rfl⟩ := h.content
  rfl

theorem Written.find (h : Written stateDir tenantID ep profile seq b m b') (k : Str) :
    b'.items.find k = if bookKey tenantID ep = k then some m else b.items.find k := by
  rw [h.items, Table.find_upsert, h.key]

structure Unchanged (b b' : ManifestBook) : Prop where
  find : ∀ k, b'.items.find k = b.items.find k
  file : b'.file = b.file

theorem saved_of_saveLocked {writes : Bool} (h : b.saveLocked stateDir writes = some b') :
    b'.items = b.items ∧ (stateDir = true → b'.file = some (marshalManifests (ManifestBook.sortRows b'.items.rows))) := by
  unfold ManifestBook.saveLocked at h
  split at h
  case isTrue hdir =>
    cases h
    exact ⟨rfl, fun hyes => by simp [hyes] at hdir⟩
  case isFalse =>
    split at h
    · cases h
      exact ⟨rfl, fun _ => rfl⟩
    · cases h

/-- Signing writes the manifest down, or leaves every entry and the file as they were. -/
theorem sign_cases (h : signManifestLocked C stateDir tenantID ep profile seq w b = (r, b')) :
    (∃ m, r = some m ∧ Written stateDir tenantID ep profile seq b m b') ∨ (r = none ∧ Unchanged b b') := by
  unfold signManifestLocked at h
  split at h
  case h_2 =>
    cases h
    exact .inr ⟨rfl, fun _ => rfl, rfl⟩
  case h_1 caps priv hcaps hkey =>
    rw [profileCaps_eq] at hcaps
    have htenant : validTenant tenantID = true := by
      unfold slotKey at hkey
      split at hkey
      · assumption
      · cases hkey
    dsimp only at h
    split at h
    case h_1 saved hsave =>
      cases h
      refine .inl ⟨_, rfl, htenant, ⟨caps, w.now, _, _, hcaps, rfl⟩, ?_, ?_⟩
      · exact (saved_of_saveLocked hsave).1
      · exact fun hdir => (saved_of_saveLocked hsave).2 hdir
    case h_2 =>
      -- the write failed: the entry that was there is put back, or the new one taken out
      right
      split at h
      case h_1 hprev =>
        cases h
        exact ⟨rfl, Table.find_upsert_filter hprev, rfl⟩
      case h_2 p hprev =>
        cases h
        exact ⟨rfl, Table.find_upsert_upsert hprev, rfl⟩

/-! ## What holds of every entry -/

/-- An entry as the authority writes them: it names a valid tenant and holds what its profile holds. -/
structure Kept (m : CapabilityManifest) : Prop where
  wellFormed : m.WellFormed
  tenant : validTenant m.tenantID = true
  caps : profileTable m.profile = some m.caps
  seq : 0 < m.seq

/-- A book with such entries whose file, if there is one, holds the book. -/
structure ManifestBook.Sound (stateDir : Bool) (b : ManifestBook) : Prop where
  kept : ∀ k m, b.items.find k = some m → Kept m
  filed : stateDir = true → ∃ T, newManifestBook true b.file = some T ∧ ∀ k, T.find k = b.items.find k

theorem isText_of_profileTable {caps : List Str} (h : profileTable profile = some caps) :
    IsText profile ∧ ∀ c ∈ caps, IsText c := by
  unfold profileTable at h
  split_ifs at h with h1 h2 h3 h4
  all_goals
    cases h
    subst profile
    exact ⟨by decide +kernel, List.all_iff_forall_prop.mp (by decide +kernel)⟩

theorem Written.kept (h : Written stateDir tenantID ep profile seq b m b') (htenant : IsText tenantID)
    (hep : IsText ep) (hpos : 0 < seq) (hseq : seq < 2 ^ 63) : Kept m := by
  obtain ⟨caps, now, signer, signature, hcaps, rfl⟩ := h.content
  obtain ⟨hprofile, htexts⟩ := isText_of_profileTable hcaps
  have hwell : CapabilityManifest.WellFormed
      ⟨1, tenantID, ep, profile, caps, seq, wrap64 now, hexEncode signer, hexEncode signature⟩ :=
    ⟨by dsimp only; omega, htenant, hep, hprofile, htexts, by dsimp only; omega, wrap64_bounds now, isText_hexEncode _,
      isText_hexEncode _⟩
  exact ⟨hwell, h.tenant, hcaps, hpos⟩

theorem newManifestBook_marshal {T : Table entryKey} (h : ∀ m ∈ T.rows, m.WellFormed) :
    ∃ T', ManifestBook.newManifestBook true (some (marshalManifests (ManifestBook.sortRows T.rows))) = some T' ∧
      ∀ k, T'.find k = T.find k := by
  have hperm : (ManifestBook.sortRows T.rows).Perm T.rows := List.perm_insertionSort _ _
  have hwell : ∀ m ∈ ManifestBook.sortRows T.rows, m.WellFormed := fun m hm => h m (hperm.mem_iff.mp hm)
  have hread := unmarshal_marshalManifests hwell
  have hpointers : ∀ l : List CapabilityManifest, (l.map some).mapM id = some l := by
    intro l
    induction l with
    | nil => rfl
    | cons m l ih =>
      rw [List.map_cons, List.mapM_cons, ih]
      rfl
  refine ⟨_, ?_, Table.find_foldl_upsert_rows hperm⟩
  rw [ManifestBook.newManifestBook, if_neg (by decide), Option.bind_some, hread]
  dsimp only
  rw [hpointers, Option.map_some]

theorem Written.sound (h : Written stateDir tenantID ep profile seq b m b') (hb : b.Sound stateDir) (hm : Kept m) :
    b'.Sound stateDir := by
  have hkept : ∀ k x, b'.items.find k = some x → Kept x := by
    intro k x hx
    rw [h.find] at hx
    split at hx
    · cases hx
      exact hm
    · exact hb.kept k x hx
  refine ⟨hkept, fun hdir => ?_⟩
  rw [h.file hdir]
  exact newManifestBook_marshal fun x hx => (hkept _ x (Table.find_of_mem hx)).wellFormed

theorem Unchanged.sound (h : Unchanged b b') (hb : b.Sound stateDir) : b'.Sound stateDir := by
  refine ⟨fun k m hm => hb.kept k m (h.find k ▸ hm), fun hdir => ?_⟩
  obtain ⟨T, hT, hfind⟩ := hb.filed hdir
  exact ⟨T, h.file.symm ▸ hT, fun k => (hfind k).trans (h.find k).symm⟩

theorem Kept.capsOf_eq (h : Kept m) : capsOf m.profile = m.caps := by
  rw [capsOf, h.caps]
  rfl

/-! ## What a request does to the book -/

/-- What the hub alone makes of an entry: a first one that holds at most what `respond` holds, and then
later ones of the same profile or a narrower one. -/
def Narrowed : Option CapabilityManifest → Option CapabilityManifest → Prop
  | none, none => True
  | none, some m' => m'.caps ⊆ capsOf (str "respond")
  | some _, none => False
  | some m, some m' => (m' = m ∨ m.seq < m'.seq) ∧
    (m'.profile = m.profile ∨ profileNarrows m.profile m'.profile = true) ∧ m'.caps ⊆ m.caps

/-- One or more steps of a request on the entry `m` of an endpoint: its sequence number goes up by at
most `n`, and its profile becomes one that is `fit`. -/
structure Renewed (stateDir : Bool) (key : Str) (n : Int) (fit : Str → Prop) (b : ManifestBook) (m : CapabilityManifest)
    (r : Option CapabilityManifest × ManifestBook) : Prop where
  others : ∀ k, key ≠ k → r.2.items.find k = b.items.find k
  entry : ∃ m', r.2.items.find key = some m' ∧ (m' = m ∨ m.seq < m'.seq) ∧ m'.seq ≤ m.seq + n ∧ fit m'.profile ∧
    ∀ a, r.1 = some a → a = m'
  sound : r.2.Sound stateDir

theorem renewed_renew {due : Bool} {fit : Str → Prop} (hb : b.Sound stateDir)
    (hm : b.items.find (bookKey tenantID ep) = some m) (htenant : IsText tenantID) (hep : IsText ep)
    (hseq : m.seq + 1 < 2 ^ 63) (hfit : fit m.profile) (hdue : due = true → fit profile) :
    Renewed stateDir (bookKey tenantID ep) 1 fit b m (renew C stateDir due tenantID ep profile w m b) := by
  have hpos := (hb.kept _ _ hm).seq
  have hsame : ∀ b', Unchanged b b' → ∀ r, (∀ a, r = some a → a = m) →
      Renewed stateDir (bookKey tenantID ep) 1 fit b m (r, b') := by
    intro b' hb' r hr
    exact ⟨fun k _ => hb'.find k, ⟨m, (hb'.find _).trans hm, .inl rfl, by omega, hfit, hr⟩, hb'.sound hb⟩
  unfold renew
  split
  case isFalse => exact hsame b ⟨fun _ => rfl, rfl⟩ _ fun a ha => (Option.some.inj ha).symm
  case isTrue hyes =>
    rw [wrap64_eq (by omega) hseq]
    rcases hr : signManifestLocked C stateDir tenantID ep profile (m.seq + 1) w b with ⟨r, b'⟩
    rcases sign_cases hr with ⟨m', rfl, hwritten⟩ | ⟨rfl, hunchanged⟩
    · have hkept := hwritten.kept htenant hep (by omega) hseq
      have hnext := hwritten.seq_eq
      refine ⟨fun k hk => ?_, ⟨m', ?_, .inr (by omega), by omega, ?_, ?_⟩, hwritten.sound hb hkept⟩
      · rw [hwritten.find, if_neg hk]
      · rw [hwritten.find, if_pos rfl]
      · exact hwritten.profile_eq.symm ▸ hdue hyes
      · exact fun a ha => (Option.some.inj ha).symm
    · exact hsame b' hunchanged none fun a ha => by cases ha

theorem Renewed.andThen {key : Str} {n n' : Int} {fit : Str → Prop}
    {r : Option CapabilityManifest × ManifestBook}
    {f : CapabilityManifest → ManifestBook → Option CapabilityManifest × ManifestBook} (hn : 0 ≤ n') (hfit : fit m.profile)
    (h : Renewed stateDir key n (· = m.profile) b m r)
    (hf : ∀ m' b', b'.Sound stateDir → b'.items.find key = some m' → m'.profile = m.profile → m'.seq ≤ m.seq + n →
      Renewed stateDir key n' fit b' m' (f m' b')) :
    Renewed stateDir key (n + n') fit b m (andThen r f) := by
  obtain ⟨m', hm', hlater, hbound, hprofile, hanswer⟩ := h.entry
  obtain ⟨a, b'⟩ := r
  cases a with
  | none => exact ⟨h.others, ⟨m', hm', hlater, by omega, hprofile ▸ hfit, fun a ha => by cases ha⟩, h.sound⟩
  | some a =>
    obtain rfl := hanswer a rfl
    have hnext := hf a b' h.sound hm' hprofile hbound
    obtain ⟨m'', hm'', hlater', hbound', hfit', hanswer'⟩ := hnext.entry
    refine ⟨fun k hk => (hnext.others k hk).trans (h.others k hk), ⟨m'', hm'', ?_, by omega, hfit', hanswer'⟩,
      hnext.sound⟩
    rcases hlater' with rfl | hlater'
    · exact hlater
    · right
      rcases hlater with rfl | hlater
      · exact hlater'
      · omega

theorem Renewed.narrowed {key : Str} {n : Int} {r : Option CapabilityManifest × ManifestBook}
    (h : Renewed stateDir key n (fun p => p = m.profile ∨ profileNarrows m.profile p = true) b m r) (hb : b.Sound stateDir)
    (hm : b.items.find key = some m) (k : Str) : Narrowed (b.items.find k) (r.2.items.find k) := by
  have hrefl : ∀ o, Narrowed o o := by
    intro o
    cases o with
    | none => trivial
    | some m => exact ⟨.inl rfl, .inl rfl, List.Subset.refl _⟩
  by_cases hk : key = k
  · subst hk
    obtain ⟨m', hm', hlater, -, hfit, -⟩ := h.entry
    rw [hm, hm']
    refine ⟨hlater, hfit, ?_⟩
    rw [← (hb.kept _ _ hm).capsOf_eq, ← (h.sound.kept _ _ hm').capsOf_eq]
    rcases hfit with hfit | hfit
    · rw [hfit]
      exact List.Subset.refl _
    · exact capsOf_subset_of_narrows hfit
  · rw [h.others k hk]
    exact hrefl _

theorem capsOf_of_profileInitialAllowed (h : profileInitialAllowed profile = true) :
    capsOf profile ⊆ capsOf (str "respond") := by
  simp only [profileInitialAllowed, Bool.or_eq_true, decide_eq_true_eq] at h
  rcases h with rfl | rfl
  · decide
  · exact List.Subset.refl _

/-- A request narrows the book, and answers with the entry of its endpoint. -/
theorem endpointManifest_spec {req : ManifestRequest} (hb : b.Sound stateDir) (htenant : IsText req.tenantID)
    (hseq : ∀ m ∈ b.items.find (bookKey req.tenantID req.endpoint), m.seq + 3 < 2 ^ 63)
    (h : endpointManifest C stateDir req b = (r, b')) :
    b'.Sound stateDir ∧ (∀ k, Narrowed (b.items.find k) (b'.items.find k)) ∧
      ∀ m, r = some m → validTenant req.tenantID = true ∧ b'.items.find (bookKey req.tenantID req.endpoint) = some m := by
  have hunchanged : ∀ b', Unchanged b b' → (∀ k, Narrowed (b.items.find k) (b'.items.find k)) := by
    intro b' hb' k
    rw [hb'.find]
    cases b.items.find k with
    | none => trivial
    | some m => exact ⟨.inl rfl, .inl rfl, List.Subset.refl _⟩
  unfold endpointManifest at h
  split at h
  case isTrue =>
    cases h
    exact ⟨hb, hunchanged b ⟨fun _ => rfl, rfl⟩, fun m hm => by cases hm⟩
  case isFalse hvalid =>
    simp only [ManifestRequest.valid, Bool.not_eq_true, Bool.not_eq_false', Bool.and_eq_true, decide_eq_true_eq] at hvalid
    obtain ⟨⟨⟨⟨hvalid, -⟩, -⟩, hclean⟩, -⟩ := hvalid
    have hep : IsText req.endpoint := hclean ▸ isText_cleanText _ _
    split at h
    case h_1 m hm =>
      have hbound := hseq m hm
      have hall : Renewed stateDir (bookKey req.tenantID req.endpoint) (1 + (1 + 1))
          (fun p => p = m.profile ∨ profileNarrows m.profile p = true) b m (r, b') := by
        rw [← h]
        apply Renewed.andThen (by omega) (.inl rfl)
        · exact renewed_renew hb hm htenant hep (by omega) rfl fun _ => rfl
        intro m₁ b₁ hb₁ hm₁ hprofile₁ hseq₁
        rw [← hprofile₁]
        apply Renewed.andThen (by omega) (.inl rfl)
        · exact renewed_renew hb₁ hm₁ htenant hep (by omega) rfl fun _ => rfl
        intro m₂ b₂ hb₂ hm₂ hprofile₂ hseq₂
        apply renewed_renew hb₂ hm₂ htenant hep (by omega) (.inl hprofile₂)
        intro hdue
        rw [Bool.and_eq_true, hprofile₂] at hdue
        exact .inr hdue.2
      refine ⟨hall.sound, hall.narrowed hb hm, fun a ha => ⟨hvalid, ?_⟩⟩
      obtain ⟨m', hm', -, -, -, hanswer⟩ := hall.entry
      rw [hanswer a ha]
      exact hm'
    case h_2 hnone =>
      dsimp only at h
      generalize (if req.profile = [] then str "respond" else req.profile) = first at h
      split at h
      case isFalse =>
        cases h
        exact ⟨hb, hunchanged b ⟨fun _ => rfl, rfl⟩, fun m hm => by cases hm⟩
      case isTrue hallowed =>
        rcases sign_cases h with ⟨m, rfl, hwritten⟩ | ⟨rfl, hsame⟩
        · have hkept := hwritten.kept htenant hep (by omega) (by omega)
          refine ⟨hwritten.sound hb hkept, fun k => ?_, fun a ha => ⟨hvalid, ?_⟩⟩
          · rw [hwritten.find]
            split
            case isTrue hk =>
              subst hk
              rw [hnone]
              show m.caps ⊆ _
              rw [← hkept.capsOf_eq, hwritten.profile_eq]
              exact capsOf_of_profileInitialAllowed hallowed
            case isFalse => exact hunchanged b ⟨fun _ => rfl, rfl⟩ k
          · cases ha
            rw [hwritten.find, if_pos rfl]
        · exact ⟨hsame.sound hb, hunchanged b' hsame, fun m hm => by cases hm⟩

def CapabilityChange.endpoint (au : CapabilityChange) : Str := au.targets.headD []

/-- A change that is carried out gives its endpoint a later manifest or leaves the one it has; one that
fails leaves every entry as it was. -/
structure Changed (stateDir : Bool) (key : Str) (b : ManifestBook) (ok : Bool) (b' : ManifestBook) : Prop where
  sound : b'.Sound stateDir
  others : ∀ k, key ≠ k → b'.items.find k = b.items.find k
  failed : ok = false → ∀ k, b'.items.find k = b.items.find k
  done : ok = true → ∃ m', b'.items.find key = some m' ∧ ∀ m ∈ b.items.find key, m' = m ∨ m.seq < m'.seq

theorem Unchanged.changed (h : Unchanged b b') (hb : b.Sound stateDir) (key : Str) :
    Changed stateDir key b false b' where
  sound := h.sound hb
  others k _ := h.find k
  failed _ := h.find
  done hok := by cases hok

theorem nextSeq_bounds {cur : Option CapabilityManifest} (h : ∀ m ∈ cur, 0 < m.seq ∧ m.seq + 1 < 2 ^ 63) :
    0 < nextSeq cur ∧ nextSeq cur < 2 ^ 63 ∧ ∀ m ∈ cur, m.seq < nextSeq cur := by
  cases cur with
  | none => exact ⟨by decide, by decide, fun m hm => by cases hm⟩
  | some m =>
    obtain ⟨hpos, hbound⟩ := h m rfl
    have hnext : nextSeq (some m) = m.seq + 1 := wrap64_eq (by omega) hbound
    rw [hnext]
    refine ⟨by omega, hbound, fun x hx => ?_⟩
    cases hx
    omega

theorem applyCapabilityChange_spec {au : CapabilityChange} {ok : Bool} (hb : b.Sound stateDir)
    (htenant : IsText au.tenantID) (hep : IsText au.endpoint)
    (hseq : ∀ m ∈ b.items.find (bookKey au.tenantID au.endpoint), m.seq + 1 < 2 ^ 63)
    (h : applyCapabilityChange C stateDir au b = (ok, b')) :
    Changed stateDir (bookKey au.tenantID au.endpoint) b ok b' := by
  have hsame : Unchanged b b := ⟨fun _ => rfl, rfl⟩
  unfold applyCapabilityChange at h
  split at h
  case h_2 =>
    cases h
    exact hsame.changed hb _
  case h_1 route body hpayload =>
    split at h
    case isTrue =>
      cases h
      exact hsame.changed hb _
    case isFalse htargets =>
      have hendpoint : au.endpoint = body.endpointID := by
        rw [CapabilityChange.endpoint, not_not.mp htargets]
        rfl
      rw [hendpoint] at hep hseq ⊢
      dsimp only at h
      split at h
      case isTrue hroute =>
        -- the endpoint may be isolated already
        cases h
        obtain ⟨-, hany⟩ := Bool.and_eq_true_iff.mp hroute
        obtain ⟨m, hm, -⟩ := (Option.any_eq_true _ _).mp hany
        constructor
        · exact hb
        · exact fun _ _ => rfl
        · exact nofun
        · exact fun _ => ⟨m, hm, fun x hx => .inl (Option.mem_unique hm hx)⟩
      case isFalse =>
        generalize (if route = allowIsolationRoute then str "respond" else body.profile) = profile at h
        rcases hr : signManifestLocked C stateDir au.tenantID body.endpointID profile
          (nextSeq (b.items.find (bookKey au.tenantID body.endpointID))) au.signing b with ⟨r, b₁⟩
        rw [hr] at h
        cases h
        rcases sign_cases hr with ⟨m', rfl, hwritten⟩ | ⟨rfl, hunchanged⟩
        · obtain ⟨hpos, hbound, hlater⟩ := nextSeq_bounds fun m hm => ⟨(hb.kept _ m hm).seq, hseq m hm⟩
          constructor
          · exact hwritten.sound hb (hwritten.kept htenant hep hpos hbound)
          · intro k hk
            rw [hwritten.find, if_neg hk]
          · exact nofun
          · refine fun _ => ⟨m', by rw [hwritten.find, if_pos rfl], fun m hm => .inr ?_⟩
            rw [hwritten.seq_eq]
            exact hlater m hm
        · exact hunchanged.changed hb _

end

end Ominull.Auth
