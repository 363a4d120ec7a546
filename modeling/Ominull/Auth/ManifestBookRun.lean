import Ominull.Auth.ManifestBook
import Ominull.Lib.Run

/-!
The capability book over whole runs: requests of the hub, changes the owner has approved, writes that
fail and restarts. The state keeps a record of what the owner approved and of what was handed out.
-/

namespace Ominull.Auth.ManifestBook

open Go Lib Response List

/-- A manifest given to the hub, and the profile the owner had last approved for its endpoint. -/
structure HandedOut where
  tenantID : Str
  endpointID : Str
  manifest : CapabilityManifest
  approved : Option Str

def HandedOut.key (h : HandedOut) : Str := bookKey h.tenantID h.endpointID

structure State where
  book : ManifestBook
  approved : Str → Option Str
  handed : List HandedOut

def State.init : State := ⟨.empty, fun _ => none, []⟩

inductive Event where
  | request (req : ManifestRequest)
  | change (au : CapabilityChange)
  /-- A restart, with what reading the book's file gives. -/
  | restart (raw : Option Str)

section

variable (C : Crypto) (stateDir : Bool)

/-- A request: what it answers is handed out. -/
def State.request (s : State) (req : ManifestRequest) : State :=
  let (answer, book) := endpointManifest C stateDir req s.book
  let approved := s.approved (bookKey req.tenantID req.endpoint)
  { s with
    book := book
    handed := s.handed ++ (answer.map fun m => ⟨req.tenantID, req.endpoint, m, approved⟩).toList }

/-- An approved change: if it is carried out, the owner has approved the profile the endpoint then has. -/
def State.change (s : State) (au : CapabilityChange) : State :=
  let (ok, book) := applyCapabilityChange C stateDir au s.book
  let key := bookKey au.tenantID au.endpoint
  { s with
    book := book
    approved := if ok then Function.update s.approved key ((book.items.find key).map (·.profile)) else s.approved }

def step (s : State) (e : Event) : Option State :=
  match e with
  | .request req => some (s.request C stateDir req)
  | .change au => some (s.change C stateDir au)
  | .restart raw =>
    (newManifestBook stateDir raw).map fun items => { s with book := { s.book with items := items } }

/-- The steps under which the book holds: a restart reads the file as it was last saved, the names are
valid UTF-8, which is what the file can spell, and no sequence number comes to its end. -/
def ReadBack (s : State) (e : Event) : Prop :=
  match e with
  | .request req => IsText req.tenantID ∧
    ∀ m ∈ s.book.items.find (bookKey req.tenantID req.endpoint), m.seq + 3 < 2 ^ 63
  | .change au => IsText au.tenantID ∧ IsText au.endpoint ∧
    ∀ m ∈ s.book.items.find (bookKey au.tenantID au.endpoint), m.seq + 1 < 2 ^ 63
  | .restart raw => raw = s.book.file ∧ (stateDir = true ∨ s.book.items.rows = [])

instance decidableReadBack (s : State) (e : Event) : Decidable (ReadBack stateDir s e) := by
  cases e <;> dsimp only [ReadBack] <;> infer_instance

end

/-- The capabilities an endpoint may have: those of the profile the owner last approved, or those of
`respond` where the owner has approved none. -/
def allowed (approved : Option Str) : List Str := capsOf (approved.getD (str "respond"))

structure State.Promises (s : State) : Prop where
  entries : ∀ k m, s.book.items.find k = some m → m.caps ⊆ allowed (s.approved k)
  within : ∀ h ∈ s.handed, h.manifest.tenantID = h.tenantID ∧ h.manifest.endpointID = h.endpointID ∧
    h.manifest.caps ⊆ allowed h.approved
  ordered : s.handed.Pairwise fun h h' => h.tenantID = h'.tenantID → h.endpointID = h'.endpointID →
    h.manifest = h'.manifest ∨ h.manifest.seq < h'.manifest.seq

section

variable {C : Crypto} {stateDir : Bool} {s t : State} {e : Event}

/-- The promises, and what they rest on: a sound book that has an entry for every endpoint the owner
approved something for, and for each manifest handed out that one or a later one. -/
structure State.Holds (stateDir : Bool) (s : State) : Prop extends s.Promises where
  sound : s.book.Sound stateDir
  seen : ∀ k, s.approved k ≠ none → s.book.items.find k ≠ none
  latest : ∀ h ∈ s.handed, ∃ m, s.book.items.find h.key = some m ∧ (h.manifest = m ∨ h.manifest.seq < m.seq)

theorem sound_empty : (ManifestBook.empty).Sound stateDir := by
  constructor
  · exact fun k m hm => by cases hm
  · exact fun _ => ⟨.empty, rfl, fun _ => rfl⟩

theorem holds_init : State.init.Holds stateDir where
  entries k m hm := by cases hm
  within := forall_mem_nil _
  ordered := List.Pairwise.nil
  sound := sound_empty
  seen k hk := absurd rfl hk
  latest := forall_mem_nil _

theorem bookKey_inj {t t' ep ep' : Str} (ht : validTenant t = true) (ht' : validTenant t' = true)
    (h : bookKey t ep = bookKey t' ep') : t = t' ∧ ep = ep' := by
  have htake : ∀ {t : Str} (ep : Str), validTenant t = true → (bookKey t ep).takeWhile (· ≠ 0) = t := by
    intro t ep ht
    simp only [validTenant, Bool.and_eq_true, all_eq_true] at ht
    rw [bookKey, takeWhile_append_of_pos fun b hb => (ht.2 b hb).2]
    simp
  have heq : t = t' := by rw [← htake ep ht, h, htake ep' ht']
  subst heq
  exact ⟨rfl, tail_eq_of_cons_eq (append_cancel_left h)⟩

theorem State.Holds.latest_of {book : ManifestBook} (h : s.Holds stateDir)
    (hlater : ∀ k m, s.book.items.find k = some m → ∃ m', book.items.find k = some m' ∧ (m' = m ∨ m.seq < m'.seq)) :
    ∀ x ∈ s.handed, ∃ m, book.items.find x.key = some m ∧ (x.manifest = m ∨ x.manifest.seq < m.seq) := by
  intro x hx
  obtain ⟨m, hm, hxm⟩ := h.latest x hx
  obtain ⟨m', hm', hmm'⟩ := hlater x.key m hm
  refine ⟨m', hm', ?_⟩
  rcases hmm' with rfl | hmm'
  · exact hxm
  · right
    rcases hxm with hxm | hxm
    · rwa [hxm]
    · omega

theorem later_of_narrowed {o o' : Option CapabilityManifest} (h : Narrowed o o') {m : CapabilityManifest}
    (hm : o = some m) : ∃ m', o' = some m' ∧ (m' = m ∨ m.seq < m'.seq) ∧ m'.caps ⊆ m.caps := by
  subst hm
  cases o' with
  | none => exact h.elim
  | some m' => exact ⟨m', rfl, h.1, h.2.2⟩

theorem State.Holds.request {req : ManifestRequest} (h : s.Holds stateDir) (hok : ReadBack stateDir s (.request req)) :
    (s.request C stateDir req).Holds stateDir := by
  rcases hr : endpointManifest C stateDir req s.book with ⟨answer, book⟩
  obtain ⟨hsound, hnarrowed, hanswer⟩ := endpointManifest_spec h.sound hok.1 hok.2 hr
  have hlater : ∀ k m, s.book.items.find k = some m → ∃ m', book.items.find k = some m' ∧ (m' = m ∨ m.seq < m'.seq) := by
    intro k m hm
    obtain ⟨m', hm', hmm', -⟩ := later_of_narrowed (hnarrowed k) hm
    exact ⟨m', hm', hmm'⟩
  have hentries : ∀ k m, book.items.find k = some m → m.caps ⊆ allowed (s.approved k) := by
    intro k m hm
    have hk := hnarrowed k
    rw [hm] at hk
    cases hold : s.book.items.find k with
    | none =>
      have hnone : s.approved k = none := by
        by_contra happroved
        exact h.seen k happroved hold
      rw [hold] at hk
      rw [hnone]
      exact hk
    | some old =>
      rw [hold] at hk
      exact List.Subset.trans hk.2.2 (h.entries k old hold)
  have hseen : ∀ k, s.approved k ≠ none → book.items.find k ≠ none := by
    intro k hk hnone
    obtain ⟨m, hm⟩ := Option.ne_none_iff_exists'.mp (h.seen k hk)
    obtain ⟨m', hm', -⟩ := hlater k m hm
    rw [hnone] at hm'
    cases hm'
  have hold := h.latest_of hlater
  have hstate : s.request C stateDir req = ⟨book, s.approved, s.handed ++ (answer.map fun m =>
      ⟨req.tenantID, req.endpoint, m, s.approved (bookKey req.tenantID req.endpoint)⟩).toList⟩ := by
    rw [State.request, hr]
  rw [hstate]
  cases answer with
  | none =>
    rw [Option.map_none, Option.toList_none, append_nil]
    exact ⟨⟨hentries, h.within, h.ordered⟩, hsound, hseen, hold⟩
  | some m =>
    obtain ⟨hvalid, hm⟩ := hanswer m rfl
    have hkey : entryKey m = bookKey req.tenantID req.endpoint := Table.key_of_find hm
    have hnames := bookKey_inj (hsound.kept _ m hm).tenant hvalid hkey
    refine ⟨⟨hentries, ?_, ?_⟩, hsound, hseen, ?_⟩
    · exact forall_mem_append.mpr ⟨h.within, forall_mem_singleton.mpr ⟨hnames.1, hnames.2, hentries _ m hm⟩⟩
    · refine pairwise_append.mpr ⟨h.ordered, pairwise_singleton _ _, fun x hx y hy => ?_⟩
      cases mem_singleton.mp hy
      intro htenant hendpoint
      obtain ⟨m', hm', hxm'⟩ := hold x hx
      rw [HandedOut.key, htenant, hendpoint, hm] at hm'
      cases hm'
      exact hxm'
    · exact forall_mem_append.mpr ⟨hold, forall_mem_singleton.mpr ⟨m, hm, .inl rfl⟩⟩

theorem State.Holds.change {au : CapabilityChange} (h : s.Holds stateDir) (hok : ReadBack stateDir s (.change au)) :
    (s.change C stateDir au).Holds stateDir := by
  rcases hr : applyCapabilityChange C stateDir au s.book with ⟨ok, book⟩
  have hchanged := applyCapabilityChange_spec h.sound hok.1 hok.2.1 hok.2.2 hr
  rw [State.change, hr]
  cases ok with
  | false =>
    have hfind := hchanged.failed rfl
    constructor
    · refine ⟨fun k m hm => h.entries k m ?_, h.within, h.ordered⟩
      rw [← hfind]
      exact hm
    · exact hchanged.sound
    · intro k hk
      rw [hfind]
      exact h.seen k hk
    · exact h.latest_of fun k m hm => ⟨m, (hfind k).trans hm, .inl rfl⟩
  | true =>
    obtain ⟨m', hm', hlater⟩ := hchanged.done rfl
    have hsame : ∀ k, bookKey au.tenantID au.endpoint ≠ k → (Function.update s.approved
        (bookKey au.tenantID au.endpoint) ((book.items.find (bookKey au.tenantID au.endpoint)).map (·.profile))) k =
        s.approved k := fun k hk => Function.update_of_ne (Ne.symm hk) _ _
    constructor
    · refine ⟨fun k m hm => ?_, h.within, h.ordered⟩
      by_cases hk : bookKey au.tenantID au.endpoint = k
      · subst hk
        show m.caps ⊆ allowed (Function.update s.approved (bookKey au.tenantID au.endpoint) _ _)
        rw [Function.update_self, hm, allowed, ← (hchanged.sound.kept _ m hm).capsOf_eq]
        exact List.Subset.refl _
      · show m.caps ⊆ allowed (Function.update s.approved (bookKey au.tenantID au.endpoint) _ k)
        rw [hsame k hk]
        exact h.entries k m ((hchanged.others k hk).symm.trans hm)
    · exact hchanged.sound
    · intro k hk
      by_cases hkey : bookKey au.tenantID au.endpoint = k
      · subst hkey
        rw [hm']
        exact Option.some_ne_none _
      · rw [hchanged.others k hkey]
        exact h.seen k (hsame k hkey ▸ hk)
    · apply h.latest_of
      intro k m hm
      by_cases hkey : bookKey au.tenantID au.endpoint = k
      · subst hkey
        exact ⟨m', hm', hlater m hm⟩
      · exact ⟨m, (hchanged.others k hkey).trans hm, .inl rfl⟩

theorem find_of_readBack {raw : Option Str} {items : Table entryKey} (h : s.book.Sound stateDir)
    (hok : ReadBack stateDir s (.restart raw)) (hread : newManifestBook stateDir raw = some items) (k : Str) :
    items.find k = s.book.items.find k := by
  obtain ⟨rfl, hok⟩ := hok
  cases stateDir with
  | true =>
    obtain ⟨T, hT, hfind⟩ := h.filed rfl
    rw [hT] at hread
    cases hread
    exact hfind k
  | false =>
    have hrows := hok.resolve_left Bool.false_ne_true
    cases hread
    rw [Table.find, Table.find, hrows]
    rfl

theorem State.Holds.restart {raw : Option Str} {items : Table entryKey} (h : s.Holds stateDir)
    (hok : ReadBack stateDir s (.restart raw)) (hread : newManifestBook stateDir raw = some items) :
    ({ s with book := { s.book with items := items } } : State).Holds stateDir := by
  have hfind := find_of_readBack h.sound hok hread
  constructor
  · refine ⟨fun k m hm => h.entries k m ?_, h.within, h.ordered⟩
    rw [← hfind]
    exact hm
  · refine ⟨fun k m hm => h.sound.kept k m ((hfind k).symm.trans hm), fun hdir => ?_⟩
    obtain ⟨T, hT, hT'⟩ := h.sound.filed hdir
    exact ⟨T, hT, fun k => (hT' k).trans (hfind k).symm⟩
  · intro k hk
    rw [hfind]
    exact h.seen k hk
  · exact h.latest_of fun k m hm => ⟨m, (hfind k).trans hm, .inl rfl⟩

theorem State.Holds.step (h : s.Holds stateDir) (hok : ReadBack stateDir s e) (hst : step C stateDir s e = some t) :
    t.Holds stateDir := by
  cases e with
  | request req =>
    cases hst
    exact h.request hok
  | change au =>
    cases hst
    exact h.change hok
  | restart raw =>
    obtain ⟨items, hread, rfl⟩ := Option.map_eq_some_iff.mp hst
    exact h.restart hok hread

/-- In every run in which each restart reads back the file as it was last saved, a request of the hub alone only
narrows the entries, nothing goes beyond what the owner last approved, the sequence numbers of an endpoint rise,
and a call that fails leaves every entry as it was. -/
theorem book_only_narrows (C : Crypto) (stateDir : Bool) {s : State}
    (h : Run (Guarded (ReadBack stateDir) (StepOf (ManifestBook.step C stateDir))) State.init s) :
    s.Promises ∧
    (∀ req t, ReadBack stateDir s (.request req) → ManifestBook.step C stateDir s (.request req) = some t →
      ∀ k, Narrowed (s.book.items.find k) (t.book.items.find k)) ∧
    (∀ tenantID ep profile seq w b', signManifestLocked C stateDir tenantID ep profile seq w s.book = (none, b') →
      ∀ k, b'.items.find k = s.book.items.find k) ∧
    ∀ au b', ReadBack stateDir s (.change au) → applyCapabilityChange C stateDir au s.book = (false, b') →
      ∀ k, b'.items.find k = s.book.items.find k := by
  have hholds : s.Holds stateDir := h.preserves (fun s e t hs hst => hs.step hst.1 hst.2) holds_init
  refine ⟨hholds.toPromises, fun req t hok hst => ?_, fun tenantID ep profile seq w b' hsign => ?_,
    fun au b' hok hchange => ?_⟩
  · cases hst
    exact (endpointManifest_spec hholds.sound hok.1 hok.2 rfl).2.1
  · rcases sign_cases hsign with ⟨m, hm, -⟩ | ⟨-, hsame⟩
    · cases hm
    · exact hsame.find
  · exact (applyCapabilityChange_spec hholds.sound hok.1 hok.2.1 hok.2.2 hchange).failed rfl

end

/-! ## Runs -/

def sampleSigning : Signing := ⟨some (str "policy"), 100, true⟩

def sampleRequest : Event :=
  .request ⟨str "t1", str "host", [], some (str "policy"), sampleSigning, sampleSigning, sampleSigning, sampleSigning⟩

def sampleChange : Event :=
  .change ⟨str "t1", [str "host"], some (str "/api/v1/endpoints/capabilities", some ⟨str "host", str "monitor"⟩),
    sampleSigning⟩

def sampleStep : State → Event → Option State := ManifestBook.step Crypto.sample true

def sampleFile : Str :=
  marshalManifests [CapabilityManifest.sign Crypto.sample (str "policy")
    ⟨1, str "t1", str "host", str "monitor", [capUpdate], 1, 100, [], []⟩]

/-- The profile and the number of each manifest handed out, and whether it is within what was approved. -/
def State.summary (s : State) : List (Str × Int × Bool) :=
  s.handed.map fun h => (h.manifest.profile, h.manifest.seq, decide (h.manifest.caps ⊆ allowed h.approved))

/-- A host that is monitor-only stays so after a restart that reads the file back. -/
theorem book_only_narrows_monitor :
    ∃ s, Run (Guarded (ReadBack true) (StepOf sampleStep)) State.init s ∧
      s.summary = [(str "monitor", 1, true), (str "monitor", 1, true)] ∧ s.Promises := by
  refine exists_run [sampleChange, sampleRequest, .restart (some sampleFile), sampleRequest]
    (fun s => s.summary = [(str "monitor", 1, true), (str "monitor", 1, true)]) (by decide +kernel) (by decide +kernel)
    fun s hrun hsummary => ⟨hsummary, (book_only_narrows Crypto.sample true hrun).1⟩

/-- After a restart at which the file cannot be read, the hub alone gets `respond` for the host, under a
sequence number that was used before. -/
theorem unreadable_book_forgets :
    ((runList sampleStep State.init [sampleChange, sampleRequest, .restart none, sampleRequest]).map State.summary) =
      some [(str "monitor", 1, true), (str "respond", 1, false)] := by
  decide +kernel

end Ominull.Auth.ManifestBook
