import Ominull.Lib.Run
import Ominull.Response.Types

/-!
Vulnerability feed snapshots: a catalogue is built off to the side, under its snapshot's id, and
copied into the live table when the snapshot is activated.
-/

namespace Ominull.Vuln

open Lib Response

abbrev Float64 := UInt64

structure Vulnerability where
  cveID : Str
  title : Str
  description : Str
  severity : Str
  cvss : Float64
  isKEV : Bool
  epss : Float64
  cpePattern : Str
  publishedAt : Time
  deriving DecidableEq

structure CISAKEVItem where
  cveID : Str
  vendorProject : Str
  product : Str
  vulnerabilityName : Str
  dateAdded : Str
  shortDescription : Str
  requiredAction : Str
  dueDate : Str
  knownRansomwareCampaignUse : Str
  deriving DecidableEq

inductive SnapshotStatus where
  | building
  | active
  | superseded
  | failed
  deriving DecidableEq

structure FeedSnapshot where
  id : Str
  createdAt : Time
  activatedAt : Option Time := none
  status : SnapshotStatus := .building
  nvdCount : ℕ := 0
  cisaKEVCount : ℕ := 0
  epssCount : ℕ := 0
  sourceMetadata : Str
  errorMessage : Str := []
  deriving DecidableEq

structure InSnapshot (α : Type) where
  snapshotID : Str
  item : α
  deriving DecidableEq

structure Store where
  snapshots : Table FeedSnapshot.id
  snapshotVulnerabilities : Table fun r : InSnapshot Vulnerability => (r.snapshotID, r.item.cveID)
  snapshotKEV : Table fun r : InSnapshot CISAKEVItem => (r.snapshotID, r.item.cveID)
  /-- the live table -/
  vulnerabilities : Table Vulnerability.cveID

namespace Store

def new : Store := ⟨.empty, .empty, .empty, .empty⟩

def create (s : Store) (id metadata : Str) (now : Time) : Option Store :=
  (s.snapshots.insert { id := id, createdAt := now, sourceMetadata := metadata }).map fun T => { s with snapshots := T }

/-- What one sync has fetched; `epss` has no CVE twice. -/
structure Feed where
  vulns : List Vulnerability
  kevItems : List CISAKEVItem
  epss : List (Str × Float64)

/-- A CVE as it is stored, merged with KEV and EPSS. -/
def Feed.merge (f : Feed) (v : Vulnerability) : Vulnerability :=
  { v with
    isKEV := v.isKEV || f.kevItems.any (·.cveID = v.cveID)
    epss := ((f.epss.find? (·.1 = v.cveID)).map (·.2)).getD v.epss }

/-- The row of a KEV item that the NVD batch does not have; its CVSS is 7.5. -/
def standalone (k : CISAKEVItem) (now : Time) : Vulnerability where
  cveID := k.cveID
  title := k.vulnerabilityName
  description := k.shortDescription
  severity := str "HIGH"
  cvss := 0x401e000000000000
  isKEV := true
  epss := 0
  cpePattern := []
  publishedAt := now

/-- `kevMap`: the last item of each CVE. -/
def Feed.kevMap (f : Feed) : Table CISAKEVItem.cveID := f.kevItems.foldl Table.upsert .empty

abbrev Rows := Table fun r : InSnapshot Vulnerability => (r.snapshotID, r.item.cveID)

/-- A KEV item is inserted unless its CVE is there; a lookup that fails finds nothing. -/
def ingestKEV (id : Str) (now : Str → Time) (unread : Str → Bool) (Tn : Rows × ℕ) (k : CISAKEVItem) : Rows × ℕ :=
  if (Tn.1.find (id, k.cveID)).isSome ∧ unread k.cveID = false then Tn
  else (Tn.1.upsert ⟨id, standalone k (now k.cveID)⟩, Tn.2 + 1)

/-- The rows of a snapshot after an ingest, and how many CVEs it counts. `now` is the clock when an item is
inserted. -/
def ingested (T : Rows) (id : Str) (f : Feed) (now : Str → Time) (unread : Str → Bool) : Rows × ℕ :=
  f.kevMap.rows.foldl (ingestKEV id now unread)
    ((f.vulns.map fun v => ⟨id, f.merge v⟩).foldl Table.upsert T, f.vulns.length)

def recordCounts (nvdCount : ℕ) (f : Feed) (snap : FeedSnapshot) : FeedSnapshot :=
  { snap with nvdCount := nvdCount, cisaKEVCount := f.kevMap.rows.length, epssCount := f.epss.length }

def ingest (s : Store) (id : Str) (f : Feed) (now : Str → Time) (unread : Str → Bool) : Option Store := do
  let snap ← s.snapshots.find id
  if snap.status = .building then
    let I := ingested s.snapshotVulnerabilities id f now unread
    some { s with
      snapshotKEV := (f.kevItems.map fun k => ⟨id, k⟩).foldl Table.upsert s.snapshotKEV
      snapshotVulnerabilities := I.1
      snapshots := s.snapshots.update id (recordCounts I.2 f) fun _ => rfl }
  else none

def rowsOf (s : Store) (id : Str) : List Vulnerability :=
  (s.snapshotVulnerabilities.rows.filter (·.snapshotID = id)).map (·.item)

def demote (snap : FeedSnapshot) : FeedSnapshot :=
  if snap.status = .active then { snap with status := .superseded } else snap

@[simp] theorem demote_id (snap : FeedSnapshot) : (demote snap).id = snap.id := by
  unfold demote
  split_ifs <;> rfl

def promote (now : Time) (snap : FeedSnapshot) : FeedSnapshot :=
  { snap with status := .active, activatedAt := some now }

/-- Rows inserted one after the other; a key twice is an error. -/
def insertAll {κ ρ : Type} [DecidableEq κ] {key : ρ → κ} (T : Table key) (rows : List ρ) : Option (Table key) :=
  rows.foldlM (fun T r => T.insert r) T

def activate (s : Store) (id : Str) (now : Time) : Option Store := do
  let snap ← s.snapshots.find id
  if snap.status = .building ∧ snap.nvdCount ≠ 0 then
    let live ← insertAll .empty (s.rowsOf id)
    some { s with
      snapshots := (s.snapshots.modify demote demote_id).update id (promote now) fun _ => rfl
      vulnerabilities := live }
  else none

def markFailed (errMsg : Str) (snap : FeedSnapshot) : FeedSnapshot :=
  { snap with status := .failed, errorMessage := errMsg }

def fail (s : Store) (id errMsg : Str) : Store :=
  { s with snapshots := s.snapshots.update id (markFailed errMsg) fun _ => rfl }

end Store

/-! ## Runs -/

inductive Call where
  | create (id metadata : Str) (now : Time)
  | ingest (id : Str) (f : Store.Feed) (now : Str → Time) (unread : Str → Bool)
  | activate (id : Str) (now : Time)
  | fail (id errMsg : Str)

/-- A call, or one of whose statements or whose commit the database has failed; the store's mutex keeps
calls apart. -/
inductive Event where
  | call (c : Call)
  | fault (c : Call)

namespace Store

/-- What a call does; `none` is an error, after which the transaction is rolled back. -/
def exec (s : Store) : Call → Option Store
  | .create id metadata now => s.create id metadata now
  | .ingest id f now unread => s.ingest id f now unread
  | .activate id now => s.activate id now
  | .fail id errMsg => some (s.fail id errMsg)

def next (s : Store) : Event → Store
  | .call c => (s.exec c).getD s
  | .fault _ => s

def step (s : Store) (e : Event) : Option Store := some (s.next e)

end Store

end Ominull.Vuln
