import Ominull.Crypto
import Ominull.Lib.Calls
import Ominull.Response.Canonical
import Mathlib.Data.List.Infix
import Mathlib.Data.List.Sort

/-!
The evidence store: bundles of items that an endpoint uploads whole or in chunks, encrypted objects
on disk, and the signed receipt a bundle is finalized with.
-/

namespace Ominull.Evidence

open Lib Go Response

/-! ## Records -/

inductive ItemStatus where
  | uploading
  | completed
  deriving DecidableEq, Inhabited

structure EvidenceItem where
  id : Str
  bundleID : Str
  name : Str
  contentType : Str
  sizeBytes : Int
  receivedBytes : Int
  sha256 : Str
  collectorStatus : Str
  storageDigest : Str
  encryptedKey : Str
  status : ItemStatus
  deriving DecidableEq, Inhabited

structure ManifestItem where
  name : Str
  sizeBytes : Int
  sha256 : Str
  collectorStatus : Str
  deriving DecidableEq

structure Manifest where
  bundleID : Str
  endpointID : Str
  tenantID : Str
  jobID : Str
  profile : Str
  collectedAt : Time
  items : List ManifestItem
  signature : Str
  deriving DecidableEq

def Manifest.canonicalBytes (m : Manifest) : Str :=
  str "OMINULL-MANIFEST-V2\x00" ++ frame m.bundleID ++ frame m.endpointID ++ frame m.tenantID ++
    frame m.jobID ++ frame m.profile ++ writeInt64 (unix m.collectedAt) ++
    bigEndian 4 m.items.length ++ m.items.flatMap fun it =>
      frame it.name ++ writeInt64 it.sizeBytes ++ frame it.sha256 ++ frame it.collectorStatus

inductive BundleStatus where
  | collecting
  | completed
  deriving DecidableEq

/-- A row of evidence_bundles. `manifestRaw` is the manifest whose JSON the column holds. -/
structure EvidenceBundle where
  id : Str
  tenantID : Str
  endpointID : Str
  jobID : Str
  profile : Str
  status : BundleStatus := .collecting
  totalBytes : Int := 0
  itemCount : Int := 0
  legalHold : Bool := false
  retentionExpiresAt : Time
  manifestSHA256 : Option Str := none
  receiptSHA256 : Option Str := none
  manifestRaw : Option Manifest := none
  completedAt : Option Time := none
  deriving DecidableEq

structure EvidenceChunk where
  itemID : Str
  chunkIndex : Int
  offset : Int
  length : Int
  sha256 : Str
  deriving DecidableEq

def EvidenceChunk.key (c : EvidenceChunk) : Str × Int := (c.itemID, c.chunkIndex)

structure EvidenceReceipt where
  receiptID : Str
  bundleID : Str
  tenantID : Str
  endpointID : Str
  manifestSHA256 : Str
  storageObjectsSHA256 : Str
  previousReceiptSHA256 : Str
  ingestedAt : Time
  receiptHash : Str := []
  receiptSignature : Str := []
  deriving DecidableEq

def EvidenceReceipt.canonicalBytes (r : EvidenceReceipt) : Str :=
  str "OMINULL-RECEIPT-V2\x00" ++ frame r.receiptID ++ frame r.bundleID ++ frame r.tenantID ++
    frame r.endpointID ++ frame r.manifestSHA256 ++ frame r.storageObjectsSHA256 ++
    frame r.previousReceiptSHA256 ++ writeInt64 (unix r.ingestedAt)

/-- The order receipts are queried in. -/
def EvidenceReceipt.Before (a b : EvidenceReceipt) : Prop :=
  a.ingestedAt < b.ingestedAt ∨ a.ingestedAt = b.ingestedAt ∧ a.receiptID < b.receiptID

instance EvidenceReceipt.decidableBefore (a b : EvidenceReceipt) : Decidable (a.Before b) :=
  inferInstanceAs (Decidable (_ ∨ _))

/-- The later one of the best receipt so far and the next. -/
def later : Option EvidenceReceipt → EvidenceReceipt → Option EvidenceReceipt
  | none, r => some r
  | some b, r => if b.Before r then some r else some b

inductive StoreError where
  | notFound
  | tenantMismatch
  | quotaExceeded
  | diskSpace
  | invalidName
  | invalidRange
  | rangeOverlap
  | conflictingChunk
  | objectSizeMismatch
  | assembledSizeMismatch
  | invalidSignature
  | itemCount
  | itemNotFound (name : Str)
  | itemNotCompleted (name : Str)
  | itemSizeMismatch (name : Str)
  | itemDigestMismatch (name : Str)
  /-- a row with the same key -/
  | constraint
  /-- a write of the database or a file that failed -/
  | io
  deriving DecidableEq

abbrev FileTable := Table (Prod.fst : Str × Str → Str)

structure Store where
  bundles : Table EvidenceBundle.id := Table.empty
  items : Table EvidenceItem.id := Table.empty
  chunks : Table EvidenceChunk.key := Table.empty
  /-- the bundle of a receipt is unique -/
  receipts : Table EvidenceReceipt.bundleID := Table.empty
  /-- the encrypted objects, by their digest -/
  objects : FileTable := Table.empty
  /-- the files chunks are assembled in, by item -/
  staging : FileTable := Table.empty
  maxTenantQuotaBytes : Int := 10 * 1024 * 1024 * 1024

/-! ## Digests, ciphers and names -/

def computeDigest (C : Crypto) (data : Str) : Str := hexEncode (C.sha256 data)

def canonicalItemAAD (tenantID bundleID itemID name : Str) (offset totalSize : Int) : Str :=
  str "OMINULL-EVIDENCE-ITEM-V1\x00" ++ frame tenantID ++ frame bundleID ++ frame itemID ++
    frame name ++ writeInt64 offset ++ writeInt64 totalSize

def nonceSize : ℕ := 12

/-- What a call draws at random when it encrypts an item. -/
structure ItemKeys where
  dataKey : Str
  nonce : Str
  wrapNonce : Str
  dataKey_length : dataKey.length = 32
  nonce_length : nonce.length = nonceSize
  wrapNonce_length : wrapNonce.length = nonceSize

def wrapDataKey (A : Aead) (masterKey : Str) (k : ItemKeys) : Str :=
  hexEncode (k.wrapNonce ++ A.encrypt masterKey k.wrapNonce k.dataKey [])

def encryptItemData (A : Aead) (k : ItemKeys) (plaintext aad : Str) : Str :=
  k.nonce ++ A.encrypt k.dataKey k.nonce plaintext aad

def unwrapDataKey (A : Aead) (masterKey wrappedHex : Str) : Option Str := do
  let wrapped ← hexDecode wrappedHex
  guard (nonceSize ≤ wrapped.length)
  let dataKey ← A.decrypt masterKey (wrapped.take nonceSize) (wrapped.drop nonceSize) []
  guard (dataKey.length = 32)
  return dataKey

def decryptItemData (A : Aead) (dataKey ciphertext aad : Str) : Option Str := do
  guard (nonceSize ≤ ciphertext.length)
  A.decrypt dataKey (ciphertext.take nonceSize) (ciphertext.drop nonceSize) aad

/-- The components of a cleaned path, the last one first. -/
def cleanComponents (rooted : Bool) : List Str → List Str → List Str
  | out, [] => out
  | out, c :: rest =>
    if c = [] ∨ c = str "." then cleanComponents rooted out rest
    else if c = str ".." then
      match out with
      | [] => cleanComponents rooted (if rooted then [] else [c]) rest
      | o :: out' => cleanComponents rooted (if o = str ".." then c :: out else out') rest
    else cleanComponents rooted (c :: out) rest

def clean (path : Str) : Str :=
  let rooted := path.head? = some 0x2f
  let joined := List.intercalate [0x2f] (cleanComponents rooted [] (path.splitOn 0x2f)).reverse
  if rooted then 0x2f :: joined else if joined = [] then str "." else joined

/-- The names no artifact may have. -/
def badName (cleanName : Str) : Bool :=
  decide (str ".." <:+: cleanName) || cleanName.head? = some 0x2f || cleanName = str "." || cleanName = []

def verifyManifestSignature (C : Crypto) (m : Manifest) (pubKeyHex : Str) : Bool :=
  match hexDecode (trimSpace pubKeyHex), hexDecode (trimSpace m.signature) with
  | some pub, some sig => pub.length = 32 && sig.length = 64 && C.verify pub m.canonicalBytes sig
  | _, _ => false

/-! ## Calls -/

structure Config where
  crypto : Crypto
  aead : Aead
  masterKey : Str
  receiptKey : Str

namespace Store

/-- `checkQuotaAndDisk`; without the size of the free space the disk is not asked. -/
def checkQuotaAndDisk (st : Store) (freeBytes : Option Int) (tenantID : Str) (incoming : Int) :
    Option StoreError :=
  let usage := (st.bundles.rows.filter (·.tenantID = tenantID)).foldl (fun n b => n + b.totalBytes) 0
  if 0 < st.maxTenantQuotaBytes ∧ st.maxTenantQuotaBytes < wrap64 (usage + incoming) then
    some .quotaExceeded
  else
    match freeBytes with
    | none => none
    | some free => if wrap64 (free - incoming) < 50 * 1024 * 1024 then some .diskSpace else none

/-- The rows of a bundle's items as they are queried: by name. -/
def bundleItems (st : Store) (bundleID : Str) : List EvidenceItem :=
  (st.items.rows.filter (·.bundleID = bundleID)).insertionSort fun a b => a.name ≤ b.name

def countItem (st : Store) (bundleID : Str) (size : Int) : Table EvidenceBundle.id :=
  st.bundles.update bundleID
    (fun b => { b with totalBytes := b.totalBytes + size, itemCount := b.itemCount + 1 }) fun _ => rfl

def readItemData (cfg : Config) (st : Store) (tenantID itemID : Str) : Option Str := do
  let it ← st.items.find itemID
  let b ← st.bundles.find it.bundleID
  guard (b.tenantID = tenantID)
  let dataKey ← unwrapDataKey cfg.aead cfg.masterKey it.encryptedKey
  let object ← st.objects.find it.storageDigest
  decryptItemData cfg.aead dataKey object.2
    (canonicalItemAAD tenantID it.bundleID it.id it.name 0 it.sizeBytes)

/-- The receipt a new one is chained to: the latest of the tenant. -/
def latestReceipt (st : Store) (tenantID : Str) : Option EvidenceReceipt :=
  (st.receipts.rows.filter (·.tenantID = tenantID)).foldl later none

end Store

abbrev StoreCall (α : Type) := Call Store StoreError α

open Call

/-- `writeObjectAtomic`: an object that is there is kept. -/
def writeObjectAtomic (digest data : Str) : StoreCall Unit := do
  let st ← read
  match st.objects.insert (digest, data) with
  | some objects => write .io fun st => { st with objects := objects }
  | none =>
    match st.objects.find digest with
    | some old => if old.2.length = data.length then pure () else throw .objectSizeMismatch
    | none => pure ()

/-- The bundle a call names, if it is the tenant's. -/
def ownedBundle (tenantID bundleID : Str) : StoreCall EvidenceBundle := do
  let st ← read
  match st.bundles.find bundleID with
  | none => throw .notFound
  | some b => if b.tenantID = tenantID then pure b else throw .tenantMismatch

def createBundleWithID (id newID tenantID endpointID jobID profile : Str) (retentionTTL now : Time) :
    StoreCall Unit := do
  let id := if trimSpace id = [] then newID else id
  let ttl := if retentionTTL = 0 then 30 * 24 * 3600 * second else retentionTTL
  let st ← read
  match st.bundles.insert
      { id := id, tenantID := tenantID, endpointID := endpointID, jobID := jobID, profile := profile,
        retentionExpiresAt := now + ttl } with
  | none => pure ()
  | some bundles => write .io fun st => { st with bundles := bundles }

def createItem (freeBytes : Option Int) (itemID tenantID bundleID name contentType : Str)
    (expectedSize : Int) (collectorStatus : Str) : StoreCall EvidenceItem := do
  let _ ← ownedBundle tenantID bundleID
  let st ← read
  refuse (if badName (clean name) then some .invalidName else none)
  refuse (st.checkQuotaAndDisk freeBytes tenantID expectedSize)
  let item : EvidenceItem := ⟨itemID, bundleID, clean name, contentType, expectedSize, 0, [],
    collectorStatus, [], [], .uploading⟩
  match st.items.insert item with
  | none => throw .constraint
  | some items =>
    write .io fun st => { st with items := items }
    return item

def storeItem (cfg : Config) (freeBytes : Option Int) (itemID : Str) (k : ItemKeys)
    (tenantID bundleID name contentType collectorStatus plaintext : Str) : StoreCall EvidenceItem := do
  let _ ← ownedBundle tenantID bundleID
  let st ← read
  refuse (if badName (clean name) then some .invalidName else none)
  let totalSize : Int := plaintext.length
  refuse (st.checkQuotaAndDisk freeBytes tenantID totalSize)
  let aad := canonicalItemAAD tenantID bundleID itemID (clean name) 0 totalSize
  let ciphertext := encryptItemData cfg.aead k plaintext aad
  let storageDigest := computeDigest cfg.crypto ciphertext
  writeObjectAtomic storageDigest ciphertext
  let item : EvidenceItem := ⟨itemID, bundleID, clean name, contentType, totalSize, totalSize,
    computeDigest cfg.crypto plaintext, collectorStatus, storageDigest,
    wrapDataKey cfg.aead cfg.masterKey k, .completed⟩
  match st.items.insert item with
  | none => throw .constraint
  | some items =>
    write .io fun st => { st with items := items, bundles := st.countItem bundleID totalSize }
    return item

/-! ### Chunks -/

inductive ChunkCheck where
  | fits
  | retry
  | refused (e : StoreError)

/-- A chunk against those that are there. -/
def checkChunk (chunkIndex offset length : Int) (sha256 : Str) : List EvidenceChunk → ChunkCheck
  | [] => .fits
  | c :: rest =>
    if c.chunkIndex = chunkIndex then
      if c.offset = offset ∧ c.length = length ∧ c.sha256 = sha256 then .retry
      else .refused .conflictingChunk
    else if ¬(wrap64 (offset + length) ≤ c.offset ∨ wrap64 (c.offset + c.length) ≤ offset) then
      .refused .rangeOverlap
    else checkChunk chunkIndex offset length sha256 rest

def writeAt (file : Str) (offset : ℕ) (data : Str) : Str :=
  (file ++ List.replicate (offset - file.length) 0).take offset ++ data ++ file.drop (offset + data.length)

def Store.receive (st : Store) (itemID : Str) (n : Int) : Store :=
  { st with items := st.items.update itemID (fun i => { i with receivedBytes := n }) fun _ => rfl }

def EvidenceItem.complete (it : EvidenceItem) (sha256 storageDigest encryptedKey : Str) : EvidenceItem :=
  { it with
    status := .completed, sha256 := sha256, storageDigest := storageDigest, encryptedKey := encryptedKey }

def Store.completeItem (st : Store) (itemID bundleID sha256 storageDigest encryptedKey : Str)
    (size : Int) : Store :=
  { st with
    items := st.items.update itemID (·.complete sha256 storageDigest encryptedKey) fun _ => rfl
    bundles := st.countItem bundleID size }

/-- The end of `StoreItemChunk`, once all bytes have been received. -/
def completeItem (cfg : Config) (k : ItemKeys) (tenantID : Str) (it : EvidenceItem) (totalSize : Int)
    (assembled : Str) : StoreCall EvidenceItem := do
  refuse (if (assembled.length : Int) ≠ totalSize then some .assembledSizeMismatch else none)
  let aad := canonicalItemAAD tenantID it.bundleID it.id it.name 0 totalSize
  let ciphertext := encryptItemData cfg.aead k assembled aad
  let plainSHA := computeDigest cfg.crypto assembled
  let storageDigest := computeDigest cfg.crypto ciphertext
  writeObjectAtomic storageDigest ciphertext
  let wrappedKey := wrapDataKey cfg.aead cfg.masterKey k
  write .io fun st => st.completeItem it.id it.bundleID plainSHA storageDigest wrappedKey totalSize
  let _ ← attempt fun st => { st with staging := st.staging.filter (·.1 ≠ it.id) }
  return it.complete plainSHA storageDigest wrappedKey

/-- The writes of `StoreItemChunk` for a chunk that fits. -/
def addChunk (cfg : Config) (k : ItemKeys) (tenantID : Str) (it : EvidenceItem)
    (chunkIndex offset totalSize : Int) (chunkData : Str) : StoreCall EvidenceItem := do
  let st ← read
  let length : Int := chunkData.length
  let file := writeAt ((st.staging.find it.id).elim [] Prod.snd) offset.toNat chunkData
  write .io fun st => { st with staging := st.staging.upsert (it.id, file) }
  match st.chunks.insert ⟨it.id, chunkIndex, offset, length, computeDigest cfg.crypto chunkData⟩ with
  | none => throw .constraint
  | some chunks =>
    write .io fun st => { st with chunks := chunks }
    let received := wrap64 (it.receivedBytes + length)
    write .io fun st => st.receive it.id received
    let it := { it with receivedBytes := received }
    if received = totalSize then completeItem cfg k tenantID it totalSize file else return it

def storeItemChunk (cfg : Config) (k : ItemKeys) (tenantID itemID : Str)
    (chunkIndex offset totalSize : Int) (chunkData : Str) : StoreCall EvidenceItem := do
  let length : Int := chunkData.length
  refuse (if offset < 0 ∨ chunkData = [] ∨ totalSize < wrap64 (offset + length) then some .invalidRange
    else none)
  let st ← read
  match st.items.find itemID with
  | none => throw .notFound
  | some it =>
    let _ ← ownedBundle tenantID it.bundleID
    if it.status = .completed then return it
    else
      match checkChunk chunkIndex offset length (computeDigest cfg.crypto chunkData)
          (st.chunks.rows.filter (·.itemID = itemID)) with
      | .retry => return it
      | .refused e => throw e
      | .fits => addChunk cfg k tenantID it chunkIndex offset totalSize chunkData

/-! ### Finalizing -/

/-- The stored items by name; of two with one name the later row stays. -/
def storedItems (rows : List EvidenceItem) : Table EvidenceItem.name :=
  rows.foldl Table.upsert Table.empty

def checkItems (stored : Table EvidenceItem.name) : List ManifestItem → Option StoreError
  | [] => none
  | m :: rest =>
    match stored.find m.name with
    | none => some (.itemNotFound m.name)
    | some it =>
      if it.status ≠ .completed then some (.itemNotCompleted m.name)
      else if it.sizeBytes ≠ m.sizeBytes then some (.itemSizeMismatch m.name)
      else if it.sha256 ≠ m.sha256 then some (.itemDigestMismatch m.name)
      else checkItems stored rest

def marshalStrings : List Str → Str
  | [] => str "null"
  | l => 0x5b :: (List.intercalate [0x2c] (l.map quote) ++ [0x5d])

/-- The receipt of a bundle, chained to the latest one of the tenant and signed. -/
def newReceipt (cfg : Config) (st : Store) (receiptID : Str) (b : EvidenceBundle) (m : Manifest)
    (now : Time) : EvidenceReceipt :=
  let previous := ((st.latestReceipt b.tenantID).map (·.receiptHash)).getD []
  let digests := (st.bundleItems b.id).map (·.storageDigest)
  let receipt : EvidenceReceipt :=
    { receiptID := receiptID, bundleID := b.id, tenantID := b.tenantID, endpointID := b.endpointID
      manifestSHA256 := computeDigest cfg.crypto m.canonicalBytes
      storageObjectsSHA256 := computeDigest cfg.crypto (marshalStrings digests)
      previousReceiptSHA256 := if previous = [] then List.replicate 64 0x30 else previous
      ingestedAt := now }
  { receipt with
    receiptHash := computeDigest cfg.crypto receipt.canonicalBytes
    receiptSignature := hexEncode (cfg.crypto.sign cfg.receiptKey receipt.canonicalBytes) }

def EvidenceBundle.finalized (b : EvidenceBundle) (m : Manifest) (r : EvidenceReceipt) : EvidenceBundle :=
  { b with
    status := .completed, manifestSHA256 := some r.manifestSHA256
    receiptSHA256 := some r.receiptHash, manifestRaw := some m, completedAt := some r.ingestedAt }

def finalizeBundle (cfg : Config) (receiptID tenantID bundleID : Str) (m : Manifest)
    (pubKeyHex : Str) (now : Time) : StoreCall EvidenceReceipt := do
  let b ← ownedBundle tenantID bundleID
  refuse (if pubKeyHex ≠ [] ∧ !verifyManifestSignature cfg.crypto m pubKeyHex then
    some .invalidSignature else none)
  let st ← read
  let stored := storedItems (st.bundleItems bundleID)
  refuse (if m.items.length ≠ stored.rows.length then some .itemCount else none)
  refuse (checkItems stored m.items)
  let receipt := newReceipt cfg st receiptID b m now
  refuse (if st.receipts.rows.any (·.receiptID = receiptID) then some .constraint else none)
  match st.receipts.insert receipt with
  | none => throw .constraint
  | some receipts =>
    write .io fun st =>
      { st with
        receipts := receipts
        bundles := st.bundles.update bundleID (·.finalized m receipt) fun _ => rfl }
    return receipt

/-! ### Upkeep -/

def setLegalHold (tenantID bundleID : Str) (hold : Bool) : StoreCall Unit := do
  let _ ← ownedBundle tenantID bundleID
  write .io fun st =>
    { st with bundles := st.bundles.update bundleID (fun b => { b with legalHold := hold }) fun _ => rfl }

/-- Removes the files of deleted items that no other item refers to. -/
def removeUnreferenced : List Str → StoreCall Unit
  | [] => pure ()
  | digest :: rest => do
    let st ← read
    if st.items.rows.all (·.storageDigest ≠ digest) then
      let _ ← attempt fun st => { st with objects := st.objects.filter (·.1 ≠ digest) }
    removeUnreferenced rest

def Store.deleteRows (st : Store) (id : Str) (chunks items receipts bundles : Bool) : Store :=
  let itemIDs := (st.items.rows.filter (·.bundleID = id)).map (·.id)
  { st with
    chunks := if chunks then st.chunks.filter (·.itemID ∉ itemIDs) else st.chunks
    items := if items then st.items.filter (·.bundleID ≠ id) else st.items
    receipts := if receipts then st.receipts.filter (·.bundleID ≠ id) else st.receipts
    bundles := if bundles then st.bundles.filter (·.id ≠ id) else st.bundles }

/-- `PruneExpiredBundles`, for the bundles that were listed. The errors of the deletions are ignored;
what was deleted is committed at once. -/
def pruneBundles : List Str → StoreCall Unit
  | [] => pure ()
  | id :: rest => do
    let st ← read
    let digests := (st.items.rows.filter (·.bundleID = id)).map (·.storageDigest)
    let chunks ← outcome
    let items ← outcome
    let receipts ← outcome
    let bundles ← outcome
    let pruned ← attempt fun st => st.deleteRows id chunks items receipts bundles
    if pruned then removeUnreferenced (digests.filter (· ≠ []))
    pruneBundles rest

def pruneExpiredBundles (now : Time) : StoreCall Unit := do
  let st ← read
  pruneBundles ((st.bundles.rows.filter fun b => b.retentionExpiresAt ≤ now && !b.legalHold).map (·.id))

/-! ### Operations -/

/-- The calls of the store with their arguments, and what they take from the clock, the disk and the
random source. -/
inductive Op where
  | createBundle (id newID tenantID endpointID jobID profile : Str) (retentionTTL now : Time)
  | createItem (freeBytes : Option Int) (itemID tenantID bundleID name contentType : Str)
      (expectedSize : Int64) (collectorStatus : Str)
  | storeItem (freeBytes : Option Int) (itemID : Str) (keys : ItemKeys)
      (tenantID bundleID name contentType collectorStatus plaintext : Str)
  | storeItemChunk (keys : ItemKeys) (tenantID itemID : Str) (chunkIndex offset totalSize : Int64)
      (chunkData : Str)
  | finalizeBundle (receiptID tenantID bundleID : Str) (m : Manifest) (pubKeyHex : Str) (now : Time)
  | setLegalHold (tenantID bundleID : Str) (hold : Bool)
  | setTenantQuota (maxBytes : Int64)
  | pruneExpiredBundles (now : Time)

/-- The call of an operation, with the receipt it issues. -/
def Op.call (cfg : Config) : Op → StoreCall (Option EvidenceReceipt)
  | .createBundle id newID tenantID endpointID jobID profile ttl now => do
    createBundleWithID id newID tenantID endpointID jobID profile ttl now
    return none
  | .createItem free itemID tenantID bundleID name contentType size status => do
    let _ ← Evidence.createItem free itemID tenantID bundleID name contentType size.toInt status
    return none
  | .storeItem free itemID keys tenantID bundleID name contentType status plaintext => do
    let _ ← Evidence.storeItem cfg free itemID keys tenantID bundleID name contentType status plaintext
    return none
  | .storeItemChunk keys tenantID itemID index offset total data => do
    let _ ← Evidence.storeItemChunk cfg keys tenantID itemID index.toInt offset.toInt total.toInt data
    return none
  | .finalizeBundle receiptID tenantID bundleID m pubKeyHex now => do
    let r ← Evidence.finalizeBundle cfg receiptID tenantID bundleID m pubKeyHex now
    return some r
  | .setLegalHold tenantID bundleID hold => do
    Evidence.setLegalHold tenantID bundleID hold
    return none
  | .setTenantQuota maxBytes => do
    let _ ← attempt fun st => { st with maxTenantQuotaBytes := maxBytes.toInt }
    return none
  | .pruneExpiredBundles now => do
    Evidence.pruneExpiredBundles now
    return none

structure Event where
  op : Op
  outcomes : List Bool

def Store.step (cfg : Config) (st : Store) (e : Event) : Option Store :=
  some ((e.op.call cfg).exec st e.outcomes).2

end Ominull.Evidence
