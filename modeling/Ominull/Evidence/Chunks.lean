import Ominull.Evidence.Assembly
import Ominull.Evidence.Retention

/-!
Chunked uploads: what `StoreItemChunk` has put together when it completes an item, and what is read
from then on.
-/

namespace Ominull.Evidence

open Lib Call List Option

def Store.staged (st : Store) (itemID : Str) : Str := (st.staging.find itemID).elim [] Prod.snd

def Store.chunksOf (st : Store) (itemID : Str) : List EvidenceChunk :=
  st.chunks.rows.filter (·.itemID = itemID)

/-- The file has become too long ever to be the item, or the upload makes progress. -/
def Upload (C : Crypto) (size received : Int) (rows : List EvidenceChunk) (file : Str)
    (accepted : List Accepted) : Prop :=
  size < (file.length : Int) ∨ Progress C size received rows file accepted

def UploadInv (C : Crypto) (id : Str) (st : Store) (accepted : List Accepted) : Prop :=
  ∀ it, st.items.find id = some it → it.status = .uploading →
    Upload C it.sizeBytes it.receivedBytes (st.chunksOf id) (st.staged id) accepted

/-- A completed item is tiled by the accepted chunks, and reading it gives their bytes. -/
def Done (cfg : Config) (id : Str) (st : Store) (accepted : List Accepted) : Prop :=
  ∀ it, st.items.find id = some it → it.status = .completed →
    ∃ b data, st.bundles.find it.bundleID = some b ∧ Tiles it.sizeBytes accepted ∧
      (∀ a ∈ accepted, a.span.of data = a.data) ∧ (data.length : Int) = it.sizeBytes ∧
      computeDigest cfg.crypto data = it.sha256 ∧ st.readItemData cfg b.tenantID id = some data

/-! ## Reading -/

/-- What is encrypted with a key is decrypted with it, under the same nonce and associated data. -/
def RoundTrips (A : Aead) : Prop :=
  ∀ key nonce text aad, A.decrypt key nonce (A.encrypt key nonce text aad) aad = some text

variable {id data : Str} {b : EvidenceBundle}

section Reading

variable {cfg : Config} (haead : RoundTrips cfg.aead)

include haead

theorem unwrapDataKey_wrapDataKey (masterKey : Str) (k : ItemKeys) :
    unwrapDataKey cfg.aead masterKey (wrapDataKey cfg.aead masterKey k) = some k.dataKey := by
  have hnonce := k.wrapNonce_length
  unfold unwrapDataKey wrapDataKey
  rw [hexDecode_hexEncode]
  simp only [bind_eq_bind, bind_some, length_append, hnonce,
    take_left' hnonce, drop_left' hnonce, haead _ _ _ _, k.dataKey_length]
  simp

theorem decryptItemData_encryptItemData (k : ItemKeys) (plaintext aad : Str) :
    decryptItemData cfg.aead k.dataKey (encryptItemData cfg.aead k plaintext aad) aad = some plaintext := by
  have hnonce := k.nonce_length
  unfold decryptItemData encryptItemData
  simp only [bind_eq_bind, length_append, hnonce, take_left' hnonce,
    drop_left' hnonce, haead _ _ _ _]
  simp

theorem readItemData_sealed {st : Store} {it : EvidenceItem} {k : ItemKeys} {o : Str × Str}
    (hit : st.items.find id = some it) (hb : st.bundles.find it.bundleID = some b)
    (hkey : it.encryptedKey = wrapDataKey cfg.aead cfg.masterKey k)
    (hobject : st.objects.find it.storageDigest = some o) (hsealed : o.2 = encryptItemData cfg.aead k data
      (canonicalItemAAD b.tenantID it.bundleID it.id it.name 0 it.sizeBytes)) :
    st.readItemData cfg b.tenantID id = some data := by
  unfold Store.readItemData
  simp only [bind_eq_bind, hit, hb, hkey, hobject, bind_some, hsealed,
    unwrapDataKey_wrapDataKey haead, decryptItemData_encryptItemData haead]
  simp

end Reading

theorem Keeps.readItemData {cfg : Config} {s t : Store} {it : EvidenceItem} (h : Keeps id s t)
    (hit : it ∈ s.itemsOf id) (hstatus : it.status = .completed) (hb : s.bundles.find id = some b) :
    t.readItemData cfg b.tenantID it.id = s.readItemData cfg b.tenantID it.id := by
  obtain ⟨it', hit', hkeeps⟩ := h.items it hit
  obtain ⟨b', hb', hbundle⟩ := h.bundle b (Table.mem_of_find hb) (Table.key_of_find hb)
  have heq := hkeeps.completed hstatus
  subst heq
  obtain ⟨hrow, hid⟩ := mem_itemsOf.mp hit
  have hfind : t.bundles.find id = some b' := by
    rw [← Table.key_of_find hb, ← hbundle.id]
    exact Table.find_of_mem hb'
  unfold Store.readItemData
  rw [Table.find_of_mem hrow, Table.find_of_mem (mem_itemsOf.mp hit').1]
  simp only [bind_eq_bind, bind_some, hid, hb, hfind, hbundle.tenantID,
    h.object it' hit hstatus]

/-! ## The checks of a chunk -/

variable {file : Str}

section Check

variable {index offset length : Int} {sha256 : Str} {rows : List EvidenceChunk}

theorem checkChunk_fits (h : checkChunk index offset length sha256 rows = .fits) : ∀ c ∈ rows,
    wrap64 (offset + length) ≤ c.offset ∨ wrap64 (c.offset + c.length) ≤ offset := by
  induction rows with
  | nil => exact fun c hc => (by cases hc)
  | cons r rows ih =>
    unfold checkChunk at h
    split at h
    · split at h <;> cases h
    · split at h
      · cases h
      · rename_i hapart
        intro c hc
        rcases mem_cons.mp hc with rfl | hc
        · exact not_not.mp hapart
        · exact ih h c hc

theorem checkChunk_retry (h : checkChunk index offset length sha256 rows = .retry) :
    ∃ c ∈ rows, c.offset = offset ∧ c.length = length ∧ c.sha256 = sha256 := by
  induction rows with
  | nil => cases h
  | cons r rows ih =>
    unfold checkChunk at h
    split at h
    · split at h
      · rename_i hsame
        exact ⟨r, mem_cons_self, hsame⟩
      · cases h
    · split at h
      · cases h
      · obtain ⟨c, hc, hsame⟩ := ih h
        exact ⟨c, mem_cons_of_mem _ hc, hsame⟩

/-- A chunk that passes the checks of `StoreItemChunk` and does not reach beyond the item. -/
theorem fits_of_checkChunk {C : Crypto} {size : Int} {accepted : List Accepted}
    (h : Assembling C size rows file accepted) (hsize : size < 2 ^ 63) (hoffset : 0 ≤ offset) (hdata : data ≠ [])
    (hwithin : offset + data.length ≤ size) (hcheck : checkChunk index offset data.length sha256 rows = .fits) :
    Fits size rows ⟨offset.toNat, data⟩ := by
  have hpos : 0 < data.length := length_pos_iff.mpr hdata
  refine ⟨hpos, by dsimp only; omega, ?_⟩
  intro c hc
  have hrow := h.offset c hc
  have hend := h.within c hc
  have hapart := checkChunk_fits hcheck c hc
  rw [wrap64_eq (by omega) (by omega), wrap64_eq (by omega) (by omega)] at hapart
  show c.offset.toNat + c.length.toNat ≤ offset.toNat ∨ offset.toNat + data.length ≤ c.offset.toNat
  omega

end Check

/-! ## A chunk -/

section Chunk

variable {cfg : Config} {st s : Store} {it : EvidenceItem} {accepted : List Accepted}

theorem UploadInv.of_find {C : Crypto} {rows : List EvidenceChunk} (hit : s.items.find id = some it)
    (hrows : s.chunksOf id = rows) (hfile : s.staged id = file)
    (h : Upload C it.sizeBytes it.receivedBytes rows file accepted) : UploadInv C id s accepted := by
  intro it' hit' _
  rw [hit] at hit'
  cases hit'
  rw [hrows, hfile]
  exact h

theorem Done.of_uploading (hit : s.items.find id = some it) (hstatus : it.status = .uploading) :
    Done cfg id s accepted := by
  intro it' hit' hcompleted
  rw [hit] at hit'
  cases hit'
  rw [hstatus] at hcompleted
  cases hcompleted

/-- An item that was uploaded in chunks, while it is being uploaded and once it is complete. -/
structure Tracked (cfg : Config) (id : Str) (st : Store) (accepted : List Accepted) : Prop where
  inv : UploadInv cfg.crypto id st accepted
  done : Done cfg id st accepted

theorem Tracked.of_find {rows : List EvidenceChunk} (hit : s.items.find id = some it)
    (hstatus : it.status = .uploading) (hrows : s.chunksOf id = rows) (hfile : s.staged id = file)
    (h : Upload cfg.crypto it.sizeBytes it.receivedBytes rows file accepted) : Tracked cfg id s accepted :=
  ⟨.of_find hit hrows hfile h, .of_uploading hit hstatus⟩

theorem staged_upsert (st : Store) (id file : Str) :
    ({ st with staging := st.staging.upsert (id, file) } : Store).staged id = file := by
  show ((st.staging.upsert (id, file)).find id).elim [] Prod.snd = file
  rw [Table.find_upsert, if_pos rfl]
  rfl

theorem chunksOf_insert {c : EvidenceChunk} {chunks : Table EvidenceChunk.key}
    (h : st.chunks.insert c = some chunks) (id : Str) :
    chunks.rows.filter (·.itemID = id) = if c.itemID = id then st.chunksOf id ++ [c] else st.chunksOf id := by
  rw [(Table.insert_rows h).1, filter_append, filter_singleton]
  by_cases hid : c.itemID = id <;> simp [hid, Store.chunksOf]

theorem find_receive (hit : st.items.find it.id = some it) (n : Int) :
    (st.receive it.id n).items.find it.id = some { it with receivedBytes := n } := by
  rw [Store.receive, Table.find_update_same, hit]
  rfl

theorem find_completeItem (st : Store) (hit : st.items.find it.id = some it) (bundleID sha256 digest key : Str) (size : Int) :
    (st.completeItem it.id bundleID sha256 digest key size).items.find it.id =
      some (it.complete sha256 digest key) := by
  have hfind := Table.find_update_same st.items it.id (fun i : EvidenceItem => i.complete sha256 digest key)
    fun _ => rfl
  rw [hit] at hfind
  exact hfind

theorem find_countItem_same (hb : st.bundles.find id = some b) (size : Int) :
    ∃ b', (st.countItem id size).find id = some b' ∧ b'.tenantID = b.tenantID := by
  refine ⟨{ b with totalBytes := b.totalBytes + size, itemCount := b.itemCount + 1 }, ?_, rfl⟩
  rw [Store.countItem, Table.find_update_same, hb]
  rfl

variable {keys : ItemKeys}

theorem done_of_find (haead : RoundTrips cfg.aead) {o : Str × Str}
    (hit : s.items.find it.id = some (it.complete (computeDigest cfg.crypto file) o.1
      (wrapDataKey cfg.aead cfg.masterKey keys))) (hb : s.bundles.find it.bundleID = some b)
    (hobject : s.objects.find o.1 = some o) (hsealed : o.2 = encryptItemData cfg.aead keys file
      (canonicalItemAAD b.tenantID it.bundleID it.id it.name 0 it.sizeBytes))
    (hlength : (file.length : Int) = it.sizeBytes) (htiles : Tiles it.sizeBytes accepted)
    (hplaced : ∀ a ∈ accepted, a.span.of file = a.data) : Tracked cfg it.id s accepted := by
  constructor
  · intro it' hit' hstatus
    rw [hit] at hit'
    cases hit'
    cases hstatus
  · intro it' hit' _
    rw [hit] at hit'
    cases hit'
    refine ⟨b, file, hb, htiles, hplaced, hlength, rfl, ?_⟩
    exact readItemData_sealed haead hit hb rfl hobject hsealed

/-- The end of an upload: what is stored is what was assembled. -/
theorem completeItem_done (haead : RoundTrips cfg.aead) {accepted' : List Accepted}
    (hit : st.items.find it.id = some it) (hstatus : it.status = .uploading)
    (hb : st.bundles.find it.bundleID = some b) (hinv : UploadInv cfg.crypto it.id st accepted)
    (htiles : (file.length : Int) = it.sizeBytes → Tiles it.sizeBytes accepted' ∧
      ∀ a ∈ accepted', a.span.of file = a.data)
    (hcollision : ∀ o, st.objects.find (computeDigest cfg.crypto (encryptItemData cfg.aead keys file
        (canonicalItemAAD b.tenantID it.bundleID it.id it.name 0 it.sizeBytes))) = some o →
      o.2 = encryptItemData cfg.aead keys file
        (canonicalItemAAD b.tenantID it.bundleID it.id it.name 0 it.sizeBytes)) :
    Triple (fun s => s = st) (completeItem cfg keys b.tenantID it it.sizeBytes file)
      (fun _ s => Tracked cfg it.id s accepted') (fun s => Tracked cfg it.id s accepted) := by
  refine Triple.refuse ⟨hinv, .of_uploading hit hstatus⟩ fun hlength => ?_
  have hlength : (file.length : Int) = it.sizeBytes := by
    by_contra hne
    rw [if_pos hne] at hlength
    cases hlength
  obtain ⟨htiles, hplaced⟩ := htiles hlength
  dsimp only
  generalize hsealed : encryptItemData cfg.aead keys file
    (canonicalItemAAD b.tenantID it.bundleID it.id it.name 0 it.sizeBytes) = ciphertext at hcollision ⊢
  generalize hdigest : computeDigest cfg.crypto ciphertext = digest at hcollision ⊢
  refine Triple.bind (writeObjectAtomic_spec.mono (fun _ _ h => h) fun s hs => ?_) fun _ =>
    Triple.of_forall fun s hs => ?_
  · rw [hs]
    exact ⟨hinv, .of_uploading hit hstatus⟩
  have hobject : ∃ objects o, s = { st with objects := objects } ∧ objects.find digest = some o ∧
      o.2 = ciphertext := by
    rcases hs with ⟨objects, hinsert, rfl⟩ | ⟨rfl, hsome⟩
    · refine ⟨objects, (digest, ciphertext), rfl, ?_, rfl⟩
      rw [Table.find_insert hinsert, if_pos rfl]
    · obtain ⟨o, ho⟩ := isSome_iff_exists.mp hsome
      exact ⟨s.objects, o, rfl, ho, hcollision o ho⟩
  obtain ⟨objects, o, rfl, ho, hcontent⟩ := hobject
  have hkey : o.1 = digest := Table.key_of_find ho
  subst hkey
  have hrow := find_completeItem { st with objects := objects } hit it.bundleID
    (computeDigest cfg.crypto file) o.1 (wrapDataKey cfg.aead cfg.masterKey keys) it.sizeBytes
  obtain ⟨b', hb', htenant⟩ := find_countItem_same hb it.sizeBytes
  have hcontent' : o.2 = encryptItemData cfg.aead keys file
      (canonicalItemAAD b'.tenantID it.bundleID it.id it.name 0 it.sizeBytes) := by
    rw [htenant, hsealed]
    exact hcontent
  refine Triple.write ⟨hinv, .of_uploading hit hstatus⟩ (Triple.attempt (Triple.pure ?_) (Triple.pure ?_))
  · exact done_of_find haead hrow hb' ho hcontent' hlength htiles hplaced
  · exact done_of_find haead hrow hb' ho hcontent' hlength htiles hplaced

/-- What the writes for a chunk make of an upload, one after the other: the bytes, the row, the
number of bytes received. -/
structure Added (C : Crypto) (size received : Int) (rows : List EvidenceChunk) (file : Str)
    (accepted : List Accepted) (a : Accepted) (c : EvidenceChunk) : Prop where
  staged : Upload C size received rows (writeAt file a.offset a.data) accepted
  row : Upload C size received (rows ++ [c]) (writeAt file a.offset a.data) accepted
  counted : Upload C size (wrap64 (received + a.data.length)) (rows ++ [c]) (writeAt file a.offset a.data)
    (accepted ++ [a])
  -- all bytes are there, but the chunk is not accepted yet
  full : wrap64 (received + a.data.length) = size →
    Upload C size (wrap64 (received + a.data.length)) (rows ++ [c]) (writeAt file a.offset a.data) accepted
  tiles : wrap64 (received + a.data.length) = size → ((writeAt file a.offset a.data).length : Int) = size →
    Tiles size (accepted ++ [a]) ∧ ∀ x ∈ accepted ++ [a], x.span.of (writeAt file a.offset a.data) = x.data

theorem Upload.add {C : Crypto} {size received index offset : Int} {rows : List EvidenceChunk}
    (h : Upload C size received rows file accepted) (itemID : Str) (hsize : size < 2 ^ 63) (hoffset : 0 ≤ offset)
    (hdata : data ≠ []) (hcheck : checkChunk index offset data.length (computeDigest C data) rows = .fits) :
    Added C size received rows file accepted ⟨offset.toNat, data⟩
      ⟨itemID, index, offset, data.length, computeDigest C data⟩ := by
  have hgrows := le_length_writeAt file offset.toNat data
  by_cases hlong : size < ((writeAt file offset.toNat data).length : Int)
  · -- whatever comes, the file is too long to be the item
    refine ⟨.inl hlong, .inl hlong, .inl hlong, fun _ => .inl hlong, fun _ hlength => ?_⟩
    dsimp only at hlength
    omega
  · have hprogress : Progress C size received rows file accepted := h.resolve_left (by omega)
    have hfits := fits_of_checkChunk hprogress.assembling hsize hoffset hdata (by omega) hcheck
    have hrow : RowOf C ⟨offset.toNat, data⟩ ⟨itemID, index, offset, data.length, computeDigest C data⟩ :=
      ⟨(Int.toNat_of_nonneg hoffset).symm, rfl, rfl⟩
    obtain ⟨hle, hassembling, K, hK, hsum, hall⟩ := hprogress.count hfits hrow
    have hnonneg := hprogress.received_nonneg
    dsimp only at hle hsum
    have hwrap : wrap64 (received + data.length) = received + data.length := wrap64_eq (by omega) (by omega)
    refine ⟨.inr (hprogress.write hfits), .inr (hprogress.add hfits hrow), ?_, ?_, ?_⟩
    · rw [hwrap]
      exact .inr ⟨hassembling, K, hK, hsum, .inr hall⟩
    · rw [hwrap]
      exact fun hfull => .inr ⟨(hprogress.add hfits hrow).assembling, K, hK, hsum, .inl hfull⟩
    · rw [hwrap]
      exact fun hfull _ => ⟨hassembling.tiles hK (hsum.symm.trans hfull) hall, hassembling.placed⟩

/-- What a chunk that completes the item would be stored as is not the digest of other bytes. -/
def NoCollision (cfg : Config) (st : Store) (keys : ItemKeys) (tenantID : Str) (it : EvidenceItem)
    (file : Str) : Prop :=
  ∀ o, st.objects.find (computeDigest cfg.crypto (encryptItemData cfg.aead keys file
      (canonicalItemAAD tenantID it.bundleID it.id it.name 0 it.sizeBytes))) = some o →
    o.2 = encryptItemData cfg.aead keys file
      (canonicalItemAAD tenantID it.bundleID it.id it.name 0 it.sizeBytes)

/-- The writes for a chunk that passed the checks. -/
theorem addChunk_upload (haead : RoundTrips cfg.aead) {index offset : Int} (hit : st.items.find it.id = some it)
    (hstatus : it.status = .uploading) (hb : st.bundles.find it.bundleID = some b)
    (hinv : Upload cfg.crypto it.sizeBytes it.receivedBytes (st.chunksOf it.id) (st.staged it.id) accepted)
    (hsize : it.sizeBytes < 2 ^ 63) (hoffset : 0 ≤ offset) (hdata : data ≠ [])
    (hcheck : checkChunk index offset data.length (computeDigest cfg.crypto data) (st.chunksOf it.id) = .fits)
    (hcollision : NoCollision cfg st keys b.tenantID it (writeAt (st.staged it.id) offset.toNat data)) :
    Triple (fun s => s = st) (addChunk cfg keys b.tenantID it index offset it.sizeBytes data)
      (fun _ s => Tracked cfg it.id s (accepted ++ [⟨offset.toNat, data⟩]))
      (fun s => Tracked cfg it.id s accepted) := by
  have hadd := hinv.add it.id hsize hoffset hdata hcheck
  refine Triple.read (Triple.write (.of_find hit hstatus rfl rfl hinv) ?_)
  have hfile := staged_upsert st it.id (writeAt (st.staged it.id) offset.toNat data)
  have hstaged : Tracked cfg it.id
      { st with staging := st.staging.upsert (it.id, writeAt (st.staged it.id) offset.toNat data) } accepted :=
    .of_find hit hstatus rfl hfile hadd.staged
  split
  · exact Triple.throw hstaged
  · rename_i chunks hinsert
    have hrows := chunksOf_insert hinsert it.id
    rw [if_pos rfl] at hrows
    refine Triple.write hstaged (Triple.write (.of_find hit hstatus hrows hfile hadd.row) ?_)
    have hreceived := find_receive hit (wrap64 (it.receivedBytes + data.length))
    split
    · rename_i hfull
      refine completeItem_done haead ?_ hstatus hb (.of_find hreceived hrows hfile (hadd.full hfull)) ?_ hcollision
      · exact hreceived
      · exact hadd.tiles hfull
    · exact Triple.pure (.of_find hreceived hstatus hrows hfile hadd.counted)

/-- A chunk of an item that is being uploaded. -/
theorem storeItemChunk_upload (haead : RoundTrips cfg.aead) {tenantID : Str} {index offset total : Int}
    (hit : st.items.find it.id = some it) (hstatus : it.status = .uploading)
    (hinv : Upload cfg.crypto it.sizeBytes it.receivedBytes (st.chunksOf it.id) (st.staged it.id) accepted)
    (htotal : total = it.sizeBytes) (hsize : total < 2 ^ 63)
    (hretry : ∀ c ∈ st.chunksOf it.id, computeDigest cfg.crypto (c.span.of (st.staged it.id)) =
      computeDigest cfg.crypto data → c.span.of (st.staged it.id) = data)
    (hcollision : NoCollision cfg st keys tenantID it (writeAt (st.staged it.id) offset.toNat data)) :
    Triple (fun s => s = st) (storeItemChunk cfg keys tenantID it.id index offset total data)
      (fun _ s => Tracked cfg it.id s (accepted ++ [⟨offset.toNat, data⟩]))
      (fun s => Tracked cfg it.id s accepted) := by
  subst htotal
  have hinv' : Tracked cfg it.id st accepted := .of_find hit hstatus rfl rfl hinv
  refine Triple.refuse hinv' fun hrange => Triple.read ?_
  have hrange : 0 ≤ offset ∧ data ≠ [] := by
    by_contra hbad
    rw [if_pos] at hrange
    · cases hrange
    · rw [not_and_or, not_le, not_not] at hbad
      exact hbad.imp_right .inl
  rw [hit]
  refine Triple.bind (ownedBundle_triple hinv') fun b => Triple.of_forall ?_
  rintro s ⟨rfl, hb, rfl⟩
  have hnot : it.status ≠ .completed := by
    rw [hstatus]
    decide
  rw [if_neg hnot]
  split
  · rename_i hcheck
    -- the row of the chunk is there, and the bytes the file has at its place are these
    refine Triple.pure (.of_find hit hstatus rfl rfl ?_)
    refine hinv.imp_right fun hprogress => ?_
    obtain ⟨c, hc, hoffset, hlength, hsha⟩ := checkChunk_retry hcheck
    have hspan : c.span = ⟨offset.toNat, data.length⟩ := by
      rw [EvidenceChunk.span, hoffset, hlength, Int.toNat_natCast]
    exact hprogress.retry hc hspan (hretry c hc ((hprogress.assembling.digest c hc).trans hsha))
  · exact Triple.throw hinv'
  · rename_i hcheck
    exact addChunk_upload haead hit hstatus hb hinv hsize hrange.1 hrange.2 hcheck hcollision

end Chunk

end Ominull.Evidence
