import Ominull.Evidence.Finalize

/-!
The single writes the calls of the store are made of, each with the bundle it is for. What a call
does, wherever it breaks off, is a run of such writes.
-/

namespace Ominull.Evidence

open Lib Call

/-- An item that is still being uploaded, and its bundle. -/
def Store.Uploading (st : Store) (itemID bundleID : Str) : Prop :=
  ∃ it, st.items.find itemID = some it ∧ it.status = .uploading ∧ it.bundleID = bundleID

instance (st : Store) (itemID bundleID : Str) : Decidable (st.Uploading itemID bundleID) :=
  decidable_of_iff ((st.items.find itemID).any fun it =>
      it.status = .uploading && it.bundleID = bundleID) (by
    cases h : st.items.find itemID <;> simp [Store.Uploading, h])

/-- What a write is for: a bundle, and an item of it. -/
structure Target where
  bundle : Str
  item : Option Str := none

inductive Write : Store → Target → Store → Prop
  | bundle {st : Store} {b : EvidenceBundle} {bundles : Table EvidenceBundle.id}
      (h : st.bundles.insert b = some bundles) : Write st ⟨b.id, none⟩ { st with bundles := bundles }
  | item {st : Store} {it : EvidenceItem} {items : Table EvidenceItem.id}
      (hstatus : it.status = .uploading) (hkey : it.encryptedKey = [])
      (h : st.items.insert it = some items) :
      Write st ⟨it.bundleID, some it.id⟩ { st with items := items }
  | object {st : Store} {f : Str × Str} {objects : FileTable} (x : Target)
      (h : st.objects.insert f = some objects) : Write st x { st with objects := objects }
  | stored (st : Store) {it : EvidenceItem} {items : Table EvidenceItem.id} (size : Int)
      (hstatus : it.status = .completed) (hobject : (st.objects.find it.storageDigest).isSome)
      (h : st.items.insert it = some items) :
      Write st ⟨it.bundleID, some it.id⟩
        { st with items := items, bundles := st.countItem it.bundleID size }
  | staging {st : Store} {itemID id : Str} (file : Str) (h : st.Uploading itemID id) :
      Write st ⟨id, some itemID⟩ { st with staging := st.staging.upsert (itemID, file) }
  | chunk (st : Store) {c : EvidenceChunk} {chunks : Table EvidenceChunk.key} {id : Str}
      (h : st.chunks.insert c = some chunks) (hup : st.Uploading c.itemID id) :
      Write st ⟨id, some c.itemID⟩ { st with chunks := chunks }
  | received {st : Store} {itemID id : Str} (n : Int) (h : st.Uploading itemID id) :
      Write st ⟨id, some itemID⟩ (st.receive itemID n)
  | completed {st : Store} {itemID id digest : Str} (sha256 encryptedKey : Str) (size : Int)
      (h : st.Uploading itemID id) (hobject : (st.objects.find digest).isSome) :
      Write st ⟨id, some itemID⟩ (st.completeItem itemID id sha256 digest encryptedKey size)
  | unstaged {st : Store} (id itemID : Str) :
      Write st ⟨id, some itemID⟩ { st with staging := st.staging.filter (·.1 ≠ itemID) }
  | hold {st : Store} (id : Str) (hold : Bool) :
      Write st ⟨id, none⟩
        { st with bundles := st.bundles.update id (fun b => { b with legalHold := hold }) fun _ => rfl }

/-- The issue of a receipt, and the bundle it is for. -/
inductive Issue : Store → Str → Store → Prop
  | receipt {st : Store} {id : Str} {m : Manifest} {r : EvidenceReceipt}
      {receipts : Table EvidenceReceipt.bundleID} (hid : r.bundleID = id)
      (h : st.receipts.insert r = some receipts) :
      Issue st id
        { st with
          receipts := receipts
          bundles := st.bundles.update id (·.finalized m r) fun _ => rfl }

/-- One removal of a prune, and the bundle that is pruned. -/
inductive Removal : Store → Str → Store → Prop
  | rows {st : Store} (id : Str) (chunks items receipts bundles : Bool) :
      Removal st id (st.deleteRows id chunks items receipts bundles)
  | object {st : Store} (id digest : Str) (h : ∀ it ∈ st.items.rows, it.storageDigest ≠ digest) :
      Removal st id { st with objects := st.objects.filter (·.1 ≠ digest) }

def Writes (p : Target → Prop) : Store → Store → Prop := Run (Guarded (fun _ x => p x) Write)

def Removals (p : Str → Prop) : Store → Store → Prop := Run (Guarded (fun _ id => p id) Removal)

variable {cfg : Config}

section Calls

variable {st st' st'' : Store} {p : Target → Prop} {x : Target} {id : Str}

theorem Writes.refl : Writes p st st := Run.refl st

theorem Writes.tail (h : Writes p st st') (hp : p x) (hw : Write st' x st'') : Writes p st st'' :=
  Run.tail h ⟨hp, hw⟩

theorem Writes.trans (h : Writes p st st') (h' : Writes p st' st'') : Writes p st st'' :=
  Run.trans h h'

theorem Writes.single (hp : p x) (hw : Write st x st') : Writes p st st' :=
  Writes.refl.tail hp hw

theorem writeObjectAtomic_spec {digest data : Str} :
    Triple (fun s => s = st) (writeObjectAtomic digest data)
      (fun _ s => (∃ objects, st.objects.insert (digest, data) = some objects ∧ s = { st with objects := objects }) ∨
        s = st ∧ (st.objects.find digest).isSome) (fun s => s = st) := by
  refine Triple.read ?_
  split
  · rename_i objects hinsert
    exact Triple.lastWrite rfl (.inl ⟨objects, hinsert, rfl⟩)
  · rename_i hinsert
    split
    · rename_i old hold
      split
      · refine Triple.pure (.inr ⟨rfl, ?_⟩)
        rw [hold]
        rfl
      · exact Triple.throw rfl
    · rename_i hnone
      obtain ⟨objects, hobjects⟩ := Table.insert_of_find_none (r := (digest, data)) hnone
      rw [hinsert] at hobjects
      cases hobjects

/-- After `writeObjectAtomic` the object is there, and nothing else has changed. -/
theorem writeObjectAtomic_triple {digest data : Str} (hp : p x) :
    Triple (fun s => s = st) (writeObjectAtomic digest data)
      (fun _ s => Writes p st s ∧ (s.objects.find digest).isSome ∧
        ∃ objects, s = { st with objects := objects }) (Writes p st) := by
  refine writeObjectAtomic_spec.mono ?_ fun s hs => hs ▸ .refl
  rintro _ s (⟨objects, hinsert, rfl⟩ | ⟨rfl, hsome⟩)
  · refine ⟨.single hp (.object x hinsert), ?_, objects, rfl⟩
    rw [Table.find_insert hinsert, if_pos rfl]
    rfl
  · exact ⟨.refl, hsome, s.objects, rfl⟩

variable {tenantID : Str} {now : Response.Time}

theorem createBundleWithID_writes {newID endpointID jobID profile : Str} {ttl : Response.Time}
    (hp : ∀ id, st.bundles.find id = none → p ⟨id, none⟩) :
    Triple (fun s => s = st) (createBundleWithID id newID tenantID endpointID jobID profile ttl now)
      (fun _ => Writes p st) (Writes p st) := by
  refine Triple.read ?_
  split
  · exact Triple.pure .refl
  · rename_i bundles hinsert
    exact Triple.lastWrite .refl (.single (hp _ (Table.insert_rows hinsert |>.2)) (.bundle hinsert))

variable {free : Option Int} {itemID contentType status : Str}

theorem createItem_spec {name : Str} {size : Int} :
    Triple (fun s => s = st) (createItem free itemID tenantID id name contentType size status)
      (fun it s => it.id = itemID ∧ it.bundleID = id ∧ it.status = .uploading ∧ it.encryptedKey = [] ∧
        it.receivedBytes = 0 ∧ ∃ items, st.items.insert it = some items ∧ s = { st with items := items })
      (fun s => s = st) := by
  refine Triple.bind (ownedBundle_triple rfl) fun b => Triple.of_forall ?_
  rintro s ⟨rfl, -, -⟩
  refine Triple.read (Triple.refuse rfl fun _ => Triple.refuse rfl fun _ => ?_)
  dsimp only
  split
  · exact Triple.throw rfl
  · rename_i items hinsert
    exact Triple.write rfl (Triple.pure ⟨rfl, rfl, rfl, rfl, rfl, items, hinsert, rfl⟩)

theorem createItem_writes {name : Str} {size : Int} (hp : st.items.find itemID = none → p ⟨id, some itemID⟩) :
    Triple (fun s => s = st) (createItem free itemID tenantID id name contentType size status)
      (fun _ => Writes p st) (Writes p st) := by
  refine createItem_spec.mono ?_ fun s hs => hs ▸ .refl
  rintro it s ⟨rfl, rfl, hstatus, hkey, -, items, hinsert, rfl⟩
  exact .single (hp (Table.insert_rows hinsert).2) (.item hstatus hkey hinsert)

variable {keys : ItemKeys}

theorem storeItem_writes {name plaintext : Str} (hp : p ⟨id, none⟩)
    (hitem : st.items.find itemID = none → p ⟨id, some itemID⟩) : Triple (fun s => s = st)
      (storeItem cfg free itemID keys tenantID id name contentType status plaintext)
      (fun _ => Writes p st) (Writes p st) := by
  refine Triple.bind (ownedBundle_triple .refl) fun b => Triple.of_forall ?_
  rintro s ⟨rfl, -, -⟩
  refine Triple.read (Triple.refuse .refl fun _ => Triple.refuse .refl fun _ => ?_)
  refine Triple.bind (writeObjectAtomic_triple hp) fun _ => Triple.of_forall ?_
  rintro _ ⟨hw, hobject, objects, rfl⟩
  dsimp only
  split
  · exact Triple.throw hw
  · rename_i items hinsert
    have hstored := Write.stored { s with objects := objects } (plaintext.length : Int) rfl hobject hinsert
    exact Triple.write hw (Triple.pure (hw.tail (hitem (Table.insert_rows hinsert).2) hstored))

theorem setLegalHold_writes {hold : Bool} (hp : p ⟨id, none⟩) :
    Triple (fun s => s = st) (setLegalHold tenantID id hold) (fun _ => Writes p st) (Writes p st) := by
  refine Triple.bind (ownedBundle_triple .refl) fun b => Triple.of_forall ?_
  rintro s ⟨rfl, -, -⟩
  exact Triple.lastWrite .refl (.single hp (.hold id hold))

theorem finalizeBundle_issue {receiptID pubKeyHex : Str} {m : Manifest} :
    Triple (fun s => s = st) (finalizeBundle cfg receiptID tenantID id m pubKeyHex now)
      (fun _ s => s = st ∨ Issue st id s) (fun s => s = st ∨ Issue st id s) := by
  refine finalizeBundle_triple.mono ?_ fun _ => .inl
  rintro r _ ⟨-, b, receipts, hb, -, rfl, hinsert, -, rfl⟩
  have hid : b.id = id := Table.key_of_find hb
  exact .inr (.receipt hid hinsert)

theorem uploading_receive (h : st.Uploading itemID id) (n : Int) : (st.receive itemID n).Uploading itemID id := by
  obtain ⟨it, hit, hstatus, hid⟩ := h
  refine ⟨{ it with receivedBytes := n }, ?_, hstatus, hid⟩
  rw [Store.receive, Table.find_update_same, hit]
  rfl

variable {totalSize : Int} {st₀ : Store}

theorem completeItem_writes {assembled : Str} {it : EvidenceItem} (hp : p ⟨it.bundleID, some it.id⟩)
    (hw : Writes p st₀ st) (hup : st.Uploading it.id it.bundleID) :
    Triple (fun s => s = st) (completeItem cfg keys tenantID it totalSize assembled)
      (fun _ => Writes p st₀) (Writes p st₀) := by
  refine Triple.refuse hw fun _ => ?_
  refine Triple.bind ((writeObjectAtomic_triple hp).mono (fun _ _ h => h) fun _ h => hw.trans h)
    fun _ => Triple.of_forall ?_
  rintro _ ⟨hobjects, hobject, objects, rfl⟩
  have hw := hw.trans hobjects
  have hcomplete : Write { st with objects := objects } ⟨it.bundleID, some it.id⟩ _ :=
    .completed (computeDigest cfg.crypto assembled) (wrapDataKey cfg.aead cfg.masterKey keys) totalSize
      hup hobject
  have hdone := hw.tail hp hcomplete
  refine Triple.write hw ?_
  exact Triple.attempt (Triple.pure hdone) (Triple.pure (hdone.tail hp (.unstaged it.bundleID it.id)))

theorem addChunk_writes {chunkData : Str} {it : EvidenceItem} {index offset : Int} (hp : p ⟨it.bundleID, some it.id⟩)
    (hup : st.Uploading it.id it.bundleID) :
    Triple (fun s => s = st) (addChunk cfg keys tenantID it index offset totalSize chunkData)
      (fun _ => Writes p st) (Writes p st) := by
  refine Triple.read (Triple.write .refl ?_)
  generalize writeAt ((st.staging.find it.id).elim [] Prod.snd) offset.toNat chunkData = file
  have hstaged : Writes p st { st with staging := st.staging.upsert (it.id, file) } :=
    .single hp (.staging file hup)
  split
  · exact Triple.throw hstaged
  · rename_i chunks hinsert
    have hchunk : Writes p st { st with staging := st.staging.upsert (it.id, file), chunks := chunks } := by
      have hw := Write.chunk { st with staging := st.staging.upsert (it.id, file) } hinsert hup
      exact hstaged.tail hp hw
    have hreceived := hchunk.tail hp (.received (wrap64 (it.receivedBytes + chunkData.length)) hup)
    refine Triple.write hstaged (Triple.write hchunk ?_)
    split
    · refine completeItem_writes ?_ hreceived ?_
      · exact hp
      · exact uploading_receive hup _
    · exact Triple.pure hreceived

/-- A chunk is for its item, if the item is still being uploaded. -/
theorem storeItemChunk_writes {chunkData : Str} {index offset : Int}
    (hp : ∀ id, st.Uploading itemID id → p ⟨id, some itemID⟩) : Triple (fun s => s = st)
      (storeItemChunk cfg keys tenantID itemID index offset totalSize chunkData)
      (fun _ => Writes p st) (Writes p st) := by
  refine Triple.refuse .refl fun _ => Triple.read ?_
  split
  · exact Triple.throw .refl
  · rename_i it hit
    refine Triple.bind (ownedBundle_triple .refl) fun b => Triple.of_forall ?_
    rintro s ⟨rfl, -, -⟩
    split
    · exact Triple.pure .refl
    · rename_i hstatus
      split
      · exact Triple.pure .refl
      · exact Triple.throw .refl
      · have hid : it.id = itemID := Table.key_of_find hit
        have hup : s.Uploading it.id it.bundleID := by
          refine ⟨it, hid ▸ hit, ?_, rfl⟩
          cases h : it.status with
          | uploading => rfl
          | completed => exact absurd h hstatus
        exact addChunk_writes (hid ▸ hp _ (hid ▸ hup)) hup

variable {q : Str → Prop}

theorem Removals.tail (h : Removals q st st') (hp : q id) (hw : Removal st' id st'') : Removals q st st'' :=
  Run.tail h ⟨hp, hw⟩

theorem removeUnreferenced_removals {digests : List Str} (hp : q id) (hw : Removals q st₀ st) :
    Triple (fun s => s = st) (removeUnreferenced digests) (fun _ => Removals q st₀) (Removals q st₀) := by
  induction digests generalizing st with
  | nil => exact Triple.pure hw
  | cons digest rest ih =>
    refine Triple.read ?_
    split
    · rename_i hall
      have hnone : ∀ it ∈ st.items.rows, it.storageDigest ≠ digest := by
        intro it hit
        simpa using List.all_eq_true.mp hall it hit
      exact Triple.attempt (ih hw) (ih (hw.tail hp (.object id digest hnone)))
    · exact ih hw

theorem pruneBundles_removals {ids : List Str} (hp : ∀ id ∈ ids, q id) (hw : Removals q st₀ st) :
    Triple (fun s => s = st) (pruneBundles ids) (fun _ => Removals q st₀) (Removals q st₀) := by
  induction ids generalizing st with
  | nil => exact Triple.pure hw
  | cons id rest ih =>
    have hid : q id := hp id List.mem_cons_self
    have hrest : ∀ x ∈ rest, q x := fun x hx => hp x (List.mem_cons_of_mem _ hx)
    refine Triple.read (Triple.outcome fun c => Triple.outcome fun i => Triple.outcome fun r =>
      Triple.outcome fun b => ?_)
    have hdeleted := hw.tail hid (.rows id c i r b)
    refine Triple.attempt (ih hrest hw) ?_
    refine Triple.bind (removeUnreferenced_removals hid hdeleted) fun _ => Triple.of_forall ?_
    exact fun s hs => ih hrest hs

def Store.Prunable (st : Store) (now : Response.Time) (id : Str) : Prop :=
  ∃ b ∈ st.bundles.rows, b.id = id ∧ b.retentionExpiresAt ≤ now ∧ b.legalHold = false

theorem pruneExpiredBundles_removals : Triple (fun s => s = st) (pruneExpiredBundles now)
      (fun _ => Removals (st.Prunable now) st) (Removals (st.Prunable now) st) := by
  refine Triple.read (pruneBundles_removals ?_ (Run.refl st))
  intro id hid
  obtain ⟨b, hb, rfl⟩ := List.mem_map.mp hid
  obtain ⟨hb, hcond⟩ := List.mem_filter.mp hb
  simp only [Bool.and_eq_true, decide_eq_true_eq, Bool.not_eq_true'] at hcond
  exact ⟨b, hb, rfl, hcond.1, hcond.2⟩

end Calls

/-! ## Operations -/

/-- What an operation writes for, other than by a receipt or a prune. -/
def Op.Concerns (st : Store) : Op → Target → Prop
  | .createBundle .. => fun x => st.bundles.find x.bundle = none ∧ x.item = none
  | .createItem _ itemID _ bundleID _ _ _ _ => fun x =>
    x.bundle = bundleID ∧ x.item = some itemID ∧ st.items.find itemID = none
  | .storeItem _ itemID _ _ bundleID _ _ _ _ => fun x =>
    x.bundle = bundleID ∧ (x.item = none ∨ x.item = some itemID ∧ st.items.find itemID = none)
  | .storeItemChunk _ _ itemID _ _ _ _ => fun x => st.Uploading itemID x.bundle ∧ x.item = some itemID
  | .setLegalHold _ bundleID _ => fun x => x.bundle = bundleID ∧ x.item = none
  | .finalizeBundle .. | .setTenantQuota _ | .pruneExpiredBundles _ => fun _ => False

/-- What an operation may make of a store, wherever it breaks off. -/
def Op.Effect (st : Store) (op : Op) (st' : Store) : Prop :=
  match op with
  | .pruneExpiredBundles now => Removals (st.Prunable now) st st'
  | .finalizeBundle _ _ bundleID _ _ _ => st' = st ∨ Issue st bundleID st'
  | .setTenantQuota _ => ∃ maxBytes, st' = { st with maxTenantQuotaBytes := maxBytes }
  | op => Writes (op.Concerns st) st st'

/-- Only `FinalizeBundle` returns a receipt. -/
def Op.Returns : Op → Option EvidenceReceipt → Prop
  | .finalizeBundle .. => fun r => r.isSome
  | _ => fun r => r = none

theorem Op.call_triple (cfg : Config) (op : Op) (st : Store) :
    Triple (fun s => s = st) (op.call cfg) (fun r s => op.Returns r ∧ op.Effect st s) (op.Effect st) := by
  have hlast : ∀ {P : Store → Prop} {α : Type} {c : StoreCall α} {r : α → Option EvidenceReceipt}
      {R : Option EvidenceReceipt → Prop}, (∀ a, R (r a)) → Triple (fun s => s = st) c (fun _ => P) P →
      Triple (fun s => s = st) (c >>= fun a => pure (r a)) (fun r s => R r ∧ P s) P := by
    intro P α c r R hR hc
    exact hc.bind fun a => Triple.of_forall fun s hs => Triple.pure ⟨hR a, hs⟩
  cases op with
  | createBundle => exact hlast (fun _ => rfl) (createBundleWithID_writes fun _ h => ⟨h, rfl⟩)
  | createItem => exact hlast (fun _ => rfl) (createItem_writes fun h => ⟨rfl, rfl, h⟩)
  | storeItem => exact hlast (fun _ => rfl) (storeItem_writes ⟨rfl, .inl rfl⟩ fun h => ⟨rfl, .inr ⟨rfl, h⟩⟩)
  | storeItemChunk => exact hlast (fun _ => rfl) (storeItemChunk_writes fun _ h => ⟨h, rfl⟩)
  | finalizeBundle => exact hlast (fun _ => rfl) finalizeBundle_issue
  | setLegalHold => exact hlast (fun _ => rfl) (setLegalHold_writes ⟨rfl, rfl⟩)
  | setTenantQuota maxBytes =>
    exact Triple.attempt (Triple.pure ⟨rfl, st.maxTenantQuotaBytes, rfl⟩)
      (Triple.pure ⟨rfl, maxBytes.toInt, rfl⟩)
  | pruneExpiredBundles => exact hlast (fun _ => rfl) pruneExpiredBundles_removals

theorem step_effect {st st' : Store} {e : Event} (h : st.step cfg e = some st') : e.op.Effect st st' := by
  cases h
  exact ((e.op.call_triple cfg st).mono (fun _ _ h => h.2) fun _ h => h).exec_state rfl

end Ominull.Evidence
