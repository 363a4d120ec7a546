import Ominull.Evidence.Chunks

/-! Uploads along the runs of the store. -/

namespace Ominull.Evidence

open Lib Call Option

/-! ## What leaves an upload alone -/

structure SameUpload (id : Str) (st st' : Store) : Prop where
  item : st'.items.find id = st.items.find id
  chunks : st'.chunksOf id = st.chunksOf id
  staged : st'.staged id = st.staged id

section Frame

variable {st st' : Store} {id id' : Str} {it : EvidenceItem}

theorem SameUpload.refl (id : Str) (st : Store) : SameUpload id st st := ⟨rfl, rfl, rfl⟩

theorem SameUpload.trans {st'' : Store} (h : SameUpload id st st') (h' : SameUpload id st' st'') :
    SameUpload id st st'' :=
  ⟨h'.item.trans h.item, h'.chunks.trans h.chunks, h'.staged.trans h.staged⟩

theorem SameUpload.inv {C : Crypto} {accepted : List Accepted} (h : SameUpload id st st')
    (hinv : UploadInv C id st accepted) : UploadInv C id st' accepted := by
  intro it hit hstatus
  rw [h.item] at hit
  rw [h.chunks, h.staged]
  exact hinv it hit hstatus

theorem Write.sameUpload {x : Target} (hw : Write st x st') (hne : x.item ≠ some id) : SameUpload id st st' := by
  have hitem : ∀ {itemID : Str}, some itemID ≠ some id → itemID ≠ id := fun h heq => h (congrArg some heq)
  cases hw with
  | bundle h | object x h | hold id' hold => exact ⟨rfl, rfl, rfl⟩
  | item hstatus hkey h | stored size hstatus hobject h =>
    exact ⟨by rw [Table.find_insert h, if_neg (hitem hne)], rfl, rfl⟩
  | staging file h =>
    refine ⟨rfl, rfl, ?_⟩
    show ((st.staging.upsert _).find id).elim _ _ = _
    rw [Table.find_upsert, if_neg (hitem hne)]
    rfl
  | chunk h hup => exact ⟨rfl, (chunksOf_insert h id).trans (if_neg (hitem hne)), rfl⟩
  | received n h =>
    refine ⟨?_, rfl, rfl⟩
    exact Table.find_update_other st.items (fun i => { i with receivedBytes := n }) (fun _ => rfl) (hitem hne)
  | completed sha256 key size h hobject =>
    refine ⟨?_, rfl, rfl⟩
    exact Table.find_update_other st.items (fun i => i.complete sha256 _ key) (fun _ => rfl) (hitem hne)
  | unstaged id' itemID =>
    refine ⟨rfl, rfl, ?_⟩
    show ((st.staging.filter _).find id).elim _ _ = _
    rw [Table.find_filter_ne _ (hitem hne)]
    rfl

theorem Writes.sameUpload {p : Target → Prop} (h : Writes p st st') (hp : ∀ x, p x → x.item ≠ some id) :
    SameUpload id st st' :=
  Run.monotone (I := fun _ => True) (SameUpload.refl id) (fun _ _ _ => SameUpload.trans)
    (fun _ _ _ _ _ => trivial) (fun _ x _ _ hw => hw.2.sameUpload (hp x hw.1)) h trivial

theorem Issue.sameUpload (hw : Issue st id' st') : SameUpload id st st' := by
  cases hw
  exact ⟨rfl, rfl, rfl⟩

/-- Removing another bundle leaves the item and its chunks. -/
theorem Removal.sameUpload (hw : Removal st id' st') (hit : st.items.find id = some it)
    (hne : id' ≠ it.bundleID) : SameUpload id st st' := by
  cases hw with
  | object digest h => exact ⟨rfl, rfl, rfl⟩
  | rows chunks items receipts bundles =>
    refine ⟨?_, ?_, rfl⟩
    · cases items
      · rfl
      · show (st.items.filter _).find id = _
        rw [Table.find_filter, hit, filter_some, if_pos]
        simpa using hne.symm
    · cases chunks
      · rfl
      · show (st.chunks.rows.filter _).filter _ = st.chunks.rows.filter _
        rw [List.filter_filter]
        refine List.filter_congr fun c _ => ?_
        by_cases hc : c.itemID = id
        · -- no item of the bundle that is removed has this id
          have hnot : id ∉ (st.items.rows.filter (·.bundleID = id')).map (·.id) := by
            intro hmem
            obtain ⟨x, hx, hxid⟩ := List.mem_map.mp hmem
            obtain ⟨hx, hbundle⟩ := List.mem_filter.mp hx
            have heq : x = it :=
              Table.eq_of_key hx (Table.mem_of_find hit) (hxid.trans (Table.key_of_find hit).symm)
            rw [decide_eq_true_eq, heq] at hbundle
            exact hne hbundle.symm
          simp [hc, hnot]
        · simp [hc]

theorem Removals.sameUpload {p : Str → Prop} (h : Removals p st st') (hit : st.items.find id = some it)
    (hp : ¬p it.bundleID) : SameUpload id st st' := by
  refine Run.monotone (I := fun s => s.items.find id = some it) (SameUpload.refl id)
    (fun _ _ _ => SameUpload.trans) ?_ ?_ h hit
  · intro s id' t hs hw
    rw [(hw.2.sameUpload hs fun hid => hp (hid ▸ hw.1)).item]
    exact hs
  · exact fun s id' t hs hw => hw.2.sameUpload hs fun hid => hp (hid ▸ hw.1)

end Frame

/-! ## Runs -/

/-- The store with the chunks it has accepted for items that were being uploaded. -/
structure Uploads where
  store : Store := {}
  accepted : List (Str × Accepted) := []

/-- The chunk an operation sends for an item that is being uploaded. -/
def Op.chunk (st : Store) : Op → Option (Str × Accepted)
  | .storeItemChunk _ _ itemID _ offset _ data =>
    ((st.items.find itemID).filter (·.status = .uploading)).map fun _ => (itemID, ⟨offset.toInt.toNat, data⟩)
  | _ => none

def Uploads.step (cfg : Config) (u : Uploads) (e : Event) : Option Uploads :=
  let result := (e.op.call cfg).exec u.store e.outcomes
  some ⟨result.2, u.accepted ++ if result.1.isOk then (e.op.chunk u.store).toList else []⟩

def acceptedFor (accepted : List (Str × Accepted)) (id : Str) : List Accepted :=
  (accepted.filter (·.1 = id)).map Prod.snd

def Op.DeclaredSize (id : Str) (st : Store) : Op → Prop
  | .storeItemChunk _ _ itemID _ _ total _ => ∀ it ∈ st.items.find itemID, itemID = id → total.toInt = it.sizeBytes
  | _ => True

/-- Ids of items are new, and no prune selects the bundle of an item that is being uploaded. -/
def Op.Undisturbed (id : Str) (u : Uploads) : Op → Prop
  | .createItem _ itemID _ _ _ _ _ _ => itemID = id →
      u.store.chunksOf id = [] ∧ u.store.staged id = [] ∧ acceptedFor u.accepted id = []
  | .storeItem _ itemID _ _ _ _ _ _ _ => itemID ≠ id
  | .pruneExpiredBundles now => ∀ it ∈ u.store.items.find id, ¬u.store.Prunable now it.bundleID
  | _ => True

/-- The digests of a chunk, and of what would be stored of the item, are not those of other bytes. -/
def Op.NoCollision (cfg : Config) (id : Str) (st : Store) : Op → Prop
  | .storeItemChunk keys tenantID itemID _ offset _ data => ∀ it ∈ st.items.find itemID, itemID = id →
      (∀ c ∈ st.chunksOf id, computeDigest cfg.crypto (c.span.of (st.staged id)) =
        computeDigest cfg.crypto data → c.span.of (st.staged id) = data) ∧
      Evidence.NoCollision cfg st keys tenantID it (writeAt (st.staged id) offset.toInt.toNat data)
  | _ => True

structure Regular (cfg : Config) (id : Str) (u : Uploads) (e : Event) : Prop where
  size : e.op.DeclaredSize id u.store
  undisturbed : e.op.Undisturbed id u
  collision : e.op.NoCollision cfg id u.store

section Runs

variable {cfg : Config} {u u' : Uploads} {id : Str} {e : Event}

theorem acceptedFor_append (l l' : List (Str × Accepted)) (id : Str) :
    acceptedFor (l ++ l') id = acceptedFor l id ++ acceptedFor l' id := by
  unfold acceptedFor
  rw [List.filter_append, List.map_append]

theorem step_other (h : u.step cfg e = some u') (hchunk : ∀ x ∈ e.op.chunk u.store, x.1 ≠ id) :
    acceptedFor u'.accepted id = acceptedFor u.accepted id := by
  cases h
  rw [acceptedFor_append]
  refine (congrArg _ ?_).trans (List.append_nil _)
  unfold acceptedFor
  split
  · rw [List.map_eq_nil_iff, List.filter_eq_nil_iff]
    intro x hx
    simpa using hchunk x (mem_toList.mp hx)
  · rfl

theorem Uploads.step_effect (h : u.step cfg e = some u') : e.op.Effect u.store u'.store := by
  cases h
  exact Evidence.step_effect rfl

/-- What becomes of an upload: the invariant is kept, and an item that becomes complete is done. -/
structure Kept (cfg : Config) (id : Str) (st st' : Store) (accepted : List Accepted) : Prop where
  inv : UploadInv cfg.crypto id st' accepted
  done : ∀ it, st.items.find id = some it → it.status = .uploading → Done cfg id st' accepted

theorem SameUpload.kept {st st' : Store} {accepted : List Accepted} (hsame : SameUpload id st st')
    (hinv : UploadInv cfg.crypto id st accepted) : Kept cfg id st st' accepted :=
  ⟨hsame.inv hinv, fun _ hit hstatus => .of_uploading (hsame.item.trans hit) hstatus⟩

theorem Upload.empty (C : Crypto) (size : Int) : Upload C size 0 [] [] [] := by
  refine .inr ⟨⟨?_, ?_, ?_, ?_, List.Pairwise.nil, ?_⟩, [], List.Sublist.refl _, rfl, .inr ?_⟩
  all_goals exact fun _ h => (by cases h)

theorem createItem_kept {st : Store} {free : Option Int} {tenantID bundleID name contentType status : Str}
    {size : Int} {accepted : List Accepted} (hinv : UploadInv cfg.crypto id st accepted)
    (hchunks : st.chunksOf id = []) (hstaged : st.staged id = []) (haccepted : accepted = []) :
    Triple (fun s => s = st) (createItem free id tenantID bundleID name contentType size status)
      (fun _ s => Kept cfg id st s accepted) (fun s => Kept cfg id st s accepted) := by
  refine createItem_spec.mono ?_ fun s hs => hs ▸ (SameUpload.refl id st).kept hinv
  rintro it s ⟨hid, -, hstatus, -, hreceived, items, hinsert, rfl⟩
  have hfind : items.find id = some it := by
    rw [Table.find_insert hinsert, if_pos hid]
  refine ⟨.of_find hfind hchunks hstaged ?_, fun it' hit' => ?_⟩
  · rw [haccepted, hreceived]
    exact .empty _ _
  · rw [← hid, (Table.insert_rows hinsert).2] at hit'
    cases hit'

theorem kept_storeItemChunk (haead : RoundTrips cfg.aead) {keys : ItemKeys} {tenantID data : Str}
    {index offset total : Int64} {outcomes : List Bool}
    (hinv : UploadInv cfg.crypto id u.store (acceptedFor u.accepted id))
    (hok : Regular cfg id u ⟨.storeItemChunk keys tenantID id index offset total data, outcomes⟩)
    (h : u.step cfg ⟨.storeItemChunk keys tenantID id index offset total data, outcomes⟩ = some u') :
    Kept cfg id u.store u'.store (acceptedFor u'.accepted id) := by
  by_cases hup : ∃ it, u.store.items.find id = some it ∧ it.status = .uploading
  · obtain ⟨it, hit, hstatus⟩ := hup
    have hid : it.id = id := Table.key_of_find hit
    subst hid
    obtain ⟨hretry, hcollision⟩ := hok.collision it hit rfl
    have hcall : Triple (fun s => s = u.store)
        ((Op.storeItemChunk keys tenantID it.id index offset total data).call cfg)
        (fun _ s => Tracked cfg it.id s (acceptedFor u.accepted it.id ++ [⟨offset.toInt.toNat, data⟩]))
        (fun s => Tracked cfg it.id s (acceptedFor u.accepted it.id)) := by
      refine Triple.bind (storeItemChunk_upload haead hit hstatus (hinv it hit hstatus)
        (hok.size it hit rfl) total.toInt_lt hretry hcollision) fun _ => ?_
      exact Triple.of_forall fun s hs => Triple.pure hs
    have hchunk : (Op.storeItemChunk keys tenantID it.id index offset total data).chunk u.store =
        some (it.id, ⟨offset.toInt.toNat, data⟩) := by
      simp [Op.chunk, hit, hstatus]
    cases h
    rw [acceptedFor_append, hchunk]
    rcases hcall.exec_cases rfl outcomes with ⟨o, s, hexec, hs⟩ | ⟨e, s, hexec, hs⟩
    · have hlast : acceptedFor [(it.id, ⟨offset.toInt.toNat, data⟩)] it.id = [⟨offset.toInt.toNat, data⟩] := by
        simp [acceptedFor]
      rw [hexec]
      simp only [Except.isOk, Except.toBool, if_true, toList_some, hlast]
      exact ⟨hs.inv, fun _ _ _ => hs.done⟩
    · rw [hexec]
      simp only [Except.isOk, Except.toBool, Bool.false_eq_true, if_false]
      rw [show acceptedFor [] it.id = [] from rfl, List.append_nil]
      exact ⟨hs.inv, fun _ _ _ => hs.done⟩
  · have heffect := Uploads.step_effect h
    rw [step_other h]
    · refine (Writes.sameUpload heffect ?_).kept hinv
      rintro x ⟨⟨it, hit, hstatus, -⟩, -⟩ -
      exact hup ⟨it, hit, hstatus⟩
    · intro x hx
      obtain ⟨it, hit, -⟩ := map_eq_some_iff.mp hx
      obtain ⟨hit, hstatus⟩ := filter_eq_some_iff.mp hit
      exact absurd ⟨it, hit, by simpa using hstatus⟩ hup

theorem Kept.step (haead : RoundTrips cfg.aead)
    (hinv : UploadInv cfg.crypto id u.store (acceptedFor u.accepted id)) (hok : Regular cfg id u e)
    (h : u.step cfg e = some u') : Kept cfg id u.store u'.store (acceptedFor u'.accepted id) := by
  have heffect := Uploads.step_effect h
  obtain ⟨op, outcomes⟩ := e
  -- an operation that sends no chunk for the item
  have hother : (∀ x ∈ op.chunk u.store, x.1 ≠ id) → Kept cfg id u.store u'.store (acceptedFor u.accepted id) →
      Kept cfg id u.store u'.store (acceptedFor u'.accepted id) := by
    intro hchunk hkept
    rw [step_other h hchunk]
    exact hkept
  cases op with
  | storeItemChunk keys tenantID itemID index offset total data =>
    by_cases hid : itemID = id
    · subst hid
      exact kept_storeItemChunk haead hinv hok h
    · refine hother ?_ ((Writes.sameUpload heffect ?_).kept hinv)
      · intro x hx
        obtain ⟨-, -, rfl⟩ := map_eq_some_iff.mp hx
        exact hid
      · rintro x ⟨-, hitem⟩ heq
        exact hid (Option.some.inj (hitem.symm.trans heq))
  | createItem free itemID tenantID bundleID name contentType size status =>
    refine hother (fun x hx => by cases hx) ?_
    by_cases hid : itemID = id
    · subst hid
      obtain ⟨hchunks, hstaged, haccepted⟩ := hok.undisturbed rfl
      have hcall : Triple (fun s => s = u.store)
          ((Op.createItem free itemID tenantID bundleID name contentType size status).call cfg)
          (fun _ s => Kept cfg itemID u.store s (acceptedFor u.accepted itemID))
          (fun s => Kept cfg itemID u.store s (acceptedFor u.accepted itemID)) :=
        Triple.bind (createItem_kept hinv hchunks hstaged haccepted) fun _ =>
          Triple.of_forall fun s hs => Triple.pure hs
      cases h
      exact hcall.exec_state rfl
    · refine (Writes.sameUpload heffect ?_).kept hinv
      rintro x ⟨-, hitem, -⟩ heq
      exact hid (Option.some.inj (hitem.symm.trans heq))
  | storeItem free itemID keys tenantID bundleID name contentType status plaintext =>
    refine hother (fun x hx => by cases hx) ((Writes.sameUpload heffect ?_).kept hinv)
    rintro x ⟨-, hitem | ⟨hitem, -⟩⟩ heq
    · rw [hitem] at heq
      cases heq
    · exact hok.undisturbed (Option.some.inj (hitem.symm.trans heq))
  | createBundle | setLegalHold =>
    refine hother (fun x hx => by cases hx) ((Writes.sameUpload heffect ?_).kept hinv)
    rintro x ⟨-, hitem⟩ heq
    rw [hitem] at heq
    cases heq
  | setTenantQuota maxBytes =>
    obtain ⟨maxBytes', hstore⟩ := heffect
    refine hother (fun x hx => by cases hx) (SameUpload.kept ?_ hinv)
    rw [hstore]
    exact ⟨rfl, rfl, rfl⟩
  | finalizeBundle receiptID tenantID bundleID m pubKeyHex now =>
    refine hother (fun x hx => by cases hx) (SameUpload.kept ?_ hinv)
    rcases heffect with hstore | hissue
    · rw [hstore]
      exact .refl id _
    · exact hissue.sameUpload
  | pruneExpiredBundles now =>
    refine hother (fun x hx => by cases hx) ?_
    cases hit : u.store.items.find id with
    | some it => exact (Removals.sameUpload heffect hit (hok.undisturbed it hit)).kept hinv
    | none =>
      have hnone : ∀ it, u'.store.items.find id ≠ some it := by
        intro it hit'
        have hrow := ((Removals.remains heffect).items it (Table.mem_of_find hit')).1
        rw [← Table.key_of_find hit', Table.find_of_mem hrow] at hit
        cases hit
      exact ⟨fun it hit' => absurd hit' (hnone it), fun it hit' => by rw [hit] at hit'; cases hit'⟩

/-- In every run in which chunks come with the size their item was declared with, an item becomes
complete only when the accepted chunks tile it, and from then on reading it gives their bytes, as long
as no prune selects its bundle. -/
theorem chunks_assembled (haead : RoundTrips cfg.aead)
    (hrun : Run (Guarded (Regular cfg id) (StepOf (Uploads.step cfg))) {} u)
    (hok : Regular cfg id u e) (hstep : u.step cfg e = some u') {it it' : EvidenceItem}
    (hit : u.store.items.find id = some it) (hstatus : it.status = .uploading)
    (hit' : u'.store.items.find id = some it') (hcompleted : it'.status = .completed) :
    ∃ b data, u'.store.bundles.find it'.bundleID = some b ∧
      Tiles it'.sizeBytes (acceptedFor u'.accepted id) ∧
      (∀ a ∈ acceptedFor u'.accepted id, a.span.of data = a.data) ∧
      (data.length : Int) = it'.sizeBytes ∧ computeDigest cfg.crypto data = it'.sha256 ∧
      ∀ t, Run (Guarded (fun st e => e.op.Spares it'.bundleID st) (StepOf (Store.step cfg))) u'.store t →
        t.readItemData cfg b.tenantID id = some data := by
  have hinv : UploadInv cfg.crypto id u.store (acceptedFor u.accepted id) ∧ StoreInv u.store := by
    refine hrun.preserves
      (I := fun u => UploadInv cfg.crypto id u.store (acceptedFor u.accepted id) ∧ StoreInv u.store) ?_ ?_
    · rintro u e u' ⟨hinv, hstore⟩ ⟨hok, hstep⟩
      exact ⟨(Kept.step haead hinv hok hstep).inv, (Uploads.step_effect hstep).inv hstore⟩
    · exact ⟨fun it hit => (by cases hit), .empty⟩
  obtain ⟨b, data, hb, htiles, hplaced, hlength, hsha, hread⟩ :=
    (Kept.step haead hinv.1 hok hstep).done it hit hstatus it' hit' hcompleted
  refine ⟨b, data, hb, htiles, hplaced, hlength, hsha, fun t ht => ?_⟩
  have hkeeps := Keeps.of_run ((Uploads.step_effect hstep).inv hinv.2) ht
  have hid : it'.id = id := Table.key_of_find hit'
  rw [← hid] at hread ⊢
  exact (hkeeps.readItemData (mem_itemsOf.mpr ⟨Table.mem_of_find hit', rfl⟩) hcompleted hb).trans hread

/-! An item of six bytes in two chunks, the second one first and then again. -/

def createC (size : Int64) : Event :=
  ⟨.createItem none (str "i3") (str "t") (str "b1") (str "c") (str "text/plain") size (str "collected"), [true]⟩

def sendChunk (index offset total : Int64) (data : Str) : Event :=
  ⟨.storeItemChunk ItemKeys.sample (str "t") (str "i3") index offset total data, List.replicate 6 true⟩

def uploadsAfter (events : List Event) : Uploads := (runList (Uploads.step Config.sample) {} events).getD {}

def secondChunk : List Event := [openBundle, createC 6, sendChunk 1 3 6 (str "def"), sendChunk 1 3 6 (str "def")]

def firstChunk : Event := sendChunk 0 0 6 (str "abc")

instance NoCollision.decidable (cfg : Config) (st : Store) (keys : ItemKeys) (tenantID : Str)
    (it : EvidenceItem) (file : Str) : Decidable (NoCollision cfg st keys tenantID it file) :=
  inferInstanceAs (Decidable (∀ _ ∈ st.objects.find _, _))

instance Op.decidableDeclaredSize (id : Str) (st : Store) : (op : Op) → Decidable (op.DeclaredSize id st)
  | .createBundle .. | .createItem .. | .storeItem .. | .storeItemChunk .. | .finalizeBundle .. | .setLegalHold ..
  | .setTenantQuota .. | .pruneExpiredBundles .. => by dsimp only [DeclaredSize]; infer_instance

instance Op.decidableUndisturbed (id : Str) (u : Uploads) : (op : Op) → Decidable (op.Undisturbed id u)
  | .createBundle .. | .createItem .. | .storeItem .. | .storeItemChunk .. | .finalizeBundle .. | .setLegalHold ..
  | .setTenantQuota .. | .pruneExpiredBundles .. => by dsimp only [Undisturbed]; infer_instance

instance Op.decidableNoCollision (cfg : Config) (id : Str) (st : Store) :
    (op : Op) → Decidable (op.NoCollision cfg id st)
  | .createBundle .. | .createItem .. | .storeItem .. | .storeItemChunk .. | .finalizeBundle .. | .setLegalHold ..
  | .setTenantQuota .. | .pruneExpiredBundles .. => by dsimp only [NoCollision]; infer_instance

instance Regular.decidable (cfg : Config) (id : Str) (u : Uploads) (e : Event) : Decidable (Regular cfg id u e) :=
  decidable_of_iff (e.op.DeclaredSize id u.store ∧ e.op.Undisturbed id u ∧ e.op.NoCollision cfg id u.store)
    ⟨fun h => ⟨h.1, h.2.1, h.2.2⟩, fun h => ⟨h.size, h.undisturbed, h.collision⟩⟩

def assembled : Uploads := uploadsAfter (secondChunk ++ [firstChunk])

theorem roundTrips_sample : RoundTrips Aead.sample := by
  intro key nonce text aad
  simp [Aead.sample]

theorem chunks_assembled_sample : ∃ b data,
    Tiles 6 (acceptedFor assembled.accepted (str "i3")) ∧ data.length = 6 ∧
    (∀ a ∈ acceptedFor assembled.accepted (str "i3"), a.span.of data = a.data) ∧
    assembled.store.readItemData Config.sample (EvidenceBundle.tenantID b) (str "i3") = some data := by
  have hmeets : Meets (Uploads.step Config.sample) (Regular Config.sample (str "i3")) {} secondChunk := by
    decide +kernel
  have hlast : Regular Config.sample (str "i3") (uploadsAfter secondChunk) firstChunk := by decide +kernel
  have hbefore : ((uploadsAfter secondChunk).store.items.find (str "i3")).map (·.status) = some .uploading := by
    decide +kernel
  have hafter : (assembled.store.items.find (str "i3")).map (fun it => (it.status, it.sizeBytes)) =
      some (.completed, 6) := by decide +kernel
  obtain ⟨it, hit, hstatus⟩ := map_eq_some_iff.mp hbefore
  obtain ⟨it', hit', hboth⟩ := map_eq_some_iff.mp hafter
  obtain ⟨hcompleted, hsize⟩ := Prod.mk.inj hboth
  obtain ⟨b, data, -, htiles, hplaced, hlength, -, hread⟩ := chunks_assembled roundTrips_sample
    (run_of_runList rfl hmeets) hlast rfl hit hstatus hit' hcompleted
  rw [hsize] at htiles hlength
  exact ⟨b, data, htiles, by omega, hplaced, hread _ (Run.refl _)⟩

/-- An item that was declared with five bytes and whose only chunk says that there are three: it is
complete, its recorded size is five, and it cannot be read. -/
theorem item_completed_short :
    ((uploadsAfter [openBundle, createC 5, sendChunk 0 0 3 (str "abc")]).store.items.find (str "i3")).map
      (fun it => (it.status, it.sizeBytes)) = some (.completed, 5) ∧
    acceptedFor (uploadsAfter [openBundle, createC 5, sendChunk 0 0 3 (str "abc")]).accepted (str "i3") =
      [⟨0, str "abc"⟩] ∧
    (uploadsAfter [openBundle, createC 5, sendChunk 0 0 3 (str "abc")]).store.readItemData Config.sample
      (str "t") (str "i3") = none := by
  decide +kernel

end Runs

end Ominull.Evidence
