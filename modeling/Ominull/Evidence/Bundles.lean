import Ominull.Evidence.Writes

/-!
What the writes for one bundle leave of the others: rows, items, receipts and the objects of their
items.
-/

namespace Ominull.Evidence

open Lib Call

/-- The object of a completed item is there, and an item that is not complete has no key. -/
structure StoreInv (st : Store) : Prop where
  object : ∀ it ∈ st.items.rows, it.status = .completed → (st.objects.find it.storageDigest).isSome
  key : ∀ it ∈ st.items.rows, it.status = .uploading → it.encryptedKey = []

structure SameBundle (id : Str) (st st' : Store) : Prop where
  bundle : st'.bundles.find id = st.bundles.find id
  items : st'.itemsOf id = st.itemsOf id
  receipt : st'.receipts.find id = st.receipts.find id
  object : ∀ it ∈ st.itemsOf id, it.status = .completed →
    st'.objects.find it.storageDigest = st.objects.find it.storageDigest

section Writes

variable {st st' : Store} {id id' : Str}

theorem SameBundle.refl (id : Str) (st : Store) : SameBundle id st st :=
  ⟨rfl, rfl, rfl, fun _ _ _ => rfl⟩

theorem SameBundle.trans {st'' : Store} (h : SameBundle id st st') (h' : SameBundle id st' st'') :
    SameBundle id st st'' := by
  refine ⟨h'.bundle.trans h.bundle, h'.items.trans h.items, h'.receipt.trans h.receipt, ?_⟩
  intro it hit hstatus
  exact (h'.object it (h.items ▸ hit) hstatus).trans (h.object it hit hstatus)

variable {it : EvidenceItem}

theorem mem_itemsOf : it ∈ st.itemsOf id ↔ it ∈ st.items.rows ∧ it.bundleID = id := by
  simp [Store.itemsOf]

theorem itemsOf_insert {items : Table EvidenceItem.id} (h : st.items.insert it = some items) (hne : it.bundleID ≠ id) :
    items.rows.filter (·.bundleID = id) = st.itemsOf id := by
  rw [(Table.insert_rows h).1, List.filter_append, List.filter_singleton]
  simp [hne, Store.itemsOf]

/-- The items of another bundle are not those an upload is about. -/
theorem itemsOf_update {itemID : Str} (f : EvidenceItem → EvidenceItem) (hf : ∀ i, (f i).id = i.id)
    (hup : st.Uploading itemID id') (hne : id' ≠ id) (hbundle : ∀ i, (f i).bundleID = i.bundleID) :
    (st.items.update itemID f hf).rows.filter (·.bundleID = id) = st.itemsOf id := by
  obtain ⟨it, hit, -, hid⟩ := hup
  have hbundle' : ∀ i : EvidenceItem, (if i.id = itemID then f i else i).bundleID = i.bundleID := by
    intro i
    split
    · exact hbundle i
    · rfl
  rw [Table.update, List.filter_map]
  have hcomp : (fun i : EvidenceItem => decide (i.bundleID = id)) ∘ (fun i => if i.id = itemID then f i else i) =
      fun i => decide (i.bundleID = id) := by
    funext i
    simp only [Function.comp_apply, hbundle']
  have hself : ∀ i ∈ st.itemsOf id, (if i.id = itemID then f i else i) = i := by
    intro i hi
    obtain ⟨hrow, hi⟩ := mem_itemsOf.mp hi
    refine if_neg fun hitem => hne ?_
    rw [← hid, ← hi, Table.eq_of_key hrow (Table.mem_of_find hit) (hitem.trans (Table.key_of_find hit).symm)]
  rw [hcomp]
  exact (List.map_congr_left hself).trans (List.map_id' _)

theorem find_object_insert {f : Str × Str} {objects : FileTable} (h : st.objects.insert f = some objects)
    {digest : Str} (hsome : (st.objects.find digest).isSome) : objects.find digest = st.objects.find digest := by
  obtain ⟨o, ho⟩ := Option.isSome_iff_exists.mp hsome
  rw [Table.find_insert_of_find h ho, ho]

theorem find_object_removed {digest : Str} (h : ∀ it ∈ st.items.rows, it.storageDigest ≠ digest)
    (hit : it ∈ st.items.rows) :
    (st.objects.filter (·.1 ≠ digest)).find it.storageDigest = st.objects.find it.storageDigest := by
  rw [Table.find_filter]
  cases ho : st.objects.find it.storageDigest with
  | none => rfl
  | some o =>
    have hkey : o.1 = it.storageDigest := Table.key_of_find ho
    simpa [hkey] using h it hit

theorem deleteRows_same (hne : id' ≠ id) (c i r b : Bool) : SameBundle id st (st.deleteRows id' c i r b) := by
  refine ⟨?_, ?_, ?_, fun _ _ _ => rfl⟩
  · cases b
    · rfl
    · exact Table.find_filter_ne _ hne
  · cases i
    · rfl
    · show ((st.items.rows.filter fun x => x.bundleID ≠ id').filter fun x => x.bundleID = id) = _
      rw [List.filter_filter]
      apply List.filter_congr
      intro x _
      by_cases hx : x.bundleID = id
      · simp [hx, hne.symm]
      · simp [hx]
  · cases r
    · rfl
    · exact Table.find_filter_ne _ hne

theorem find_countItem (hne : id' ≠ id) (size : Int) : (st.countItem id' size).find id = st.bundles.find id := by
  rw [Store.countItem, Table.find_update_other _ _ _ hne]

/-- A write for one bundle leaves every other as it is. -/
theorem Write.same {x : Target} (hw : Write st x st') (hinv : StoreInv st) (hne : x.bundle ≠ id) :
    SameBundle id st st' := by
  cases hw with
  | bundle h =>
    refine ⟨?_, rfl, rfl, fun _ _ _ => rfl⟩
    rw [Table.find_insert h, if_neg hne]
  | item hstatus hkey h => exact ⟨rfl, itemsOf_insert h hne, rfl, fun _ _ _ => rfl⟩
  | object _ h =>
    refine ⟨rfl, rfl, rfl, fun it hit hstatus => ?_⟩
    exact find_object_insert h (hinv.object it (mem_itemsOf.mp hit).1 hstatus)
  | stored size hstatus hobject h =>
    exact ⟨find_countItem hne size, itemsOf_insert h hne, rfl, fun _ _ _ => rfl⟩
  | staging file h | chunk h hup | unstaged _ itemID => exact ⟨rfl, rfl, rfl, fun _ _ _ => rfl⟩
  | received n h =>
    refine ⟨rfl, ?_, rfl, fun _ _ _ => rfl⟩
    exact itemsOf_update (fun i => { i with receivedBytes := n }) (fun _ => rfl) h hne fun _ => rfl
  | completed sha256 key size h hobject =>
    refine ⟨find_countItem hne size, ?_, rfl, fun _ _ _ => rfl⟩
    exact itemsOf_update (·.complete sha256 _ key) (fun _ => rfl) h hne fun _ => rfl
  | hold _ hold =>
    refine ⟨?_, rfl, rfl, fun _ _ _ => rfl⟩
    exact Table.find_update_other _ (fun b : EvidenceBundle => { b with legalHold := hold }) (fun _ => rfl) hne

theorem Issue.same (hw : Issue st id' st') (hne : id' ≠ id) : SameBundle id st st' := by
  obtain ⟨hid, h⟩ := hw
  refine ⟨?_, rfl, ?_, fun _ _ _ => rfl⟩
  · exact Table.find_update_other _ (fun b : EvidenceBundle => b.finalized _ _) (fun _ => rfl) hne
  · rw [Table.find_insert h, if_neg (hid ▸ hne)]

theorem Removal.same (hw : Removal st id' st') (hne : id' ≠ id) : SameBundle id st st' := by
  cases hw with
  | rows c i r b => exact deleteRows_same hne c i r b
  | object digest h =>
    exact ⟨rfl, rfl, rfl, fun it hit _ => find_object_removed h (mem_itemsOf.mp hit).1⟩

/-! ## The invariant -/

theorem StoreInv.insert {items : Table EvidenceItem.id} (hinv : StoreInv st) (h : st.items.insert it = some items)
    (hobject : it.status = .completed → (st.objects.find it.storageDigest).isSome)
    (hkey : it.status = .uploading → it.encryptedKey = []) {bundles : Table EvidenceBundle.id} :
    StoreInv { st with items := items, bundles := bundles } := by
  have hrows : ∀ x ∈ items.rows, x ∈ st.items.rows ∨ x = it := by
    intro x hx
    rw [(Table.insert_rows h).1, List.mem_append, List.mem_singleton] at hx
    exact hx
  constructor
  · intro x hx
    rcases hrows x hx with hx | rfl
    · exact hinv.object x hx
    · exact hobject
  · intro x hx
    rcases hrows x hx with hx | rfl
    · exact hinv.key x hx
    · exact hkey

theorem StoreInv.update {itemID : Str} (f : EvidenceItem → EvidenceItem) {hf : ∀ i, (f i).id = i.id}
    (hinv : StoreInv st)
    (hobject : ∀ i ∈ st.items.rows, (f i).status = .completed →
      (st.objects.find (f i).storageDigest).isSome)
    (hkey : ∀ i ∈ st.items.rows, (f i).status = .uploading → (f i).encryptedKey = [])
    {bundles : Table EvidenceBundle.id} :
    StoreInv { st with items := st.items.update itemID f hf, bundles := bundles } := by
  constructor
  · intro x (hx : x ∈ (st.items.update itemID f hf).rows)
    rcases Table.mem_update.mp hx with ⟨hx, -⟩ | ⟨i, hi, -, rfl⟩
    · exact hinv.object x hx
    · exact hobject i hi
  · intro x (hx : x ∈ (st.items.update itemID f hf).rows)
    rcases Table.mem_update.mp hx with ⟨hx, -⟩ | ⟨i, hi, -, rfl⟩
    · exact hinv.key x hx
    · exact hkey i hi

theorem Write.inv {x : Target} (hw : Write st x st') (hinv : StoreInv st) : StoreInv st' := by
  cases hw with
  | item hstatus hkey h =>
    exact hinv.insert h (fun hc => by rw [hstatus] at hc; cases hc) fun _ => hkey
  | object _ h =>
    refine ⟨fun it hit hstatus => ?_, hinv.key⟩
    have hobject := hinv.object it hit hstatus
    rw [find_object_insert h hobject]
    exact hobject
  | stored size hstatus hobject h =>
    exact hinv.insert h (fun _ => hobject) fun hc => by rw [hstatus] at hc; cases hc
  | received n h => exact hinv.update (fun i => { i with receivedBytes := n }) hinv.object hinv.key
  | completed sha256 key size h hobject =>
    exact hinv.update (·.complete sha256 _ key) (fun _ _ _ => hobject) nofun
  | bundle h | staging file h | chunk h hup | unstaged _ itemID | hold _ hold => exact ⟨hinv.object, hinv.key⟩

theorem Issue.inv (hw : Issue st id st') (hinv : StoreInv st) : StoreInv st' := by
  obtain ⟨hid, h⟩ := hw
  exact ⟨hinv.object, hinv.key⟩

/-- An item that is there after a removal was there before, and so is its object. -/
theorem Removal.mem_items (hw : Removal st id st') (hit : it ∈ st'.items.rows) :
    it ∈ st.items.rows ∧ st'.objects.find it.storageDigest = st.objects.find it.storageDigest := by
  cases hw with
  | rows c i r b =>
    refine ⟨?_, rfl⟩
    cases i
    · exact hit
    · exact (Table.mem_filter.mp hit).1
  | object digest h => exact ⟨hit, find_object_removed h hit⟩

theorem Removal.inv (hw : Removal st id st') (hinv : StoreInv st) : StoreInv st' := by
  constructor
  · intro it hit hstatus
    obtain ⟨hmem, hobject⟩ := hw.mem_items hit
    rw [hobject]
    exact hinv.object it hmem hstatus
  · exact fun it hit => hinv.key it (hw.mem_items hit).1

theorem Writes.inv {p : Target → Prop} (h : Writes p st st') (hinv : StoreInv st) : StoreInv st' :=
  h.preserves (fun _ _ _ hinv hw => hw.2.inv hinv) hinv

theorem Writes.same {p : Target → Prop} (h : Writes p st st') (hinv : StoreInv st)
    (hp : ∀ x, p x → x.bundle ≠ id) : SameBundle id st st' := by
  refine Run.monotone (SameBundle.refl id) (fun _ _ _ => SameBundle.trans)
    (fun _ _ _ hinv hw => hw.2.inv hinv) ?_ h hinv
  intro s x t hinv hw
  exact hw.2.same hinv (hp x hw.1)

theorem Removals.inv {p : Str → Prop} (h : Removals p st st') (hinv : StoreInv st) : StoreInv st' :=
  h.preserves (fun _ _ _ hinv hw => hw.2.inv hinv) hinv

theorem Removals.same {p : Str → Prop} (h : Removals p st st') (hp : ¬p id) : SameBundle id st st' := by
  refine Run.monotone (I := fun _ => True) (SameBundle.refl id) (fun _ _ _ => SameBundle.trans)
    (fun _ _ _ _ _ => trivial) ?_ h trivial
  intro s id' t _ hw
  exact hw.2.same fun hid => hp (hid ▸ hw.1)

theorem Op.Effect.inv {op : Op} (h : op.Effect st st') (hinv : StoreInv st) : StoreInv st' := by
  cases op with
  | pruneExpiredBundles now => exact Removals.inv h hinv
  | finalizeBundle receiptID tenantID bundleID m pubKeyHex now =>
    rcases h with rfl | hissue
    · exact hinv
    · exact hissue.inv hinv
  | setTenantQuota maxBytes =>
    obtain ⟨maxBytes', rfl⟩ := h
    exact ⟨hinv.object, hinv.key⟩
  | _ => exact Writes.inv h hinv

theorem StoreInv.empty : StoreInv {} := by
  constructor
  · intro it hit
    cases hit
  · intro it hit
    cases hit

theorem StoreInv.reached {cfg : Config} (h : Run (StepOf (Store.step cfg)) {} st) : StoreInv st :=
  h.preserves (fun _ _ _ hinv hstep => (step_effect hstep).inv hinv) .empty

theorem SameBundle.readItemData {cfg : Config} {tenantID : Str} (h : SameBundle id st st') (hinv : StoreInv st)
    (hit : it ∈ st.itemsOf id) : st'.readItemData cfg tenantID it.id = st.readItemData cfg tenantID it.id := by
  have hit' : it ∈ st'.itemsOf id := h.items ▸ hit
  obtain ⟨hrow, hid⟩ := mem_itemsOf.mp hit
  have hbundle : st'.bundles.find it.bundleID = st.bundles.find it.bundleID := hid ▸ h.bundle
  unfold Store.readItemData
  rw [Table.find_of_mem hrow, Table.find_of_mem (mem_itemsOf.mp hit').1]
  simp only [Option.bind_eq_bind, Option.bind_some, hbundle]
  cases hstatus : it.status with
  | completed => rw [h.object it hit hstatus]
  | uploading =>
    -- the key of such an item is empty and opens nothing
    have hkey : unwrapDataKey cfg.aead cfg.masterKey it.encryptedKey = none := by
      rw [hinv.key it hrow hstatus]
      rfl
    simp [hkey]

end Writes

/-! ## After a receipt -/

/-- The calls that leave a bundle alone once it has a receipt: those for another one, and
`FinalizeBundle`. -/
def Op.LeavesFinalized (id : Str) (st : Store) : Op → Prop
  | .finalizeBundle .. => True
  | .pruneExpiredBundles now => ¬st.Prunable now id
  | .createItem _ _ _ bundleID _ _ _ _ => bundleID ≠ id
  | .storeItem _ _ _ _ bundleID _ _ _ _ => bundleID ≠ id
  | .storeItemChunk _ _ itemID _ _ _ _ => ¬st.Uploading itemID id
  | .setLegalHold _ bundleID _ => bundleID ≠ id
  | .createBundle .. | .setTenantQuota _ => True

instance Store.decidablePrunable (st : Store) (now : Response.Time) (id : Str) :
    Decidable (st.Prunable now id) :=
  inferInstanceAs (Decidable (∃ _ ∈ st.bundles.rows, _))

instance Op.decidableLeavesFinalized (id : Str) (st : Store) (op : Op) : Decidable (op.LeavesFinalized id st) := by
  cases op <;> dsimp only [LeavesFinalized] <;> infer_instance

section Finalized

variable {cfg : Config} {st st' : Store} {id : Str}

theorem Issue.receipt_none (hw : Issue st id st') : st.receipts.find id = none := by
  obtain ⟨rfl, h⟩ := hw
  exact (Table.insert_rows h).2

theorem step_leavesFinalized {e : Event} (hinv : StoreInv st) (hb : (st.bundles.find id).isSome)
    (hr : (st.receipts.find id).isSome) (hok : e.op.LeavesFinalized id st) (h : st.step cfg e = some st') : SameBundle id st st' := by
  obtain ⟨op, outcomes⟩ := e
  have heffect := step_effect h
  cases op with
  | finalizeBundle receiptID tenantID bundleID m pubKeyHex now =>
    rcases heffect with rfl | hissue
    · exact SameBundle.refl id _
    · refine hissue.same fun hid => ?_
      rw [← hid, hissue.receipt_none] at hr
      cases hr
  | pruneExpiredBundles now => exact Removals.same heffect hok
  | setTenantQuota maxBytes =>
    obtain ⟨maxBytes', rfl⟩ := heffect
    exact ⟨rfl, rfl, rfl, fun _ _ _ => rfl⟩
  | createBundle =>
    refine Writes.same heffect hinv ?_
    rintro x ⟨hnone, -⟩ rfl
    rw [hnone] at hb
    cases hb
  | createItem | storeItem | setLegalHold =>
    exact Writes.same heffect hinv fun x hx hid => hok (hx.1.symm.trans hid)
  | storeItemChunk => exact Writes.same heffect hinv fun x hx hid => hok (hid ▸ hx.1)

/-- Once a receipt is issued, its bundle stays as it is in every run in which no item is created,
stored or uploaded in it. -/
theorem finalized_bundle_fixed {receiptID tenantID pubKeyHex : Str} {m : Manifest} {now : Response.Time}
    {outcomes : List Bool} {r : EvidenceReceipt} {s t : Store}
    (hreach : Run (StepOf (Store.step cfg)) {} st)
    (hfinal : (finalizeBundle cfg receiptID tenantID id m pubKeyHex now).exec st outcomes = (.ok r, s))
    (hrun : Run (Guarded (fun st e => e.op.LeavesFinalized id st) (StepOf (Store.step cfg))) s t) :
    t.receipts.find id = some r ∧ SameBundle id s t ∧
      ∀ it ∈ s.itemsOf id, ∀ tenantID,
        t.readItemData cfg tenantID it.id = s.readItemData cfg tenantID it.id := by
  obtain ⟨-, b, receipts, hb, -, hr, hinsert, -, hs⟩ := finalizeBundle_triple.of_exec rfl hfinal
  have hid : r.bundleID = id := by
    rw [hr]
    show b.id = id
    exact Table.key_of_find hb
  have hreceipt : s.receipts.find id = some r := by
    rw [hs]
    rw [Table.find_insert hinsert, if_pos hid]
  have hinv : StoreInv s := by
    rw [hs]
    exact (Issue.receipt hid hinsert).inv (StoreInv.reached hreach)
  have hbundle : (s.bundles.find id).isSome := by
    have hfind := Table.find_update_same st.bundles id (fun b : EvidenceBundle => b.finalized m r) fun _ => rfl
    rw [hb] at hfind
    rw [hs]
    exact Option.isSome_iff_exists.mpr ⟨_, hfind⟩
  -- along the run the receipt stays, and with it the reason why there is no second one
  have hsame : SameBundle id s t := by
    refine Run.monotone
      (I := fun u => StoreInv u ∧ (u.bundles.find id).isSome ∧ (u.receipts.find id).isSome)
      (SameBundle.refl id) (fun _ _ _ => SameBundle.trans) ?_ ?_ hrun ⟨hinv, hbundle, by rw [hreceipt]; rfl⟩
    · rintro u e v ⟨hinv, hb, hr⟩ ⟨hok, hstep⟩
      have hsame := step_leavesFinalized hinv hb hr hok hstep
      exact ⟨(step_effect hstep).inv hinv, hsame.bundle ▸ hb, hsame.receipt ▸ hr⟩
    · rintro u e v ⟨hinv, hb, hr⟩ ⟨hok, hstep⟩
      exact step_leavesFinalized hinv hb hr hok hstep
  refine ⟨hsame.receipt.trans hreceipt, hsame, ?_⟩
  intro it hit tenantID
  exact hsame.readItemData hinv hit

def openSecond : Event :=
  ⟨.createBundle (str "b2") [] (str "t") (str "e1") (str "j2") (str "diagnostic") 0 0, [true]⟩

def storeSecond : Event :=
  ⟨.storeItem none (str "i2") ItemKeys.sample (str "t") (str "b2") (str "a") (str "text/plain")
    (str "collected") (str "xyz"), [true, true]⟩

def finalizeA (receiptID : Str) : Event :=
  ⟨.finalizeBundle receiptID (str "t") (str "b1") (manifestOf (str "b1") (str "e1") (str "t") [itemA]) [] 0,
    [true]⟩

theorem storeAfter_run (events : List Event) : Run (StepOf (Store.step Config.sample)) {} (storeAfter events) := by
  unfold storeAfter
  cases h : runList (Store.step Config.sample) {} events with
  | none => exact Run.refl _
  | some t => exact runList_run h

theorem finalized_bundle_fixed_sample : ∃ r s t,
    (finalizeBundle Config.sample (str "r1") (str "t") (str "b1")
      (manifestOf (str "b1") (str "e1") (str "t") [itemA]) [] 0).exec (storeAfter [openBundle, storeA]) [true] =
        (.ok r, s) ∧
    runList (Store.step Config.sample) s [openSecond, storeSecond, finalizeA (str "r2")] = some t ∧
    t.receipts.find (str "b1") = some r ∧ SameBundle (str "b1") s t := by
  simp only [exists_and_left]
  refine exists_ok (by decide +kernel) fun r s hexec => ?_
  have hmeets : Meets (Store.step Config.sample) (fun st e => e.op.LeavesFinalized (str "b1") st) s
      [openSecond, storeSecond, finalizeA (str "r2")] := by
    rw [show s = _ from (congrArg Prod.snd hexec).symm]
    decide +kernel
  obtain ⟨hreceipt, hsame, -⟩ := finalized_bundle_fixed (storeAfter_run _) hexec (run_of_runList rfl hmeets)
  exact ⟨_, rfl, hreceipt, hsame⟩

/-- An item that is created after the receipt is an item of the bundle. -/
theorem item_added_after_receipt :
    ((storeAfter [openBundle, storeA, finalizeA (str "r1")]).receipts.find (str "b1")).isSome ∧
    ((storeAfter [openBundle, storeA, finalizeA (str "r1")]).itemsOf (str "b1")).map (·.name) = [str "a"] ∧
    ((storeAfter [openBundle, storeA, finalizeA (str "r1"), createB]).itemsOf (str "b1")).map (·.name) =
      [str "a", str "b"] := by
  decide +kernel

end Finalized

end Ominull.Evidence
