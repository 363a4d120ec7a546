import Ominull.Evidence.Bundles

/-!
What retention leaves: a bundle that no prune selects loses nothing, and no prune takes the object of
an item that stays.
-/

namespace Ominull.Evidence

open Lib Call

/-- A bundle's row, whatever has been counted, held or finalized since. -/
structure EvidenceBundle.Keeps (b b' : EvidenceBundle) : Prop where
  id : b'.id = b.id
  tenantID : b'.tenantID = b.tenantID
  endpointID : b'.endpointID = b.endpointID
  jobID : b'.jobID = b.jobID
  profile : b'.profile = b.profile
  retentionExpiresAt : b'.retentionExpiresAt = b.retentionExpiresAt

/-- An item's row; once the item is complete it is final. -/
structure EvidenceItem.Keeps (it it' : EvidenceItem) : Prop where
  id : it'.id = it.id
  bundleID : it'.bundleID = it.bundleID
  name : it'.name = it.name
  sizeBytes : it'.sizeBytes = it.sizeBytes
  completed : it.status = .completed → it' = it

structure Keeps (id : Str) (st st' : Store) : Prop where
  bundle : ∀ b ∈ st.bundles.rows, b.id = id → ∃ b' ∈ st'.bundles.rows, b.Keeps b'
  items : ∀ it ∈ st.itemsOf id, ∃ it' ∈ st'.itemsOf id, it.Keeps it'
  chunks : ∀ it ∈ st.itemsOf id, ∀ c ∈ st.chunks.rows, c.itemID = it.id → c ∈ st'.chunks.rows
  receipt : ∀ r ∈ st.receipts.rows, r.bundleID = id → r ∈ st'.receipts.rows
  object : ∀ it ∈ st.itemsOf id, it.status = .completed →
    st'.objects.find it.storageDigest = st.objects.find it.storageDigest

section Rows

variable {st st' : Store} {id id' : Str}

theorem EvidenceBundle.Keeps.refl (b : EvidenceBundle) : b.Keeps b := ⟨rfl, rfl, rfl, rfl, rfl, rfl⟩

theorem EvidenceBundle.Keeps.trans {b b' b'' : EvidenceBundle} (h : b.Keeps b') (h' : b'.Keeps b'') : b.Keeps b'' :=
  ⟨h'.id.trans h.id, h'.tenantID.trans h.tenantID, h'.endpointID.trans h.endpointID,
    h'.jobID.trans h.jobID, h'.profile.trans h.profile, h'.retentionExpiresAt.trans h.retentionExpiresAt⟩

theorem EvidenceItem.Keeps.refl (it : EvidenceItem) : it.Keeps it := ⟨rfl, rfl, rfl, rfl, fun _ => rfl⟩

theorem EvidenceItem.Keeps.trans {it it' it'' : EvidenceItem} (h : it.Keeps it') (h' : it'.Keeps it'') :
    it.Keeps it'' := by
  refine ⟨h'.id.trans h.id, h'.bundleID.trans h.bundleID, h'.name.trans h.name,
    h'.sizeBytes.trans h.sizeBytes, fun hc => ?_⟩
  have heq := h.completed hc
  exact (h'.completed (heq ▸ hc)).trans heq

theorem Keeps.refl (id : Str) (st : Store) : Keeps id st st :=
  ⟨fun b hb _ => ⟨b, hb, .refl b⟩, fun it hit => ⟨it, hit, .refl it⟩, fun _ _ _ hc _ => hc,
    fun _ hr _ => hr, fun _ _ _ => rfl⟩

theorem Keeps.trans {st'' : Store} (h : Keeps id st st') (h' : Keeps id st' st'') : Keeps id st st'' := by
  constructor
  · intro b hb hid
    obtain ⟨b', hb', hkeeps⟩ := h.bundle b hb hid
    obtain ⟨b'', hb'', hkeeps'⟩ := h'.bundle b' hb' (hkeeps.id.trans hid)
    exact ⟨b'', hb'', hkeeps.trans hkeeps'⟩
  · intro it hit
    obtain ⟨it', hit', hkeeps⟩ := h.items it hit
    obtain ⟨it'', hit'', hkeeps'⟩ := h'.items it' hit'
    exact ⟨it'', hit'', hkeeps.trans hkeeps'⟩
  · intro it hit c hc hitem
    obtain ⟨it', hit', hkeeps⟩ := h.items it hit
    exact h'.chunks it' hit' c (h.chunks it hit c hc hitem) (hitem.trans hkeeps.id.symm)
  · exact fun r hr hid => h'.receipt r (h.receipt r hr hid) hid
  · intro it hit hstatus
    obtain ⟨it', hit', hkeeps⟩ := h.items it hit
    have heq := hkeeps.completed hstatus
    subst heq
    exact (h'.object it' hit' hstatus).trans (h.object it' hit hstatus)

/-! ## Writes -/

theorem Keeps.of_rows (hbundles : ∀ b ∈ st.bundles.rows, ∃ b' ∈ st'.bundles.rows, b.Keeps b')
    (hitems : ∀ it ∈ st.items.rows, ∃ it' ∈ st'.items.rows, it.Keeps it')
    (hchunks : ∀ c ∈ st.chunks.rows, c ∈ st'.chunks.rows)
    (hreceipts : ∀ r ∈ st.receipts.rows, r ∈ st'.receipts.rows)
    (hobjects : ∀ o ∈ st.objects.rows, o ∈ st'.objects.rows) (hinv : StoreInv st) :
    Keeps id st st' := by
  refine ⟨fun b hb _ => hbundles b hb, ?_, fun _ _ c hc _ => hchunks c hc, fun r hr _ => hreceipts r hr, ?_⟩
  · intro it hit
    obtain ⟨hrow, hid⟩ := mem_itemsOf.mp hit
    obtain ⟨it', hrow', hkeeps⟩ := hitems it hrow
    exact ⟨it', mem_itemsOf.mpr ⟨hrow', hkeeps.bundleID.trans hid⟩, hkeeps⟩
  · intro it hit hstatus
    obtain ⟨o, ho⟩ := Option.isSome_iff_exists.mp (hinv.object it (mem_itemsOf.mp hit).1 hstatus)
    have hkey : o.1 = it.storageDigest := Table.key_of_find ho
    rw [ho, ← hkey]
    exact Table.find_of_mem (hobjects o (Table.mem_of_find ho))

theorem bundles_kept (bundles : Table EvidenceBundle.id) : ∀ b ∈ bundles.rows, ∃ b' ∈ bundles.rows, b.Keeps b' :=
  fun b hb => ⟨b, hb, .refl b⟩

theorem items_kept (items : Table EvidenceItem.id) : ∀ it ∈ items.rows, ∃ it' ∈ items.rows, it.Keeps it' :=
  fun it hit => ⟨it, hit, .refl it⟩

theorem items_insert {it : EvidenceItem} {items items' : Table EvidenceItem.id}
    (h : items.insert it = some items') : ∀ x ∈ items.rows, ∃ x' ∈ items'.rows, x.Keeps x' :=
  fun x hx => ⟨x, Table.mem_insert_of_mem h hx, .refl x⟩

theorem bundles_update (bundles : Table EvidenceBundle.id) (f : EvidenceBundle → EvidenceBundle)
    (hf : ∀ b, (f b).id = b.id) (hkeeps : ∀ b : EvidenceBundle, b.Keeps (f b)) :
    ∀ b ∈ bundles.rows, ∃ b' ∈ (bundles.update id f hf).rows, b.Keeps b' := by
  intro b hb
  by_cases hid : b.id = id
  · exact ⟨f b, Table.mem_update.mpr (.inr ⟨b, hb, hid, rfl⟩), hkeeps b⟩
  · exact ⟨b, Table.mem_update.mpr (.inl ⟨hb, hid⟩), .refl b⟩

theorem items_update {itemID : Str} (f : EvidenceItem → EvidenceItem) (hf : ∀ it, (f it).id = it.id)
    (hup : st.Uploading itemID id') (hkeeps : ∀ it : EvidenceItem, it.status = .uploading → it.Keeps (f it)) :
    ∀ it ∈ st.items.rows, ∃ it' ∈ (st.items.update itemID f hf).rows, it.Keeps it' := by
  intro it hit
  by_cases hid : it.id = itemID
  · obtain ⟨up, hfind, hstatus, -⟩ := hup
    have heq : it = up := Table.eq_of_key hit (Table.mem_of_find hfind) (hid.trans (Table.key_of_find hfind).symm)
    exact ⟨f it, Table.mem_update.mpr (.inr ⟨it, hit, hid, rfl⟩), hkeeps it (heq ▸ hstatus)⟩
  · exact ⟨it, Table.mem_update.mpr (.inl ⟨hit, hid⟩), .refl it⟩

theorem countItem_kept (st : Store) (id : Str) (size : Int) :
    ∀ b ∈ st.bundles.rows, ∃ b' ∈ (st.countItem id size).rows, b.Keeps b' :=
  bundles_update st.bundles _ _ fun _ => ⟨rfl, rfl, rfl, rfl, rfl, rfl⟩

/-- No write loses anything, of whatever bundle. -/
theorem Write.keeps {x : Target} (hw : Write st x st') (hinv : StoreInv st) : Keeps id st st' := by
  have hb := bundles_kept st.bundles
  have hi := items_kept st.items
  cases hw with
  | bundle h =>
    refine .of_rows (fun b hb => ?_) hi (fun _ h => h) (fun _ h => h) (fun _ h => h) hinv
    exact ⟨b, Table.mem_insert_of_mem h hb, .refl b⟩
  | item hstatus hkey h =>
    exact .of_rows hb (items_insert h) (fun _ h => h) (fun _ h => h) (fun _ h => h) hinv
  | object _ h =>
    exact .of_rows hb hi (fun _ h => h) (fun _ h => h) (fun _ => Table.mem_insert_of_mem h) hinv
  | stored size hstatus hobject h =>
    exact .of_rows (countItem_kept st _ size) (items_insert h) (fun _ h => h) (fun _ h => h) (fun _ h => h) hinv
  | staging file h | unstaged _ itemID => exact .of_rows hb hi (fun _ h => h) (fun _ h => h) (fun _ h => h) hinv
  | chunk h hup =>
    exact .of_rows hb hi (fun _ => Table.mem_insert_of_mem h) (fun _ h => h) (fun _ h => h) hinv
  | received n h =>
    refine .of_rows hb ?_ (fun _ h => h) (fun _ h => h) (fun _ h => h) hinv
    refine items_update (fun i => { i with receivedBytes := n }) (fun _ => rfl) h fun it hup => ?_
    exact ⟨rfl, rfl, rfl, rfl, fun hc => by rw [hup] at hc; cases hc⟩
  | completed sha256 key size h hobject =>
    refine .of_rows (countItem_kept st _ size) ?_ (fun _ h => h) (fun _ h => h) (fun _ h => h) hinv
    refine items_update (·.complete sha256 _ key) (fun _ => rfl) h fun it hup => ?_
    exact ⟨rfl, rfl, rfl, rfl, fun hc => by rw [hup] at hc; cases hc⟩
  | hold _ hold =>
    refine .of_rows ?_ hi (fun _ h => h) (fun _ h => h) (fun _ h => h) hinv
    exact bundles_update st.bundles (fun b => { b with legalHold := hold }) (fun _ => rfl)
      fun _ => ⟨rfl, rfl, rfl, rfl, rfl, rfl⟩

theorem Issue.keeps (hw : Issue st id' st') (hinv : StoreInv st) : Keeps id st st' := by
  obtain ⟨hid, h⟩ := hw
  refine .of_rows ?_ (items_kept st.items) (fun _ h => h) (fun _ => Table.mem_insert_of_mem h)
    (fun _ h => h) hinv
  exact bundles_update st.bundles (fun b => b.finalized _ _) (fun _ => rfl)
    fun _ => ⟨rfl, rfl, rfl, rfl, rfl, rfl⟩

theorem Writes.keeps {p : Target → Prop} (h : Writes p st st') (hinv : StoreInv st) : Keeps id st st' :=
  Run.monotone (Keeps.refl id) (fun _ _ _ => Keeps.trans) (fun _ _ _ hinv hw => hw.2.inv hinv)
    (fun _ _ _ hinv hw => hw.2.keeps hinv) h hinv

/-! ## Removals -/

theorem SameBundle.keeps (h : SameBundle id st st')
    (hchunks : ∀ it ∈ st.itemsOf id, ∀ c ∈ st.chunks.rows, c.itemID = it.id → c ∈ st'.chunks.rows) :
    Keeps id st st' := by
  refine ⟨?_, ?_, hchunks, ?_, h.object⟩
  · rintro b hb rfl
    exact ⟨b, Table.mem_of_find (h.bundle.trans (Table.find_of_mem hb)), .refl b⟩
  · exact fun it hit => ⟨it, h.items ▸ hit, .refl it⟩
  · rintro r hr rfl
    exact Table.mem_of_find (h.receipt.trans (Table.find_of_mem hr))

theorem Removal.keeps (hw : Removal st id' st') (hne : id' ≠ id) : Keeps id st st' := by
  refine (hw.same hne).keeps ?_
  intro it hit c hc hitem
  obtain ⟨hrow, hid⟩ := mem_itemsOf.mp hit
  cases hw with
  | object digest h => exact hc
  | rows chunks items receipts bundles =>
    cases chunks
    · exact hc
    · refine Table.mem_filter.mpr ⟨hc, ?_⟩
      -- the item of the chunk is no item of the bundle that is deleted
      simp only [decide_eq_true_eq, List.mem_map, List.mem_filter, not_exists, not_and]
      rintro x ⟨hx, hxid⟩ heq
      refine hne ?_
      rw [← hxid, ← hid, Table.eq_of_key hx hrow (heq.trans hitem)]

theorem Removals.keeps {p : Str → Prop} (h : Removals p st st') (hp : ¬p id) : Keeps id st st' := by
  refine Run.monotone (I := fun _ => True) (Keeps.refl id) (fun _ _ _ => Keeps.trans)
    (fun _ _ _ _ _ => trivial) ?_ h trivial
  intro s id' t _ hw
  exact hw.2.keeps fun hid => hp (hid ▸ hw.1)

/-- What is there after removals was there before, and what it is read from is unchanged. -/
structure Remains (st st' : Store) : Prop where
  items : ∀ it ∈ st'.items.rows, it ∈ st.items.rows ∧
    st'.objects.find it.storageDigest = st.objects.find it.storageDigest
  bundles : ∀ b ∈ st'.bundles.rows, b ∈ st.bundles.rows

theorem Removal.remains (hw : Removal st id st') : Remains st st' := by
  refine ⟨fun it hit => hw.mem_items hit, ?_⟩
  intro b hb
  cases hw with
  | object digest h => exact hb
  | rows chunks items receipts bundles =>
    cases bundles
    · exact hb
    · exact (Table.mem_filter.mp hb).1

theorem Remains.trans {st'' : Store} (h : Remains st st') (h' : Remains st' st'') : Remains st st'' := by
  refine ⟨fun it hit => ?_, fun b hb => h.bundles b (h'.bundles b hb)⟩
  obtain ⟨hit', hobject'⟩ := h'.items it hit
  obtain ⟨hit, hobject⟩ := h.items it hit'
  exact ⟨hit, hobject'.trans hobject⟩

theorem Removals.remains {p : Str → Prop} (h : Removals p st st') : Remains st st' :=
  Run.monotone (I := fun _ => True) (fun _ => ⟨fun _ hit => ⟨hit, rfl⟩, fun _ hb => hb⟩)
    (fun _ _ _ => Remains.trans) (fun _ _ _ _ _ => trivial) (fun _ _ _ _ hw => hw.2.remains) h trivial

theorem Remains.readItemData {cfg : Config} {tenantID : Str} {it : EvidenceItem} (h : Remains st st')
    (hit : it ∈ st'.items.rows) (hb : (st'.bundles.find it.bundleID).isSome) :
    st'.readItemData cfg tenantID it.id = st.readItemData cfg tenantID it.id := by
  obtain ⟨hit', hobject⟩ := h.items it hit
  obtain ⟨b, hfind⟩ := Option.isSome_iff_exists.mp hb
  have hfind' : st.bundles.find it.bundleID = some b := by
    rw [← Table.key_of_find hfind]
    exact Table.find_of_mem (h.bundles b (Table.mem_of_find hfind))
  unfold Store.readItemData
  rw [Table.find_of_mem hit, Table.find_of_mem hit']
  simp only [Option.bind_eq_bind, Option.bind_some, hfind, hfind', hobject]

end Rows

/-! ## Retention -/

def Op.Spares (id : Str) (st : Store) : Op → Prop
  | .pruneExpiredBundles now => ¬st.Prunable now id
  | _ => True

section Runs

variable {cfg : Config} {s t : Store} {id : Str}

theorem step_keeps {e : Event} (hinv : StoreInv s) (hok : e.op.Spares id s) (h : s.step cfg e = some t) :
    Keeps id s t := by
  obtain ⟨op, outcomes⟩ := e
  have heffect := step_effect h
  cases op with
  | pruneExpiredBundles now => exact Removals.keeps heffect hok
  | finalizeBundle receiptID tenantID bundleID m pubKeyHex now =>
    rcases heffect with rfl | hissue
    · exact Keeps.refl id _
    · exact hissue.keeps hinv
  | setTenantQuota maxBytes =>
    obtain ⟨maxBytes', rfl⟩ := heffect
    exact .of_rows (bundles_kept s.bundles) (items_kept s.items) (fun _ h => h) (fun _ h => h)
      (fun _ h => h) hinv
  | _ => exact Writes.keeps heffect hinv

theorem Keeps.of_run (hinv : StoreInv s)
    (hrun : Run (Guarded (fun st e => e.op.Spares id st) (StepOf (Store.step cfg))) s t) : Keeps id s t := by
  refine Run.monotone (Keeps.refl id) (fun _ _ _ => Keeps.trans) ?_ ?_ hrun hinv
  · exact fun _ _ _ hinv hstep => (step_effect hstep.2).inv hinv
  · exact fun _ _ _ hinv hstep => step_keeps hinv hstep.1 hstep.2

/-- A bundle that is held or has not expired whenever a prune comes loses nothing, and an item that
is listed after a prune has its object and is read as before. -/
theorem evidence_retained (hreach : Run (StepOf (Store.step cfg)) {} s) :
    (∀ id t, Run (Guarded (fun st e => e.op.Spares id st) (StepOf (Store.step cfg))) s t → Keeps id s t) ∧
    (∀ now outcomes t, s.step cfg ⟨.pruneExpiredBundles now, outcomes⟩ = some t →
      ∀ it ∈ t.items.rows, (t.bundles.find it.bundleID).isSome →
        (it.status = .completed → (t.objects.find it.storageDigest).isSome) ∧
        ∀ tenantID, t.readItemData cfg tenantID it.id = s.readItemData cfg tenantID it.id) := by
  have hinv := StoreInv.reached hreach
  constructor
  · exact fun id t hrun => .of_run hinv hrun
  · intro now outcomes t hstep it hit hb
    have hremains := Removals.remains (step_effect hstep)
    refine ⟨(step_effect hstep).inv hinv |>.object it hit, fun tenantID => ?_⟩
    exact hremains.readItemData hit hb

/-- A bundle under legal hold, beside one that is pruned. -/
def heldBeside : List Event :=
  [openBundle, storeA, openSecond, storeSecond, ⟨.setLegalHold (str "t") (str "b1") true, [true]⟩]

def pruneLater : Event := ⟨.pruneExpiredBundles (60 * 24 * 3600 * Response.second), List.replicate 6 true⟩

def prunedStore : Store :=
  ((pruneLater.op.call Config.sample).exec (storeAfter heldBeside) pruneLater.outcomes).2

theorem evidence_retained_sample : Keeps (str "b1") (storeAfter heldBeside) prunedStore ∧
    prunedStore.items.rows.map (·.id) = [str "i1"] ∧
    ∀ it ∈ prunedStore.items.rows, (prunedStore.objects.find it.storageDigest).isSome := by
  have hspared : pruneLater.op.Spares (str "b1") (storeAfter heldBeside) := by
    show ¬(storeAfter heldBeside).Prunable _ _
    decide +kernel
  have hlisted : ∀ it ∈ prunedStore.items.rows,
      it.status = .completed ∧ (prunedStore.bundles.find it.bundleID).isSome := by decide +kernel
  obtain ⟨hkeeps, hread⟩ := evidence_retained (storeAfter_run heldBeside)
  refine ⟨hkeeps _ _ ((Run.refl _).tailGuarded rfl hspared), by decide +kernel, fun it hit => ?_⟩
  obtain ⟨hstatus, hb⟩ := hlisted it hit
  exact (hread _ _ _ rfl it hit hb).1 hstatus

end Runs

end Ominull.Evidence
