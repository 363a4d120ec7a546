import Ominull.Evidence.Store
import Ominull.Lib.Run

/-! What `FinalizeBundle` has checked when it issues a receipt. -/

namespace Ominull.Evidence

open Lib Call List

def Store.itemsOf (st : Store) (bundleID : Str) : List EvidenceItem :=
  st.items.rows.filter (·.bundleID = bundleID)

/-- A stored item is complete and is what the manifest says: as declared, and as received. -/
structure Matches (m : ManifestItem) (it : EvidenceItem) : Prop where
  completed : it.status = .completed
  name : it.name = m.name
  size : it.sizeBytes = m.sizeBytes
  received : it.receivedBytes = m.sizeBytes
  sha256 : it.sha256 = m.sha256

structure Corresponds (st : Store) (tenantID bundleID : Str) (m : Manifest) : Prop where
  items : ∃ l, l.Perm (st.itemsOf bundleID) ∧ List.Forall₂ Matches m.items l
  bundle : m.bundleID = bundleID
  tenant : m.tenantID = tenantID
  endpoint : (st.bundles.find bundleID).map (·.endpointID) = some m.endpointID

/-- Names are unique on both sides, items have the size they were declared with, and the manifest is
one of this bundle. -/
structure Unambiguous (st : Store) (tenantID bundleID : Str) (m : Manifest) : Prop where
  names : ((st.itemsOf bundleID).map (·.name)).Nodup
  manifestNames : (m.items.map (·.name)).Nodup
  sizes : ∀ it ∈ st.itemsOf bundleID, it.receivedBytes = it.sizeBytes
  bundle : m.bundleID = bundleID
  tenant : m.tenantID = tenantID
  endpoint : (st.bundles.find bundleID).map (·.endpointID) = some m.endpointID

/-! ## The checks -/

section Checks

variable {st : Store} {E : Store → Prop}

theorem ownedBundle_triple {tenantID bundleID : Str} (hE : E st) :
    Triple (fun s => s = st) (ownedBundle tenantID bundleID)
      (fun b s => s = st ∧ st.bundles.find bundleID = some b ∧ b.tenantID = tenantID) E := by
  apply Triple.read
  split
  · exact Triple.throw hE
  · rename_i b hb
    split
    · rename_i htenant
      exact Triple.pure ⟨rfl, hb, htenant⟩
    · exact Triple.throw hE

/-- Every item of the manifest has a stored one of its name that agrees with it. -/
theorem checkItems_none {stored : Table EvidenceItem.name} {items : List ManifestItem}
    (h : checkItems stored items = none) : ∀ m ∈ items, ∃ it, stored.find m.name = some it ∧
      it.status = .completed ∧ it.sizeBytes = m.sizeBytes ∧ it.sha256 = m.sha256 := by
  induction items with
  | nil =>
    intro m hm
    cases hm
  | cons x items ih =>
    unfold checkItems at h
    split at h
    · cases h
    · rename_i it hfind
      by_cases hstatus : it.status = .completed
      · by_cases hsize : it.sizeBytes = x.sizeBytes
        · by_cases hsha : it.sha256 = x.sha256
          · simp only [hstatus, hsize, hsha, ne_eq, not_true_eq_false, if_false] at h
            intro m hm
            rcases mem_cons.mp hm with rfl | hm
            · exact ⟨it, hfind, hstatus, hsize, hsha⟩
            · exact ih h m hm
          · simp [hstatus, hsize, hsha] at h
        · simp [hstatus, hsize] at h
      · simp [hstatus] at h

structure Checked (st : Store) (tenantID bundleID : Str) (m : Manifest) : Prop where
  owned : ∃ b, st.bundles.find bundleID = some b ∧ b.tenantID = tenantID
  count : m.items.length = (storedItems (st.bundleItems bundleID)).rows.length
  agree : checkItems (storedItems (st.bundleItems bundleID)) m.items = none

/-- A receipt is issued for a bundle that has none, of a manifest that was checked, and with it the
bundle is completed; a call that fails changes nothing. -/
theorem finalizeBundle_triple {cfg : Config} {receiptID tenantID bundleID pubKeyHex : Str}
    {m : Manifest} {now : Response.Time} :
    Triple (fun s => s = st) (finalizeBundle cfg receiptID tenantID bundleID m pubKeyHex now)
      (fun r s => Checked st tenantID bundleID m ∧ ∃ b receipts,
        st.bundles.find bundleID = some b ∧ b.tenantID = tenantID ∧
        r = newReceipt cfg st receiptID b m now ∧ st.receipts.insert r = some receipts ∧
        (∀ x ∈ st.receipts.rows, x.receiptID ≠ receiptID) ∧
        s = { st with
          receipts := receipts
          bundles := st.bundles.update bundleID (·.finalized m r) fun _ => rfl })
      (fun s => s = st) := by
  refine Triple.bind (ownedBundle_triple rfl) fun b => Triple.of_forall ?_
  rintro s ⟨rfl, hb, htenant⟩
  refine Triple.refuse rfl fun _ => Triple.read ?_
  refine Triple.refuse rfl fun hcount => Triple.refuse rfl fun hagree => ?_
  have hchecked : Checked s tenantID bundleID m := by
    refine ⟨⟨b, hb, htenant⟩, ?_, hagree⟩
    by_contra hne
    rw [if_pos hne] at hcount
    cases hcount
  refine Triple.refuse rfl fun hfresh => ?_
  have hfresh : ∀ x ∈ s.receipts.rows, x.receiptID ≠ receiptID := by
    intro x hx hid
    rw [if_pos (any_eq_true.mpr ⟨x, hx, by simpa using hid⟩)] at hfresh
    cases hfresh
  split
  · exact Triple.throw rfl
  · rename_i receipts hinsert
    refine Triple.write rfl ?_
    exact Triple.pure ⟨hchecked, b, receipts, hb, htenant, rfl, hinsert, hfresh, rfl⟩

end Checks

/-! ## What a receipt says -/

section Receipt

variable {st : Store} {tenantID bundleID : Str} {m : Manifest}

theorem bundleItems_perm (st : Store) (bundleID : Str) : (st.bundleItems bundleID).Perm (st.itemsOf bundleID) :=
  perm_insertionSort _ _

theorem Checked.found (h : Checked st tenantID bundleID m) :
    ∀ x ∈ m.items, ∃ it ∈ st.itemsOf bundleID, it.name = x.name ∧
      (storedItems (st.bundleItems bundleID)).find x.name = some it ∧
      it.status = .completed ∧ it.sizeBytes = x.sizeBytes ∧ it.sha256 = x.sha256 := by
  intro x hx
  obtain ⟨it, hfind, hit⟩ := checkItems_none h.agree x hx
  have hmem : it ∈ st.bundleItems bundleID := by
    refine (Table.mem_foldl_upsert (Table.mem_of_find hfind)).resolve_left fun hempty => ?_
    cases hempty.1
  exact ⟨it, (bundleItems_perm st bundleID).mem_iff.mp hmem, Table.key_of_find hfind, hfind, hit⟩

theorem Checked.length_eq (h : Checked st tenantID bundleID m) :
    m.items.length = ((st.itemsOf bundleID).map (·.name)).dedup.length := by
  have hperm := ((bundleItems_perm st bundleID).map (·.name)).dedup
  rw [h.count, storedItems, Table.length_foldl_upsert, hperm.length_eq]

theorem matched_names {items : List ManifestItem} {l : List EvidenceItem}
    (h : List.Forall₂ Matches items l) : l.map (·.name) = items.map (·.name) := by
  induction h with
  | nil => rfl
  | cons hm _ ih => rw [map_cons, map_cons, hm.name, ih]

theorem matched_exists {items : List ManifestItem} {l : List EvidenceItem}
    (h : List.Forall₂ Matches items l) {it : EvidenceItem} (hit : it ∈ l) : ∃ x, Matches x it := by
  induction h with
  | nil => cases hit
  | cons hm _ ih =>
    rcases mem_cons.mp hit with rfl | hit
    · exact ⟨_, hm⟩
    · exact ih hit

theorem Corresponds.names_nodup (h : Corresponds st tenantID bundleID m) (hchecked : Checked st tenantID bundleID m) :
    ((st.itemsOf bundleID).map (·.name)).Nodup ∧ (m.items.map (·.name)).Nodup := by
  obtain ⟨l, hperm, hall⟩ := h.items
  have hlen : m.items.length = (st.itemsOf bundleID).length := hall.length_eq.trans hperm.length_eq
  have hnodup : ((st.itemsOf bundleID).map (·.name)).Nodup := by
    have hdedup := hchecked.length_eq
    rw [hlen, ← length_map (f := (·.name))] at hdedup
    rw [← dedup_eq_self]
    exact (dedup_sublist _).eq_of_length hdedup.symm
  refine ⟨hnodup, ?_⟩
  rw [← matched_names hall]
  exact (hperm.map _).nodup_iff.mpr hnodup

theorem Unambiguous.corresponds (h : Unambiguous st tenantID bundleID m)
    (hchecked : Checked st tenantID bundleID m) : Corresponds st tenantID bundleID m := by
  choose! f hf using hchecked.found
  have hnames : (m.items.map f).map (·.name) = m.items.map (·.name) := by
    rw [map_map]
    exact map_congr_left fun x hx => (hf x hx).2.1
  refine ⟨⟨m.items.map f, ?_, ?_⟩, h.bundle, h.tenant, h.endpoint⟩
  · have hnodup : (m.items.map f).Nodup := List.Nodup.of_map _ (hnames ▸ h.manifestNames)
    have hsub : m.items.map f ⊆ st.itemsOf bundleID := by
      intro it hit
      obtain ⟨x, hx, rfl⟩ := mem_map.mp hit
      exact (hf x hx).1
    apply (subperm_of_subset hnodup hsub).perm_of_length_le
    rw [length_map, hchecked.length_eq, h.names.dedup, length_map]
  · rw [forall₂_map_right_iff]
    apply forall₂_same.mpr
    intro x hx
    obtain ⟨hmem, hname, -, hstatus, hsize, hsha⟩ := hf x hx
    exact ⟨hstatus, hname, hsize, (h.sizes _ hmem).trans hsize, hsha⟩

theorem Corresponds.unambiguous (h : Corresponds st tenantID bundleID m)
    (hchecked : Checked st tenantID bundleID m) : Unambiguous st tenantID bundleID m := by
  obtain ⟨hnames, hmanifest⟩ := h.names_nodup hchecked
  refine ⟨hnames, hmanifest, ?_, h.bundle, h.tenant, h.endpoint⟩
  intro it hit
  obtain ⟨l, hperm, hall⟩ := h.items
  obtain ⟨x, hx⟩ := matched_exists hall (hperm.mem_iff.mpr hit)
  rw [hx.received, hx.size]

/-- When a receipt is issued, the manifest corresponds to the bundle exactly if it is one of this
bundle, no name occurs twice on either side, and all items have the size they were declared with. -/
theorem receipt_corresponds_iff {cfg : Config} {receiptID pubKeyHex : Str} {now : Response.Time}
    {outcomes : List Bool} {st' : Store} {r : EvidenceReceipt}
    (h : (finalizeBundle cfg receiptID tenantID bundleID m pubKeyHex now).exec st outcomes = (.ok r, st')) :
    Corresponds st tenantID bundleID m ↔ Unambiguous st tenantID bundleID m := by
  have hchecked : Checked st tenantID bundleID m := (finalizeBundle_triple.of_exec rfl h).1
  exact ⟨fun hc => hc.unambiguous hchecked, fun hu => hu.corresponds hchecked⟩

end Receipt

/-! A bundle with one stored item, and one with an item that was never uploaded besides. -/

def Config.sample : Config := ⟨Crypto.sample, Aead.sample, List.replicate 32 7, str "receipt key"⟩

def ItemKeys.sample : ItemKeys where
  dataKey := List.replicate 32 1
  nonce := List.replicate 12 2
  wrapNonce := List.replicate 12 3
  dataKey_length := rfl
  nonce_length := rfl
  wrapNonce_length := rfl

def openBundle : Event :=
  ⟨.createBundle (str "b1") [] (str "t") (str "e1") (str "j1") (str "diagnostic") 0 0, [true]⟩

def storeA : Event :=
  ⟨.storeItem none (str "i1") ItemKeys.sample (str "t") (str "b1") (str "a") (str "text/plain")
    (str "collected") (str "abc"), [true, true]⟩

def createB : Event :=
  ⟨.createItem none (str "i2") (str "t") (str "b1") (str "b") (str "text/plain") 5 (str "collected"), [true]⟩

def storeAfter (events : List Event) : Store := (runList (Store.step Config.sample) {} events).getD {}

def itemA : ManifestItem := ⟨str "a", 3, computeDigest Crypto.sample (str "abc"), str "collected"⟩

def manifestOf (bundleID endpointID tenantID : Str) (items : List ManifestItem) : Manifest :=
  ⟨bundleID, endpointID, tenantID, str "j1", str "diagnostic", 0, items, []⟩

theorem receipt_corresponds_iff_sample : ∃ r st',
    (finalizeBundle Config.sample (str "r1") (str "t") (str "b1")
      (manifestOf (str "b1") (str "e1") (str "t") [itemA]) [] 0).exec (storeAfter [openBundle, storeA]) [true] =
        (.ok r, st') ∧
    Corresponds (storeAfter [openBundle, storeA]) (str "t") (str "b1")
      (manifestOf (str "b1") (str "e1") (str "t") [itemA]) := by
  refine exists_ok (by decide +kernel) fun r st' hexec => (receipt_corresponds_iff hexec).mpr ⟨?_, ?_, ?_, rfl, rfl, ?_⟩
  all_goals decide +kernel

/-- A manifest of another bundle, tenant and endpoint that lists one of the two items twice: the
receipt is issued although the other item was never uploaded. -/
theorem receipt_for_other_manifest : ∃ r st',
    (finalizeBundle Config.sample (str "r1") (str "t") (str "b1")
      (manifestOf (str "b2") (str "e2") (str "u") [itemA, itemA]) [] 0).exec
        (storeAfter [openBundle, storeA, createB]) [true] = (.ok r, st') ∧
    ((storeAfter [openBundle, storeA, createB]).itemsOf (str "b1")).map (fun it => (it.name, it.status)) =
      [(str "a", .completed), (str "b", .uploading)] ∧
    ¬Corresponds (storeAfter [openBundle, storeA, createB]) (str "t") (str "b1")
      (manifestOf (str "b2") (str "e2") (str "u") [itemA, itemA]) := by
  exact exists_ok (by decide +kernel) fun r st' _ => ⟨by decide +kernel, fun h => absurd h.bundle (by decide)⟩

end Ominull.Evidence
