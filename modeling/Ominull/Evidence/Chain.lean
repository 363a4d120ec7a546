import Ominull.Evidence.Retention

/-! The chain of a tenant's receipts. -/

namespace Ominull.Evidence

open Lib Call List

/-! ## The latest receipt -/

section Latest

variable {a b c r : EvidenceReceipt}

theorem EvidenceReceipt.Before.trans (h : a.Before b) (h' : b.Before c) : a.Before c := by
  rcases h with h | ⟨h, hid⟩
  · rcases h' with h' | ⟨h', -⟩
    · exact .inl (h.trans h')
    · exact .inl (h' ▸ h)
  · rcases h' with h' | ⟨h', hid'⟩
    · exact .inl (h ▸ h')
    · exact .inr ⟨h.trans h', List.lt_trans hid hid'⟩

theorem EvidenceReceipt.Before.split (h : a.Before c) (b : EvidenceReceipt) : a.Before b ∨ b.Before c := by
  rcases lt_trichotomy a.ingestedAt b.ingestedAt with hlt | heq | hgt
  · exact .inl (.inl hlt)
  · by_cases hid : a.receiptID < b.receiptID
    · exact .inl (.inr ⟨heq, hid⟩)
    · rcases h with h | ⟨h, hac⟩
      · exact .inr (.inl (heq ▸ h))
      · exact .inr (.inr ⟨heq ▸ h, List.lt_of_le_of_lt hid hac⟩)
  · rcases h with h | ⟨h, -⟩
    · exact .inr (.inl (hgt.trans h))
    · exact .inr (.inl (h ▸ hgt))

theorem EvidenceReceipt.receiptID_eq (h : ¬a.Before b) (h' : ¬b.Before a) : a.receiptID = b.receiptID := by
  unfold EvidenceReceipt.Before at *
  simp only [not_or, not_and, not_lt] at h h'
  have htime : a.ingestedAt = b.ingestedAt := le_antisymm h'.1 h.1
  exact List.le_antisymm (h'.2 htime.symm) (h.2 htime)

theorem foldl_later {l : List EvidenceReceipt} {best : Option EvidenceReceipt} (h : l.foldl later best = some r) :
    (r ∈ l ∨ best = some r) ∧ (∀ x ∈ l, ¬r.Before x) ∧ ∀ b, best = some b → ¬r.Before b := by
  induction l generalizing best with
  | nil =>
    cases h
    refine ⟨.inr rfl, fun x hx => (by cases hx), ?_⟩
    rintro b hb hbefore
    cases hb
    exact hbefore.elim (lt_irrefl _) fun h => List.lt_irrefl _ h.2
  | cons x l ih =>
    obtain ⟨hmem, hall, hbest⟩ := ih h
    have hx : ¬r.Before x ∧ ∀ b, best = some b → ¬r.Before b := by
      cases best with
      | none => exact ⟨hbest x rfl, fun b hb => (by cases hb)⟩
      | some b =>
        simp only [Option.some.injEq, forall_eq']
        by_cases hbx : b.Before x
        · have hrx := hbest x (if_pos hbx)
          exact ⟨hrx, fun hrb => hrx (hrb.trans hbx)⟩
        · have hrb := hbest b (if_neg hbx)
          exact ⟨fun hrx => (hrx.split b).elim hrb hbx, hrb⟩
    refine ⟨?_, ?_, hx.2⟩
    · rcases hmem with hmem | hmem
      · exact .inl (mem_cons_of_mem _ hmem)
      · cases best with
        | none =>
          cases hmem
          exact .inl mem_cons_self
        | some b =>
          rw [later] at hmem
          by_cases hbx : b.Before x
          · rw [if_pos hbx] at hmem
            cases hmem
            exact .inl mem_cons_self
          · rw [if_neg hbx] at hmem
            exact .inr hmem
    · intro y hy
      rcases mem_cons.mp hy with rfl | hy
      · exact hx.1
      · exact hall y hy

theorem foldl_later_isSome (l : List EvidenceReceipt) (b : EvidenceReceipt) : (l.foldl later (some b)).isSome := by
  induction l generalizing b with
  | nil => rfl
  | cons x l ih =>
    rw [foldl_cons, later]
    split
    · exact ih x
    · exact ih b

variable {st : Store} {tenantID : Str}

theorem latestReceipt_none : st.latestReceipt tenantID = none ↔ ∀ x ∈ st.receipts.rows, x.tenantID ≠ tenantID := by
  unfold Store.latestReceipt
  cases hl : st.receipts.rows.filter (·.tenantID = tenantID) with
  | nil =>
    simpa using hl
  | cons x l =>
    have hx : x ∈ st.receipts.rows.filter (·.tenantID = tenantID) := hl ▸ mem_cons_self
    obtain ⟨hx, htenant⟩ := List.mem_filter.mp hx
    have hsome := foldl_later_isSome l x
    constructor
    · intro hnone
      rw [foldl_cons, later] at hnone
      rw [hnone] at hsome
      cases hsome
    · exact fun h => absurd (by simpa using htenant) (h x hx)

theorem latestReceipt_some (hids : (st.receipts.rows.map (·.receiptID)).Nodup) :
    st.latestReceipt tenantID = some r ↔ r ∈ st.receipts.rows ∧ r.tenantID = tenantID ∧
      ∀ x ∈ st.receipts.rows, x.tenantID = tenantID → ¬r.Before x := by
  have hspec : ∀ {r}, st.latestReceipt tenantID = some r → r ∈ st.receipts.rows ∧ r.tenantID = tenantID ∧
      ∀ x ∈ st.receipts.rows, x.tenantID = tenantID → ¬r.Before x := by
    intro r h
    obtain ⟨hmem, hall, -⟩ := foldl_later h
    obtain ⟨hrow, htenant⟩ := List.mem_filter.mp (hmem.resolve_right fun h => by cases h)
    refine ⟨hrow, by simpa using htenant, fun x hx hxt => hall x ?_⟩
    exact List.mem_filter.mpr ⟨hx, by simpa using hxt⟩
  refine ⟨hspec, ?_⟩
  rintro ⟨hrow, htenant, hlast⟩
  cases hlatest : st.latestReceipt tenantID with
  | none => exact absurd htenant (latestReceipt_none.mp hlatest r hrow)
  | some r' =>
    obtain ⟨hrow', htenant', hlast'⟩ := hspec hlatest
    have hid := EvidenceReceipt.receiptID_eq (hlast' r hrow htenant) (hlast r' hrow' htenant')
    rw [inj_on_of_nodup_map hids hrow' hrow hid]

end Latest

/-! ## Linked receipts -/

/-- Each receipt names the hash of the one before it; the first one names `previous`. -/
def Linked (previous : Str) : List EvidenceReceipt → Prop
  | [] => True
  | r :: rest => r.previousReceiptSHA256 = previous ∧ Linked r.receiptHash rest

section Linked

variable {previous : Str} {l : List EvidenceReceipt} {r : EvidenceReceipt}

theorem linked_append : Linked previous (l ++ [r]) ↔
    Linked previous l ∧ r.previousReceiptSHA256 = (l.getLast?.map (·.receiptHash)).getD previous := by
  induction l generalizing previous with
  | nil => simp [Linked]
  | cons x l ih =>
    rw [cons_append, Linked, Linked, ih, and_assoc]
    cases l with
    | nil => rfl
    | cons y l =>
      rfl

theorem Linked.predecessor (h : Linked previous l) : ∀ x ∈ l, x.previousReceiptSHA256 = previous ∨
    ∃ y ∈ l.dropLast, x.previousReceiptSHA256 = y.receiptHash := by
  induction l generalizing previous with
  | nil => exact fun x hx => by cases hx
  | cons r l ih =>
    intro x hx
    rcases mem_cons.mp hx with rfl | hx
    · exact .inl h.1
    · have hne : l ≠ [] := ne_nil_of_mem hx
      rw [dropLast_cons_of_ne_nil hne]
      rcases ih h.2 x hx with hp | ⟨y, hy, hp⟩
      · exact .inr ⟨r, mem_cons_self, hp⟩
      · exact .inr ⟨y, mem_cons_of_mem _ hy, hp⟩

/-- Without collisions no two receipts of a chain name the same one: from two that do, their
predecessors would, down to the beginning of the chain. -/
theorem Linked.nodup (h : Linked previous l) (hfirst : ∀ x ∈ l, x.receiptHash ≠ previous)
    (hhash : ∀ x ∈ l, ∀ y ∈ l, x.receiptHash = y.receiptHash →
      x.previousReceiptSHA256 = y.previousReceiptSHA256) :
    (l.map (·.previousReceiptSHA256)).Nodup := by
  induction l using List.reverseRecOn with
  | nil => exact nodup_nil
  | append_singleton l r ih =>
    obtain ⟨hlinked, hr⟩ := linked_append.mp h
    have hsub : ∀ x ∈ l, x ∈ l ++ [r] := fun x hx => mem_append_left _ hx
    have hnodup := ih hlinked (fun x hx => hfirst x (hsub x hx))
      fun x hx y hy => hhash x (hsub x hx) y (hsub y hy)
    rw [map_append, map_singleton, nodup_append']
    refine ⟨hnodup, nodup_singleton _, ?_⟩
    rw [disjoint_singleton]
    intro hmem
    obtain ⟨x, hx, hxr⟩ := mem_map.mp hmem
    -- the end of the chain so far is what the new receipt names
    obtain ⟨m, y, rfl⟩ := eq_nil_or_concat l |>.resolve_left (ne_nil_of_mem hx)
    rw [concat_eq_append] at *
    have hry : r.previousReceiptSHA256 = y.receiptHash := by simpa using hr
    have hy : y ∈ m ++ [y] := mem_append_right _ mem_cons_self
    rcases hlinked.predecessor x hx with hp | ⟨z, hz, hp⟩
    · exact hfirst y (hsub y hy) (hry.symm.trans (hxr.symm.trans hp))
    · rw [dropLast_concat] at hz
      have hzy : z.previousReceiptSHA256 = y.previousReceiptSHA256 :=
        hhash z (hsub z (mem_append_left _ hz)) y (hsub y hy) (hp.symm.trans (hxr.trans hry))
      rw [map_append, nodup_append'] at hnodup
      exact hnodup.2.2 (mem_map_of_mem hz) (hzy ▸ mem_cons_self)

end Linked

/-! ## Receipts of a run -/

/-- The store with all the receipts it has issued. -/
structure Ledger where
  store : Store := {}
  issued : List EvidenceReceipt := []

namespace Ledger

def step (cfg : Config) (l : Ledger) (e : Event) : Option Ledger :=
  let result := (e.op.call cfg).exec l.store e.outcomes
  some ⟨result.2, l.issued ++ (result.1.toOption.bind id).toList⟩

def issuedTo (l : Ledger) (tenantID : Str) : List EvidenceReceipt :=
  l.issued.filter (·.tenantID = tenantID)

end Ledger

/-- A receipt comes after those of the tenant that are there, and no prune takes the latest one. -/
def Op.InOrder (st : Store) : Op → Prop
  | .finalizeBundle receiptID tenantID _ _ _ now => ∀ r ∈ st.receipts.rows, r.tenantID = tenantID →
      r.ingestedAt < now ∨ r.ingestedAt = now ∧ r.receiptID < receiptID
  | .pruneExpiredBundles now => ∀ r ∈ st.receipts.rows, st.latestReceipt r.tenantID = some r →
      ¬st.Prunable now r.bundleID
  | _ => True

def zeroHash : Str := List.replicate 64 0x30

/-- The latest receipt of every tenant is the one issued last, and its receipts are linked. -/
structure ChainInv (cfg : Config) (l : Ledger) : Prop where
  ids : (l.store.receipts.rows.map (·.receiptID)).Nodup
  latest : ∀ tenantID, l.store.latestReceipt tenantID = (l.issuedTo tenantID).getLast?
  linked : ∀ tenantID, Linked zeroHash (l.issuedTo tenantID)
  hash : ∀ r ∈ l.issued, r.receiptHash = computeDigest cfg.crypto r.canonicalBytes

section Ledger

variable {cfg : Config} {st st' : Store} {l l' : Ledger} {id : Str}

theorem Write.receipts {x : Target} (hw : Write st x st') : st'.receipts = st.receipts := by
  cases hw <;> rfl

theorem Writes.receipts {p : Target → Prop} (h : Writes p st st') : st'.receipts = st.receipts :=
  h.preserves (I := fun s => s.receipts = st.receipts) (fun _ _ _ hs hw => hw.2.receipts.trans hs) rfl

theorem Removal.receipts (hw : Removal st id st') : st'.receipts.rows.Sublist st.receipts.rows := by
  cases hw with
  | object digest h => exact List.Sublist.refl _
  | rows chunks items receipts bundles =>
    cases receipts
    · exact List.Sublist.refl _
    · exact filter_sublist

theorem Removals.receipts {p : Str → Prop} (h : Removals p st st') : st'.receipts.rows.Sublist st.receipts.rows :=
  h.preserves (I := fun s => s.receipts.rows.Sublist st.receipts.rows)
    (fun _ _ _ hs hw => hw.2.receipts.trans hs) (List.Sublist.refl _)

theorem latestReceipt_congr (h : st'.receipts = st.receipts) (tenantID : Str) :
    st'.latestReceipt tenantID = st.latestReceipt tenantID := by
  rw [Store.latestReceipt, h]
  rfl

theorem ChainInv.keep (hinv : ChainInv cfg l) (h : st'.receipts = l.store.receipts) :
    ChainInv cfg ⟨st', l.issued⟩ := by
  refine ⟨?_, fun tenantID => ?_, hinv.linked, hinv.hash⟩
  · rw [h]
    exact hinv.ids
  · exact (latestReceipt_congr h tenantID).trans (hinv.latest tenantID)

variable {now : Response.Time}

theorem ChainInv.prune (hinv : ChainInv cfg l) (hok : Op.InOrder l.store (.pruneExpiredBundles now))
    (h : Removals (l.store.Prunable now) l.store st') : ChainInv cfg ⟨st', l.issued⟩ := by
  have hsub := Removals.receipts h
  have hids : (st'.receipts.rows.map (·.receiptID)).Nodup := hinv.ids.sublist (hsub.map _)
  refine ⟨hids, fun tenantID => ?_, hinv.linked, hinv.hash⟩
  show st'.latestReceipt tenantID = (l.issuedTo tenantID).getLast?
  rw [← hinv.latest]
  cases hlatest : l.store.latestReceipt tenantID with
  | none => exact latestReceipt_none.mpr fun x hx => latestReceipt_none.mp hlatest x (hsub.mem hx)
  | some r =>
    obtain ⟨hr, htenant, hlast⟩ := (latestReceipt_some hinv.ids).mp hlatest
    have hstays : st'.receipts.find r.bundleID = some r := by
      rw [(Removals.same h (hok r hr (htenant ▸ hlatest))).receipt]
      exact Table.find_of_mem hr
    refine (latestReceipt_some hids).mpr ⟨Table.mem_of_find hstays, htenant, ?_⟩
    exact fun x hx => hlast x (hsub.mem hx)

theorem EvidenceReceipt.Before.asymm {a b : EvidenceReceipt} (h : a.Before b) : ¬b.Before a := by
  intro h'
  exact (h.trans h').elim (lt_irrefl _) fun h => List.lt_irrefl _ h.2

variable {receiptID : Str} {m : Manifest}

theorem newReceipt_previous {b : EvidenceBundle}
    (hhash : ∀ r, st.latestReceipt b.tenantID = some r → r.receiptHash ≠ []) :
    (newReceipt cfg st receiptID b m now).previousReceiptSHA256 =
      ((st.latestReceipt b.tenantID).map (·.receiptHash)).getD zeroHash := by
  show (if ((st.latestReceipt b.tenantID).map (·.receiptHash)).getD [] = [] then _ else _) = _
  cases hlatest : st.latestReceipt b.tenantID with
  | none => rfl
  | some r => exact if_neg (hhash r hlatest)

/-- A new receipt is the latest of its tenant and is linked to the one before. -/
theorem ChainInv.issue (hinv : ChainInv cfg l) (hlength : ∀ x, (cfg.crypto.sha256 x).length = 32) {b : EvidenceBundle}
    {r : EvidenceReceipt} (hr : r = newReceipt cfg l.store receiptID b m now)
    (hrows : st'.receipts.rows = l.store.receipts.rows ++ [r])
    (hfresh : ∀ x ∈ l.store.receipts.rows, x.receiptID ≠ receiptID)
    (hafter : ∀ x ∈ l.store.receipts.rows, x.tenantID = b.tenantID → x.Before r) :
    ChainInv cfg ⟨st', l.issued ++ [r]⟩ := by
  have hid : r.receiptID = receiptID := by rw [hr]; rfl
  have htenant : r.tenantID = b.tenantID := by rw [hr]; rfl
  have hdigest : r.receiptHash = computeDigest cfg.crypto r.canonicalBytes := by rw [hr]; rfl
  have hids : (st'.receipts.rows.map (·.receiptID)).Nodup := by
    rw [hrows, map_append, map_singleton, nodup_append']
    refine ⟨hinv.ids, nodup_singleton _, ?_⟩
    rw [disjoint_singleton, hid]
    intro hmem
    obtain ⟨x, hx, hxid⟩ := mem_map.mp hmem
    exact hfresh x hx hxid
  have hissued : ∀ tenantID, Ledger.issuedTo ⟨st', l.issued ++ [r]⟩ tenantID =
      if b.tenantID = tenantID then l.issuedTo tenantID ++ [r] else l.issuedTo tenantID := by
    intro tenantID
    show (l.issued ++ [r]).filter _ = _
    rw [filter_append, filter_singleton, htenant]
    by_cases h : b.tenantID = tenantID <;> simp [h, Ledger.issuedTo]
  refine ⟨hids, fun tenantID => ?_, fun tenantID => ?_, ?_⟩
  · rw [hissued]
    split
    · rename_i htid
      subst htid
      rw [getLast?_concat]
      refine (latestReceipt_some hids).mpr ⟨by simp [hrows], htenant, ?_⟩
      intro x hx hxt
      rw [hrows, mem_append, mem_singleton] at hx
      rcases hx with hx | rfl
      · exact (hafter x hx hxt).asymm
      · exact fun h => h.asymm h
    · rename_i htid
      rw [← hinv.latest, Store.latestReceipt, hrows, filter_append, filter_singleton, htenant]
      simp [htid, Store.latestReceipt]
  · rw [hissued]
    split
    · rename_i htid
      subst htid
      refine linked_append.mpr ⟨hinv.linked _, ?_⟩
      rw [hr, ← hinv.latest, newReceipt_previous]
      intro x hx
      have hmem : x ∈ l.issuedTo b.tenantID := mem_of_getLast? ((hinv.latest _).symm.trans hx)
      rw [hinv.hash x (List.mem_filter.mp hmem).1]
      refine ne_nil_of_length_pos ?_
      rw [computeDigest, length_hexEncode, hlength]
      omega
    · exact hinv.linked tenantID
  · intro x hx
    rcases mem_append.mp hx with hx | hx
    · exact hinv.hash x hx
    · rw [mem_singleton.mp hx]
      exact hdigest

/-- A finalization issues a receipt that comes last, or changes nothing. -/
theorem ChainInv.finalize (hinv : ChainInv cfg l) (hlength : ∀ x, (cfg.crypto.sha256 x).length = 32)
    {tenantID bundleID pubKeyHex : Str} {outcomes : List Bool}
    (hok : Op.InOrder l.store (.finalizeBundle receiptID tenantID bundleID m pubKeyHex now))
    (h : l.step cfg ⟨.finalizeBundle receiptID tenantID bundleID m pubKeyHex now, outcomes⟩ = some l') :
    ChainInv cfg l' := by
  have hcall : Triple (fun s => s = l.store)
      ((Op.finalizeBundle receiptID tenantID bundleID m pubKeyHex now).call cfg)
      (fun o s => ∃ r, o = some r ∧ ChainInv cfg ⟨s, l.issued ++ [r]⟩) (fun s => s = l.store) := by
    refine Triple.bind finalizeBundle_triple fun r => Triple.of_forall ?_
    rintro s ⟨-, b, receipts, hb, htenant, hr, hinsert, hfresh, rfl⟩
    refine Triple.pure ⟨r, rfl, hinv.issue hlength hr (Table.insert_rows hinsert).1 hfresh ?_⟩
    intro x hx hxt
    rw [hr]
    exact hok x hx (hxt.trans htenant)
  cases h
  rcases hcall.exec_cases rfl outcomes with ⟨o, s, hexec, r, rfl, hchain⟩ | ⟨e, s, hexec, rfl⟩
  · rw [hexec]
    exact hchain
  · rw [hexec]
    simpa [Except.toOption] using hinv

theorem ChainInv.step (hinv : ChainInv cfg l) (hlength : ∀ x, (cfg.crypto.sha256 x).length = 32)
    {e : Event} (hok : e.op.InOrder l.store) (h : l.step cfg e = some l') : ChainInv cfg l' := by
  obtain ⟨op, outcomes⟩ := e
  -- the other calls return no receipt
  have hother : (∀ r, op.Returns r → r = none) →
      (∀ s, op.Effect l.store s → ChainInv cfg ⟨s, l.issued⟩) → ChainInv cfg l' := by
    intro hreturns hstore
    cases h
    rcases (op.call_triple cfg l.store).exec_cases rfl outcomes with
      ⟨o, s, hexec, ho, heffect⟩ | ⟨e, s, hexec, heffect⟩
    · rw [hexec, hreturns o ho]
      simpa [Except.toOption] using hstore s heffect
    · rw [hexec]
      simpa [Except.toOption] using hstore s heffect
  cases op with
  | finalizeBundle receiptID tenantID bundleID m pubKeyHex now => exact hinv.finalize hlength hok h
  | pruneExpiredBundles now => exact hother (fun _ h => h) fun s heffect => hinv.prune hok heffect
  | setTenantQuota maxBytes =>
    refine hother (fun _ h => h) ?_
    rintro s ⟨maxBytes', rfl⟩
    exact hinv.keep rfl
  | _ => exact hother (fun _ h => h) fun s heffect => hinv.keep (Writes.receipts heffect)

theorem previous_of_canonicalBytes {r r' : EvidenceReceipt} (h : r.canonicalBytes = r'.canonicalBytes)
    (hlen : r.previousReceiptSHA256.length = 64) (hlen' : r'.previousReceiptSHA256.length = 64) :
    r.previousReceiptSHA256 = r'.previousReceiptSHA256 := by
  unfold EvidenceReceipt.canonicalBytes frame at h
  simp only [← append_assoc] at h
  obtain ⟨hrest, -⟩ := append_inj' h (by simp [Response.writeInt64])
  exact (append_inj' hrest (hlen.trans hlen'.symm)).2

theorem ChainInv.length_previous (hinv : ChainInv cfg l) (hlength : ∀ x, (cfg.crypto.sha256 x).length = 32)
    {tenantID : Str} : ∀ r ∈ l.issuedTo tenantID, r.previousReceiptSHA256.length = 64 := by
  intro r hr
  rcases (hinv.linked tenantID).predecessor r hr with h | ⟨y, hy, h⟩
  · rw [h]
    rfl
  · rw [h, hinv.hash y (List.mem_filter.mp (mem_of_mem_dropLast hy)).1, computeDigest,
      length_hexEncode, hlength]

/-- The receipts of a tenant form one chain in every run in which each receipt sorts behind those that
are there and no prune takes the latest one, as long as the hash has no collisions on them. -/
theorem receipts_chained (hlength : ∀ x, (cfg.crypto.sha256 x).length = 32)
    (hrun : Run (Guarded (fun l e => e.op.InOrder l.store) (StepOf (Ledger.step cfg))) {} l)
    (hzero : ∀ r ∈ l.issued, cfg.crypto.sha256 r.canonicalBytes ≠ List.replicate 32 0)
    (hcollision : ∀ r ∈ l.issued, ∀ r' ∈ l.issued,
      cfg.crypto.sha256 r.canonicalBytes = cfg.crypto.sha256 r'.canonicalBytes →
      r.canonicalBytes = r'.canonicalBytes) (tenantID : Str) :
    Linked zeroHash (l.issuedTo tenantID) ∧
      ((l.issuedTo tenantID).map (·.previousReceiptSHA256)).Nodup := by
  have hinv : ChainInv cfg l := by
    refine hrun.preserves (fun _ _ _ hinv hstep => hinv.step hlength hstep.1 hstep.2) ?_
    exact ⟨nodup_nil, fun _ => rfl, fun _ => trivial, fun r hr => by cases hr⟩
  have hissued : ∀ r ∈ l.issuedTo tenantID, r ∈ l.issued := fun r hr => (List.mem_filter.mp hr).1
  refine ⟨hinv.linked tenantID, (hinv.linked tenantID).nodup ?_ ?_⟩
  · intro r hr hhash
    rw [hinv.hash r (hissued r hr)] at hhash
    exact hzero r (hissued r hr) (hexEncode_injective hhash)
  · intro r hr r' hr' hhash
    rw [hinv.hash r (hissued r hr), hinv.hash r' (hissued r' hr')] at hhash
    exact previous_of_canonicalBytes
      (hcollision r (hissued r hr) r' (hissued r' hr') (hexEncode_injective hhash))
      (hinv.length_previous hlength r hr) (hinv.length_previous hlength r' hr')

/-! Bundles without items, each with a receipt. -/

def openNamed (id : Str) : Event :=
  ⟨.createBundle id [] (str "t") (str "e1") (str "j1") (str "diagnostic") 0 0, [true]⟩

def finalizeEmpty (id receiptID : Str) (now : Response.Time) : Event :=
  ⟨.finalizeBundle receiptID (str "t") id (manifestOf id (str "e1") (str "t") []) [] now, [true]⟩

def finalizedAt (t₁ t₂ t₃ : Response.Time) : List Event :=
  [openNamed (str "b1"), openNamed (str "b2"), openNamed (str "b3"), finalizeEmpty (str "b1") (str "r1") t₁,
    finalizeEmpty (str "b2") (str "r2") t₂, finalizeEmpty (str "b3") (str "r3") t₃]

def ledgerAfter (events : List Event) : Ledger := (runList (Ledger.step Config.sample) {} events).getD {}

instance Op.decidableInOrder (st : Store) : (op : Op) → Decidable (op.InOrder st)
  | .createBundle .. | .createItem .. | .storeItem .. | .storeItemChunk .. | .finalizeBundle .. | .setLegalHold ..
  | .setTenantQuota .. | .pruneExpiredBundles .. => by dsimp only [InOrder]; infer_instance

instance decidableLinked : (previous : Str) → (l : List EvidenceReceipt) → Decidable (Linked previous l)
  | _, [] => isTrue trivial
  | previous, r :: rest =>
    have := decidableLinked r.receiptHash rest
    inferInstanceAs (Decidable (r.previousReceiptSHA256 = previous ∧ Linked r.receiptHash rest))

theorem receipts_chained_sample :
    ((ledgerAfter (finalizedAt 5 6 6)).issuedTo (str "t")).length = 3 ∧
    Linked zeroHash ((ledgerAfter (finalizedAt 5 6 6)).issuedTo (str "t")) ∧
    (((ledgerAfter (finalizedAt 5 6 6)).issuedTo (str "t")).map (·.previousReceiptSHA256)).Nodup := by
  have hmeets : Meets (Ledger.step Config.sample) (fun l e => e.op.InOrder l.store) {} (finalizedAt 5 6 6) := by
    decide +kernel
  refine ⟨by decide +kernel, receipts_chained (l := ledgerAfter (finalizedAt 5 6 6)) ?_ (run_of_runList rfl hmeets) ?_ ?_ _⟩
  · simp [Config.sample, Crypto.sample]
  · decide +kernel
  · decide +kernel

/-- The clock steps back behind the first receipt: both of the others are chained to it. -/
theorem receipts_fork :
    (ledgerAfter (finalizedAt 5 3 4)).issued.map (·.receiptID) = [str "r1", str "r2", str "r3"] ∧
    ¬Linked zeroHash ((ledgerAfter (finalizedAt 5 3 4)).issuedTo (str "t")) ∧
    ¬(((ledgerAfter (finalizedAt 5 3 4)).issuedTo (str "t")).map (·.previousReceiptSHA256)).Nodup := by
  decide +kernel

end Ledger

end Ominull.Evidence
