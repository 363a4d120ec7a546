import Ominull.Vuln.Snapshot

/-!
Activation: from the first successful one on, exactly one snapshot is active and the live table is its
catalogue.
-/

namespace Ominull.Vuln.Store

open Lib Response List

def active (s : Store) : List FeedSnapshot := s.snapshots.rows.filter (·.status = .active)

def Consistent (s : Store) : Prop := ∃ snap, s.active = [snap] ∧ s.vulnerabilities.rows = s.rowsOf snap.id

/-- The condition on a call: a sync that failed is not the one that is active. -/
def SparesActive (s : Store) : Event → Prop
  | .call (.fail id _) => ∀ snap, s.snapshots.find id = some snap → snap.status ≠ .active
  | _ => True

instance decidableSparesActive (s : Store) : (e : Event) → Decidable (s.SparesActive e)
  | .call (.fail id _) => inferInstanceAs (Decidable (∀ snap ∈ s.snapshots.find id, snap.status ≠ .active))
  | .call (.create _ _ _) | .call (.ingest _ _ _ _) | .call (.activate _ _) | .fault _ => isTrue trivial

/-! ## Activation -/

theorem insertAll_rows {κ ρ : Type} [DecidableEq κ] {key : ρ → κ} {T T' : Table key} {rows : List ρ}
    (h : insertAll T rows = some T') : T'.rows = T.rows ++ rows := by
  induction rows generalizing T with
  | nil =>
    cases h
    exact (append_nil _).symm
  | cons r rows ih =>
    obtain ⟨U, hU, hrest⟩ := Option.bind_eq_some_iff.mp h
    rw [ih hrest, (Table.insert_rows hU).1, append_assoc]
    rfl

theorem demote_status (snap : FeedSnapshot) : (demote snap).status ≠ .active := by
  unfold demote
  split_ifs with h
  · exact nofun
  · exact h

variable {id : Str}

/-- Of a table without active rows the promoted one is the only one. -/
theorem filter_promote {T : Table FeedSnapshot.id} {now : Time} {snap : FeedSnapshot} (hfind : T.find id = some snap)
    (hnone : ∀ x ∈ T.rows, x.status ≠ .active) :
    (T.update id (promote now) fun _ => rfl).rows.filter (·.status = .active) = [promote now snap] := by
  have hcond : ∀ x ∈ T.rows, ((fun x : FeedSnapshot => decide (x.status = .active)) ∘
      fun x => if x.id = id then promote now x else x) x = decide (x.id = id) := by
    intro x hx
    simp only [Function.comp_apply]
    split_ifs with hid
    · simp [promote, hid]
    · simp [hid, hnone x hx]
  show (T.rows.map fun x => if x.id = id then promote now x else x).filter _ = _
  rw [filter_map, filter_congr hcond, Table.filter_key hfind, map_singleton,
    if_pos (Table.key_of_find hfind)]

variable {s t : Store}

theorem activate_consistent {now : Time} (h : s.activate id now = some t) : t.Consistent := by
  obtain ⟨snap, hsnap, h⟩ := Option.bind_eq_some_iff.mp h
  split_ifs at h with hready
  obtain ⟨live, hlive, h⟩ := Option.bind_eq_some_iff.mp h
  cases h
  have hid : snap.id = id := Table.key_of_find hsnap
  have hdemoted : (s.snapshots.modify demote demote_id).find id = some (demote snap) :=
    Table.find_iff.mpr ⟨Table.mem_modify.mpr ⟨snap, Table.mem_of_find hsnap, rfl⟩, (demote_id snap).trans hid⟩
  have hnone : ∀ x ∈ (s.snapshots.modify demote demote_id).rows, x.status ≠ .active := by
    intro x hx
    obtain ⟨y, -, rfl⟩ := Table.mem_modify.mp hx
    exact demote_status y
  refine ⟨promote now (demote snap), filter_promote hdemoted hnone, ?_⟩
  have hpromoted : (promote now (demote snap)).id = id := (demote_id snap).trans hid
  rw [hpromoted]
  exact insertAll_rows hlive

/-! ## The other calls -/

theorem foldl_keeps {α β γ : Type} {f : β → α → β} (g : β → γ) (h : ∀ b a, g (f b a) = g b) (l : List α) (b : β) :
    g (l.foldl f b) = g b := by
  induction l generalizing b with
  | nil => rfl
  | cons a l ih => rw [foldl_cons, ih, h]

/-- An ingest touches the rows of its own snapshot only. -/
theorem filter_ingested {T : Rows} {id' : Str} {f : Feed} {now : Str → Time} {unread : Str → Bool} (h : id' ≠ id) :
    (ingested T id f now unread).1.rows.filter (·.snapshotID = id') = T.rows.filter (·.snapshotID = id') := by
  have hupsert : ∀ (T : Rows) (v : Vulnerability),
      (T.upsert ⟨id, v⟩).rows.filter (·.snapshotID = id') = T.rows.filter (·.snapshotID = id') := by
    intro T v
    have hnew : [(⟨id, v⟩ : InSnapshot Vulnerability)].filter (·.snapshotID = id') = [] := by simp [Ne.symm h]
    rw [Table.upsert, filter_append, filter_filter]
    rw [hnew, append_nil]
    refine filter_congr fun r _ => ?_
    by_cases hr : r.snapshotID = id'
    · simp [hr, h]
    · simp [hr]
  have hkev : ∀ (Tn : Rows × ℕ) (k : CISAKEVItem),
      (ingestKEV id now unread Tn k).1.rows.filter (·.snapshotID = id') = Tn.1.rows.filter (·.snapshotID = id') := by
    intro Tn k
    unfold ingestKEV
    split_ifs
    · rfl
    · exact hupsert _ _
  rw [ingested, foldl_keeps (fun Tn : Rows × ℕ => Tn.1.rows.filter (·.snapshotID = id')) hkev, foldl_map]
  exact foldl_keeps (fun T : Rows => T.rows.filter (·.snapshotID = id')) (fun T v => hupsert T (f.merge v)) _ _

/-- What a call leaves alone unless it is a successful activation. -/
structure Untouched (s t : Store) : Prop where
  active : t.active = s.active
  live : t.vulnerabilities = s.vulnerabilities
  catalogue : ∀ snap ∈ s.active, t.rowsOf snap.id = s.rowsOf snap.id

theorem Untouched.refl (s : Store) : s.Untouched s := ⟨rfl, rfl, fun _ _ => rfl⟩

theorem Untouched.consistent (h : s.Untouched t) (hs : s.Consistent) : t.Consistent := by
  obtain ⟨snap, hactive, hlive⟩ := hs
  refine ⟨snap, h.active.trans hactive, ?_⟩
  rw [h.live, hlive, h.catalogue snap (hactive ▸ mem_singleton_self snap)]

theorem create_untouched {metadata : Str} {now : Time} (h : s.create id metadata now = some t) : s.Untouched t := by
  obtain ⟨T, hT, rfl⟩ := Option.map_eq_some_iff.mp h
  refine ⟨?_, rfl, fun _ _ => rfl⟩
  show T.rows.filter _ = _
  rw [(Table.insert_rows hT).1, filter_append]
  exact append_nil _

theorem ingest_untouched {f : Feed} {now : Str → Time} {unread : Str → Bool} (h : s.ingest id f now unread = some t) :
    s.Untouched t := by
  obtain ⟨snap, hsnap, h⟩ := Option.bind_eq_some_iff.mp h
  split_ifs at h with hbuilding
  cases h
  refine ⟨?_, rfl, ?_⟩
  · refine Table.filter_update s.snapshots id (recordCounts _ f) (fun _ => rfl) fun r hr => ?_
    cases hsnap.symm.trans hr
    simp [hbuilding, recordCounts]
  · intro r hr
    obtain ⟨hrow, hactive⟩ := List.mem_filter.mp hr
    have hne : r.id ≠ id := by
      intro hid
      have hfind := Table.find_of_mem hrow
      rw [hid, hsnap] at hfind
      cases hfind
      rw [hbuilding] at hactive
      exact absurd (of_decide_eq_true hactive) (by decide)
    rw [rowsOf, rowsOf]
    rw [filter_ingested hne]

theorem fail_untouched {errMsg : Str} (h : ∀ snap, s.snapshots.find id = some snap → snap.status ≠ .active) :
    s.Untouched (s.fail id errMsg) := by
  refine ⟨?_, rfl, fun _ _ => rfl⟩
  refine Table.filter_update s.snapshots id (markFailed errMsg) (fun _ => rfl) fun r hr => ⟨?_, rfl⟩
  simpa using h r hr

/-- Every call but a successful activation leaves the active snapshot and the live table alone. -/
theorem next_untouched {e : Event} (hspares : s.SparesActive e)
    (hother : ∀ id now, e = .call (.activate id now) → s.activate id now = none) : s.Untouched (s.next e) := by
  cases e with
  | fault c => exact Untouched.refl s
  | call c =>
    show s.Untouched ((s.exec c).getD s)
    cases h : s.exec c with
    | none => exact Untouched.refl s
    | some t =>
      cases c with
      | create id metadata now => exact create_untouched h
      | ingest id f now unread => exact ingest_untouched h
      | activate id now => exact absurd (hother id now rfl) (by rw [show s.activate id now = some t from h]; simp)
      | fail id errMsg =>
        cases h
        exact fail_untouched hspares

theorem next_consistent {e : Event} (hspares : s.SparesActive e) (h : s.Consistent) : (s.next e).Consistent := by
  by_cases hact : ∃ id now t, e = .call (.activate id now) ∧ s.activate id now = some t
  · obtain ⟨id, now, t, rfl, ht⟩ := hact
    have hnext : s.next (.call (.activate id now)) = t := by
      show (s.activate id now).getD s = t
      rw [ht, Option.getD_some]
    rw [hnext]
    exact activate_consistent ht
  · refine (next_untouched hspares fun id now he => ?_).consistent h
    cases ht : s.activate id now with
    | none => rfl
    | some t => exact absurd ⟨id, now, t, he, ht⟩ hact

/-- From a successful activation on, in every run that fails no active snapshot: exactly one snapshot is
active, the live table holds its catalogue, and a call that is no successful activation changes neither. -/
theorem activation {s s₁ t : Store} {id : Str} {now : Time} (hact : s.activate id now = some s₁)
    (hrun : Run (Guarded SparesActive (StepOf step)) s₁ t) :
    (∃ snap, t.active = [snap] ∧ t.vulnerabilities.rows = t.rowsOf snap.id) ∧
    ∀ e, t.SparesActive e → (∀ id now, e = .call (.activate id now) → t.activate id now = none) →
      (t.next e).active = t.active ∧ (t.next e).vulnerabilities = t.vulnerabilities := by
  have hstep : ∀ s e t, s.Consistent → Guarded SparesActive (StepOf step) s e t → t.Consistent := by
    rintro s e t hs ⟨hspares, ht⟩
    cases ht
    exact next_consistent hspares hs
  refine ⟨hrun.preserves (I := Consistent) hstep (activate_consistent hact), ?_⟩
  intro e hspares hother
  have huntouched := next_untouched hspares hother
  exact ⟨huntouched.active, huntouched.live⟩

/-! ## A sync, and a failure of the active snapshot -/

def sampleVuln : Vulnerability where
  cveID := str "CVE-2024-0001"
  title := str "t"
  description := str "d"
  severity := str "HIGH"
  cvss := 0
  isKEV := false
  epss := 0
  cpePattern := []
  publishedAt := 0

def sampleFeed : Feed := ⟨[sampleVuln], [], []⟩

def ready : Store :=
  [Event.call (.create (str "a") [] 0), .call (.ingest (str "a") sampleFeed (fun _ => 0) fun _ => false)].foldl next new

def activated : Store := ready.next (.call (.activate (str "a") 2))

theorem ready_activate : ready.activate (str "a") 2 = some activated := by
  rfl

def failedSync : List Event :=
  [.call (.create (str "b") [] 1), .fault (.ingest (str "b") sampleFeed (fun _ => 1) fun _ => false),
    .call (.fail (str "b") (str "disk full"))]

theorem activation_failedSync : ready.activate (str "a") 2 = some activated ∧
    (∃ snap, (failedSync.foldl next activated).active = [snap] ∧
      (failedSync.foldl next activated).vulnerabilities.rows = (failedSync.foldl next activated).rowsOf snap.id) ∧
    ∀ e, (failedSync.foldl next activated).SparesActive e →
      (∀ id now, e = .call (.activate id now) → (failedSync.foldl next activated).activate id now = none) →
      ((failedSync.foldl next activated).next e).active = (failedSync.foldl next activated).active ∧
      ((failedSync.foldl next activated).next e).vulnerabilities =
        (failedSync.foldl next activated).vulnerabilities := by
  have hlist : runList step activated failedSync = some (failedSync.foldl next activated) := rfl
  have hspares : Meets step SparesActive activated failedSync := by decide +kernel
  exact ⟨ready_activate, activation ready_activate (run_of_runList hlist hspares)⟩

/-- `FailSnapshot` takes any id: after it no snapshot is active, and the live table still has a row. -/
theorem active_failed : ready.activate (str "a") 2 = some activated ∧
    (activated.next (.call (.fail (str "a") (str "late error")))).active = [] ∧
    (activated.next (.call (.fail (str "a") (str "late error")))).vulnerabilities.rows = [sampleVuln] := by
  exact ⟨ready_activate, by decide +kernel⟩

end Ominull.Vuln.Store
