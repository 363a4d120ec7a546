import Ominull.Response.Reservation
import Ominull.Lib.Run

/-! Reservations and idempotency keys over whole sequences of calls. -/

namespace Ominull.Response

open Go Lib Store List

structure Taking where
  jobID : Str
  tenantID : Str
  endpointID : Str
  actionDigest : Str
  takenAt : Time
  deriving DecidableEq

/-- The tables, with what has been reserved and what has been taken. A reservation is entered with the
digest it was asked for. -/
structure Ledger where
  store : Store
  reservations : Reservations
  reserved : List JobReservation
  taken : List Taking

def Ledger.empty : Ledger := ⟨.empty, .empty, [], []⟩

inductive LedgerEvent where
  | reserve (now : Time) (freshID tenantID endpointID actionDigest : Str)
  /-- A reservation that removes the lapsed ones and cannot enter its own. -/
  | purge (now : Time)
  | take (now : Time) (jobID tenantID endpointID actionDigest : Str)
  | job (e : Event)

namespace Ledger

def next (l : Ledger) : LedgerEvent → Ledger
  | .reserve now freshID t e d =>
    match l.reservations.reserveJob now freshID t e d with
    | (.ok r, T) => { l with reservations := T, reserved := l.reserved ++ [{ r with actionDigest := d }] }
    | (.error _, T) => { l with reservations := T }
  | .purge now => { l with reservations := l.reservations.purge now }
  | .take now jobID t e d =>
    match l.reservations.takeReservation now jobID t e d with
    | (.ok _, T) => { l with reservations := T, taken := l.taken ++ [⟨jobID, t, e, d, now⟩] }
    | (.error _, T) => { l with reservations := T }
  | .job e => { l with store := l.store.next e }

def step (l : Ledger) (e : LedgerEvent) : Option Ledger := some (l.next e)

end Ledger

def isLowerHex (s : Str) : Bool := s.all fun b => (0x30 ≤ b && b ≤ 0x39) || (0x61 ≤ b && b ≤ 0x66)

/-- The digests are lower-case hex, as the hub computes them; no reservation is taken in the very
instant it expires in; and no creation goes on after it could not look its idempotency key up. -/
def Ledger.Plain (l : Ledger) : LedgerEvent → Prop
  | .reserve _ _ _ _ d => isLowerHex d
  | .purge _ => True
  | .take now jobID _ _ d => isLowerHex d ∧ ∀ r ∈ l.reservations.find jobID, r.expiresAt ≠ now
  | .job (.createUnread ..) => False
  | .job _ => True

instance (l : Ledger) (e : LedgerEvent) : Decidable (l.Plain e) := by
  cases e with
  | job e => cases e <;> dsimp only [Ledger.Plain] <;> infer_instance
  | _ => dsimp only [Ledger.Plain]; infer_instance

theorem isLowerAscii_of_isLowerHex {s : Str} (h : isLowerHex s) : ∀ b ∈ s, isLowerAscii b := by
  have hbyte : ∀ b : UInt8, ((0x30 ≤ b && b ≤ 0x39) || (0x61 ≤ b && b ≤ 0x66)) → isLowerAscii b :=
    forall_byte (by decide +kernel)
  exact fun b hb => hbyte b (all_eq_true.mp h b hb)

/-! ## Keys -/

def OneJobPerKey (s : Store) : Prop :=
  ∀ id₁ id₂ j₁ j₂, s.jobs.find id₁ = some j₁ → s.jobs.find id₂ = some j₂ → j₁.idempotencyKey ≠ [] →
    j₁.tenantID = j₂.tenantID → j₁.idempotencyKey = j₂.idempotencyKey → id₁ = id₂

variable {s s' : Store} {now : Time} {op : Op} {j j' : JobRecord} {id : Str}

theorem RowStep.identity (h : RowStep now op j j') :
    j'.tenantID = j.tenantID ∧ j'.idempotencyKey = j.idempotencyKey := by
  cases h <;> exact ⟨rfl, rfl⟩

namespace Store

/-- Only a creation adds a job. -/
theorem exec_find_none (hop : ∀ freshID a, op ≠ .create freshID a) (hnone : s.jobs.find id = none) :
    (s.exec now op).jobs.find id = none := by
  cases op with
  | create freshID a => exact absurd rfl (hop freshID a)
  | offer => exact (offerItems_loop ..).find_none hnone
  | _ => exact (exec_touches (by simp) (by simp)).find_none hnone

theorem not_of_findIdempotent {a : CreateArgs} (h : s.findIdempotent a = none) (hkey : a.idempotencyKey ≠ [])
    (hj : s.jobs.find id = some j) (htenant : j.tenantID = a.tenantID) : j.idempotencyKey ≠ a.idempotencyKey := by
  intro heq
  rw [findIdempotent, if_neg hkey, find?_eq_none] at h
  exact h j (Lib.Table.mem_of_find hj) (decide_eq_true ⟨htenant, heq⟩)

end Store

namespace OneJobPerKey

theorem rowsStep (h : OneJobPerKey s) (hstep : RowsStep now op s s')
    (hnone : ∀ id, s.jobs.find id = none → s'.jobs.find id = none) : OneJobPerKey s' := by
  have hback : ∀ id j', s'.jobs.find id = some j' → ∃ j, s.jobs.find id = some j ∧
      j'.tenantID = j.tenantID ∧ j'.idempotencyKey = j.idempotencyKey := by
    intro id j' hj'
    cases hj : s.jobs.find id with
    | none =>
      rw [hnone id hj] at hj'
      cases hj'
    | some j =>
      obtain ⟨j₁, hj₁, hrow⟩ := hstep.kept id j hj
      obtain rfl := Option.some.inj (hj₁.symm.trans hj')
      exact ⟨j, rfl, hrow.identity⟩
  intro id₁ id₂ j₁ j₂ hj₁ hj₂ hkey htenant hsame
  obtain ⟨i₁, hi₁, htenant₁, hkey₁⟩ := hback id₁ j₁ hj₁
  obtain ⟨i₂, hi₂, htenant₂, hkey₂⟩ := hback id₂ j₂ hj₂
  apply h id₁ id₂ i₁ i₂ hi₁ hi₂
  · rwa [← hkey₁]
  · rw [← htenant₁, ← htenant₂, htenant]
  · rw [← hkey₁, ← hkey₂, hsame]

theorem createJob (h : OneJobPerKey s) (now : Time) (freshID : Str) (a : CreateArgs) :
    OneJobPerKey (s.createJob now freshID a).2 := by
  have hcreates := createJob_creates s now freshID a
  generalize s.createJob now freshID a = r at hcreates ⊢
  obtain _ | _ | @⟨newID, g, jobs, hnone, hins⟩ := hcreates
  · exact h
  · exact h
  generalize hjob : a.newJob now newID g = job at hins
  have htenant : job.tenantID = a.tenantID := hjob ▸ rfl
  have hkey : job.idempotencyKey = a.idempotencyKey := hjob ▸ rfl
  -- the new job shares its key with none of those that were there
  have hnew : ∀ id j, s.jobs.find id = some j → job.idempotencyKey ≠ [] → j.tenantID = job.tenantID →
      j.idempotencyKey ≠ job.idempotencyKey := by
    intro id j hj hne htj
    rw [hkey] at hne ⊢
    exact not_of_findIdempotent hnone hne hj (htj.trans htenant)
  intro id₁ id₂ j₁ j₂ hj₁ hj₂ hne htenants hkeys
  change jobs.find _ = some _ at hj₁ hj₂
  rw [Lib.Table.find_insert hins] at hj₁ hj₂
  split_ifs at hj₁ hj₂ with h₁ h₂ h₂
  · exact h₁.symm.trans h₂
  · obtain rfl := Option.some.inj hj₁
    exact absurd hkeys.symm (hnew id₂ j₂ hj₂ hne htenants.symm)
  · obtain rfl := Option.some.inj hj₂
    rw [hkeys] at hne
    exact absurd hkeys (hnew id₁ j₁ hj₁ hne htenants)
  · exact h id₁ id₂ j₁ j₂ hj₁ hj₂ hne htenants hkeys

theorem next (h : OneJobPerKey s) {e : Event} (he : ∀ now freshID a, e ≠ .createUnread now freshID a) :
    OneJobPerKey (s.next e) := by
  cases e with
  | call now op =>
    by_cases hop : ∃ freshID a, op = .create freshID a
    · obtain ⟨freshID, a, rfl⟩ := hop
      exact h.createJob now freshID a
    · have hop : ∀ freshID a, op ≠ .create freshID a := fun freshID a heq => hop ⟨freshID, a, heq⟩
      exact h.rowsStep (exec_rowsStep op) fun _ hnone => exec_find_none hop hnone
  | fault | heartbeatOnly => exact h
  | createUnread now freshID a => exact absurd rfl (he now freshID a)
  | offerFaulty fails now leases t e n d =>
    have hstep : RowsStep now (.offer leases t e n d) s (s.next (.offerFaulty fails now leases t e n d)) :=
      (offerItemsFaulty_loop ..).rowsStep (selected_pendingJobs ..)
    exact h.rowsStep hstep fun _ hnone => (offerItemsFaulty_loop ..).find_none hnone

theorem repeated (h : OneJobPerKey s) {a : CreateArgs} (hj : s.jobs.find id = some j) (hgrant : a.grant ≠ none)
    (htenant : a.tenantID ≠ []) (hendpoint : a.endpointID ≠ []) (hkey : a.idempotencyKey ≠ [])
    (hsame : j.tenantID = a.tenantID ∧ j.idempotencyKey = a.idempotencyKey) (now : Time) (freshID : Str) :
    s.createJob now freshID a = (.ok j, s) := by
  obtain ⟨g, hg⟩ := Option.ne_none_iff_exists'.mp hgrant
  have hfound : s.findIdempotent a = some j := by
    cases hfind : s.findIdempotent a with
    | none => exact absurd hsame.2 (not_of_findIdempotent hfind hkey hj hsame.1)
    | some i =>
      rw [findIdempotent, if_neg hkey] at hfind
      have hi : i.tenantID = a.tenantID ∧ i.idempotencyKey = a.idempotencyKey := by
        simpa using find?_some hfind
      have hrow := Lib.Table.find_of_mem (mem_of_find?_eq_some hfind)
      have hid := h i.id id i j hrow hj (hi.2 ▸ hkey) (hi.1.trans hsame.1.symm) (hi.2.trans hsame.2.symm)
      rw [hid, hj] at hrow
      exact hrow.symm
  simp only [Store.createJob, hg, hfound, htenant, hendpoint, or_self, if_false]

end OneJobPerKey

/-! ## The ledger -/

/-- How many reservations of an id there are: one or none. -/
def Reservations.held (T : Reservations) (id : Str) : ℕ := if (T.find id).isSome then 1 else 0

/-- The reservations there are were made and not taken, and every one taken was made for what it was
taken for, and was live. -/
structure Ledger.Balanced (l : Ledger) : Prop where
  live : ∀ r ∈ l.reservations.rows, r ∈ l.reserved
  hex : ∀ r ∈ l.reserved, isLowerHex r.actionDigest
  once : ∀ id, (l.taken.map Taking.jobID).count id + l.reservations.held id ≤
    (l.reserved.map JobReservation.jobID).count id
  matched : ∀ u ∈ l.taken, ∃ r ∈ l.reserved, r.jobID = u.jobID ∧ r.tenantID = u.tenantID ∧
    r.endpointID = u.endpointID ∧ r.actionDigest = u.actionDigest ∧ u.takenAt < r.expiresAt
  keys : OneJobPerKey l.store

namespace Reservations

variable {T T' : Reservations}

theorem held_filter_le (T : Reservations) (p : JobReservation → Bool) (id : Str) :
    held (T.filter p) id ≤ held T id := by
  unfold held
  rw [Lib.Table.find_filter]
  cases T.find id with
  | none => exact Nat.le_refl _
  | some r =>
    rw [Option.isSome_some, if_pos rfl]
    split_ifs
    · exact Nat.le_refl 1
    · exact Nat.zero_le 1

theorem held_insert {r : JobReservation} (h : T.insert r = some T') (id : Str) :
    held T' id = held T id + if r.jobID = id then 1 else 0 := by
  unfold held
  rw [Lib.Table.find_insert h]
  by_cases hid : r.jobID = id
  · subst hid
    simp [(Lib.Table.insert_rows h).2]
  · rw [if_neg hid, if_neg hid, Nat.add_zero]

theorem held_remove {r : JobReservation} {jobID : Str} (h : T.find jobID = some r) (id : Str) :
    held (T.filter fun x => x.jobID ≠ jobID) id + (if jobID = id then 1 else 0) ≤ held T id := by
  unfold held
  by_cases hid : jobID = id
  · subst hid
    rw [if_pos rfl, h, Lib.Table.find_filter, h]
    simp [Lib.Table.key_of_find h]
  · rw [if_neg hid, Lib.Table.find_filter_ne _ hid]
    exact Nat.le_refl _

end Reservations

namespace Ledger.Balanced

variable {l : Ledger}

theorem drop (h : l.Balanced) (p : JobReservation → Bool) :
    Balanced { l with reservations := l.reservations.filter p } where
  live := fun r hr => h.live r (Lib.Table.mem_filter.mp hr).1
  hex := h.hex
  once := fun id => (Nat.add_le_add_left (Reservations.held_filter_le _ p id) _).trans (h.once id)
  matched := h.matched
  keys := h.keys

theorem reserve (h : l.Balanced) (now : Time) (freshID t e : Str) {d : Str} (hd : isLowerHex d) :
    (l.next (.reserve now freshID t e d)).Balanced := by
  unfold Ledger.next Reservations.reserveJob
  dsimp only
  split_ifs with hmissing
  · exact h
  rw [toLower_of_isLowerAscii (isLowerAscii_of_isLowerHex hd)]
  have hpurged := h.drop fun r => ¬r.expiresAt < now
  cases hins : (l.reservations.purge now).insert ⟨freshID, t, e, d, truncateSecond (now + reservationTTL)⟩ with
  | none => exact hpurged
  | some T =>
    refine ⟨fun r hr => ?_, fun r hr => ?_, fun id => ?_, fun u hu => ?_, h.keys⟩
    · rw [(Lib.Table.insert_rows hins).1] at hr
      exact mem_append.mpr ((mem_append.mp hr).imp_left (hpurged.live r))
    · rcases mem_append.mp hr with hr | hr
      · exact h.hex r hr
      · rw [mem_singleton.mp hr]
        exact hd
    · have hbefore := hpurged.once id
      have hheld := Reservations.held_insert hins id
      rw [hheld, map_append, count_append, map_singleton, count_singleton]
      simp only [beq_iff_eq]
      rw [← Nat.add_assoc]
      exact Nat.add_le_add_right hbefore _
    · obtain ⟨r, hr, hu⟩ := h.matched u hu
      exact ⟨r, mem_append_left _ hr, hu⟩

theorem take (h : l.Balanced) {now : Time} {jobID : Str} (t e : Str) {d : Str} (hd : isLowerHex d)
    (hinstant : ∀ r ∈ l.reservations.find jobID, r.expiresAt ≠ now) : (l.next (.take now jobID t e d)).Balanced := by
  have hremoves := Reservations.takeReservation_removes l.reservations now jobID t e d
  unfold Ledger.next
  dsimp only
  split
  · rename_i T htake
    rw [htake] at hremoves
    have hok : (l.reservations.takeReservation now jobID t e d).1 = .ok () := by rw [htake]
    obtain ⟨r, hfind, hlive, htenant, hendpoint, hdigest⟩ := Reservations.takeReservation_ok hok
    have hr := h.live r (Lib.Table.mem_of_find hfind)
    have hsame := eq_of_equalFold (isLowerAscii_of_isLowerHex (h.hex r hr)) (isLowerAscii_of_isLowerHex hd) hdigest
    have hbefore : now < r.expiresAt := lt_of_le_of_ne hlive (Ne.symm (hinstant r hfind))
    rw [hfind, Option.isSome_some, if_pos rfl] at hremoves
    subst hremoves
    refine ⟨(h.drop _).live, h.hex, fun id => ?_, fun u hu => ?_, h.keys⟩
    · have hcount := h.once id
      have hheld := Reservations.held_remove hfind id
      rw [map_append, count_append, map_singleton, count_singleton]
      simp only [beq_iff_eq]
      omega
    · rcases mem_append.mp hu with hu | hu
      · exact h.matched u hu
      · rw [mem_singleton.mp hu]
        exact ⟨r, hr, Lib.Table.key_of_find hfind, htenant, hendpoint, hsame, hbefore⟩
  · rename_i T htake
    rw [htake] at hremoves
    subst hremoves
    split_ifs
    · exact h.drop _
    · exact h

theorem job (h : l.Balanced) {e : Event} (he : ∀ now freshID a, e ≠ .createUnread now freshID a) :
    (l.next (.job e)).Balanced :=
  ⟨h.live, h.hex, h.once, h.matched, h.keys.next he⟩

theorem next (h : l.Balanced) {e : LedgerEvent} (he : l.Plain e) : (l.next e).Balanced := by
  cases e with
  | reserve now freshID t e d => exact h.reserve now freshID t e he
  | purge now => exact h.drop _
  | take now jobID t e d => exact h.take t e he.1 he.2
  | job e =>
    apply h.job
    rintro now freshID a rfl
    exact he

theorem empty : Ledger.empty.Balanced :=
  ⟨fun _ h => (by cases h), fun _ h => (by cases h), fun _ => Nat.le_refl 0, fun _ h => (by cases h),
    fun _ _ _ _ h => (by cases h)⟩

end Ledger.Balanced

/-- In every run from a fresh database whose calls are plain, no id is taken more often than it was reserved,
what is taken was reserved for it and had not expired, and no two jobs of a tenant share an idempotency key. -/
theorem reservations_and_keys (l : Ledger)
    (h : Run (Guarded Ledger.Plain (StepOf Ledger.step)) Ledger.empty l) :
    (∀ id, (l.taken.map Taking.jobID).count id ≤ (l.reserved.map JobReservation.jobID).count id) ∧
    (∀ u ∈ l.taken, ∃ r ∈ l.reserved, r.jobID = u.jobID ∧ r.tenantID = u.tenantID ∧
      r.endpointID = u.endpointID ∧ r.actionDigest = u.actionDigest ∧ u.takenAt < r.expiresAt) ∧
    (∀ j₁ ∈ l.store.jobs.rows, ∀ j₂ ∈ l.store.jobs.rows, j₁.idempotencyKey ≠ [] → j₁.tenantID = j₂.tenantID →
      j₁.idempotencyKey = j₂.idempotencyKey → j₁ = j₂) ∧
    ∀ (a : CreateArgs) (now : Time) (freshID : Str), ∀ j ∈ l.store.jobs.rows, a.grant ≠ none → a.tenantID ≠ [] →
      a.endpointID ≠ [] → a.idempotencyKey ≠ [] → j.tenantID = a.tenantID → j.idempotencyKey = a.idempotencyKey →
      l.store.createJob now freshID a = (.ok j, l.store) := by
  have hbalanced : l.Balanced := by
    refine h.preserves (I := Ledger.Balanced) (fun s e t hs hstep => ?_) .empty
    obtain ⟨hplain, hnext⟩ := hstep
    cases hnext
    exact hs.next hplain
  refine ⟨fun id => (Nat.le_add_right _ _).trans (hbalanced.once id), hbalanced.matched, ?_, ?_⟩
  · intro j₁ hj₁ j₂ hj₂ hkey htenant hsame
    exact Lib.Table.eq_of_key hj₁ hj₂ (hbalanced.keys _ _ j₁ j₂ (Lib.Table.find_of_mem hj₁)
      (Lib.Table.find_of_mem hj₂) hkey htenant hsame)
  · intro a now freshID j hj hgrant htenant hendpoint hkey hsame hsamekey
    exact hbalanced.keys.repeated (Lib.Table.find_of_mem hj) hgrant htenant hendpoint hkey ⟨hsame, hsamekey⟩ now freshID

def keyedArgs : CreateArgs :=
  { tenantID := str "t", endpointID := str "e", kind := actionKindScriptExec, requestedBy := str "op",
    grant := some { version := 2, grantID := str "g" }, payloadJSON := [], idempotencyKey := str "k" }

/-- An id is reserved and taken, and a job is created under a key. -/
def courierRun : List LedgerEvent :=
  [.reserve 0 (str "id") (str "t") (str "e") sampleDigest,
   .take second (str "id") (str "t") (str "e") sampleDigest,
   .job (.call second (.create (str "job") keyedArgs))]

theorem reservations_and_keys_courier :
    ∃ l : Ledger, (l.taken = [⟨str "id", str "t", str "e", sampleDigest, second⟩] ∧ l.store.jobs.rows.length = 1) ∧
      (∀ id, (l.taken.map Taking.jobID).count id ≤ (l.reserved.map JobReservation.jobID).count id) ∧
      (∀ u ∈ l.taken, ∃ r ∈ l.reserved, r.jobID = u.jobID ∧ r.tenantID = u.tenantID ∧
        r.endpointID = u.endpointID ∧ r.actionDigest = u.actionDigest ∧ u.takenAt < r.expiresAt) ∧
      (∀ j₁ ∈ l.store.jobs.rows, ∀ j₂ ∈ l.store.jobs.rows, j₁.idempotencyKey ≠ [] → j₁.tenantID = j₂.tenantID →
        j₁.idempotencyKey = j₂.idempotencyKey → j₁ = j₂) ∧
      ∀ (a : CreateArgs) (now : Time) (freshID : Str), ∀ j ∈ l.store.jobs.rows, a.grant ≠ none → a.tenantID ≠ [] →
        a.endpointID ≠ [] → a.idempotencyKey ≠ [] → j.tenantID = a.tenantID → j.idempotencyKey = a.idempotencyKey →
        l.store.createJob now freshID a = (.ok j, l.store) := by
  have hlist : runList Ledger.step .empty courierRun = some (courierRun.foldl Ledger.next .empty) := rfl
  have hrun := run_of_runList hlist (show Meets _ Ledger.Plain _ _ by decide +kernel)
  exact ⟨_, by decide +kernel, reservations_and_keys _ hrun⟩

/-- The second of two creations under one key cannot look the key up: there are two jobs. -/
theorem unread_key_doubles :
    ((Ledger.empty.next (.job (.call 1 (.create (str "first") keyedArgs)))).next
        (.job (.createUnread 2 (str "second") keyedArgs))).store.jobs.rows.map
      (fun j => (j.id, j.tenantID, j.idempotencyKey)) =
    [(str "first", str "t", str "k"), (str "second", str "t", str "k")] := by
  decide +kernel

end Ominull.Response
