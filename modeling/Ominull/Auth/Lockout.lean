import Ominull.Auth.TotpRun

/-!
A time step unlocks one session, whatever the interleaving. The lockout after five failures holds while an
operator's attempts do not overlap: the count is read and written in separate steps.
-/

namespace Ominull.Auth.Totp

open Go Lib Response List

variable {K : Keys} {s t : State} {e : Event}

/-! ## One session to a step -/

/-- The attempt's step, if it is entered, is among the nonces. -/
def Entered (nonces : List Str) (x : Thread Request Phase) : Prop :=
  ∀ step ∈ x.phase.enteredStep, stepNonce x.req step ∈ nonces

def Distinct (x y : Thread Request Phase) : Prop :=
  ∀ a ∈ x.phase.enteredStep, ∀ b ∈ y.phase.enteredStep, stepNonce x.req a ≠ stepNonce y.req b

structure State.StepsOnce (s : State) : Prop where
  entered : ∀ x ∈ s.calls.rows, Entered s.nonces x
  distinct : ∀ x ∈ s.calls.rows, ∀ y ∈ s.calls.rows, x.id ≠ y.id → Distinct x y

variable {x : Thread Request Phase}

theorem Distinct.symm {y : Thread Request Phase} (h : Distinct x y) : Distinct y x :=
  fun a ha b hb => Ne.symm (h b hb a ha)

theorem State.StepsOnce.move (h : s.StepsOnce) {i : ℕ} (hi : s.calls.find i = some x) {p : Phase}
    (hp : ∀ step ∈ p.enteredStep, step ∈ x.phase.enteredStep) {T : Authenticators} {history : List Attempt} :
    State.StepsOnce ⟨T, s.nonces, s.calls.move i p, history⟩ where
  entered := Threads.forall_move hi (fun y hy _ => h.entered y hy)
    fun step hstep => h.entered x (Table.mem_of_find hi) step (hp step hstep)
  distinct := by
    refine Threads.forall₂_move (R := Distinct) (fun _ _ => Distinct.symm) hi h.distinct fun y hy hne a ha b hb => ?_
    have hid : x.id = i := Table.key_of_find hi
    exact h.distinct x (Table.mem_of_find hi) y hy (hid ▸ Ne.symm hne) a (hp a ha) b hb

theorem enteredStep_unlockCall (K : Keys) (T : Authenticators) (req : Request) (now : Time) :
    (unlockCall K T req now).enteredStep = none := by
  unfold unlockCall
  dsimp only
  split
  · rfl
  · split
    · rfl
    · split
      · rfl
      · split
        · rfl
        · rfl
        · split
          · rfl
          · rfl

theorem State.StepsOnce.step (h : s.StepsOnce) (ht : Takes K s e t) : t.StepsOnce := by
  have hnone : ∀ {p : Phase} {P : Int → Prop}, p.enteredStep = none → ∀ step ∈ p.enteredStep, P step := by
    intro p P hp step hstep
    rw [hp] at hstep
    cases hstep
  cases ht with
  | enroll hins => exact ⟨h.entered, h.distinct⟩
  | request hstart =>
    exact ⟨Threads.forall_start hstart h.entered (hnone rfl),
      Threads.forall₂_start (R := Distinct) (fun _ _ => Distinct.symm) hstart h.distinct fun _ _ => hnone rfl⟩
  | list now hi => exact h.move hi (hnone (enteredStep_unlockCall ..))
  | countFailure hi => exact h.move hi (hnone rfl)
  | @enterStep i req now row step hi =>
    unfold Totp.enterStep
    split
    · exact h.move hi (hnone rfl)
    case isFalse hnew =>
      constructor
      · refine Threads.forall_move hi (fun y hy _ a ha => mem_cons_of_mem _ (h.entered y hy a ha)) ?_
        intro a ha
        cases ha
        exact mem_cons_self
      · refine Threads.forall₂_move (R := Distinct) (fun _ _ => Distinct.symm) hi h.distinct ?_
        -- what the others have entered is a nonce already
        intro y hy _ a ha b hb heq
        cases ha
        exact hnew (heq ▸ h.entered y hy b hb)
  | @resetFailures i req now row step hi => exact h.move (p := .reset now step) hi fun _ hstep => hstep
  | @openSession i req now step sessionID idleTTL sessionTTL hi =>
    exact h.move (p := .opened (newSession req now sessionID idleTTL sessionTTL) step) hi fun _ hstep => hstep
  | nonce hnew => exact ⟨fun x hx a ha => mem_cons_of_mem _ (h.entered x hx a ha), h.distinct⟩

/-! ## The authenticator failures are counted on -/

variable {id : Str}

section FirstTotp

variable {T T' : Authenticators} {tenantID operatorID : Str} {row : AuthenticatorRecord}

theorem firstTotp_some (h : firstTotp T tenantID operatorID = some row) :
    T.find row.id = some row ∧ row.tenantID = tenantID ∧ row.operatorID = operatorID := by
  obtain ⟨hfind, htenant, hoperator, -⟩ := Authenticators.mem_list (mem_of_find?_eq_some h)
  exact ⟨hfind, htenant, hoperator⟩

theorem firstTotp_insert {new : AuthenticatorRecord} (hins : T.insert new = some T')
    (h : firstTotp T tenantID operatorID = some row) : firstTotp T' tenantID operatorID = some row := by
  unfold firstTotp Authenticators.list at h ⊢
  rw [(Table.insert_rows hins).1, filter_append, find?_append, h]
  rfl

/-- A write of usage changes no more than that row. -/
theorem firstTotp_updateUsage (T : Authenticators) (id : Str) (lastUsed : Time) (count : Int)
    (lock : Option Time) (tenantID operatorID : Str) :
    firstTotp (T.updateUsage id lastUsed count lock) tenantID operatorID =
      (firstTotp T tenantID operatorID).map fun r =>
        if r.id = id then { r with lastUsedAt := some lastUsed, failureCount := count, lockedUntil := lock } else r := by
  unfold firstTotp Authenticators.list Authenticators.updateUsage Table.update
  rw [filter_map, find?_map]
  -- whose a row is, and of which type, the write leaves alone
  congr 2
  · funext r
    simp only [Function.comp_apply]
    split
    · rfl
    · rfl
  · congr 1
    funext r
    simp only [Function.comp_apply]
    split
    · rfl
    · rfl

def Owner (T : Authenticators) (id tenantID operatorID : Str) : Prop :=
  ∃ row, T.find id = some row ∧ row.tenantID = tenantID ∧ row.operatorID = operatorID

theorem owner_of_firstTotp (h : firstTotp T tenantID operatorID = some row) : Owner T row.id tenantID operatorID :=
  ⟨row, firstTotp_some h⟩

theorem Owner.insert {new : AuthenticatorRecord} (h : Owner T id tenantID operatorID) (hins : T.insert new = some T') :
    Owner T' id tenantID operatorID := by
  obtain ⟨row, hfind, howner⟩ := h
  exact ⟨row, Table.find_insert_of_find hins hfind, howner⟩

theorem Owner.updateUsage {id' : Str} (h : Owner T id tenantID operatorID) (lastUsed : Time) (count : Int)
    (lock : Option Time) : Owner (T.updateUsage id' lastUsed count lock) id tenantID operatorID := by
  obtain ⟨row, hfind, howner⟩ := h
  by_cases hid : id' = id
  · subst hid
    refine ⟨_, (Table.find_update_same ..).trans (congrArg _ hfind), howner⟩
  · exact ⟨row, (Table.find_update_other _ _ _ hid).trans hfind, howner⟩

theorem firstTotp_updateUsage_other {tenantID' operatorID' : Str} (h : Owner T id tenantID' operatorID')
    (hne : ¬(tenantID' = tenantID ∧ operatorID' = operatorID)) (lastUsed : Time) (count : Int) (lock : Option Time) :
    firstTotp (T.updateUsage id lastUsed count lock) tenantID operatorID = firstTotp T tenantID operatorID := by
  rw [firstTotp_updateUsage]
  cases hfirst : firstTotp T tenantID operatorID with
  | none => rfl
  | some r =>
    obtain ⟨row, hfind, rfl, rfl⟩ := h
    obtain ⟨hr, rfl, rfl⟩ := firstTotp_some hfirst
    rw [Option.map_some, if_neg]
    rintro rfl
    obtain rfl : r = row := Option.some.inj (hr.symm.trans hfind)
    exact hne ⟨rfl, rfl⟩

end FirstTotp

/-! ## The lockout -/

/-- The operator's failures since the last attempt that was accepted, the latest first. -/
def failures (history : List Attempt) (tenantID operatorID : Str) : List Time :=
  ((history.filter fun a => a.tenantID = tenantID ∧ a.operatorID = operatorID).takeWhile Attempt.failed).map
    Attempt.now

/-- An operator's authenticators are not read while another attempt of that operator has read them and
has yet to write. -/
def AloneSteps (s : State) : Event → Prop
  | .list i _ => ∀ t ∈ s.calls.find i, ∀ x ∈ s.calls.rows, x.phase.pending = true →
      ¬(x.req.tenantID = t.req.tenantID ∧ x.req.operatorID = t.req.operatorID)
  | _ => True

instance decidableAloneSteps (s : State) (e : Event) : Decidable (AloneSteps s e) := by
  cases e <;> dsimp only [AloneSteps] <;> infer_instance

/-- The operator's failures are counted on the first authenticator, and it is locked for them. -/
structure Counted (T : Authenticators) (history : List Attempt) (tenantID operatorID : Str) : Prop where
  counted : ∀ last rest, failures history tenantID operatorID = last :: rest →
    ∃ row, firstTotp T tenantID operatorID = some row ∧ (rest.length + 1 : Int) ≤ row.failureCount ∧
      (maxFailedAttempts ≤ (rest.length + 1 : Int) → row.lockedUntil = some (last + lockoutDuration))

/-- What an attempt has read: the first authenticator as it is stored, if its code was wrong, and an
authenticator of its operator, if it was right. -/
def Current (T : Authenticators) (x : Thread Request Phase) : Prop :=
  match x.phase with
  | .failing _ row => firstTotp T x.req.tenantID x.req.operatorID = some row
  | .matched _ row _ | .recorded _ row _ => Owner T row.id x.req.tenantID x.req.operatorID
  | .called | .reset .. | .opened .. | .refused => True

/-- Two attempts of one operator are not both on their way from read to write. -/
def Apart (x y : Thread Request Phase) : Prop :=
  x.phase.pending = true → y.phase.pending = true →
    ¬(x.req.tenantID = y.req.tenantID ∧ x.req.operatorID = y.req.operatorID)

structure State.LocksOut (s : State) : Prop where
  nonneg : ∀ row ∈ s.authenticators.rows, 0 ≤ row.failureCount
  counted : ∀ tenantID operatorID, Counted s.authenticators s.history tenantID operatorID
  current : ∀ x ∈ s.calls.rows, Current s.authenticators x
  apart : ∀ x ∈ s.calls.rows, ∀ y ∈ s.calls.rows, x.id ≠ y.id → Apart x y

section Failures

variable {history : List Attempt} {a : Attempt} {tenantID operatorID : Str}

theorem failures_cons_other (h : ¬(a.tenantID = tenantID ∧ a.operatorID = operatorID)) :
    failures (a :: history) tenantID operatorID = failures history tenantID operatorID := by
  rw [failures, filter_cons_of_neg (by simpa using h), failures]

theorem failures_cons_failed (ha : a.failed = true) :
    failures (a :: history) a.tenantID a.operatorID = a.now :: failures history a.tenantID a.operatorID := by
  rw [failures, filter_cons_of_pos (by simp), takeWhile_cons_of_pos ha, map_cons, failures]

theorem failures_cons_accepted (ha : a.failed = false) : failures (a :: history) a.tenantID a.operatorID = [] := by
  rw [failures, filter_cons_of_pos (by simp), takeWhile_cons_of_neg (by simp [ha]), map_nil]

end Failures

variable {now : Time}

section Writes

variable {T T' : Authenticators} {history : List Attempt} {tenantID operatorID : Str}

theorem Counted.congr (h : Counted T history tenantID operatorID)
    (hfirst : ∀ row, firstTotp T tenantID operatorID = some row → firstTotp T' tenantID operatorID = some row)
    {history' : List Attempt} (hhistory : failures history' tenantID operatorID = failures history tenantID operatorID) :
    Counted T' history' tenantID operatorID := by
  refine ⟨fun last rest hfail => ?_⟩
  obtain ⟨row, hrow, hcount⟩ := h.counted last rest (hhistory ▸ hfail)
  exact ⟨row, hfirst row hrow, hcount⟩

theorem current_congr (h : Current T x)
    (hfirst : x.phase.pending = true → ∀ row, firstTotp T x.req.tenantID x.req.operatorID = some row →
      firstTotp T' x.req.tenantID x.req.operatorID = some row)
    (howner : ∀ id, Owner T id x.req.tenantID x.req.operatorID → Owner T' id x.req.tenantID x.req.operatorID) :
    Current T' x := by
  obtain ⟨i, req, p⟩ := x
  cases p with
  | failing now row => exact hfirst rfl row h
  | matched now row step | recorded now row step => exact howner _ h
  | called | reset now step | opened session step | refused => exact trivial

theorem nonneg_updateUsage (h : ∀ row ∈ T.rows, 0 ≤ row.failureCount) {lastUsed : Time} {count : Int}
    {lock : Option Time} (hcount : 0 ≤ count) :
    ∀ row ∈ (T.updateUsage id lastUsed count lock).rows, 0 ≤ row.failureCount := by
  intro row hrow
  rcases Table.mem_update.mp hrow with ⟨hmem, -⟩ | ⟨r, -, -, rfl⟩
  · exact h row hmem
  · exact hcount

theorem Counted.countFailure (h : Counted T history tenantID operatorID) {row : AuthenticatorRecord}
    (hfirst : firstTotp T tenantID operatorID = some row) (hnonneg : 0 ≤ row.failureCount) :
    Counted (T.updateUsage row.id now (row.failureCount + 1) (lockUntil now (row.failureCount + 1)))
      (⟨tenantID, operatorID, now, true⟩ :: history) tenantID operatorID := by
  have hle : ((failures history tenantID operatorID).length : Int) ≤ row.failureCount := by
    cases hfail : failures history tenantID operatorID with
    | nil => exact hnonneg
    | cons last rest =>
      obtain ⟨r, hr, hcount, -⟩ := h.counted last rest hfail
      rw [hfirst] at hr
      cases hr
      simpa using hcount
  refine ⟨fun last rest hfail => ?_⟩
  rw [failures_cons_failed rfl] at hfail
  cases hfail
  refine ⟨_, by rw [firstTotp_updateUsage, hfirst, Option.map_some, if_pos rfl], ?_, fun hmax => ?_⟩
  · exact Int.add_le_add_right hle 1
  · exact if_pos (Int.le_trans hmax (Int.add_le_add_right hle 1))

end Writes

theorem current_unlockCall (K : Keys) (T : Authenticators) (i : ℕ) (req : Request) (now : Time) :
    Current T ⟨i, req, unlockCall K T req now⟩ := by
  unfold unlockCall
  dsimp only
  split
  · exact trivial
  · split
    · exact trivial
    · split
      · exact trivial
      · split
        · exact trivial
        case h_2 row step hmatched =>
          obtain ⟨hfind, htenant, hoperator, -⟩ := Authenticators.mem_list (evaluate_matched hmatched)
          exact ⟨row, hfind, htenant, hoperator⟩
        · split
          case h_1 row hrow => exact hrow
          case h_2 => exact trivial

/-- A write of an attempt on its operator's row, with the attempt's entry in the history. -/
theorem State.LocksOut.write (h : s.LocksOut) {i : ℕ} (hi : s.calls.find i = some x)
    (hpending : x.phase.pending = true) (howner : Owner s.authenticators id x.req.tenantID x.req.operatorID)
    {count : Int} {lock : Option Time} (hcount : 0 ≤ count) {failed : Bool} {p : Phase} (hp : p.pending = false)
    (hmine : Counted (s.authenticators.updateUsage id now count lock)
      (⟨x.req.tenantID, x.req.operatorID, now, failed⟩ :: s.history) x.req.tenantID x.req.operatorID) :
    State.LocksOut ⟨s.authenticators.updateUsage id now count lock, s.nonces, s.calls.move i p,
      ⟨x.req.tenantID, x.req.operatorID, now, failed⟩ :: s.history⟩ where
  nonneg := nonneg_updateUsage h.nonneg hcount
  counted tenantID operatorID := by
    by_cases hop : x.req.tenantID = tenantID ∧ x.req.operatorID = operatorID
    · obtain ⟨rfl, rfl⟩ := hop
      exact hmine
    · refine (h.counted tenantID operatorID).congr (fun row hrow => ?_) (failures_cons_other hop)
      rw [firstTotp_updateUsage_other howner hop, hrow]
  current := by
    refine Threads.forall_move hi (fun y hy hne => ?_) ?_
    · refine current_congr (h.current y hy) (fun hy' row hrow => ?_) fun id hid => hid.updateUsage now count lock
      -- the attempts of one operator do not overlap
      have hid : x.id = i := Table.key_of_find hi
      have hop := h.apart x (Table.mem_of_find hi) y hy (hid ▸ Ne.symm hne) hpending hy'
      rw [firstTotp_updateUsage_other howner hop, hrow]
    · cases p with
      | called | reset now step | opened session step | refused => exact trivial
      | failing now row | matched now row step | recorded now row step => cases hp
  apart := by
    refine Threads.forall₂_move (R := Apart) (fun _ _ hxy hy hx hop => hxy hx hy ⟨hop.1.symm, hop.2.symm⟩) hi h.apart ?_
    intro y _ _ hnew
    exact absurd (hp.symm.trans hnew) Bool.false_ne_true

theorem State.LocksOut.move (h : s.LocksOut) {i : ℕ} (hi : s.calls.find i = some x) {nonces : List Str} {p : Phase}
    (hcurrent : Current s.authenticators ⟨i, x.req, p⟩) (hp : p.pending = true → x.phase.pending = true) :
    State.LocksOut ⟨s.authenticators, nonces, s.calls.move i p, s.history⟩ where
  nonneg := h.nonneg
  counted := h.counted
  current := Threads.forall_move hi (fun y hy _ => h.current y hy) hcurrent
  apart := by
    refine Threads.forall₂_move (R := Apart) (fun _ _ hxy hy hx hop => hxy hx hy ⟨hop.1.symm, hop.2.symm⟩) hi h.apart ?_
    intro y hy hne hnew
    have hid : x.id = i := Table.key_of_find hi
    exact h.apart x (Table.mem_of_find hi) y hy (hid ▸ Ne.symm hne) (hp hnew)

theorem State.LocksOut.list (h : s.LocksOut) {i : ℕ} {req : Request} (hi : s.calls.find i = some ⟨i, req, .called⟩)
    (hok : AloneSteps s (.list i now)) :
    State.LocksOut { s with calls := s.calls.move i (unlockCall K s.authenticators req now) } where
  nonneg := h.nonneg
  counted := h.counted
  current := Threads.forall_move hi (fun y hy _ => h.current y hy) (current_unlockCall K s.authenticators i req now)
  apart := by
    refine Threads.forall₂_move (R := Apart) (fun _ _ hxy hy hx hop => hxy hx hy ⟨hop.1.symm, hop.2.symm⟩) hi h.apart ?_
    intro y hy _ _ hpending hop
    exact hok _ hi y hy hpending ⟨hop.1.symm, hop.2.symm⟩

theorem State.LocksOut.step (h : s.LocksOut) (hok : AloneSteps s e) (ht : Takes K s e t) : t.LocksOut := by
  cases ht with
  | enroll hins =>
    refine ⟨?_, fun tenantID operatorID => ?_, fun x hx => ?_, h.apart⟩
    · rw [(Table.insert_rows hins).1]
      exact forall_mem_append.mpr ⟨h.nonneg, forall_mem_singleton.mpr (Int.le_refl 0)⟩
    · exact (h.counted tenantID operatorID).congr (fun row => firstTotp_insert hins) rfl
    · exact current_congr (h.current x hx) (fun _ row => firstTotp_insert hins) fun id hid => hid.insert hins
  | request hstart =>
    exact ⟨h.nonneg, h.counted, Threads.forall_start hstart h.current trivial,
      Threads.forall₂_start (R := Apart) (fun _ _ hxy hy hx hop => hxy hx hy ⟨hop.1.symm, hop.2.symm⟩) hstart h.apart
        fun _ _ hpending => absurd hpending Bool.false_ne_true⟩
  | list now hi => exact h.list hi hok
  | @countFailure i req now row hi =>
    have hfirst : firstTotp s.authenticators req.tenantID req.operatorID = some row := h.current _ (Table.mem_of_find hi)
    have hnonneg : 0 ≤ row.failureCount := h.nonneg row (Table.mem_of_find (firstTotp_some hfirst).1)
    exact h.write hi rfl (owner_of_firstTotp hfirst) (Int.add_nonneg hnonneg (by decide)) rfl
      ((h.counted _ _).countFailure hfirst hnonneg)
  | @enterStep i req now row step hi =>
    have howner : Owner s.authenticators row.id req.tenantID req.operatorID := h.current _ (Table.mem_of_find hi)
    unfold Totp.enterStep
    split
    · exact h.move hi trivial fun hpending => absurd hpending Bool.false_ne_true
    · exact h.move (p := .recorded now row step) hi howner fun _ => rfl
  | @resetFailures i req now row step hi =>
    have howner : Owner s.authenticators row.id req.tenantID req.operatorID := h.current _ (Table.mem_of_find hi)
    refine h.write (p := .reset now step) hi rfl howner (Int.le_refl 0) rfl ⟨fun last rest hfail => ?_⟩
    rw [failures_cons_accepted rfl] at hfail
    cases hfail
  | @openSession i req now step sessionID idleTTL sessionTTL hi =>
    exact h.move (p := .opened (newSession req now sessionID idleTTL sessionTTL) step) hi trivial
      fun hpending => absurd hpending Bool.false_ne_true
  | nonce hnew => exact { h with }

theorem locksOut_init : State.init.LocksOut :=
  ⟨forall_mem_nil _, fun _ _ => ⟨nofun⟩, forall_mem_nil _, forall_mem_nil _⟩

theorem evaluate_cases (K : Keys) (code : Str) (now : Time) (rows : List AuthenticatorRecord) :
    evaluate K code now rows = .locked ∨ (∃ row, rows.find? isTotp = some row ∧ isLocked row now = false) ∨
      (rows.find? isTotp = none ∧ evaluate K code now rows = .noMatch) := by
  induction rows with
  | nil => exact .inr (.inr ⟨rfl, rfl⟩)
  | cons r rows ih =>
    unfold evaluate
    cases hr : isTotp r with
    | false =>
      rw [find?_cons_of_neg (by simp [hr])]
      exact ih
    | true =>
      rw [find?_cons_of_pos hr]
      cases hlocked : isLocked r now with
      | true => exact .inl rfl
      | false => exact .inr (.inl ⟨r, rfl, hlocked⟩)

theorem comparesCode_of_unlockCall {T : Authenticators} {req : Request} (h : unlockCall K T req now ≠ .refused) :
    ComparesCode T req now := by
  rcases evaluate_cases K req.totpCode now (T.list req.tenantID req.operatorID) with hlocked | hfirst | ⟨hnone, hno⟩
  · refine absurd ?_ h
    unfold unlockCall
    simp only [hlocked, ite_self]
  · exact hfirst
  · refine absurd ?_ h
    unfold unlockCall firstTotp
    simp only [hno, hnone, ite_self]

/-- A time step of an operator unlocks at most one session in every run. In every run in which an
operator's attempts do not overlap, no attempt after five failures gets to the comparison of its code, or
past it, until fifteen minutes after the last of them. -/
theorem totp_unlock (K : Keys) :
    (∀ s, Run (StepOf (step K)) State.init s → ∀ x ∈ s.calls.rows, ∀ y ∈ s.calls.rows, x.id ≠ y.id →
      x.req.tenantID = y.req.tenantID → x.req.operatorID = y.req.operatorID →
      ∀ a ∈ x.phase.openedStep, ∀ b ∈ y.phase.openedStep, a ≠ b) ∧
    ∀ s, Run (Guarded AloneSteps (StepOf (step K))) State.init s →
      ∀ (req : Request) (now last : Time) (rest : List Time),
        failures s.history req.tenantID req.operatorID = last :: rest → 5 ≤ (last :: rest).length →
        ComparesCode s.authenticators req now ∨ unlockCall K s.authenticators req now ≠ .refused →
        last + lockoutDuration ≤ now := by
  constructor
  · intro s h x hx y hy hne htenant hoperator a ha b hb hab
    have hinit : State.init.StepsOnce := ⟨forall_mem_nil _, forall_mem_nil _⟩
    have honce : s.StepsOnce := h.preserves (fun s e t hs hst => hs.step (takes_of_step hst)) hinit
    have hentered : ∀ (p : Phase) (c : Int), c ∈ p.openedStep → c ∈ p.enteredStep := by
      intro p c hc
      cases p with
      | opened session step => exact hc
      | called | failing now row | matched now row step | recorded now row step | reset now step | refused =>
        cases hc
    refine honce.distinct x hx y hy hne a (hentered _ a ha) b (hentered _ b hb) ?_
    rw [stepNonce, stepNonce, htenant, hoperator, hab]
  · intro s h req now last rest hfail hfive hcompared
    obtain ⟨row, hrow, hunlocked⟩ : ComparesCode s.authenticators req now :=
      hcompared.elim id comparesCode_of_unlockCall
    have hlocks : s.LocksOut := h.preserves (fun s e t hs hst => hs.step hst.1 (takes_of_step hst.2)) locksOut_init
    obtain ⟨r, hr, -, hlock⟩ := (hlocks.counted req.tenantID req.operatorID).counted last rest hfail
    obtain rfl : r = row := Option.some.inj (hr.symm.trans hrow)
    have hmax : maxFailedAttempts ≤ (rest.length + 1 : Int) := by
      rw [length_cons] at hfive
      unfold maxFailedAttempts
      omega
    rw [isLocked, hlock hmax] at hunlocked
    simpa using hunlocked

/-! ## Runs -/

/-- A code is the time step itself. -/
def sampleKeys : Keys where
  hmac _ counter := counter ++ List.replicate 11 0 ++ [4]
  aead := Aead.sample
  masterKey := []

def sampleEnroll : Event := .enroll (str "a1") (str "t1") (str "op") .totp (str "MFRGGZDF")

def sampleRequest (code : String) : Request :=
  ⟨str "t1", str "op", str "b1", hexEncode (List.replicate 32 2), str code⟩

def wrongAttempt (i : ℕ) (second : Int) : List Event :=
  [.request i (sampleRequest "999999"), .list i (second * 1000000000), .countFailure i]

/-- An attempt with the code of the first time step. -/
def rightAttempt (i : ℕ) (second : Int) : List Event :=
  [.request i (sampleRequest "000001"), .list i (second * 1000000000), .enterStep i, .resetFailures i,
    .openSession i (decimal i) 10 100]

/-- Five failures at second 40: an attempt is compared at second 940 and not at 939. -/
theorem totp_unlock_after_fifteen_minutes :
    ∃ s, Run (Guarded AloneSteps (StepOf (step sampleKeys))) State.init s ∧
      failures s.history (str "t1") (str "op") = List.replicate 5 (40 * 1000000000) ∧
      ComparesCode s.authenticators (sampleRequest "000001") (940 * 1000000000) ∧
      ¬ComparesCode s.authenticators (sampleRequest "000001") (939 * 1000000000) := by
  refine exists_run (sampleEnroll :: (List.range 5).flatMap fun i => wrongAttempt i 40)
    (fun s => failures s.history (str "t1") (str "op") = List.replicate 5 (40 * 1000000000) ∧
      ComparesCode s.authenticators (sampleRequest "000001") (940 * 1000000000)) (by decide +kernel) (by decide +kernel) ?_
  intro s hrun ⟨hfail, hcompares⟩
  refine ⟨hfail, hcompares, fun h => ?_⟩
  have hle := (totp_unlock sampleKeys).2 s hrun _ _ (40 * 1000000000) (List.replicate 4 (40 * 1000000000)) hfail
    (by decide) (.inl h)
  exact absurd hle (by decide)

/-- Five attempts that read before any of them writes: the sixth is compared in the same second. -/
theorem overlapping_failures_uncounted :
    ((runList (step sampleKeys) State.init
        (sampleEnroll :: ((List.range 5).map fun i => .request i (sampleRequest "999999")) ++
          ((List.range 5).map fun i => .list i (40 * 1000000000)) ++ (List.range 5).map .countFailure ++
          rightAttempt 5 40)).map fun s =>
      (s.history.map fun a => a.failed, s.calls.rows.filterMap fun x => x.phase.openedStep)) =
      some ([false, true, true, true, true, true], [1]) := by
  decide +kernel

end Ominull.Auth.Totp
