import Ominull.Auth.WebAuthnRun

/-!
The counters of WebAuthn credentials. While no two logins with one credential are between the read of its
row and the write, and none comes with the counter zero after a counter that was not, the stored counter
is never behind that of a session that was opened.
-/

namespace Ominull.Auth.WebAuthn

open Go Lib Response List

def countOf (T : Authenticators) (id : Str) : ℕ :=
  (((T.find id).map AuthenticatorRecord.secretOrKey).bind StoredWebAuthnCredential.unmarshal).elim 0
    StoredWebAuthnCredential.signCount

def Phase.matchedCred : Phase → Option StoredWebAuthnCredential
  | .matched _ _ cred => some cred
  | _ => none

/-- No row is read that another call has read and not yet written back, no assertion with the counter zero
is verified against a counter that is not zero, and saves succeed. -/
def CountedSteps (s : State) : Event → Prop
  | .list i now => ∀ t ∈ s.calls.find i, ∀ row ∈ (matchCall s.authenticators t.req now).pendingRow,
      ∀ x ∈ s.calls.rows, ∀ r ∈ x.phase.pendingRow, row.id ≠ r.id
  | .verify i _ => ∀ t ∈ s.calls.find i, ∀ cred ∈ t.phase.matchedCred,
      ∀ authData ∈ decodeBase64 t.req.authenticatorData, signCountOf authData = 0 → cred.signCount = 0
  | .saveFailed _ => False
  | _ => True

instance decidableCountedSteps (s : State) : (e : Event) → Decidable (CountedSteps s e)
  | .challenge .. | .register .. | .request .. | .list .. | .verify .. | .save .. | .saveFailed ..
  | .openSession .. => by dsimp only [CountedSteps]; infer_instance

/-- The assertion's counter is beyond that of every session with its credential that had been opened, on a
counter other than zero, when its verification began. -/
structure Later (opened : List Opened) (v : Verified) : Prop where
  before : v.openedBefore ≤ opened.length
  beyond : ∀ p ∈ opened.take v.openedBefore, p.verified.row.id = v.row.id → p.verified.cred.signCount ≠ 0 →
    p.verified.cred.signCount < v.cred.signCount

def Current (T : Authenticators) (row : AuthenticatorRecord) : Prop :=
  (T.find row.id).map AuthenticatorRecord.secretOrKey = some row.secretOrKey

/-- What holds of a call, by how far it has come. -/
def CallCounted (T : Authenticators) (opened : List Opened) : Phase → Prop
  | .matched _ row cred => Current T row ∧ StoredWebAuthnCredential.unmarshal row.secretOrKey = some cred
  | .verified v => Current T v.row ∧ v.cred.WellFormed ∧ countOf T v.row.id ≤ v.cred.signCount ∧ Later opened v
  | .saved v => v.cred.signCount ≤ countOf T v.row.id ∧ Later opened v
  | .called | .opened | .refused => True

def Apart (p q : Phase) : Prop := ∀ r ∈ p.pendingRow, ∀ r' ∈ q.pendingRow, r.id ≠ r'.id

structure State.Counted (s : State) : Prop where
  calls : ∀ t ∈ s.calls.rows, CallCounted s.authenticators s.opened t.phase
  apart : ∀ x ∈ s.calls.rows, ∀ y ∈ s.calls.rows, x.id ≠ y.id → Apart x.phase y.phase
  opened : ∀ o ∈ s.opened, o.verified.cred.signCount ≤ countOf s.authenticators o.verified.row.id ∧
    Later s.opened o.verified

/-! ## Counters and rows -/

variable {T T' : Authenticators} {row : AuthenticatorRecord} {cred : StoredWebAuthnCredential}
  {opened : List Opened} {v : Verified} {p q : Phase}

theorem Apart.symm (h : Apart p q) : Apart q p := fun r hr r' hr' => Ne.symm (h r' hr' r hr)

theorem apart_of_pendingRow_none (h : p.pendingRow = none) : Apart p q := by
  intro r hr
  rw [h] at hr
  cases hr

theorem countOf_of_current (h : Current T row) (hcred : StoredWebAuthnCredential.unmarshal row.secretOrKey = some cred) :
    countOf T row.id = cred.signCount := by
  rw [countOf, h, Option.bind_some, hcred]
  rfl

theorem countOf_congr {id : Str} (h : T'.find id = T.find id) : countOf T' id = countOf T id := by
  rw [countOf, h, countOf]

theorem countOf_of_find_none {id : Str} (h : T.find id = none) : countOf T id = 0 := by
  rw [countOf, h]
  rfl

theorem Later.append (h : Later opened v) (l : List Opened) : Later (opened ++ l) v := by
  constructor
  · rw [length_append]
    exact h.before.trans (Nat.le_add_right _ _)
  · rw [take_append_of_le_length h.before]
    exact h.beyond

theorem CallCounted.mono (h : CallCounted T opened p) (hrow : ∀ r ∈ p.pendingRow, T'.find r.id = T.find r.id)
    (hcount : ∀ id, countOf T id ≤ countOf T' id) (l : List Opened) : CallCounted T' (opened ++ l) p := by
  cases p with
  | called | opened | refused => exact trivial
  | matched now row cred =>
    obtain ⟨hcurrent, hcred⟩ := h
    refine ⟨?_, hcred⟩
    rw [Current, hrow row rfl]
    exact hcurrent
  | verified v =>
    obtain ⟨hcurrent, hwf, hle, hlater⟩ := h
    refine ⟨?_, hwf, ?_, hlater.append l⟩
    · rw [Current, hrow v.row rfl]
      exact hcurrent
    · rw [countOf_congr (hrow v.row rfl)]
      exact hle
  | saved v => exact ⟨h.1.trans (hcount _), h.2.append l⟩

theorem countOf_save_same (hwf : cred.WellFormed) :
    countOf (T.save { row with secretOrKey := cred.marshal }) row.id = cred.signCount := by
  have hsecret := Authenticators.secretOrKey_save T { row with secretOrKey := cred.marshal }
  rw [countOf, hsecret, Option.bind_some, StoredWebAuthnCredential.unmarshal_marshal hwf]
  rfl

theorem countOf_save_le (hwf : cred.WellFormed) (hle : countOf T row.id ≤ cred.signCount) (id : Str) :
    countOf T id ≤ countOf (T.save { row with secretOrKey := cred.marshal }) id := by
  by_cases hid : id = row.id
  · subst hid
    rw [countOf_save_same hwf]
    exact hle
  · rw [countOf_congr (Authenticators.find_save_other T { row with secretOrKey := cred.marshal } hid)]

theorem countOf_insert_le (hnew : T.find row.id = none) (id : Str) : countOf T id ≤ countOf (T.save row) id := by
  by_cases hid : id = row.id
  · subst hid
    rw [countOf_of_find_none hnew]
    exact Nat.zero_le _
  · rw [countOf_congr (Authenticators.find_save_other T row hid)]

theorem find_ne_none_of_current (h : Current T row) : T.find row.id ≠ none := by
  intro hnone
  rw [Current, hnone] at h
  cases h

theorem CallCounted.current (h : CallCounted T opened p) {r : AuthenticatorRecord} (hr : r ∈ p.pendingRow) :
    Current T r := by
  cases p with
  | matched now row cred | verified v =>
    cases hr
    exact h.1
  | called | saved v | opened | refused => cases hr

/-! ## What a call reads -/

theorem findCredential_some {rows : List AuthenticatorRecord} {credentialID : Str}
    (h : findCredential rows credentialID = some (row, cred)) :
    row ∈ rows ∧ StoredWebAuthnCredential.unmarshal row.secretOrKey = some cred := by
  obtain ⟨r, hr, hsome⟩ := exists_of_findSome?_eq_some h
  split at hsome
  · split at hsome
    case h_1 c hc =>
      split at hsome
      · cases hsome
        exact ⟨hr, hc⟩
      · cases hsome
    case h_2 => cases hsome
  · cases hsome

theorem callCounted_matchCall (T : Authenticators) (req : WebAuthnAuthenticationRequest) (now : Time)
    (opened : List Opened) : CallCounted T opened (matchCall T req now) := by
  unfold matchCall
  split
  · exact trivial
  case h_2 row cred hfind =>
    obtain ⟨hrow, hcred⟩ := findCredential_some hfind
    split
    · refine ⟨?_, hcred⟩
      rw [Current, (Authenticators.mem_list hrow).1]
      rfl
    · exact trivial

theorem signCountOf_lt (authData : Str) : signCountOf authData < 2 ^ 32 := by
  have hfold : ∀ (s : Str) (n : ℕ), s.foldl (fun n b => 256 * n + b.toNat) n < (n + 1) * 256 ^ s.length := by
    intro s
    induction s with
    | nil =>
      simp
    | cons b s ih =>
      intro n
      have hb := b.toNat_lt
      calc s.foldl (fun n b => 256 * n + b.toNat) (256 * n + b.toNat)
          < (256 * n + b.toNat + 1) * 256 ^ s.length := ih _
        _ ≤ ((n + 1) * 256) * 256 ^ s.length := Nat.mul_le_mul_right _ (by omega)
        _ = (n + 1) * 256 ^ (b :: s).length := by rw [length_cons, pow_succ', Nat.mul_assoc]
  have hlength : ((authData.drop 33).take 4).length ≤ 4 := length_take_le ..
  calc signCountOf authData < (0 + 1) * 256 ^ ((authData.drop 33).take 4).length := hfold _ 0
    _ ≤ 2 ^ 32 := by
      rw [Nat.zero_add, Nat.one_mul]
      exact Nat.pow_le_pow_right (by decide) hlength

/-! ## Steps -/

variable {cfg : WebAuthnRPConfig} {C : Crypto} {V : KeySchemes} {s t : State} {e : Event}

/-- A call moves, and the tables change so that no counter falls behind. -/
theorem State.Counted.move (h : s.Counted) {i : ℕ} {x : Thread WebAuthnAuthenticationRequest Phase}
    (hi : s.calls.find i = some x) {p : Phase} {m : WebAuthnManager} {T : Authenticators} {l : List Opened}
    (hrow : ∀ y ∈ s.calls.rows, y.id ≠ i → ∀ r ∈ y.phase.pendingRow, T.find r.id = s.authenticators.find r.id)
    (hcount : ∀ id, countOf s.authenticators id ≤ countOf T id) (hp : CallCounted T (s.opened ++ l) p)
    (happart : ∀ y ∈ s.calls.rows, y.id ≠ i → Apart p y.phase)
    (hl : ∀ o ∈ l, o.verified.cred.signCount ≤ countOf T o.verified.row.id ∧ Later (s.opened ++ l) o.verified) :
    State.Counted ⟨m, T, s.calls.move i p, s.opened ++ l⟩ where
  calls := Threads.forall_move hi (fun y hy hne => (h.calls y hy).mono (hrow y hy hne) hcount l) hp
  apart := Threads.forall₂_move (R := fun x y => Apart x.phase y.phase) (fun _ _ => Apart.symm) hi h.apart happart
  opened := forall_mem_append.mpr
    ⟨fun o ho => ⟨(h.opened o ho).1.trans (hcount _), (h.opened o ho).2.append l⟩, hl⟩

theorem State.Counted.moveOnly (h : s.Counted) {i : ℕ} {x : Thread WebAuthnAuthenticationRequest Phase}
    (hi : s.calls.find i = some x) {p : Phase} {m : WebAuthnManager}
    (hp : CallCounted s.authenticators s.opened p) (happart : ∀ y ∈ s.calls.rows, y.id ≠ i → Apart p y.phase) :
    State.Counted ⟨m, s.authenticators, s.calls.move i p, s.opened⟩ := by
  have hmove := h.move (l := []) (m := m) hi (fun _ _ _ _ _ => rfl) (fun _ => Nat.le_refl _)
    (by rwa [append_nil]) happart (forall_mem_nil _)
  rwa [append_nil] at hmove

theorem State.Counted.enrol (h : s.Counted) {m : WebAuthnManager} (hnew : s.authenticators.find row.id = none) :
    State.Counted ⟨m, s.authenticators.save row, s.calls, s.opened⟩ where
  calls x hx := by
    have hrow : ∀ r ∈ x.phase.pendingRow, r.id ≠ row.id := fun r hr heq =>
      find_ne_none_of_current ((h.calls x hx).current hr) (heq ▸ hnew)
    have hmono := (h.calls x hx).mono (fun r hr => Authenticators.find_save_other _ row (hrow r hr))
      (countOf_insert_le hnew) []
    rwa [append_nil] at hmono
  apart := h.apart
  opened o ho := ⟨(h.opened o ho).1.trans (countOf_insert_le hnew _), (h.opened o ho).2⟩

/-- The verified assertion: its counter is beyond the stored one, or both are zero. -/
theorem callCounted_verified {i : ℕ} {req : WebAuthnAuthenticationRequest} {start now : Time}
    {row : AuthenticatorRecord} {cred cred' : StoredWebAuthnCredential} {m' : WebAuthnManager} (h : s.Counted)
    (hi : s.calls.find i = some ⟨i, req, .matched start row cred⟩)
    (hzero : ∀ authData ∈ decodeBase64 req.authenticatorData, signCountOf authData = 0 → cred.signCount = 0)
    (hok : verifyAssertion cfg C V s.manager now req cred = (.ok cred', m')) :
    CallCounted s.authenticators s.opened (.verified ⟨start, row, cred', s.opened.length⟩) := by
  obtain ⟨raw, cd, authData, -, -, hchecked, rfl⟩ := verifyAssertion_ok hok
  obtain ⟨hcurrent, hcred⟩ : Current s.authenticators row ∧ _ := h.calls _ (Table.mem_of_find hi)
  have hstored := countOf_of_current hcurrent hcred
  have hwf := StoredWebAuthnCredential.wellFormed_of_unmarshal hcred
  have hzero' := hzero authData hchecked.decoded
  have hcloned := hchecked.signCount
  refine ⟨hcurrent, { hwf with signCount := signCountOf_lt authData }, ?_, Nat.le_refl _, ?_⟩
  · show countOf s.authenticators row.id ≤ signCountOf authData
    omega
  · intro o ho hid hne
    have hle := (h.opened o (mem_of_mem_take ho)).1
    rw [hid] at hle
    show o.verified.cred.signCount < signCountOf authData
    have : o.verified.cred.signCount ≤ countOf s.authenticators row.id := hle
    omega

theorem State.Counted.step (h : s.Counted) (hok : CountedSteps s e) (ht : Takes cfg C V s e t) : t.Counted := by
  cases ht with
  | challenge use => exact ⟨h.calls, h.apart, h.opened⟩
  | register req now hid =>
    unfold WebAuthn.register
    dsimp only
    split
    · exact ⟨h.calls, h.apart, h.opened⟩
    · exact h.enrol hid
  | request hstart =>
    exact ⟨Threads.forall_start hstart h.calls trivial,
      Threads.forall₂_start (R := fun x y => Apart x.phase y.phase) (fun _ _ => Apart.symm) hstart h.apart
        (fun _ _ => apart_of_pendingRow_none rfl), h.opened⟩
  | list now hi =>
    exact h.moveOnly hi (callCounted_matchCall ..) fun y hy _ r hr r' hr' => hok _ hi r hr y hy r' hr'
  | @verify i req start row cred now hi =>
    unfold WebAuthn.verify
    dsimp only
    split
    · exact h.moveOnly hi trivial fun _ _ _ => apart_of_pendingRow_none rfl
    case h_2 cred' hcred' =>
      refine h.moveOnly hi ?_ fun y hy hne => ?_
      · exact callCounted_verified h hi (hok _ hi cred rfl) (Prod.ext hcred' rfl)
      · exact h.apart _ (Table.mem_of_find hi) y hy (Ne.symm hne)
  | @save i req v hi =>
    obtain ⟨hcurrent, hwf, hle, hlater⟩ : CallCounted _ _ (.verified v) := h.calls _ (Table.mem_of_find hi)
    have hcount := countOf_save_le hwf hle
    have hmove := h.move (l := []) (m := s.manager) hi (p := .saved v) ?_ hcount ?_
      (fun _ _ _ => apart_of_pendingRow_none rfl) (forall_mem_nil _)
    · rwa [append_nil] at hmove
    · intro y hy hne r hr
      exact Authenticators.find_save_other _ _ (h.apart _ hy _ (Table.mem_of_find hi) hne r hr v.row rfl)
    · rw [append_nil]
      exact ⟨(countOf_save_same hwf).ge, hlater⟩
  | saveFailed hi => exact hok.elim
  | @openSession i req v sessionID idleTTL sessionTTL hi =>
    obtain ⟨hle, hlater⟩ : CallCounted _ _ (.saved v) := h.calls _ (Table.mem_of_find hi)
    exact h.move hi (fun _ _ _ _ _ => rfl) (fun _ => Nat.le_refl _) trivial
      (fun _ _ _ => apart_of_pendingRow_none rfl) (forall_mem_singleton.mpr ⟨hle, hlater.append _⟩)

/-- A stored counter changes only by the save of a call whose assertion was accepted. -/
theorem saved_of_countOf_ne (ht : Takes cfg C V s e t) {id : Str} (hrow : s.authenticators.find id ≠ none)
    (hne : countOf t.authenticators id ≠ countOf s.authenticators id) :
    ∃ i req v, e = .save i ∧ s.calls.find i = some ⟨i, req, .verified v⟩ ∧ v.row.id = id := by
  cases ht with
  | challenge use | request hstart | list now hi | verify now hi | saveFailed hi
  | openSession sessionID idleTTL sessionTTL hi => exact absurd rfl hne
  | register req now hid =>
    unfold WebAuthn.register at hne
    dsimp only at hne
    split at hne
    · exact absurd rfl hne
    · refine absurd (countOf_congr (Authenticators.find_save_other _ _ ?_)) hne
      rintro rfl
      exact hrow hid
  | @save i req v hi =>
    refine ⟨i, req, v, rfl, hi, ?_⟩
    by_contra hid
    exact hne (countOf_congr (Authenticators.find_save_other _ _ (Ne.symm hid)))

/-- A call that was refused takes no further step. -/
theorem refused_stays (ht : Takes cfg C V s e t) {i : ℕ} {req : WebAuthnAuthenticationRequest}
    (hi : s.calls.find i = some ⟨i, req, .refused⟩) : t.calls.find i = some ⟨i, req, .refused⟩ := by
  have hother : ∀ {j : ℕ} {req' : WebAuthnAuthenticationRequest} {p : Phase}, s.calls.find j = some ⟨j, req', p⟩ →
      p ≠ .refused → ∀ p', (s.calls.move j p').find i = some ⟨i, req, .refused⟩ := by
    intro j req' p hj hp p'
    rw [Threads.find_move_other, hi]
    rintro rfl
    rw [hi] at hj
    cases hj
    exact hp rfl
  cases ht with
  | challenge use => exact hi
  | register req now hid =>
    unfold WebAuthn.register
    dsimp only
    split
    · exact hi
    · exact hi
  | request hstart => exact Table.find_insert_of_find hstart hi
  | list now hj => exact hother hj (by decide) _
  | verify now hj | save hj | saveFailed hj | openSession sessionID idleTTL sessionTTL hj =>
    exact hother hj (by rintro ⟨⟩) _

/-- In every run in which logins with one credential do not overlap and a counter does not fall back to zero,
each session's counter is beyond those of the sessions opened before its verification began, and only an
accepted assertion changes a stored counter. -/
theorem sign_counts_increase (cfg : WebAuthnRPConfig) (C : Crypto) (V : KeySchemes) (T : Authenticators) :
    (∀ s, Run (Guarded CountedSteps (StepOf (step cfg C V))) (State.init T) s →
      ∀ o ∈ s.opened, Later s.opened o.verified) ∧
    ∀ s e t, step cfg C V s e = some t →
      (∀ i req, s.calls.find i = some ⟨i, req, .refused⟩ → t.calls.find i = some ⟨i, req, .refused⟩) ∧
      ∀ id, s.authenticators.find id ≠ none → countOf t.authenticators id ≠ countOf s.authenticators id →
        ∃ i req v, e = .save i ∧ s.calls.find i = some ⟨i, req, .verified v⟩ ∧ v.row.id = id := by
  constructor
  · intro s h o ho
    have hinit : (State.init T).Counted :=
      ⟨forall_mem_nil _, forall_mem_nil _, forall_mem_nil _⟩
    have hcounted : s.Counted := h.preserves (fun s e t hs hst => hs.step hst.1 (takes_of_step hst.2)) hinit
    exact (hcounted.opened o ho).2
  · intro s e t hst
    have ht := takes_of_step hst
    exact ⟨fun i req => refused_stays ht, fun id => saved_of_countOf_ne ht⟩

/-! ## Runs -/

/-- One login after another, with the challenge and the base64 of the end of the counter. -/
def sampleLoginRun (i : ℕ) (challenge encoded count : String) : List Event :=
  [sampleChallenge challenge, .request i (sampleLogin encoded localOrigin count), .list i 1, .verify i 2,
    .save i, .openSession i (decimal i) 10 100]

/-- Two logins with the counters 5 and 7. -/
theorem sign_counts_increase_five_seven :
    ∃ s, Run (Guarded CountedSteps (StepOf sampleStep)) (State.init sampleTable) s ∧
      s.opened.map (fun o => o.verified.cred.signCount) = [5, 7] ∧ ∀ o ∈ s.opened, Later s.opened o.verified := by
  refine exists_run (sampleLoginRun 0 "c1" "YzEi" "BQ" ++ sampleLoginRun 1 "c2" "YzIi" "Bw")
    (fun s => s.opened.map (fun o => o.verified.cred.signCount) = [5, 7]) (by decide +kernel) (by decide +kernel) ?_
  exact fun s hrun hcounts =>
    ⟨hcounts, (sign_counts_increase .authority Crypto.sample sampleSchemes sampleTable).1 s hrun⟩

/-- A login with the counter 0 after one with 10, and then one with 5; and two logins at once, where the
write of the one with 5 comes after that of the one with 10, and then one with 7. -/
theorem clone_opens_session :
    ((runList sampleStep (State.init sampleTable)
        (sampleLoginRun 0 "c1" "YzEi" "Cg" ++ sampleLoginRun 1 "c2" "YzIi" "AA" ++
          sampleLoginRun 2 "c3" "YzMi" "BQ")).map
      fun s => s.opened.map fun o => (o.verified.cred.signCount, o.verified.openedBefore)) =
      some [(10, 0), (0, 1), (5, 2)] ∧
    ((runList sampleStep (State.init sampleTable)
        ([sampleChallenge "c1", sampleChallenge "c2", .request 0 (sampleLogin "YzEi" localOrigin "Cg"),
          .request 1 (sampleLogin "YzIi" localOrigin "BQ"), .list 0 1, .list 1 1, .verify 0 2, .verify 1 2,
          .save 0, .save 1, .openSession 0 (str "s0") 10 100] ++ sampleLoginRun 2 "c3" "YzMi" "Bw")).map
      fun s => s.opened.map fun o => (o.verified.cred.signCount, o.verified.openedBefore)) =
      some [(10, 0), (7, 1)] := by
  decide +kernel

end Ominull.Auth.WebAuthn
