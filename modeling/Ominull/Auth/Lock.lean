import Ominull.Auth.Interleaving

/-! What locking a response session guarantees. `SignGrant` writes its whole session copy back, lock
flag included, so a write-back that lands after a lock undoes it. -/

namespace Ominull.Auth

open Lib Response

def Phase.session : Phase → Option ResponseSession
  | .checked _ session | .recorded _ session => some session
  | _ => none

def WritesBackUnlocked (s : State) : Event → Prop
  | .save i => ∀ c, s.calls i = some c → ∀ r, s.sessions.find c.req.sessionID = some r →
      r.locked = false
  | _ => True

def State.IsLocked (s : State) (id : Str) : Prop :=
  ∃ r, s.sessions.find id = some r ∧ r.locked = true

/-- What holds of one call, given the sessions whose lock has returned: its copy is of the row its
request names, and if it started after the lock it has not got past the session check. -/
structure CallInv (lockReturned : List Str) (c : Call) : Prop where
  copy : ∀ session, c.phase.session = some session → session.sessionID = c.req.sessionID
  late : c.afterLock = true → c.req.sessionID ∈ lockReturned ∧ c.phase.passed = false

namespace CallInv

variable {returned : List Str} {req : SignGrantRequest} {after : Bool} {p q : Phase}

theorem early (h : CallInv returned ⟨req, after, p⟩) (hp : p.passed = true) : after = false := by
  cases after with
  | false => rfl
  | true =>
    have hlate := (h.late rfl).2
    rw [hp] at hlate
    cases hlate

theorem refused (h : CallInv returned ⟨req, after, p⟩) (e : SignError) : CallInv returned ⟨req, after, .refused e⟩ :=
  ⟨nofun, fun hafter => ⟨(h.late hafter).1, rfl⟩⟩

theorem advance (h : CallInv returned ⟨req, after, p⟩) (hp : p.passed = true)
    (hq : ∀ session, q.session = some session → p.session = some session) : CallInv returned ⟨req, after, q⟩ := by
  refine ⟨fun session hs => h.copy session (hq session hs), fun hafter => ?_⟩
  have hearly := h.early hp
  rw [hearly] at hafter
  cases hafter

end CallInv

structure LockInv (s : State) : Prop where
  locked : ∀ id ∈ s.locking, s.IsLocked id
  returned : ∀ id ∈ s.lockReturned, id ∈ s.locking
  calls : ∀ i c, s.calls i = some c → CallInv s.lockReturned c

theorem LockInv.init : LockInv State.init := by
  constructor <;> intros <;> contradiction

namespace LockInv

variable {C : Crypto} {s t : State}

theorem isLocked_saveSession {session : ResponseSession} {id : Str} (hne : id ≠ session.sessionID)
    (h : s.IsLocked id) : (s.saveSession session).IsLocked id := by
  obtain ⟨r, hr, hlocked⟩ := h
  refine ⟨r, ?_, hlocked⟩
  rw [State.find_saveSession s session hr, if_neg hne]

theorem isLocked_lockSession {id id' : Str} (h : s.IsLocked id) : (s.lockSession id').IsLocked id := by
  obtain ⟨r, hr, hlocked⟩ := h
  by_cases heq : id' = id
  · subst heq
    refine ⟨{ r with locked := true }, ?_, rfl⟩
    simp [State.lockSession, hr]
  · refine ⟨r, ?_, hlocked⟩
    rw [State.lockSession, Table.find_update_other _ _ _ heq, hr]

theorem setCall (h : LockInv s) {i : ℕ} {c : Call} (hc : CallInv s.lockReturned c) : LockInv (s.setCall i c) := by
  refine ⟨h.locked, h.returned, fun j c' hj => ?_⟩
  rcases State.calls_setCall hj with ⟨-, rfl⟩ | ⟨-, hj⟩
  · exact hc
  · exact h.calls j c' hj

theorem saveSession (h : LockInv s) {session : ResponseSession}
    (hopen : session.sessionID ∉ s.locking) : LockInv (s.saveSession session) := by
  refine ⟨fun id hid => isLocked_saveSession ?_ (h.locked id hid), h.returned, h.calls⟩
  intro heq
  exact hopen (heq ▸ hid)

/-- One step keeps the invariant; only the write-back needs the condition. -/
theorem step (h : LockInv s) {e : Event} (hok : WritesBackUnlocked s e) (hstep : Step C s e t) : LockInv t := by
  cases hstep with
  | unlock session hnew _ =>
    apply h.saveSession
    intro hid
    obtain ⟨r, hr, -⟩ := h.locked _ hid
    rw [hnew] at hr
    cases hr
  | request i req _ =>
    exact h.setCall ⟨nofun, fun hafter => ⟨by simpa using hafter, rfl⟩⟩
  | @read i req after now hi session hread =>
    obtain ⟨hrow, hvalid, -⟩ := checkRequest_ok hread
    refine h.setCall ⟨fun r hr => ?_, fun hafter => ?_⟩
    · cases hr
      exact Table.key_of_find hrow
    · -- the row was locked when the call started and still is, so the check cannot have passed
      have hret := ((h.calls i _ hi).late hafter).1
      obtain ⟨r, hr, hlocked⟩ := h.locked _ (h.returned _ hret)
      rw [hrow] at hr
      cases hr
      simp [ResponseSession.isValid, hlocked] at hvalid
  | refuse _ hi _ | replayed hi _ | noKey hi => exact h.setCall ((h.calls _ _ hi).refused _)
  | @record i req _ _ _ hi _ =>
    have hinv : LockInv { s with nonces := proofNonceKey req :: s.nonces } :=
      ⟨h.locked, h.returned, h.calls⟩
    exact hinv.setCall ((h.calls _ _ hi).advance rfl fun _ hs => hs)
  | @save i req after now session hi idleTTL =>
    have hcopy := (h.calls i _ hi).copy session rfl
    refine (h.saveSession ?_).setCall ((h.calls _ _ hi).advance rfl nofun)
    intro hid
    obtain ⟨r, hr, hlocked⟩ := h.locked _ hid
    have hopen := hok _ hi r (by rw [← hcopy]; exact hr)
    rw [hlocked] at hopen
    cases hopen
  | saveFailed hi | sign hi => exact h.setCall ((h.calls _ _ hi).advance rfl nofun)
  | @lock id r hrow =>
    refine ⟨fun id' hid => ?_, fun id' hid => List.mem_cons_of_mem _ (h.returned id' hid), h.calls⟩
    rcases List.mem_cons.1 hid with rfl | hid
    · exact ⟨{ r with locked := true }, by simp [State.lockSession, hrow], rfl⟩
    · exact isLocked_lockSession (h.locked id' hid)
  | @lockReturn id hid =>
    refine ⟨h.locked, fun id' hid' => ?_, fun i c hi => ⟨(h.calls i c hi).copy, fun hafter => ?_⟩⟩
    · rcases List.mem_cons.1 hid' with rfl | hid'
      · exact hid
      · exact h.returned id' hid'
    · have hlate := (h.calls i c hi).late hafter
      exact ⟨List.mem_cons_of_mem _ hlate.1, hlate.2⟩
  | nonce key _ => exact ⟨h.locked, h.returned, h.calls⟩

theorem run (h : Run (Guarded WritesBackUnlocked (Step C)) State.init s) : LockInv s :=
  Run.preserves (fun _ _ _ hs hstep => hs.step hstep.1 hstep.2) h LockInv.init

end LockInv

/-- While every write-back lands on an unlocked row, no call that starts after `LockSession` returned
for its session is granted. -/
theorem no_grant_after_lock {C : Crypto} {s : State}
    (h : Run (Guarded WritesBackUnlocked (Step C)) State.init s) {i : ℕ} {c : Call}
    (hi : s.calls i = some c) (hafter : c.afterLock = true) (grant : EndpointGrant) :
    c.phase ≠ .granted grant := by
  intro hgranted
  have hlate := ((LockInv.run h).calls i c hi).late hafter
  rw [hgranted] at hlate
  cases hlate.2

/-- The state after a lock has returned and a later call has been refused. -/
theorem no_grant_after_lock_sample : ∃ s, ∃ c : Call,
    Run (Guarded WritesBackUnlocked (Step Crypto.sample)) State.init s ∧ s.calls 0 = some c ∧
      c.afterLock = true ∧ ∀ grant, c.phase ≠ .granted grant := by
  obtain ⟨s, h, hi⟩ : ∃ s, Run (Guarded WritesBackUnlocked (Step Crypto.sample)) State.init s ∧
      s.calls 0 = some ⟨sampleRequest (str "ab"), true, .called⟩ :=
    ⟨_, (((Run.refl _).tailGuarded (.unlock sampleSession rfl rfl) trivial).tailGuarded
      (.lock (by decide : Table.find _ (str "s1") = some sampleSession)) trivial).tailGuarded
      (.lockReturn (by decide : str "s1" ∈ _)) trivial |>.tailGuarded
      (.request 0 (sampleRequest (str "ab")) rfl) trivial, by decide +kernel⟩
  exact ⟨s, _, h, hi, rfl, no_grant_after_lock h hi rfl⟩

/-- A call that read the session before the lock writes its copy back after the lock has returned,
and a call that starts then is granted. -/
theorem grant_after_lock : ∃ s, ∃ c : Call, ∃ grant : EndpointGrant,
    Run (Step Crypto.sample) State.init s ∧ s.calls 1 = some c ∧ c.afterLock = true ∧
      c.phase = .granted grant := by
  have hread : Run (Step Crypto.sample) State.init _ :=
    ((Run.refl _).tail (.unlock sampleSession rfl rfl)).tail
      (.request 0 (sampleRequest (str "ab")) rfl) |>.tail
      (.read (i := 0) 0 rfl (by decide +kernel : _ = Except.ok sampleSession))
  have hlock := (hread.tail (.lock (by decide +kernel : Table.find _ (str "s1") = some sampleSession))).tail
      (.lockReturn (by decide +kernel : str "s1" ∈ _))
  have hback := (hlock.tail (.record (i := 0) rfl (by decide +kernel))).tail
      (.save (i := 0) rfl 900)
  have hnext := (hback.tail (.request 1 (sampleRequest (str "cd")) rfl)).tail
      (.read (i := 1) 0 rfl
        (by decide +kernel : _ = Except.ok { sampleSession with idleExpiresAt := 900 }))
  have hgrant := ((hnext.tail (.record (i := 1) rfl (by decide +kernel))).tail
      (.saveFailed (i := 1) rfl)).tail (.sign (i := 1) rfl [] (str "g1") (str "n1"))
  exact ⟨_, _, _, hgrant, rfl, by decide +kernel, rfl⟩

end Ominull.Auth
