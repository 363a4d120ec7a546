import Ominull.Lib.Run
import Ominull.Response.Types

/-!
The life of a terminal session. The session is kept twice, in memory and as a row, and every
operation changes the one under the lock and writes the other after it has released the lock.
-/

namespace Ominull.Terminal

open Lib Response

inductive SessionState where
  | closed
  | waiting
  | connecting
  | active
  | closing
  | failed
  | expired
  | detached
  deriving DecidableEq

def SessionState.Ended : SessionState → Prop
  | .closed | .failed | .expired => True
  | _ => False

def SessionState.Live : SessionState → Prop
  | .waiting | .connecting | .active | .detached => True
  | _ => False

instance SessionState.decidableEnded (st : SessionState) : Decidable st.Ended := by
  cases st <;> dsimp only [Ended] <;> infer_instance

instance SessionState.decidableLive (st : SessionState) : Decidable st.Live := by
  cases st <;> dsimp only [Live] <;> infer_instance

/-- What of a relay decides about its attachments. -/
structure Relay where
  closed : Bool := false
  /-- the stop channel of the operator's connection, by the number of its attachment -/
  opStop : Option ℕ := none
  attachments : ℕ := 0

structure Session where
  state : SessionState := .waiting
  startedAt : Option Time := none
  closedAt : Option Time := none
  closeReason : Str := []
  operatorConnected : Bool := false
  agentConnected : Bool := false
  relay : Option Relay := none

structure SessionRow where
  state : SessionState := .waiting
  createdAt : Time
  expiresAt : Time
  idleExpiresAt : Time
  startedAt : Option Time := none
  closedAt : Option Time := none
  closeReason : Str := []
  operatorConnected : Bool := false
  agentConnected : Bool := false

structure RowUpdate where
  state : SessionState
  startedAt : Option Time
  closedAt : Option Time
  closeReason : Str
  operatorConnected : Bool
  agentConnected : Bool

def SessionRow.update (row : SessionRow) (u : RowUpdate) : SessionRow :=
  { row with
    state := u.state, startedAt := u.startedAt <|> row.startedAt, closedAt := u.closedAt
    closeReason := u.closeReason, operatorConnected := u.operatorConnected
    agentConnected := u.agentConnected }

/-- What an operation has read of the session when it releases the lock. -/
def Session.snapshot (s : Session) : RowUpdate :=
  ⟨s.state, s.startedAt, s.closedAt, s.closeReason, s.operatorConnected, s.agentConnected⟩

/-- What a query of `sweepExpiredSessions` has found against a session. -/
inductive Verdict where
  | connectTimeout
  | idleTimeout
  | maxDurationExceeded

def Verdict.newState : Verdict → SessionState
  | .connectTimeout => .failed
  | .idleTimeout | .maxDurationExceeded => .expired

def Verdict.reason : Verdict → Str
  | .connectTimeout => str "connect_timeout"
  | .idleTimeout => str "idle_timeout"
  | .maxDurationExceeded => str "max_duration_exceeded"

/-! ## Changes under the lock -/

namespace Session

def attachOperator (s : Session) (now : Time) : Session :=
  { s with
    relay := some (s.relay.getD {})
    operatorConnected := true
    state := if s.agentConnected then .active else .connecting
    startedAt := if s.agentConnected then s.startedAt <|> some now else s.startedAt }

def attachAgent (s : Session) (now : Time) : Session :=
  { s with
    relay := some (s.relay.getD {})
    agentConnected := true
    state := if s.operatorConnected then .active else .connecting
    startedAt := if s.operatorConnected then some now else s.startedAt }

/-- Only a live session detaches. -/
def detach (s : Session) : Session :=
  { s with
    operatorConnected := false
    state := if s.state = .active ∨ s.state = .connecting then .detached else s.state }

/-- The change of the relay's `Close`; a reason that is there stays. -/
def close (s : Session) (now : Time) (reason : Str) : Session :=
  { s with
    state := .closed, closedAt := some now
    closeReason := if s.closeReason = [] then reason else s.closeReason }

def closeSession (s : Session) (now : Time) (reason : Str) : Session :=
  { s with state := .closed, closedAt := some now, closeReason := reason }

def sweep (s : Session) (now : Time) (verdict : Verdict) : Session :=
  { s with
    state := verdict.newState, closedAt := some now
    closeReason := if s.closeReason = [] then verdict.reason else s.closeReason }

theorem ended_detach (s : Session) (h : s.state.Ended) : s.detach.state.Ended := by
  unfold detach
  split_ifs with hlive
  · rcases hlive with hlive | hlive
    · rw [hlive] at h
      exact h
    · rw [hlive] at h
      exact h
  · exact h

end Session

/-! ## Sweeping the rows -/

/-- Whether the query behind a verdict finds the row. -/
def SessionRow.found (row : SessionRow) (now connectTimeout : Time) : Verdict → Bool
  | .connectTimeout =>
    (row.state = .waiting ∨ row.state = .connecting) ∧ row.createdAt < now - connectTimeout
  | .idleTimeout => (row.state = .active ∨ row.state = .detached) ∧ row.idleExpiresAt < now
  | .maxDurationExceeded => row.state.Live ∧ row.expiresAt < now

/-- The update of a row that a query has found, if it is still live. -/
def SessionRow.expire (row : SessionRow) (now : Time) (verdict : Verdict) : SessionRow :=
  if row.state.Live then
    { row with state := verdict.newState, closedAt := some now, closeReason := verdict.reason }
  else row

inductive SweepPhase where
  | queries (todo found : List Verdict)
  | rows (todo found : List Verdict)
  | sessions (todo : List Verdict)

structure Sweep where
  now : Time
  connectTimeout : Time
  phase : SweepPhase

/-! ## Interleavings -/

inductive Thread where
  /-- the operator's token is taken; `again` after the operator who was there has been detached -/
  | attach (again : Bool)
  | operatorRow (u : RowUpdate) (idleExpiresAt : Time)
  | operatorUpgrade
  | agentRow (u : RowUpdate)
  | agentUpgrade
  /-- the relay was not closed when it was asked; no owner detaches whoever is attached -/
  | detachTake (owner : Option ℕ)
  | detachState
  | closeState (reason : Str)
  | closeSessionRow (now : Time) (reason : Str)
  /-- the last write of a call -/
  | row (u : RowUpdate)

structure System where
  session : Session
  row : SessionRow
  threads : List Thread := []
  sweep : Option Sweep := none

inductive Event where
  | attachOperator
  | attachAgent (now : Time)
  | detach (owner : Option ℕ)
  | closeRelay (reason : Str)
  | closeSession (now : Time) (reason : Str)
  | sweep (now connectTimeout : Time)
  /-- the next step of the sweep; `ok` says whether its statement succeeds -/
  | sweepStep (ok : Bool)
  /-- the idle deadline that frames have moved -/
  | flushIdle (idleExpiresAt : Time)
  /-- the next step of a call; `ok` says whether its write or its upgrade succeeds -/
  | thread (i : ℕ) (now idle : Time) (ok : Bool)

namespace System

/-- The i-th call has gone on to what follows. -/
def proceed (s : System) (i : ℕ) (next : List Thread) : System :=
  { s with threads := s.threads.eraseIdx i ++ next }

/-- A write of the row, which may fail. -/
def write (s : System) (u : RowUpdate) (ok : Bool) : System :=
  if ok then { s with row := s.row.update u } else s

def start (s : System) (t : Thread) : System := { s with threads := s.threads ++ [t] }

def relayOpen (s : System) : Bool := s.session.relay.any fun r => !r.closed

def mapRelay (s : System) (f : Relay → Relay) : System :=
  { s with session := { s.session with relay := s.session.relay.map f } }

def attachStep (s : System) (i : ℕ) (again : Bool) (now idle : Time) : System :=
  if s.session.state.Ended then s.proceed i []
  else if s.session.operatorConnected then
    if again ∨ s.session.relay.isNone then s.proceed i []
    else s.proceed i (.attach true :: if s.relayOpen then [.detachTake none] else [])
  else
    let session := s.session.attachOperator now
    { s with session := session }.proceed i [.operatorRow session.snapshot (now + idle)]

def threadStep (s : System) (i : ℕ) (now idle : Time) (ok : Bool) : Thread → System
  | .attach again => s.attachStep i again now idle
  | .operatorRow u idleExpiresAt =>
    let s := s.write u ok
    { s with row := { s.row with idleExpiresAt := idleExpiresAt } }.proceed i [.operatorUpgrade]
  | .operatorUpgrade =>
    if ok then
      (s.mapRelay fun r => { r with opStop := some r.attachments, attachments := r.attachments + 1 }).proceed
        i []
    else { s with session := { s.session with operatorConnected := false } }.proceed i []
  | .agentRow u => (s.write u ok).proceed i [.agentUpgrade]
  | .agentUpgrade =>
    if ok then s.proceed i []
    else { s with session := { s.session with agentConnected := false } }.proceed i []
  | .detachTake owner =>
    let opStop := s.session.relay.bind (·.opStop)
    if opStop = none ∨ (owner ≠ none ∧ opStop ≠ owner) then s.proceed i []
    else (s.mapRelay fun r => { r with opStop := none }).proceed i [.detachState]
  | .detachState =>
    let session := s.session.detach
    { s with session := session }.proceed i [.row session.snapshot]
  | .closeState reason =>
    let session := s.session.close now reason
    { s with session := session }.proceed i
      [.row { session.snapshot with closeReason := reason }]
  | .closeSessionRow closedAt reason =>
    (s.write ⟨.closed, s.session.startedAt, some closedAt, reason, s.session.operatorConnected,
      s.session.agentConnected⟩ ok).proceed i []
  | .row u => (s.write u ok).proceed i []

def sweepStep (s : System) (ok : Bool) (sw : Sweep) : System :=
  match sw.phase with
  | .queries (v :: todo) found =>
    -- an error of a query ends the sweep before it has changed anything
    if ok then
      let found := if s.row.found sw.now sw.connectTimeout v then found ++ [v] else found
      { s with sweep := some { sw with phase := .queries todo found } }
    else { s with sweep := none }
  | .queries [] found => { s with sweep := some { sw with phase := .rows found found } }
  | .rows (v :: todo) found =>
    { s with
      row := if ok then s.row.expire sw.now v else s.row
      sweep := some { sw with phase := .rows todo found } }
  | .rows [] found => { s with sweep := some { sw with phase := .sessions found } }
  | .sessions (v :: todo) =>
    { s with
      session := s.session.sweep sw.now v
      sweep := some { sw with phase := .sessions todo } }
  | .sessions [] => { s with sweep := none }

def step (s : System) : Event → Option System
  | .attachOperator => some (s.start (.attach false))
  | .attachAgent now =>
    if s.session.state.Ended ∨ s.session.agentConnected then none
    else
      let session := s.session.attachAgent now
      some ({ s with session := session }.start (.agentRow session.snapshot))
  | .detach owner => if s.relayOpen then some (s.start (.detachTake owner)) else none
  | .closeRelay reason =>
    if s.relayOpen then
      some ((s.mapRelay fun r => { r with closed := true }).start (.closeState reason))
    else none
  | .closeSession now reason =>
    some ({ s with session := s.session.closeSession now reason }.start (.closeSessionRow now reason))
  | .sweep now connectTimeout =>
    if s.sweep.isSome then none
    else
      let queries := [.connectTimeout, .idleTimeout, .maxDurationExceeded]
      some { s with sweep := some ⟨now, connectTimeout, .queries queries []⟩ }
  | .sweepStep ok => s.sweep.map (s.sweepStep ok)
  | .flushIdle idleExpiresAt => some { s with row := { s.row with idleExpiresAt := idleExpiresAt } }
  | .thread i now idle ok => s.threads[i]?.map (s.threadStep i now idle ok)

end System

/-! ## What one step can do -/

def Thread.writes : Thread → Option SessionState
  | .operatorRow u _ | .agentRow u | .row u => some u.state
  | .closeSessionRow _ _ => some .closed
  | .attach _ | .operatorUpgrade | .agentUpgrade | .detachTake _ | .detachState | .closeState _ => none

/-- The call has released the lock with a state that the session may since have left for good. -/
def Thread.PendingLive (th : Thread) : Prop := ∃ st ∈ th.writes, ¬st.Ended

/-- The call is about to change the state of the session to a live one. -/
def Thread.Joins : Thread → Prop
  | .attach _ | .detachState => True
  | _ => False

def SweepPhase.UpdatesRow : SweepPhase → Prop
  | .rows (_ :: _) _ => True
  | _ => False

def Event.EndsRow (s : System) : Event → Prop
  | .thread i _ _ ok => ok ∧ ∃ th ∈ s.threads[i]?, ∃ st ∈ th.writes, st.Ended
  | .sweepStep ok => ok ∧ s.row.state.Live ∧ ∃ sw ∈ s.sweep, sw.phase.UpdatesRow
  | _ => False

def Event.Joins (s : System) : Event → Prop
  | .attachAgent _ => True
  | .thread i _ _ _ => ∃ th ∈ s.threads[i]?, th.Joins
  | _ => False

instance Thread.decidablePendingLive (th : Thread) : Decidable th.PendingLive :=
  inferInstanceAs (Decidable (∃ _ ∈ th.writes, _))

instance Thread.decidableJoins (th : Thread) : Decidable th.Joins := by
  cases th <;> dsimp only [Joins] <;> infer_instance

instance SweepPhase.decidableUpdatesRow : (phase : SweepPhase) → Decidable phase.UpdatesRow
  | .rows (_ :: _) _ => isTrue trivial
  | .rows [] _ | .queries _ _ | .sessions _ => isFalse id

instance Event.decidableEndsRow (s : System) (e : Event) : Decidable (e.EndsRow s) := by
  cases e <;> dsimp only [EndsRow] <;> infer_instance

instance Event.decidableJoinsIn (s : System) (e : Event) : Decidable (e.Joins s) := by
  cases e <;> dsimp only [Joins] <;> infer_instance

theorem Thread.Joins.writes_eq {th : Thread} (h : th.Joins) : th.writes = none := by
  cases th <;> first | rfl | exact absurd h id

theorem Thread.not_pendingLive {th : Thread} (h : th.writes = none) : ¬th.PendingLive := by
  rintro ⟨st, hst, -⟩
  cases h.symm.trans hst

theorem Thread.not_pendingLive_of_ended {th : Thread} {st : SessionState} (h : th.writes = some st)
    (hst : st.Ended) : ¬th.PendingLive := by
  rintro ⟨st', hst', hlive⟩
  cases h.symm.trans hst'
  exact hlive hst

theorem Event.Joins.not_endsRow {s : System} {e : Event} (h : e.Joins s) : ¬e.EndsRow s := by
  cases e with
  | thread i now idle ok =>
    rintro ⟨-, th', hth', st, hst, -⟩
    obtain ⟨th, hth, hjoins⟩ := h
    cases (Option.mem_def.mp hth).symm.trans hth'
    cases hjoins.writes_eq.symm.trans hst
  | attachAgent now => exact id
  | _ => exact absurd h id

theorem Verdict.ended_newState (v : Verdict) : v.newState.Ended := by
  cases v <;> trivial

namespace System

variable {s t : System} {e : Event}

structure Effect (s : System) (e : Event) (t : System) : Prop where
  session : s.session.state.Ended → t.session.state.Ended
  row : t.row.state = s.row.state ∨ e.EndsRow s ∨ (¬t.row.state.Ended ∧ ∃ th ∈ s.threads, th.PendingLive)
  ends : e.EndsRow s → t.row.state.Ended
  threads : ∀ th ∈ t.threads, th.PendingLive →
    th ∈ s.threads ∨ (e.Joins s ∧ ¬s.session.state.Ended)

theorem Effect.start {session : Session} (th : Thread) (hends : ¬e.EndsRow s)
    (hsession : s.session.state.Ended → session.state.Ended)
    (hth : th.PendingLive → e.Joins s ∧ ¬s.session.state.Ended) :
    Effect s e ({ s with session := session }.start th) where
  session := hsession
  row := .inl rfl
  ends h := absurd h hends
  threads th' hth' hlive := by
    rcases List.mem_append.mp hth' with hold | hnew
    · exact .inl hold
    · rw [List.mem_singleton.mp hnew] at hlive
      exact .inr (hth hlive)

theorem Effect.proceed {i : ℕ} {th : Thread} {now idle : Time} {ok : Bool} {session : Session} {row : SessionRow}
    {next : List Thread} (hth : s.threads[i]? = some th)
    (hsession : s.session.state.Ended → session.state.Ended)
    (hrow : row.state = if ok then th.writes.getD s.row.state else s.row.state)
    (hnext : ∀ n ∈ next, n.PendingLive → th.Joins ∧ ¬s.session.state.Ended) :
    Effect s (.thread i now idle ok) ({ s with session := session, row := row }.proceed i next) where
  session := hsession
  row := by
    change row.state = _ ∨ _ ∨ ¬row.state.Ended ∧ _
    rw [hrow]
    cases ok with
    | false => exact .inl rfl
    | true =>
      rw [if_pos rfl]
      cases hw : th.writes with
      | none => exact .inl rfl
      | some st =>
        by_cases hst : st.Ended
        · exact .inr (.inl ⟨rfl, th, hth, st, hw, hst⟩)
        · exact .inr (.inr ⟨hst, th, List.mem_of_getElem? hth, st, hw, hst⟩)
  ends := by
    rintro ⟨hok, th', hth', st, hst, hended⟩
    cases hth.symm.trans hth'
    rw [if_pos hok, Option.mem_def.mp hst] at hrow
    exact hrow ▸ hended
  threads th' hth' hlive := by
    rcases List.mem_append.mp hth' with hold | hmem
    · exact .inl (List.mem_of_mem_eraseIdx hold)
    · obtain ⟨hjoins, hended⟩ := hnext th' hmem hlive
      exact .inr ⟨⟨th, hth, hjoins⟩, hended⟩

/-- Only a call that joins goes on to write a live state. -/
theorem thread_effect {i : ℕ} {th : Thread} (hth : s.threads[i]? = some th) (now idle : Time) (ok : Bool) :
    Effect s (.thread i now idle ok) (s.threadStep i now idle ok th) := by
  have hnone : ∀ {n : Thread}, ¬n.PendingLive →
      ∀ n' ∈ [n], n'.PendingLive → th.Joins ∧ ¬s.session.state.Ended :=
    fun hn => List.forall_mem_singleton.mpr fun h => absurd h hn
  cases th with
  | attach again =>
    simp only [threadStep, attachStep]
    split_ifs with hended
    · exact Effect.proceed hth id (ite_self _).symm (by simp)
    · exact Effect.proceed hth id (ite_self _).symm (by simp)
    · exact Effect.proceed hth id (ite_self _).symm fun _ _ _ => ⟨trivial, hended⟩
    · exact Effect.proceed hth id (ite_self _).symm fun _ _ _ => ⟨trivial, hended⟩
    · exact Effect.proceed hth (fun h => absurd h hended) (ite_self _).symm fun _ _ _ => ⟨trivial, hended⟩
  | operatorRow u idleExpiresAt | agentRow u =>
    cases ok <;> exact Effect.proceed hth id rfl (hnone (Thread.not_pendingLive rfl))
  | operatorUpgrade | agentUpgrade | closeSessionRow _ _ | row u =>
    cases ok <;> exact Effect.proceed hth id rfl (by simp)
  | detachTake owner =>
    simp only [threadStep]
    split_ifs
    · exact Effect.proceed hth id (ite_self _).symm (by simp)
    · exact Effect.proceed hth id (ite_self _).symm (hnone (Thread.not_pendingLive rfl))
  | detachState =>
    refine Effect.proceed hth s.session.ended_detach (ite_self _).symm fun n hn hlive => ⟨trivial, fun hended => ?_⟩
    -- the state that was read under the lock is the ended one
    rw [List.mem_singleton.mp hn] at hlive
    obtain ⟨st, hst, hlive⟩ := hlive
    cases hst
    exact hlive (s.session.ended_detach hended)
  | closeState reason =>
    exact Effect.proceed hth (fun _ => trivial) (ite_self _).symm (hnone (Thread.not_pendingLive_of_ended rfl trivial))

theorem Effect.quiet (hthreads : t.threads = s.threads) (hrow : t.row.state = s.row.state)
    (hends : ¬e.EndsRow s) (hsession : s.session.state.Ended → t.session.state.Ended) : Effect s e t where
  session := hsession
  row := .inl hrow
  ends h := absurd h hends
  threads _ hth _ := .inl (hthreads ▸ hth)

theorem sweep_effect {sw : Sweep} (hsw : s.sweep = some sw) (ok : Bool) :
    Effect s (.sweepStep ok) (s.sweepStep ok sw) := by
  have hends : (Event.sweepStep ok).EndsRow s →
      ok ∧ s.row.state.Live ∧ sw.phase.UpdatesRow := by
    rintro ⟨hok, hlive, sw', hsw', hphase⟩
    cases hsw.symm.trans hsw'
    exact ⟨hok, hlive, hphase⟩
  unfold sweepStep
  split
  case h_3 v todo found hphase =>
    -- the one step of a sweep that writes the row
    have hthis : (Event.sweepStep ok).EndsRow s ↔ ok ∧ s.row.state.Live :=
      ⟨fun h => ⟨(hends h).1, (hends h).2.1⟩, fun h => ⟨h.1, h.2, sw, hsw, hphase ▸ trivial⟩⟩
    refine ⟨id, ?_, fun h => ?_, fun _ hth _ => .inl hth⟩
    · by_cases h : (Event.sweepStep ok).EndsRow s
      · exact .inr (.inl h)
      · left
        rw [hthis, not_and] at h
        cases ok with
        | false => rfl
        | true => simp only [if_true, SessionRow.expire, if_neg (h rfl)]
    · obtain ⟨hok, hlive⟩ := hthis.mp h
      simp only [hok, if_true, SessionRow.expire, if_pos hlive]
      exact v.ended_newState
  case h_1 hphase =>
    split_ifs <;>
    · refine Effect.quiet rfl rfl (fun h => ?_) id
      exact (hphase ▸ (hends h).2.2 : SweepPhase.UpdatesRow _)
  case h_5 v todo hphase =>
    refine Effect.quiet rfl rfl (fun h => ?_) fun _ => v.ended_newState
    exact (hphase ▸ (hends h).2.2 : SweepPhase.UpdatesRow _)
  all_goals
    rename_i hphase
    refine Effect.quiet rfl rfl (fun h => ?_) id
    exact (hphase ▸ (hends h).2.2 : SweepPhase.UpdatesRow _)

theorem step_effect (h : s.step e = some t) : Effect s e t := by
  cases e with
  | attachOperator =>
    cases h
    exact Effect.start (.attach false) id id fun h => absurd h (Thread.not_pendingLive rfl)
  | attachAgent now =>
    simp only [step] at h
    split_ifs at h with hno
    rw [not_or] at hno
    cases h
    exact Effect.start _ id (fun h => absurd h hno.1) fun _ => ⟨trivial, hno.1⟩
  | detach owner =>
    simp only [step] at h
    split_ifs at h
    cases h
    exact Effect.start (.detachTake owner) id id fun h => absurd h (Thread.not_pendingLive rfl)
  | closeRelay reason =>
    simp only [step] at h
    split_ifs at h
    cases h
    exact Effect.start (.closeState reason) id id fun h => absurd h (Thread.not_pendingLive rfl)
  | closeSession now reason =>
    cases h
    exact Effect.start (.closeSessionRow now reason) id (fun _ => trivial) fun h =>
      absurd h (Thread.not_pendingLive_of_ended rfl trivial)
  | sweep now connectTimeout =>
    simp only [step] at h
    split_ifs at h
    cases h
    exact Effect.quiet rfl rfl id id
  | sweepStep ok =>
    obtain ⟨sw, hsw, rfl⟩ := Option.map_eq_some_iff.mp h
    exact sweep_effect hsw ok
  | flushIdle idleExpiresAt =>
    cases h
    exact Effect.quiet rfl rfl id id
  | thread i now idle ok =>
    obtain ⟨th, hth, rfl⟩ := Option.map_eq_some_iff.mp h
    exact thread_effect hth now idle ok

/-! ## Whole runs -/

/-- The condition on a step under which the row stays ended: no call that has read a live state still
has to write it when the row is ended, and the session is given no live state between the two halves
of a sweep. -/
def Orderly (s : System) (e : Event) : Prop :=
  (e.EndsRow s → ∀ th ∈ s.threads, ¬th.PendingLive) ∧
  (e.Joins s → s.row.state.Ended → s.session.state.Ended)

def RowSettled (s : System) : Prop := s.row.state.Ended → ∀ th ∈ s.threads, ¬th.PendingLive

theorem RowSettled.step (hinv : s.RowSettled) (hok : s.Orderly e) (h : s.step e = some t) :
    t.RowSettled ∧ (s.row.state.Ended → t.row.state.Ended) := by
  obtain ⟨-, hrow, hends, hthreads⟩ := step_effect h
  by_cases hend : e.EndsRow s
  · refine ⟨fun _ th hth hlive => ?_, fun _ => hends hend⟩
    rcases hthreads th hth hlive with hold | ⟨hjoins, -⟩
    · exact hok.1 hend th hold hlive
    · exact hjoins.not_endsRow hend
  · -- no live write is pending if the row has ended, so its state stays
    have hkeep : s.row.state.Ended → t.row.state = s.row.state := by
      intro hended
      rcases hrow with hrow | hrow | ⟨-, th, hth, hlive⟩
      · exact hrow
      · exact absurd hrow hend
      · exact absurd hlive (hinv hended th hth)
    refine ⟨fun hended th hth hlive => ?_, fun hended => hkeep hended ▸ hended⟩
    have hbefore : s.row.state.Ended := by
      rcases hrow with hrow | hrow | ⟨hnot, -⟩
      · exact hrow ▸ hended
      · exact absurd hrow hend
      · exact absurd hended hnot
    rcases hthreads th hth hlive with hold | ⟨hjoins, hnot⟩
    · exact hinv hbefore th hold hlive
    · exact hnot (hok.2 hjoins hbefore)

def created (createdAt expiresAt idleExpiresAt : Time) : System :=
  { session := {}, row := { createdAt := createdAt, expiresAt := expiresAt, idleExpiresAt := idleExpiresAt } }

theorem rowSettled_of_run {createdAt expiresAt idleExpiresAt : Time}
    (h : Run (Guarded Orderly (StepOf step)) (created createdAt expiresAt idleExpiresAt) s) : s.RowSettled := by
  refine h.preserves (fun _ _ _ hinv hstep => (hinv.step hstep.1 hstep.2).1) fun _ th hth => ?_
  cases hth

/-- A session that has ended stays so: in memory in every run, and in its row in the runs whose steps
are all orderly. -/
theorem ended_stays_ended (s t : System) :
    (Run (StepOf step) s t → s.session.state.Ended → t.session.state.Ended) ∧
    (∀ createdAt expiresAt idleExpiresAt,
      Run (Guarded Orderly (StepOf step)) (created createdAt expiresAt idleExpiresAt) s →
      Run (Guarded Orderly (StepOf step)) s t → s.row.state.Ended → t.row.state.Ended) := by
  constructor
  · intro hrun
    exact hrun.preserves (I := fun s => s.session.state.Ended)
      fun _ _ _ hended hstep => (step_effect hstep).session hended
  · intro createdAt expiresAt idleExpiresAt hreach hrun
    exact hrun.monotone (I := RowSettled) (R := fun s t => s.row.state.Ended → t.row.state.Ended)
      (fun _ => id) (fun _ _ _ h h' => h' ∘ h) (fun _ _ _ hinv hstep => (hinv.step hstep.1 hstep.2).1)
      (fun _ _ _ hinv hstep => (hinv.step hstep.1 hstep.2).2) (rowSettled_of_run hreach)

/-! A session that an operator joins and leaves before it is closed. -/

def go (i : ℕ) : Event := .thread i 1 60 true

def attached : List Event := [.attachOperator, go 0, go 0, go 0]

def closedOrderly : List Event :=
  attached ++ [.detach none, go 0, go 0, go 0, .closeSession 2 (str "operator"), go 0]

def closedEarly : List Event := [.attachOperator, go 0, .closeSession 2 (str "operator"), go 1]

def after (events : List Event) : System :=
  (runList step (created 0 100 60) events).getD (created 0 100 60)

instance decidableOrderly (s : System) (e : Event) : Decidable (s.Orderly e) :=
  inferInstanceAs (Decidable ((_ → _) ∧ (_ → _ → _)))

theorem ended_stays_ended_sample :
    (after closedOrderly).row.state.Ended ∧ (after closedOrderly).session.state.Ended ∧
    (after (closedOrderly ++ [.closeRelay (str "late"), go 0, go 0])).row.state.Ended ∧
    (after (closedOrderly ++ [.closeRelay (str "late"), go 0, go 0])).session.state.Ended := by
  let late : List Event := [.closeRelay (str "late"), go 0, go 0]
  have hclosed : Meets step Orderly (created 0 100 60) closedOrderly := by decide +kernel
  have hlate : Meets step Orderly (after closedOrderly) late := by decide +kernel
  have hafter : runList step (after closedOrderly) late = some (after (closedOrderly ++ late)) := rfl
  have hreach : Run (Guarded Orderly (StepOf step)) (created 0 100 60) (after closedOrderly) :=
    run_of_runList rfl hclosed
  have hrun := run_of_runList hafter hlate
  have hfree := runList_run hafter
  have hended : (after closedOrderly).row.state.Ended ∧ (after closedOrderly).session.state.Ended := by
    decide +kernel
  exact ⟨hended.1, hended.2, (ended_stays_ended _ _).2 _ _ _ hreach hrun hended.1,
    (ended_stays_ended _ _).1 hfree hended.2⟩

/-- The row is closed, and then the attachment writes that it is connecting. -/
theorem ended_row_revived :
    (after closedEarly).row.state = .closed ∧ (after closedEarly).session.state = .closed ∧
    (after (closedEarly ++ [go 0])).session.state = .closed ∧
    (after (closedEarly ++ [go 0])).row.state = .connecting ∧
    (after (closedEarly ++ [go 0])).row.state.Live := by
  decide +kernel

end System

end Ominull.Terminal
