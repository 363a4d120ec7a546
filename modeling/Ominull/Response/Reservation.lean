import Ominull.Response.Leases
import Ominull.Go.Lower

/-!
Reserved job ids: the hub reserves one for an endpoint and a payload digest, a signer signs a grant
that names it, and the hub takes the reservation before it queues the job under that id.
-/

namespace Ominull.Response

open Go

structure JobReservation where
  jobID : Str
  tenantID : Str
  endpointID : Str
  actionDigest : Str
  expiresAt : Time
  deriving DecidableEq

def reservationTTL : Time := 15 * 60 * second

def truncateSecond (t : Time) : Time := t - t % second

inductive ReservationError where
  | missingFields
  | constraint
  | unknown
  | mismatch
  deriving DecidableEq

abbrev Reservations := Lib.Table JobReservation.jobID

namespace Reservations

/-- The `DELETE` of a reservation call: those that have lapsed. -/
def purge (T : Reservations) (now : Time) : Reservations := T.filter fun r => ¬r.expiresAt < now

def reserveJob (T : Reservations) (now : Time) (freshID tenantID endpointID actionDigest : Str) :
    Except ReservationError JobReservation × Reservations :=
  if tenantID = [] ∨ endpointID = [] ∨ actionDigest.length ≠ 64 then (.error .missingFields, T)
  else
    let r : JobReservation :=
      { jobID := freshID, tenantID := tenantID, endpointID := endpointID,
        actionDigest := toLower actionDigest, expiresAt := truncateSecond (now + reservationTTL) }
    match (T.purge now).insert r with
    | none => (.error .constraint, T.purge now)
    | some T' => (.ok r, T')

/-- Uses a reservation up: it must be live and match the endpoint and the digest. Its row is removed
whatever the outcome of the match. -/
def takeReservation (T : Reservations) (now : Time) (jobID tenantID endpointID actionDigest : Str) :
    Except ReservationError Unit × Reservations :=
  match T.find jobID with
  | none => (.error .unknown, T)
  | some r =>
    let T' := T.filter fun x => x.jobID ≠ jobID
    if r.expiresAt < now then (.error .unknown, T')
    else if r.tenantID ≠ tenantID ∨ r.endpointID ≠ endpointID ∨ ¬equalFold r.actionDigest actionDigest then
      (.error .mismatch, T')
    else (.ok (), T')

end Reservations

/-! ## What a refused call changes -/

structure Tables where
  store : Store
  reservations : Reservations

/-- A call on a job, or one that takes a reservation. -/
inductive Request where
  | job (op : Op)
  | take (jobID tenantID endpointID actionDigest : Str)

inductive Refusal where
  | job (e : StoreError)
  | reservation (e : ReservationError)
  deriving DecidableEq

def errorOf {ε α : Type} : Except ε α → Option ε
  | .error e => some e
  | .ok _ => none

def Store.refusal (s : Store) (now : Time) : Op → Option StoreError
  | .create freshID a => errorOf (s.createJob now freshID a).1
  | .offer .. => none
  | .acknowledge t e j l ok r => errorOf (s.acknowledgeJob now t e j l ok r).1
  | .progress t e j l p => errorOf (s.recordProgress now t e j l p).1
  | .heartbeat t e hb => errorOf (s.recordHeartbeat now t e hb).1
  | .complete t e j l r => errorOf (s.completeJob now t e j l r).1
  | .cancel t j actor => errorOf (s.cancelJob now t j actor).1
  | .endSession j c d => errorOf (s.endSessionJob now j c d).1

namespace Tables

/-- A call's error, if it is refused, and the tables it leaves. -/
def exec (T : Tables) (now : Time) : Request → Option Refusal × Tables
  | .job op => ((T.store.refusal now op).map .job, { T with store := T.store.exec now op })
  | .take jobID t e d =>
    let r := T.reservations.takeReservation now jobID t e d
    ((errorOf r.1).map .reservation, { T with reservations := r.2 })

end Tables

namespace Store

theorem Answers.eq_of_error {α : Type} {now : Time} {op : Op} {s : Store} {r : Except StoreError α × Store}
    {e : StoreError} (h : Answers now op s r) (herr : errorOf r.1 = some e) : r.2 = s := by
  cases h with
  | refused => rfl
  | done => cases herr

theorem Creates.eq_of_error {now : Time} {a : CreateArgs} {s : Store} {r : Except StoreError JobRecord × Store}
    {e : StoreError} (h : Creates now a s r) (herr : errorOf r.1 = some e) : r.2 = s := by
  cases h with
  | refused => rfl
  | found | created => cases herr

theorem exec_of_refusal {s : Store} {now : Time} {op : Op} {e : StoreError} (h : s.refusal now op = some e) :
    s.exec now op = s := by
  cases op with
  | create freshID a => exact (createJob_creates s now freshID a).eq_of_error h
  | offer => cases h
  | acknowledge t e j l ok r => exact (acknowledgeJob_answers t e j l ok r).eq_of_error h
  | progress t e j l p => exact (recordProgress_answers (.progress t e j l p) t e j l p).eq_of_error h
  | heartbeat t e hb => exact (recordHeartbeat_answers (.heartbeat t e hb) t e hb).eq_of_error h
  | complete t e j l r => exact (completeJob_answers (.complete t e j l r) t e j l r).eq_of_error h
  | cancel t j actor => exact (cancelJob_answers t j actor).eq_of_error h
  | endSession j c d => exact (endSessionJob_answers (.endSession j c d) j c d).eq_of_error h

end Store

namespace Reservations

theorem takeReservation_removes (T : Reservations) (now : Time) (jobID tenantID endpointID actionDigest : Str) :
    (T.takeReservation now jobID tenantID endpointID actionDigest).2 =
      if (T.find jobID).isSome then T.filter (fun r => r.jobID ≠ jobID) else T := by
  unfold takeReservation
  cases hfind : T.find jobID with
  | none => rfl
  | some r =>
    dsimp only
    split
    · rfl
    split
    · rfl
    · rfl

theorem takeReservation_ok {T : Reservations} {now : Time} {jobID tenantID endpointID actionDigest : Str}
    (h : (T.takeReservation now jobID tenantID endpointID actionDigest).1 = .ok ()) :
    ∃ r, T.find jobID = some r ∧ now ≤ r.expiresAt ∧ r.tenantID = tenantID ∧ r.endpointID = endpointID ∧
      equalFold r.actionDigest actionDigest := by
  unfold takeReservation at h
  split at h
  · cases h
  rename_i r hfind
  split at h
  · cases h
  rename_i hlive
  split at h
  · cases h
  rename_i hmatch
  rw [not_or, not_or, not_not, not_not, not_not] at hmatch
  exact ⟨r, hfind, Int.not_lt.mp hlive, hmatch.1, hmatch.2.1, hmatch.2.2⟩

end Reservations

def sampleDigest : Str := List.replicate 64 0x61

def reservedOne : Tables :=
  ⟨.empty, (Reservations.reserveJob .empty 0 (str "job") (str "t") (str "e") sampleDigest).2⟩

end Ominull.Response
