import Mathlib.Data.List.Sort
import Ominull.Crypto
import Ominull.Go.Networks
import Ominull.Go.Unicode
import Ominull.Lib.Table

/-!
Enrolment windows: networks from which machines may enrol themselves, for a time, up to a number of uses
and, if it has one, with a passcode.
-/

namespace Ominull.Hub

open Lib Go

/-- A window as the console and the portal see it; times are in nanoseconds. -/
structure EnrolmentWindow where
  id : Str
  label : Str
  cidrs : List Str
  tenantID : Str
  locationID : Str
  role : Str
  /-- 0 is no limit -/
  maxUses : Int
  used : Int
  hasPasscode : Bool
  createdAt : Int
  expiresAt : Int
  createdBy : Str
  revokedAt : Option Int
  lastUsedAt : Option Int
  deriving DecidableEq

namespace EnrolmentWindow

/-- `Active`, with the time it reads. -/
def active (w : EnrolmentWindow) (t : Int) : Bool :=
  if w.revokedAt ≠ none then false
  else if w.expiresAt < t then false
  else w.maxUses ≤ 0 || w.used < w.maxUses

/-- `State`, with the time it reads. -/
def state (w : EnrolmentWindow) (t : Int) : Str :=
  if w.revokedAt ≠ none then str "revoked"
  else if w.expiresAt < t then str "expired"
  else if 0 < w.maxUses ∧ w.maxUses ≤ w.used then str "spent"
  else str "open"

end EnrolmentWindow

inductive WindowError where
  | notAddress (entry : Str)
  | notNetwork (entry : Str)
  | noNetwork
  | noExpiry
  deriving DecidableEq

/-- An entry in CIDR form: a bare address is read as one host. -/
def entryText (entry : Str) : Except WindowError Str :=
  if 0x2f ∈ entry then .ok entry
  else
    match parseIP entry with
    | none => .error (.notAddress entry)
    | some ip => .ok (entry ++ str (if to4 ip ≠ none then "/32" else "/128"))

def parseEntry (entry : Str) : Except WindowError IPNet :=
  match entryText entry with
  | .error e => .error e
  | .ok text =>
    match parseCIDR text with
    | none => .error (.notNetwork text)
    | some network => .ok network

/-- The loop of `ParseCIDRs` over the entries that are not blank. -/
def parseEntries : List Str → Except WindowError (List Str)
  | [] => .ok []
  | entry :: rest =>
    match parseEntry entry with
    | .error e => .error e
    | .ok network => (parseEntries rest).map (network.string :: ·)

def givenEntries (raw : List Str) : List Str := (raw.map trimSpace).filter (· ≠ [])

def parseCIDRs (raw : List Str) : Except WindowError (List Str) :=
  match parseEntries (givenEntries raw) with
  | .error e => .error e
  | .ok out => if out = [] then .error .noNetwork else .ok out

def cidrsAllow (cidrs : List Str) (addr : Str) : Bool :=
  match parseIP (trimSpace addr) with
  | none => false
  | some ip =>
    cidrs.any fun entry =>
      match parseCIDR entry with
      | none => false
      | some network => network.contains ip

structure WindowRow where
  id : Str
  label : Str
  cidrs : Str
  passcodeHash : Str
  tenantID : Str
  locationID : Str
  role : Str
  maxUses : Int
  used : Int
  createdAt : Int
  expiresAt : Int
  createdBy : Str
  revokedAt : Option Int
  lastUsedAt : Option Int
  deriving DecidableEq

abbrev Windows := Table WindowRow.id

namespace WindowRow

def window (r : WindowRow) : EnrolmentWindow where
  id := r.id
  label := r.label
  cidrs := r.cidrs.splitOn 0x2c
  tenantID := r.tenantID
  locationID := r.locationID
  role := r.role
  maxUses := r.maxUses
  used := r.used
  hasPasscode := r.passcodeHash ≠ []
  createdAt := r.createdAt
  expiresAt := r.expiresAt
  createdBy := r.createdBy
  revokedAt := r.revokedAt
  lastUsedAt := r.lastUsedAt

/-- The condition of the `UPDATE` that spends a use. -/
def spendable (r : WindowRow) (now : Int) : Bool :=
  r.revokedAt = none && now < r.expiresAt && (r.maxUses ≤ 0 || r.used < r.maxUses)

def spend (now : Int) (r : WindowRow) : WindowRow := { r with used := r.used + 1, lastUsedAt := some now }

def revoke (now : Int) (r : WindowRow) : WindowRow :=
  { r with revokedAt := if r.revokedAt = none then some now else r.revokedAt }

theorem spend_id (now : Int) (r : WindowRow) : (r.spend now).id = r.id := rfl

theorem revoke_id (now : Int) (r : WindowRow) : (r.revoke now).id = r.id := rfl

end WindowRow

namespace Windows

def spend (T : Windows) (id : Str) (now : Int) : Windows := T.update id (·.spend now) (WindowRow.spend_id now)

def revoke (T : Windows) (id : Str) (now : Int) : Windows :=
  T.update (trimSpace id) (·.revoke now) (WindowRow.revoke_id now)

theorem mem_spend {T : Windows} {id : Str} {now : Int} {r : WindowRow} :
    r ∈ (spend T id now).rows ↔ (r ∈ T.rows ∧ r.id ≠ id) ∨ ∃ x ∈ T.rows, x.id = id ∧ x.spend now = r :=
  Table.mem_update

theorem mem_revoke {T : Windows} {id : Str} {now : Int} {r : WindowRow} :
    r ∈ (revoke T id now).rows ↔
      (r ∈ T.rows ∧ r.id ≠ trimSpace id) ∨ ∃ x ∈ T.rows, x.id = trimSpace id ∧ x.revoke now = r :=
  Table.mem_update

end Windows

structure Unavailable where
  reason : Str
  needsPasscode : Bool
  closed : Str
  deriving DecidableEq

section

variable (C : Crypto)

def hashEnrollmentToken (token : Str) : Str := hexEncode (C.sha256 token)

/-- The zero value of `time.Time`, in the first year. -/
def zeroTime : Int := -62135596800 * 10 ^ 9

/-- `CreateEnrolmentWindow`: the row it writes, with the id and the time it was given. -/
def createEnrolmentWindow (T : Windows) (w : EnrolmentWindow) (passcode id : Str) (now : Int) :
    Except WindowError (Option Windows) := do
  let cidrs ← parseCIDRs w.cidrs
  if w.expiresAt = zeroTime then throw .noExpiry
  pure <| T.insert
    { id, label := trimSpace w.label, cidrs := List.intercalate [0x2c] cidrs
      passcodeHash := if trimSpace passcode ≠ [] then hashEnrollmentToken C (trimSpace passcode) else []
      tenantID := trimSpace w.tenantID, locationID := trimSpace w.locationID, role := trimSpace w.role
      maxUses := max w.maxUses 0, used := 0, createdAt := now, expiresAt := w.expiresAt
      createdBy := trimSpace w.createdBy, revokedAt := none, lastUsedAt := none }

/-- `ListEnrolmentWindows`: the newest first. -/
def listEnrolmentWindows (T : Windows) : List EnrolmentWindow :=
  (T.rows.insertionSort fun a b => b.createdAt ≤ a.createdAt).map WindowRow.window

/-- The times a claim reads: when it has the lock, and then in `Active` and in `State` of each window. -/
structure Clock where
  now : Int
  activeAt : Str → Int
  stateAt : Str → Int

/-- The passcode of a claim against the hash of a window. -/
def passcodeMatches (hash passcode : Str) : Bool :=
  hash = [] || (trimSpace passcode ≠ [] && hashEnrollmentToken C (trimSpace passcode) = hash)

/-- What a claim that no window serves answers. -/
def unavailable (addr : Str) (sawCoveredNeedingPasscode : Bool) (closed : Str) : Unavailable :=
  if sawCoveredNeedingPasscode then ⟨str "this network needs the enrolment passcode", true, []⟩
  else if closed ≠ [] then ⟨str "the enrolment window for this network is " ++ closed, false, closed⟩
  else ⟨str "no open enrolment window covers " ++ addr, false, []⟩

/-- The loop of `ClaimEnrolment` over the windows it listed, under the lock. -/
def claimFrom (T : Windows) (addr passcode : Str) (k : Clock) :
    List EnrolmentWindow → Bool → Str → Except Unavailable EnrolmentWindow × Windows
  | [], saw, closed => (.error (unavailable addr saw closed), T)
  | w :: ws, saw, closed =>
    if !cidrsAllow w.cidrs addr then claimFrom T addr passcode k ws saw closed
    else if !w.active (k.activeAt w.id) then
      claimFrom T addr passcode k ws saw (if closed = [] then w.state (k.stateAt w.id) else closed)
    else
      match T.find w.id with
      | none => claimFrom T addr passcode k ws saw closed
      | some row =>
        if !passcodeMatches C row.passcodeHash passcode then claimFrom T addr passcode k ws true closed
        else if row.spendable k.now then
          (.ok { w with used := w.used + 1, lastUsedAt := some k.now }, Windows.spend T w.id k.now)
        else claimFrom T addr passcode k ws saw closed

def Serves (T : Windows) (addr passcode : Str) (k : Clock) (w : EnrolmentWindow) : Prop :=
  cidrsAllow w.cidrs addr = true ∧ w.active (k.activeAt w.id) = true ∧
    ∃ row, T.find w.id = some row ∧ passcodeMatches C row.passcodeHash passcode = true ∧ row.spendable k.now = true

variable {C} {T : Windows} {addr passcode : Str} {k : Clock}

/-- What a claim does: it spends one use of a listed window that serves it, or nothing serves it and nothing
changes. -/
def ClaimOutcome (C : Crypto) (T : Windows) (addr passcode : Str) (k : Clock) (ws : List EnrolmentWindow)
    (r : Except Unavailable EnrolmentWindow × Windows) : Prop :=
  (∃ w ∈ ws, Serves C T addr passcode k w ∧
    r = (.ok { w with used := w.used + 1, lastUsedAt := some k.now }, Windows.spend T w.id k.now)) ∨
  ((∀ w ∈ ws, ¬Serves C T addr passcode k w) ∧ ∃ e, r = (.error e, T))

theorem ClaimOutcome.cons {w : EnrolmentWindow} {ws : List EnrolmentWindow}
    {r : Except Unavailable EnrolmentWindow × Windows} (h : ClaimOutcome C T addr passcode k ws r)
    (hno : ¬Serves C T addr passcode k w) : ClaimOutcome C T addr passcode k (w :: ws) r := by
  rcases h with ⟨w', hw', hserves⟩ | ⟨hnone, herr⟩
  · exact .inl ⟨w', List.mem_cons_of_mem _ hw', hserves⟩
  · exact .inr ⟨List.forall_mem_cons.mpr ⟨hno, hnone⟩, herr⟩

theorem claimFrom_outcome (ws : List EnrolmentWindow) (saw : Bool) (closed : Str) :
    ClaimOutcome C T addr passcode k ws (claimFrom C T addr passcode k ws saw closed) := by
  induction ws generalizing saw closed with
  | nil => exact .inr ⟨by simp, _, rfl⟩
  | cons w ws ih =>
    rw [claimFrom]
    by_cases hcovers : cidrsAllow w.cidrs addr = true
    case neg =>
      rw [if_pos (by simpa using hcovers)]
      exact (ih _ _).cons fun h => hcovers h.1
    rw [if_neg (by simpa using hcovers)]
    by_cases hactive : w.active (k.activeAt w.id) = true
    case neg =>
      rw [if_pos (by simpa using hactive)]
      exact (ih _ _).cons fun h => hactive h.2.1
    rw [if_neg (by simpa using hactive)]
    cases hrow : T.find w.id with
    | none =>
      refine (ih _ _).cons fun h => ?_
      obtain ⟨row, hfind, -⟩ := h.2.2
      rw [hrow] at hfind
      cases hfind
    | some row =>
      dsimp only
      have hrowOnly : Serves C T addr passcode k w →
          passcodeMatches C row.passcodeHash passcode = true ∧ row.spendable k.now = true := by
        rintro ⟨-, -, row', hfind, hmatch⟩
        rw [hrow] at hfind
        cases hfind
        exact hmatch
      by_cases hpass : passcodeMatches C row.passcodeHash passcode = true
      case neg =>
        rw [if_pos (by simpa using hpass)]
        exact (ih _ _).cons fun h => hpass (hrowOnly h).1
      rw [if_neg (by simpa using hpass)]
      by_cases hspend : row.spendable k.now = true
      case neg =>
        rw [if_neg hspend]
        exact (ih _ _).cons fun h => hspend (hrowOnly h).2
      rw [if_pos hspend]
      exact .inl ⟨w, by simp, ⟨hcovers, hactive, row, hrow, hpass, hspend⟩, rfl⟩

end

end Ominull.Hub
