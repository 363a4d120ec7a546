import Ominull.Agent.Frame
import Ominull.Lib.Run

/-!
A host over its lifetime: the files it keeps and the agent that runs on it, if one does. The hub
decides what heartbeats bring, an administrator may re-pin at any time in a process of its own, and
the machine may stop before any write.
-/

namespace Ominull.Agent

open Lib

structure Host where
  disk : Disk File
  agent : Option TrustContext

/-- What happens to a host. The outcomes are those of the writes the event makes, in order. -/
inductive Event where
  | start
  | beat (resp : Str) (now : Int) (outcomes : List Outcome)
  | repin (outcomes : List Outcome)
  | stop

/-- `--repin-trust`: a process that loads what is pinned and revokes it. -/
def repinProcess (C : Crypto) (endpointID : Str) : Prog File Bool := do
  let t ← init C endpointID
  repin t

section

variable (C : Crypto) (endpointID : Str)

namespace Host

/-- The state of the host after an event. A start only reads; a running agent keeps what it holds in
memory while another process re-pins. -/
def step (s : Host) : Event → Host
  | .start => { s with agent := ((init C endpointID).exec s.disk []).result }
  | .beat resp now outcomes =>
    match s.agent with
    | none => s
    | some t =>
      let e := (processHeartbeat C t resp now).exec s.disk outcomes
      ⟨e.disk, e.result.map Prod.snd⟩
  | .repin outcomes => { s with disk := ((repinProcess C endpointID).exec s.disk outcomes).disk }
  | .stop => { s with agent := none }

def log (s : Host) : Event → List (File × Option Outcome)
  | .beat resp now outcomes =>
    match s.agent with
    | none => []
    | some t => ((processHeartbeat C t resp now).exec s.disk outcomes).log
  | .repin outcomes => ((repinProcess C endpointID).exec s.disk outcomes).log
  | _ => []

/-- Nothing has been pinned or taken yet. -/
def Fresh (s : Host) : Prop :=
  s.agent = none ∧ ∀ f ∈ pinFiles ++ manifestFiles, s.disk f = none

end Host

def Step (s : Host) (e : Event) (s' : Host) : Prop := s' = s.step C endpointID e

/-- The writes of the pin files are atomic: one that reports failure has had no effect. -/
def AtomicPins (s : Host) (e : Event) : Prop :=
  ∀ w ∈ s.log C endpointID e, w.1 ∈ pinFiles → w.2 ≠ some .unsynced

instance (s : Host) (e : Event) : Decidable (AtomicPins C endpointID s e) :=
  inferInstanceAs (Decidable (∀ _ ∈ s.log C endpointID e, _ → _))

end

section

variable (C : Crypto) (endpointID : Str) (ok : Host → Event → Prop)

def Host.events (s : Host) (es : List Event) : Host := es.foldl (fun s e => s.step C endpointID e) s

/-- Every event of the list meets the condition where it happens. -/
def Along : Host → List Event → Prop
  | _, [] => True
  | s, e :: es => ok s e ∧ Along (s.step C endpointID e) es

instance decidableAlong [∀ s e, Decidable (ok s e)] :
    (s : Host) → (es : List Event) → Decidable (Along C endpointID ok s es)
  | _, [] => isTrue trivial
  | s, e :: es => @instDecidableAnd _ _ _ (decidableAlong (s.step C endpointID e) es)

variable {C endpointID ok}

theorem Along.run {s : Host} {es : List Event} (h : Along C endpointID ok s es) :
    Run (Guarded ok (Step C endpointID)) s (s.events C endpointID es) := by
  induction es generalizing s with
  | nil => exact Run.refl s
  | cons e es ih => exact ((Run.refl s).tailGuarded rfl h.1).trans (ih h.2)

end

section Beat

variable {C : Crypto} {endpointID : Str} {s : Host} {ok : File → Option Outcome → Prop} {I : Disk File → Prop}
  {Q : TrustContext → Bool × TrustContext → Disk File → Prop} {resp : Str} {now : Int} {os : List Outcome}

/-- What a heartbeat does to a host: nothing where no agent runs, and otherwise what its program does
to the files and to the agent. -/
inductive HostBeat (I : Disk File → Prop) (Q : TrustContext → Bool × TrustContext → Disk File → Prop) (s : Host) :
    Host → Prop
  | idle (hagent : s.agent = none) : HostBeat I Q s s
  | stopped {d : Disk File} (h : I d) : HostBeat I Q s ⟨d, none⟩
  | done {t : TrustContext} {r : Bool × TrustContext} {d : Disk File} (hagent : s.agent = some t) (h : Q t r d) :
      HostBeat I Q s ⟨d, some r.2⟩

theorem beat_sound (hwp : ∀ t, s.agent = some t → (processHeartbeat C t resp now).wp ok I (Q t) s.disk)
    (hok : ∀ w ∈ s.log C endpointID (.beat resp now os), ok w.1 w.2) :
    HostBeat I Q s (s.step C endpointID (.beat resp now os)) := by
  cases hagent : s.agent with
  | none =>
    have hstep : s.step C endpointID (.beat resp now os) = s := by simp [Host.step, hagent]
    rw [hstep]
    exact .idle hagent
  | some t =>
    simp only [Host.log, hagent] at hok
    have hsound := Prog.wp_sound (hwp t hagent) os hok
    simp only [Host.step, hagent]
    split at hsound
    · rename_i r hr
      rw [hr]
      exact .done hagent hsound
    · rename_i hr
      rw [hr]
      exact .stopped hsound

end Beat

def freshHost : Host := ⟨fun _ => none, none⟩

end Ominull.Agent
