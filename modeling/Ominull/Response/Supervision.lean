import Ominull.Response.Types

namespace Ominull.Response

open Go

def phaseRunning : Str := str "running"
def phaseStalled : Str := str "stalled"
def phaseNeedsHands : Str := str "needs_hands"

def maxHeartbeatText : ℕ := 200

def isControl (c : Char) : Bool := c.toNat < 0x20 || (0x7f ≤ c.toNat && c.toNat < 0xa0)

/-- `utf8.RuneStart`: not a continuation byte. -/
def runeStart (b : UInt8) : Bool := b &&& 0xc0 != 0x80

/-- The last place at or before `n` where a rune starts. -/
def runeCut (s : Str) : ℕ → ℕ
  | 0 => 0
  | n + 1 => if runeStart (s.getD (n + 1) 0) then n + 1 else runeCut s n

/-- `strings.Fields` joined by single spaces. -/
def joinFields (cs : List Char) : List Char :=
  List.intercalate [' '] ((cs.splitOnP isSpaceRune).filter (· ≠ []))

/-- Keeps endpoint text printable and short. -/
def cleanHeartbeatText (s : Str) : Str :=
  let valid := (runes s).filterMap fun r => match r with
    | .valid c => some c
    | .invalid _ => none
  let printable := valid.map fun c => if isControl c ∨ c.toNat = 0xfffd then ' ' else c
  let text := utf8 (joinFields printable)
  if maxHeartbeatText < text.length then text.take (runeCut text maxHeartbeatText) else text

def cleanWindow (w : SupervisedWindow) : SupervisedWindow :=
  { w with
    title := cleanHeartbeatText w.title
    process := (cleanHeartbeatText w.process).take 64 }

/-- Validates and normalises a heartbeat. -/
def JobHeartbeat.clean (hb : JobHeartbeat) : Except StoreError JobHeartbeat :=
  let phase := if hb.phase = [] then phaseRunning else hb.phase
  if phase = phaseRunning ∨ phase = phaseStalled ∨ phase = phaseNeedsHands then
    .ok { hb with
      phase := phase
      message := cleanHeartbeatText hb.message
      progressPct := hb.progressPct.filter fun p => 0 ≤ p ∧ p ≤ 100
      cpuMs := max hb.cpuMs 0
      ioBytes := max hb.ioBytes 0
      idleSeconds := max hb.idleSeconds 0
      processes := max hb.processes 0
      -- a window only means something while the run waits on it
      window := if phase = phaseNeedsHands then hb.window.map cleanWindow else none }
  else .error (.unknownPhase hb.phase)

/-- The row a heartbeat leaves behind, given the job's latest one before it. -/
def JobHeartbeat.supervise (hb : JobHeartbeat) (now : Time) (j : JobRecord)
    (prior : Option JobSupervision) : JobSupervision where
  jobID := hb.jobID
  tenantID := (prior.map (·.tenantID)).getD j.tenantID
  endpointID := (prior.map (·.endpointID)).getD j.endpointID
  phase := hb.phase
  phaseSince := match prior with
    | some p => if p.phase = hb.phase then p.phaseSince else now
    | none => now
  heartbeatAt := now
  heartbeats := (prior.map (·.heartbeats)).getD 0 + 1
  progressPct := hb.progressPct.getD ((prior.map (·.progressPct)).getD (-1))
  message := match prior with
    | some p => if hb.message = [] then p.message else hb.message
    | none => hb.message
  cpuMs := hb.cpuMs
  ioBytes := hb.ioBytes
  idleSeconds := hb.idleSeconds
  processes := hb.processes
  window := hb.window

/-- What a heartbeat changed, and whether the endpoint should stop the job. -/
structure HeartbeatOutcome where
  cancel : Bool
  changed : Bool
  phase : Str
  prior : Str

def heartbeatOutcome (j : JobRecord) (prior : Option JobSupervision) (sup : JobSupervision) :
    HeartbeatOutcome where
  cancel := j.state = .cancelRequested
  changed := match prior with
    | some p => p.phase ≠ sup.phase ∨ p.message ≠ sup.message ∨ p.progressPct ≠ sup.progressPct
    | none => true
  phase := sup.phase
  prior := (prior.map (·.phase)).getD []

end Ominull.Response
