import Ominull.Hub.Playbook
import Ominull.Lib.Run
import Ominull.Response.Leases

/-!
The steps of a playbook run on a machine are started in order, each once, and before the deadline of the run, as
long as the list is saved by every tick that creates a job.
-/

namespace Ominull.Hub

open Lib Go Response List

/-! ### What a creation leaves -/

variable {store' : Store} {job : JobRecord}

theorem createJob_ok {store : Store} {now : Time} {id : Str} {a : CreateArgs} (hkey : a.idempotencyKey = [])
    (h : store.createJob now id a = (.ok job, store')) :
    store.jobs.insert job = some store'.jobs ∧ job.tenantID = a.tenantID := by
  have hcreates := Store.createJob_creates store now id a
  rw [h] at hcreates
  cases hcreates with
  | found hj =>
    rw [Store.findIdempotent, if_pos hkey] at hj
    cases hj
  | created _ hins => exact ⟨hins, rfl⟩

variable {st : PlaybookHostStep}

theorem startStep_ok {run : PlaybookRun} {ep : Str} {creation : Option Creation} {store : Store} {i : ℕ}
    (h : startStep run ep creation store i st = some (job, store')) :
    creation ≠ none ∧ store.jobs.insert job = some store'.jobs ∧ job.tenantID = run.tenant := by
  obtain ⟨c, hc, h⟩ := Option.bind_eq_some_iff.mp h
  refine ⟨by rw [hc]; simp, ?_⟩
  split at h
  · rename_i hok
    cases h
    exact createJob_ok rfl hok
  · cases h

/-! ### The record of a run and its saved steps -/

structure Record where
  created : List Created
  ended : List Ended

def Record.add {α : Type} (L : Record) (x : Advance α) : Record := ⟨L.created ++ x.created, L.ended ++ x.ended⟩

def Created.At (c : Created) (serial : ℕ) (ep : Str) (i : ℕ) : Prop := c.serial = serial ∧ c.ep = ep ∧ c.step = i

def Ended.At (e : Ended) (serial : ℕ) (ep : Str) (i : ℕ) : Prop := e.serial = serial ∧ e.ep = ep ∧ e.step = i

structure Header where
  serial : ℕ
  tenant : Str
  deadline : Time
  reboots : ℕ → Bool

def PlaybookRun.header (r : PlaybookRun) : Header := ⟨r.serial, r.tenant, r.deadline, r.rebootAt⟩

/-- The hold behind the step that an ending is about. -/
def Header.holdAfter (h : Header) (e : Ended) : Option Time :=
  if h.reboots e.step = true ∧ (derivePackageRun e.job e.time).state = .fixed then
    some ((derivePackageRun e.job e.time).hold e.time)
  else none

/-- An ending of a step: the job created for it was over. -/
structure EndedOk (L : Record) (h : Header) (ep : Str) (now : Time) (i : ℕ) (e : Ended) : Prop where
  mem : e ∈ L.ended
  place : e.At h.serial ep i
  past : e.time ≤ now
  done : JobEnded e.job e.time h.deadline
  job : ∃ c ∈ L.created, c.At h.serial ep i ∧ c.jobID = e.job.id

/-- A saved step says what there has been of it. -/
def StepOk (L : Record) (h : Header) (ep : Str) (now : Time) (i : ℕ) (st : PlaybookHostStep) : Prop :=
  match st.state with
  | .pending | .notStarted => (∀ c ∈ L.created, ¬c.At h.serial ep i) ∧ st.holdUntil = none
  | .started => (∃ c ∈ L.created, c.At h.serial ep i ∧ c.jobID = st.jobID) ∧ st.holdUntil = none
  | .done => ∃ e, EndedOk L h ep now i e ∧ st.holdUntil = h.holdAfter e

/-- What stands behind a step: nothing has happened behind one that has not ended. -/
def Trails (st : PlaybookHostStep) (rest : List PlaybookHostStep) : Prop :=
  match st.state with
  | .done => True
  | .notStarted => ∀ x ∈ rest, x.state = .notStarted
  | .pending | .started => ∀ x ∈ rest, x.state = .pending

def StepsOk (L : Record) (h : Header) (ep : Str) (now : Time) : ℕ → List PlaybookHostStep → Prop
  | _, [] => True
  | i, st :: rest => StepOk L h ep now i st ∧ Trails st rest ∧ StepsOk L h ep now (i + 1) rest

/-- A job is created before the deadline, behind the end of the step before it and, if that was a restart that
fixed something, behind the hold and a later check-in. -/
structure CreatedOk (L : Record) (h : Header) (c : Created) : Prop where
  inTime : c.time < h.deadline
  inOrder : c.step ≠ 0 → ∃ e, EndedOk L h c.ep c.time (c.step - 1) e ∧
    ∀ hold, h.holdAfter e = some hold → hold ≤ c.time ∧ ∃ t, c.seen = some t ∧ hold < t

/-- A longer record, for one step of one machine: what was there is there, and nothing new is about the step. -/
structure Grows (L L' : Record) (serial : ℕ) (ep : Str) (i : ℕ) : Prop where
  created : ∀ c ∈ L.created, c ∈ L'.created
  ended : ∀ e ∈ L.ended, e ∈ L'.ended
  apart : ∀ c ∈ L'.created, c.At serial ep i → c ∈ L.created

variable {L L' : Record} {h : Header} {ep : Str} {now now' : Time} {i : ℕ}

theorem EndedOk.grows {e : Ended} (he : EndedOk L h ep now i e) (hc : ∀ c ∈ L.created, c ∈ L'.created)
    (hl : ∀ e ∈ L.ended, e ∈ L'.ended) (hnow : now ≤ now') : EndedOk L' h ep now' i e where
  mem := hl e he.mem
  place := he.place
  past := he.past.trans hnow
  done := he.done
  job := by
    obtain ⟨c, hmem, hjob⟩ := he.job
    exact ⟨c, hc c hmem, hjob⟩

theorem StepOk.grows (hst : StepOk L h ep now i st) (hg : Grows L L' h.serial ep i) (hnow : now ≤ now') :
    StepOk L' h ep now' i st := by
  unfold StepOk at hst ⊢
  cases hstate : st.state <;> rw [hstate] at hst
  case pending | notStarted => exact ⟨fun c hc hat => hst.1 c (hg.apart c hc hat) hat, hst.2⟩
  case started =>
    obtain ⟨⟨c, hc, hjob⟩, hhold⟩ := hst
    exact ⟨⟨c, hg.created c hc, hjob⟩, hhold⟩
  case done =>
    obtain ⟨e, he, hhold⟩ := hst
    exact ⟨e, he.grows hg.created hg.ended hnow, hhold⟩

variable {steps : List PlaybookHostStep}

theorem StepsOk.grows (hsteps : StepsOk L h ep now i steps) (hg : ∀ k, i ≤ k → Grows L L' h.serial ep k)
    (hnow : now ≤ now') : StepsOk L' h ep now' i steps := by
  induction steps generalizing i with
  | nil => trivial
  | cons st rest ih =>
    obtain ⟨hst, hchain, hrest⟩ := hsteps
    exact ⟨hst.grows (hg i le_rfl) hnow, hchain, ih hrest fun k hk => hg k (by omega)⟩

variable {c : Created}

theorem CreatedOk.grows (hc : CreatedOk L h c) (hcreated : ∀ c ∈ L.created, c ∈ L'.created)
    (hended : ∀ e ∈ L.ended, e ∈ L'.ended) : CreatedOk L' h c where
  inTime := hc.inTime
  inOrder := by
    intro hne
    obtain ⟨e, he, hhold⟩ := hc.inOrder hne
    exact ⟨e, he.grows hcreated hended le_rfl, hhold⟩

/-! ### One machine -/

/-- The jobs of the record are in the store, under the tenant of their run. -/
def InStore (store : Store) (L : Record) (h : Header) : Prop :=
  ∀ c ∈ L.created, c.serial = h.serial → ∃ j, store.jobs.find c.jobID = some j ∧ j.tenantID = h.tenant

structure NewJob (old : List Created) (L' : Record) (h : Header) (now : Time) (store store' : Store) (c : Created) : Prop where
  serial : c.serial = h.serial
  time : c.time = now
  first : ∀ c' ∈ old, ¬c'.At h.serial c.ep c.step
  ok : CreatedOk L' h c
  fresh : store.jobs.find c.jobID = none
  stored : ∃ j, store'.jobs.find c.jobID = some j ∧ j.tenantID = h.tenant

/-- An ending that a part of a tick finds: the job is one of the record, as the store has it. -/
structure NewEnd (old : List Created) (h : Header) (now : Time) (store : Store) (e : Ended) : Prop where
  time : e.time = now
  stored : store.jobs.find e.job.id = some e.job
  known : ∃ c ∈ old, c.serial = h.serial ∧ c.ep = e.ep ∧ c.jobID = e.job.id

def Keeps (store store' : Store) : Prop := ∀ id j, store.jobs.find id = some j → store'.jobs.find id = some j

structure HostMoves (L : Record) (h : Header) (ep : Str) (now : Time) (seen : Option Time)
    (creation : Option Creation) (store : Store) (i : ℕ) (x : Advance PlaybookHostStep) : Prop where
  kept : Keeps store x.store
  ended : ∀ e ∈ x.ended, e.ep = ep ∧ NewEnd L.created h now store e
  steps : StepsOk (L.add x) h ep now i x.left
  created : ∀ c ∈ x.created, i ≤ c.step ∧ c.ep = ep ∧ c.seen = seen ∧ NewJob L.created (L.add x) h now store x.store c
  single : x.created.length ≤ 1
  uncreated : creation = none ∨ x.changed = false → x.created = [] ∧ x.store = store

/-- The step before the one looked at: it has ended, or is not started and then none behind it is. -/
def PrevOk (L : Record) (h : Header) (ep : Str) (now : Time) (i : ℕ) (prev : Option PlaybookHostStep)
    (steps : List PlaybookHostStep) : Prop :=
  match prev with
  | none => i = 0
  | some p => i ≠ 0 ∧ ((p.state = .done ∧ StepOk L h ep now (i - 1) p) ∨ ∀ x ∈ steps, x.state = .notStarted)

section

variable {run : PlaybookRun} {seen : Option Time} {creation : Option Creation} {store : Store}

theorem hostMoves_stay {left : List PlaybookHostStep} {changed live : Bool} (hsteps : StepsOk L h ep now i left) :
    HostMoves L h ep now seen creation store i { left, store, changed, live } where
  kept := fun _ _ hj => hj
  ended := by simp
  steps := by simpa [Record.add] using hsteps
  created := by simp
  single := by simp
  uncreated := fun _ => ⟨rfl, rfl⟩

/-- A step that is over and unchanged, in front of what is done behind it. -/
theorem HostMoves.cons {x : Advance PlaybookHostStep} (hx : HostMoves L h ep now seen creation store (i + 1) x)
    (hst : StepOk L h ep now i st) (hchain : Trails st x.left) :
    HostMoves L h ep now seen creation store i (x.cons st) where
  kept := hx.kept
  ended := hx.ended
  steps := by
    refine ⟨hst.grows ⟨?_, ?_, ?_⟩ le_rfl, hchain, hx.steps⟩
    · exact fun c hc => mem_append_left _ hc
    · exact fun e he => mem_append_left _ he
    · intro c hc hat
      rcases mem_append.mp hc with hc | hc
      · exact hc
      · have hstep := (hx.created c hc).1
        have := hat.2.2
        omega
  created := fun c hc => by
    obtain ⟨hstep, hrest⟩ := hx.created c hc
    exact ⟨by omega, hrest⟩
  single := hx.single
  uncreated := hx.uncreated

theorem HostMoves.finish {x : Advance PlaybookHostStep} {e : Ended}
    (hx : HostMoves ⟨L.created, L.ended ++ [e]⟩ h ep now seen creation store i x)
    (he : e.ep = ep ∧ NewEnd L.created h now store e) :
    HostMoves L h ep now seen creation store i { x with ended := e :: x.ended, changed := true } := by
  have hadd : Record.add L { x with ended := e :: x.ended, changed := true } = Record.add ⟨L.created, L.ended ++ [e]⟩ x := by
    simp [Record.add]
  refine ⟨hx.kept, ?_, ?_, ?_, hx.single, fun h => hx.uncreated (.inl (h.resolve_right (by simp)))⟩
  · exact forall_mem_cons.mpr ⟨he, hx.ended⟩
  · rw [hadd]
    exact hx.steps
  · rw [hadd]
    exact hx.created

theorem getJob_of_inStore (hstore : InStore store L run.header) (hc : c ∈ L.created) (hserial : c.serial = run.serial) :
    ∃ job, getJob store run.tenant c.jobID = some job ∧
      store.jobs.find job.id = some job ∧ job.id = c.jobID := by
  obtain ⟨j, hj, htenant⟩ := hstore c hc hserial
  have hid : j.id = c.jobID := Table.key_of_find hj
  refine ⟨j, ?_, by rw [hid, hj], hid⟩
  rw [getJob, hj, Option.filter_some, if_pos]
  have : j.tenantID = run.tenant := htenant
  simp [this]

theorem stepOk_finishStep (hst : StepOk L run.header ep now i st) (hstarted : st.state = .started)
    (hjob : job.id = st.jobID) (hover : JobEnded job now run.deadline) :
    StepOk ⟨L.created, L.ended ++ [⟨run.serial, ep, i, job, now⟩]⟩ run.header ep now i
      (finishStep run now i st (derivePackageRun job now)) := by
  rw [StepOk, hstarted] at hst
  obtain ⟨⟨c, hc, hat, hid⟩, hhold⟩ := hst
  refine ⟨⟨run.serial, ep, i, job, now⟩, ⟨?_, ⟨rfl, rfl, rfl⟩, le_rfl, hover, c, hc, hat, hid.trans hjob.symm⟩, ?_⟩
  · simp
  · rw [finishStep, hhold, Option.or_none]
    rfl

theorem backFromRestart_iff {hold : Time} :
    backFromRestart seen hold now = true ↔ hold ≤ now ∧ ∃ t, seen = some t ∧ hold < t := by
  cases seen <;> simp [backFromRestart]

variable {prev : Option PlaybookHostStep}

theorem hostMoves_start {rest : List PlaybookHostStep} (hsteps : StepsOk L run.header ep now i (st :: rest))
    (hpending : st.state = .pending) (hprev : PrevOk L run.header ep now i prev (st :: rest))
    (hdeadline : now < run.deadline)
    (hback : (prev.bind (·.holdUntil)).all (fun hold => backFromRestart seen hold now) = true)
    (hstart : startStep run ep creation store i st = some (job, store')) :
    HostMoves L run.header ep now seen creation store i
      { left := { st with state := .started, jobID := job.id, grant := none } :: rest, store := store'
        created := [⟨run.serial, ep, i, job.id, now, seen⟩], changed := true, live := true } := by
  obtain ⟨hsome, hins, htenant⟩ := startStep_ok hstart
  obtain ⟨hst, htrails, hrest⟩ := hsteps
  rw [StepOk, hpending] at hst
  rw [Trails, hpending] at htrails
  have hgrows : ∀ k, i + 1 ≤ k → Grows L ⟨L.created ++ [⟨run.serial, ep, i, job.id, now, seen⟩], L.ended ++ []⟩
      run.serial ep k := by
    intro k hk
    refine ⟨fun c hc => mem_append_left _ hc, fun e he => mem_append_left _ he, fun c hc hat => ?_⟩
    rcases mem_append.mp hc with hc | hc
    · exact hc
    · rw [mem_singleton.mp hc] at hat
      have : i = k := hat.2.2
      omega
  refine ⟨fun _ _ hj => Table.find_insert_of_find hins hj, by simp,
    ⟨?_, htrails, hrest.grows hgrows le_rfl⟩, ?_, by simp,
    fun hnone => absurd (hnone.resolve_right (by simp)) hsome⟩
  · exact ⟨⟨_, mem_append_right _ (mem_singleton.mpr rfl), ⟨rfl, rfl, rfl⟩, rfl⟩, hst.2⟩
  · intro c hc
    rw [mem_singleton.mp hc]
    refine ⟨le_rfl, rfl, rfl, rfl, rfl, hst.1, ⟨hdeadline, fun hne => ?_⟩, (Table.insert_rows hins).2, job, ?_, htenant⟩
    · -- The step before has ended, and its hold is over.
      cases prev with
      | none => exact absurd hprev hne
      | some p =>
        rcases hprev.2 with ⟨hdone, hp⟩ | hnone
        · rw [StepOk, hdone] at hp
          obtain ⟨e, he, hhold⟩ := hp
          refine ⟨e, he.grows (hgrows (i + 1) le_rfl).created (hgrows (i + 1) le_rfl).ended le_rfl, fun hold hsome => ?_⟩
          rw [Option.bind_some, hhold, hsome, Option.all_some] at hback
          exact backFromRestart_iff.mp hback
        · have hno := hnone st (by simp)
          rw [hpending] at hno
          cases hno
    · rw [Table.find_insert hins, if_pos rfl]

theorem stepsOk_notStarted (hsteps : StepsOk L h ep now i steps) (hall : ∀ x ∈ steps, x.state = .pending) :
    StepsOk L h ep now i (steps.map fun x => { x with state := .notStarted, grant := none }) := by
  induction steps generalizing i with
  | nil => trivial
  | cons st rest ih =>
    obtain ⟨hst, -, hrest⟩ := hsteps
    rw [StepOk, hall st (by simp)] at hst
    refine ⟨hst, ?_, ih hrest fun x hx => hall x (mem_cons_of_mem _ hx)⟩
    intro x hx
    obtain ⟨y, -, rfl⟩ := mem_map.mp hx
    rfl

theorem advanceHost_notStarted (hall : ∀ x ∈ steps, x.state = .notStarted) :
    (advanceHost run ep now seen creation store i prev steps).left = steps := by
  induction steps generalizing i prev with
  | nil => rfl
  | cons st rest ih =>
    rw [advanceHost, hall st (by simp)]
    exact congrArg (st :: ·) (ih fun x hx => hall x (mem_cons_of_mem _ hx))

/-- What moving one machine along does. -/
theorem advanceHost_moves (hsteps : StepsOk L run.header ep now i steps)
    (hprev : PrevOk L run.header ep now i prev steps) (hstore : InStore store L run.header) :
    HostMoves L run.header ep now seen creation store i
      (advanceHost run ep now seen creation store i prev steps) := by
  induction steps generalizing L i prev with
  | nil => exact hostMoves_stay trivial
  | cons st rest ih =>
    have hwhole := hsteps
    obtain ⟨hst, htrails, hrest⟩ := hsteps
    rw [advanceHost]
    cases hstate : st.state with
    | done =>
      have hnext : PrevOk L run.header ep now (i + 1) (some st) rest := ⟨by omega, .inl ⟨hstate, hst⟩⟩
      refine (ih hrest hnext hstore).cons hst ?_
      rw [Trails, hstate]
      trivial
    | notStarted =>
      have hnone : ∀ x ∈ rest, x.state = .notStarted := by
        rw [Trails, hstate] at htrails
        exact htrails
      have hnext : PrevOk L run.header ep now (i + 1) (some st) rest := ⟨by omega, .inr hnone⟩
      refine (ih hrest hnext hstore).cons hst ?_
      rw [Trails, hstate, advanceHost_notStarted hnone]
      exact hnone
    | started =>
      have hstarted := hst
      rw [StepOk, hstate] at hstarted
      obtain ⟨⟨c, hc, hat, hid⟩, -⟩ := hstarted
      obtain ⟨job, hget, hfind, hjob⟩ := getJob_of_inStore hstore hc hat.1
      rw [hid] at hget hjob
      rw [hget]
      dsimp only
      split_ifs with hwait
      · exact hostMoves_stay hwhole
      · have hover : JobEnded job now run.deadline := not_not.mp fun hno => hwait ((waits_iff job now run.deadline).mpr hno)
        have hdone := stepOk_finishStep hst hstate hjob hover
        have hrest' : StepsOk ⟨L.created, L.ended ++ [⟨run.serial, ep, i, job, now⟩]⟩ run.header ep now (i + 1) rest :=
          hrest.grows (fun k _ => ⟨fun _ h => h, fun e he => mem_append_left _ he, fun _ h _ => h⟩) le_rfl
        have hnext : PrevOk ⟨L.created, L.ended ++ [⟨run.serial, ep, i, job, now⟩]⟩ run.header ep now (i + 1)
            (some (finishStep run now i st (derivePackageRun job now))) rest := ⟨by omega, .inl ⟨rfl, hdone⟩⟩
        exact ((ih hrest' hnext hstore).cons hdone trivial).finish
          ⟨rfl, rfl, hfind, c, hc, hat.1, hat.2.1, hid.trans hjob.symm⟩
    | pending =>
      dsimp only
      split_ifs with hlate hhold
      · apply hostMoves_stay
        apply stepsOk_notStarted hwhole
        rw [Trails, hstate] at htrails
        exact forall_mem_cons.mpr ⟨hstate, htrails⟩
      · exact hostMoves_stay hwhole
      · split
        · exact hostMoves_stay hwhole
        · rename_i job store' hstart
          exact hostMoves_start hwhole hstate hprev (not_le.mp hlate) (by simpa using hhold) hstart

end

/-! ### The machines of a run -/

theorem Keeps.trans {s t u : Store} (h : Keeps s t) (h' : Keeps t u) : Keeps s u := fun id j hj => h' id j (h id j hj)

theorem Keeps.find_none {s t : Store} (h : Keeps s t) {id : Str} (hnone : t.jobs.find id = none) :
    s.jobs.find id = none := by
  cases hj : s.jobs.find id with
  | none => rfl
  | some j =>
    rw [h id j hj] at hnone
    cases hnone

variable {store store₁ store₂ : Store} {old new : List Created}

theorem NewJob.after (hc : NewJob (old ++ new) L h now store₁ store₂ c) (hkept : Keeps store store₁) :
    NewJob old L h now store store₂ c :=
  { hc with
    first := fun c' hc' => hc.first c' (mem_append_left _ hc')
    fresh := hkept.find_none hc.fresh }

theorem NewJob.before (hc : NewJob old L h now store store₁ c) (hkept : Keeps store₁ store₂)
    (hcreated : ∀ c ∈ L.created, c ∈ L'.created) (hended : ∀ e ∈ L.ended, e ∈ L'.ended) :
    NewJob old L' h now store store₂ c :=
  { hc with
    ok := hc.ok.grows hcreated hended
    stored := by
      obtain ⟨j, hj, htenant⟩ := hc.stored
      exact ⟨j, hkept _ _ hj, htenant⟩ }

theorem NewEnd.after {e : Ended} (he : NewEnd (old ++ new) h now store₁ e)
    (hkept : Keeps store store₁) (hapart : ∀ c ∈ new, c.serial = h.serial → c.ep ≠ e.ep)
    (hstore : InStore store ⟨old, []⟩ h) : NewEnd old h now store e := by
  obtain ⟨c, hc, hserial, hep, hid⟩ := he.known
  have hold : c ∈ old := (mem_append.mp hc).resolve_right fun hc => hapart c hc hserial hep
  obtain ⟨j, hj, -⟩ := hstore c hold hserial
  refine ⟨he.time, ?_, c, hold, hserial, hep, hid⟩
  have hsame := hkept _ _ hj
  rw [hid, he.stored] at hsame
  rw [← hid, hj, hsame]

/-- The machines of a run say what there has been of them. -/
structure HostsOk (L : Record) (h : Header) (now : Time) (hosts : List (Str × List PlaybookHostStep)) : Prop where
  distinct : (hosts.map Prod.fst).Nodup
  steps : ∀ p ∈ hosts, StepsOk L h p.1 now 0 p.2

structure RunMoves (L : Record) (h : Header) (now : Time) (seen : Str → Option Time)
    (creations : Str → Option Creation) (store : Store) (keys : List Str)
    (x : Advance (Str × List PlaybookHostStep)) : Prop where
  kept : Keeps store x.store
  names : x.left.map Prod.fst = keys
  ended : ∀ e ∈ x.ended, e.ep ∈ keys ∧ NewEnd L.created h now store e
  steps : ∀ p ∈ x.left, StepsOk (L.add x) h p.1 now 0 p.2
  created : ∀ c ∈ x.created, c.ep ∈ keys ∧ c.seen = seen c.ep ∧ NewJob L.created (L.add x) h now store x.store c
  apart : x.created.Pairwise fun c c' => c.ep ≠ c'.ep
  uncreated : (∀ ep, creations ep = none) ∨ x.changed = false → x.created = [] ∧ x.store = store

variable {α : Type}

theorem InStore.add {x : Advance α} (hstore : InStore store L h) (hkept : Keeps store x.store)
    (hnew : ∀ c ∈ x.created, c.serial = h.serial → ∃ j, x.store.jobs.find c.jobID = some j ∧ j.tenantID = h.tenant) :
    InStore x.store (L.add x) h := by
  intro c hc hserial
  rcases mem_append.mp hc with hc | hc
  · obtain ⟨j, hj, htenant⟩ := hstore c hc hserial
    exact ⟨j, hkept _ _ hj, htenant⟩
  · exact hnew c hc hserial

theorem mem_created_add (x : Advance α) : ∀ c ∈ L.created, c ∈ (L.add x).created :=
  fun _ hc => mem_append_left _ hc

theorem mem_ended_add (x : Advance α) : ∀ e ∈ L.ended, e ∈ (L.add x).ended :=
  fun _ he => mem_append_left _ he

theorem StepsOk.add {x : Advance α} (hsteps : StepsOk L h ep now i steps)
    (hapart : ∀ c ∈ x.created, c.serial = h.serial → c.ep ≠ ep) : StepsOk (L.add x) h ep now i steps := by
  refine hsteps.grows (fun k _ => ⟨mem_created_add x, mem_ended_add x, fun c hc hat => ?_⟩) le_rfl
  rcases mem_append.mp hc with hc | hc
  · exact hc
  · exact absurd hat.2.1 (hapart c hc hat.1)

theorem add_andThen {β : Type} (L : Record) (a : α) (x : Advance β) (y : Advance α) :
    L.add (Advance.andThen a x y) = (L.add x).add y := by
  simp [Record.add, Advance.andThen]

variable {hosts : List (Str × List PlaybookHostStep)}

theorem advanceHosts_moves {run : PlaybookRun} {seen : Str → Option Time} {creations : Str → Option Creation}
    (hhosts : HostsOk L run.header now hosts) (hstore : InStore store L run.header) :
    RunMoves L run.header now seen creations store (hosts.map Prod.fst)
      (advanceHosts run now seen creations store hosts) := by
  induction hosts generalizing L store with
  | nil =>
    rw [advanceHosts]
    exact ⟨fun _ _ hj => hj, rfl, by simp, by simp, by simp, by simp, fun _ => ⟨rfl, rfl⟩⟩
  | cons p rest ih =>
    obtain ⟨ep, steps⟩ := p
    obtain ⟨hnotin, hnodup⟩ : ep ∉ rest.map Prod.fst ∧ (rest.map Prod.fst).Nodup := nodup_cons.mp hhosts.distinct
    have hx : HostMoves L run.header ep now (seen ep) (creations ep) store 0
        (advanceHost run ep now (seen ep) (creations ep) store 0 none steps) :=
      advanceHost_moves (hhosts.steps (ep, steps) (by simp)) rfl hstore
    rw [advanceHosts]
    generalize advanceHost run ep now (seen ep) (creations ep) store 0 none steps = x at hx ⊢
    -- The machines behind this one have other names.
    have hother : ∀ p ∈ rest, p.1 ≠ ep := by
      rintro p hp rfl
      exact hnotin (mem_map_of_mem hp)
    have hrest : HostsOk (L.add x) run.header now rest := by
      refine ⟨hnodup, fun p hp => (hhosts.steps p (mem_cons_of_mem _ hp)).add fun c hc _ => ?_⟩
      rw [(hx.created c hc).2.1]
      exact (hother p hp).symm
    have hstore' : InStore x.store (L.add x) run.header :=
      hstore.add hx.kept fun c hc _ => (hx.created c hc).2.2.2.stored
    have hy := ih hrest hstore'
    generalize advanceHosts run now seen creations x.store rest = y at hy ⊢
    have hkey : ∀ c ∈ y.created, c.ep ≠ ep := fun c hc heq => hnotin (heq ▸ (hy.created c hc).1)
    refine ⟨hx.kept.trans hy.kept, ?_, ?_, ?_, ?_, ?_, ?_⟩
    · exact congrArg (ep :: ·) hy.names
    · intro e he
      rcases mem_append.mp he with he | he
      · obtain ⟨hep, hend⟩ := hx.ended e he
        exact ⟨by simp [hep], hend⟩
      · obtain ⟨hep, hend⟩ := hy.ended e he
        refine ⟨mem_cons_of_mem _ hep, hend.after hx.kept (fun c hc _ => ?_) hstore⟩
        rw [(hx.created c hc).2.1]
        rintro rfl
        exact hnotin hep
    · rw [add_andThen]
      exact forall_mem_cons.mpr ⟨hx.steps.add fun c hc _ => hkey c hc, hy.steps⟩
    · rw [add_andThen]
      intro c hc
      rcases mem_append.mp hc with hc | hc
      · obtain ⟨-, hep, hseen, hnew⟩ := hx.created c hc
        exact ⟨by simp [hep], by rw [hseen, hep], hnew.before hy.kept (mem_created_add y) (mem_ended_add y)⟩
      · obtain ⟨hep, hseen, hnew⟩ := hy.created c hc
        exact ⟨mem_cons_of_mem _ hep, hseen, hnew.after hx.kept⟩
    · refine pairwise_append.mpr ⟨?_, hy.apart, fun c hc c' hc' => ?_⟩
      · have hsingle := hx.single
        match x.created, hsingle with
        | [], _ => exact List.Pairwise.nil
        | [_], _ => exact pairwise_singleton _ _
      · rw [(hx.created c hc).2.1]
        exact (hkey c' hc').symm
    · intro hnone
      have hsplit : x.changed = false ∧ y.changed = false ∨ ∀ ep, creations ep = none := by
        rcases hnone with hnone | hsame
        · exact .inr hnone
        · exact .inl (Bool.or_eq_false_iff.mp hsame)
      obtain ⟨hx₁, hx₂⟩ := hx.uncreated (hsplit.symm.imp (fun h => h ep) And.left)
      obtain ⟨hy₁, hy₂⟩ := hy.uncreated (hsplit.symm.imp id And.right)
      exact ⟨by simp [Advance.andThen, hx₁, hy₁], by simp [Advance.andThen, hx₂, hy₂]⟩

/-! ### The runs of a tick -/

structure RunsOk (L : Record) (now : Time) (runs : List PlaybookRun) : Prop where
  distinct : runs.Pairwise fun r r' => r.serial ≠ r'.serial
  hosts : ∀ r ∈ runs, HostsOk L r.header now r.hosts

variable {runs : List PlaybookRun}

theorem RunsOk.later (h : RunsOk L now runs) (hnow : now ≤ now') : RunsOk L now' runs where
  distinct := h.distinct
  hosts r hr := by
    refine ⟨(h.hosts r hr).distinct, fun p hp => ?_⟩
    exact ((h.hosts r hr).steps p hp).grows (fun _ _ => ⟨fun _ h => h, fun _ h => h, fun _ h _ => h⟩) hnow

structure TickMoves (L : Record) (now : Time) (seen : Str → Option Time) (creations : ℕ → Str → Option Creation)
    (store : Store) (runs : List PlaybookRun) (x : Advance PlaybookRun) : Prop where
  kept : Keeps store x.store
  headers : x.left.map PlaybookRun.header = runs.map PlaybookRun.header
  hosts : ∀ r ∈ x.left, HostsOk (L.add x) r.header now r.hosts
  ended : ∀ e ∈ x.ended, ∃ r ∈ runs, NewEnd L.created r.header now store e
  created : ∀ c ∈ x.created, ∃ r ∈ runs, c.seen = seen c.ep ∧ NewJob L.created (L.add x) r.header now store x.store c
  apart : x.created.Pairwise fun c c' => c.serial ≠ c'.serial ∨ c.ep ≠ c'.ep
  uncreated : (∀ k ep, creations k ep = none) ∨ x.changed = false → x.created = [] ∧ x.store = store

theorem header_moved (r : PlaybookRun) (x : Advance (Str × List PlaybookHostStep)) : (r.moved x).header = r.header := by
  unfold PlaybookRun.moved
  split_ifs
  · rfl
  · rw [PlaybookRun.header, PlaybookRun.header, Header.mk.injEq]
    refine ⟨rfl, rfl, rfl, ?_⟩
    funext i
    simp [PlaybookRun.rebootAt, Option.map_map, Function.comp_def]

theorem hosts_moved (r : PlaybookRun) (x : Advance (Str × List PlaybookHostStep)) : (r.moved x).hosts = x.left := by
  unfold PlaybookRun.moved
  split_ifs <;> rfl

theorem HostsOk.arrange (hhosts : HostsOk L h now hosts) (order : MapOrder) :
    HostsOk L h now (order.arrange hosts) where
  distinct := ((order.perm hosts).map Prod.fst).nodup_iff.mpr hhosts.distinct
  steps := fun p hp => hhosts.steps p ((order.perm hosts).mem_iff.mp hp)

theorem HostsOk.add {x : Advance α} (hhosts : HostsOk L h now hosts) (hapart : ∀ c ∈ x.created, c.serial ≠ h.serial) :
    HostsOk (L.add x) h now hosts where
  distinct := hhosts.distinct
  steps := fun p hp => (hhosts.steps p hp).add fun c hc hserial => absurd hserial (hapart c hc)

theorem advanceRuns_moves {seen : Str → Option Time} {order : MapOrder} {creations : ℕ → Str → Option Creation}
    (k : ℕ) (hruns : RunsOk L now runs) (hstore : ∀ r ∈ runs, InStore store L r.header) :
    TickMoves L now seen creations store runs (advanceRuns now seen order creations k store runs) := by
  induction runs generalizing L store k with
  | nil =>
    rw [advanceRuns]
    exact ⟨fun _ _ hj => hj, rfl, by simp, by simp, by simp, by simp, fun _ => ⟨rfl, rfl⟩⟩
  | cons r rest ih =>
    obtain ⟨hother, hdistinct⟩ := pairwise_cons.mp hruns.distinct
    obtain ⟨hhosts, hhosts'⟩ := forall_mem_cons.mp hruns.hosts
    obtain ⟨hstored, hstored'⟩ := forall_mem_cons.mp hstore
    rw [advanceRuns]
    split_ifs with hdone
    · -- A run that is over is left as it is.
      have hy := ih (k + 1) ⟨hdistinct, hhosts'⟩ hstored'
      generalize advanceRuns now seen order creations (k + 1) store rest = y at hy ⊢
      refine ⟨hy.kept, congrArg (r.header :: ·) hy.headers, ?_, ?_, ?_, hy.apart, hy.uncreated⟩
      · refine forall_mem_cons.mpr ⟨hhosts.add fun c hc => ?_, hy.hosts⟩
        obtain ⟨r', hr', -, hnew⟩ := hy.created c hc
        rw [hnew.serial]
        exact (hother r' hr').symm
      · exact fun e he => exists_mem_cons_of_exists (hy.ended e he)
      · exact fun c hc => exists_mem_cons_of_exists (hy.created c hc)
    · have hx : RunMoves L r.header now seen (creations k) store _
          (advanceHosts r now seen (creations k) store (order.arrange r.hosts)) :=
        advanceHosts_moves (hhosts.arrange order) hstored
      dsimp only
      generalize advanceHosts r now seen (creations k) store (order.arrange r.hosts) = x at hx ⊢
      have hserial : ∀ c ∈ x.created, c.serial = r.serial := fun c hc => (hx.created c hc).2.2.serial
      have hrest : RunsOk (L.add x) now rest := by
        refine ⟨hdistinct, fun r' hr' => (hhosts' r' hr').add fun c hc => ?_⟩
        rw [hserial c hc]
        exact hother r' hr'
      have hstore' : ∀ r' ∈ rest, InStore x.store (L.add x) r'.header := by
        intro r' hr'
        refine (hstored' r' hr').add hx.kept fun c hc hsame => ?_
        rw [hserial c hc] at hsame
        exact absurd hsame (hother r' hr')
      have hy := ih (k + 1) hrest hstore'
      generalize advanceRuns now seen order creations (k + 1) x.store rest = y at hy ⊢
      have hapart : ∀ c ∈ y.created, c.serial ≠ r.serial := by
        intro c hc
        obtain ⟨r', hr', -, hnew⟩ := hy.created c hc
        rw [hnew.serial]
        exact (hother r' hr').symm
      refine ⟨hx.kept.trans hy.kept, ?_, ?_, ?_, ?_, ?_, ?_⟩
      · exact congrArg₂ List.cons (header_moved r x) hy.headers
      · rw [add_andThen]
        refine forall_mem_cons.mpr ⟨?_, hy.hosts⟩
        rw [header_moved, hosts_moved]
        refine HostsOk.add ⟨?_, hx.steps⟩ hapart
        rw [hx.names]
        exact (hhosts.arrange order).distinct
      · intro e he
        rcases mem_append.mp he with he | he
        · exact ⟨r, by simp, (hx.ended e he).2⟩
        · obtain ⟨r', hr', hend⟩ := hy.ended e he
          refine ⟨r', mem_cons_of_mem _ hr', hend.after hx.kept (fun c hc hsame => ?_) (hstored' r' hr')⟩
          rw [hserial c hc] at hsame
          exact absurd hsame (hother r' hr')
      · rw [add_andThen]
        intro c hc
        rcases mem_append.mp hc with hc | hc
        · obtain ⟨-, hseen, hnew⟩ := hx.created c hc
          exact ⟨r, by simp, hseen, hnew.before hy.kept (mem_created_add y) (mem_ended_add y)⟩
        · obtain ⟨r', hr', hseen, hnew⟩ := hy.created c hc
          exact ⟨r', mem_cons_of_mem _ hr', hseen, hnew.after hx.kept⟩
      · refine pairwise_append.mpr ⟨hx.apart.imp .inr, hy.apart, fun c hc c' hc' => .inl ?_⟩
        rw [hserial c hc]
        exact (hapart c' hc').symm
      · intro hnone
        have hsplit : (∀ k ep, creations k ep = none) ∨ x.changed = false ∧ y.changed = false := by
          refine hnone.imp id fun hsame => ?_
          simp only [Advance.andThen, Bool.or_eq_false_iff] at hsame
          exact ⟨hsame.1.1, hsame.2⟩
        obtain ⟨hx₁, hx₂⟩ := hx.uncreated (hsplit.imp (fun h => h k) And.left)
        obtain ⟨hy₁, hy₂⟩ := hy.uncreated (hsplit.imp id And.right)
        exact ⟨by simp [Advance.andThen, hx₁, hy₁], by simp [Advance.andThen, hx₂, hy₂]⟩

/-! ### The hub -/

namespace Playbooks

def record (s : Playbooks) : Record := ⟨s.created, s.ended⟩

/-- The saved runs say what there has been of them, and what there has been was in order. -/
structure Sound (s : Playbooks) : Prop where
  runs : RunsOk s.record s.clock s.runs
  started : ∀ r ∈ s.runs, ∃ r₀, s.starts[r.serial]? = some r₀ ∧ r₀.header = r.header
  stored : ∀ c ∈ s.created, ∃ r₀, s.starts[c.serial]? = some r₀ ∧ r₀.serial = c.serial ∧
    (∃ j, s.store.jobs.find c.jobID = some j ∧ j.tenantID = r₀.tenant) ∧ CreatedOk s.record r₀.header c
  once : s.created.Pairwise fun c c' => ¬c'.At c.serial c.ep c.step

theorem sound_idle (store : Store) (seen : Str → Option Time) (clock : Time) : Sound (idle store seen clock) where
  runs := ⟨List.Pairwise.nil, by simp [idle]⟩
  started := by simp [idle]
  stored := by simp [idle]
  once := List.Pairwise.nil

def SavesCreations (_ : Playbooks) : PlaybookEvent → Prop
  | .tick _ _ creations saved => saved = true ∨ ∀ k ep, creations k ep = none
  | _ => True

theorem keptRuns_sublist (runs : List PlaybookRun) :
    (keptRuns runs).Sublist (runs.insertionSort fun a b => b.started ≤ a.started) := by
  have hsub := (filter_sublist (p := fun p : PlaybookRun × ℕ => !p.1.done || decide (p.2 < playbookRunsKept))
    (l := (runs.insertionSort fun a b => b.started ≤ a.started).zipIdx)).map Prod.fst
  rwa [zipIdx_map_fst] at hsub

theorem mem_of_mem_keptRuns {r : PlaybookRun} (h : r ∈ keptRuns runs) : r ∈ runs :=
  (mem_insertionSort _).mp ((keptRuns_sublist runs).subset h)

theorem runsOk_keptRuns {L : Record} {now : Time} (h : RunsOk L now runs) : RunsOk L now (keptRuns runs) where
  distinct := by
    refine List.Pairwise.sublist (keptRuns_sublist runs) ?_
    exact ((perm_insertionSort _ runs).pairwise_iff fun h => h.symm).mpr h.distinct
  hosts := fun r hr => h.hosts r (mem_of_mem_keptRuns hr)

theorem rowStep_tenantID {now : Time} {op : Op} {j j' : JobRecord} (h : RowStep now op j j') :
    j'.tenantID = j.tenantID := by
  cases h <;> rfl

variable {s s' : Playbooks}

theorem Sound.inStore (hs : Sound s) {r : PlaybookRun} (hr : r ∈ s.runs) : InStore s.store s.record r.header := by
  intro c hc hserial
  obtain ⟨r₀, hr₀, -, ⟨j, hj, htenant⟩, -⟩ := hs.stored c hc
  obtain ⟨r₁, hr₁, hheader⟩ := hs.started r hr
  have hserial' : c.serial = r.serial := hserial
  rw [hserial', hr₁] at hr₀
  cases hr₀
  refine ⟨j, hj, htenant.trans ?_⟩
  exact congrArg Header.tenant hheader

theorem Sound.moves (hs : Sound s) {now : Time} (hnow : s.clock ≤ now) (order : MapOrder)
    (creations : ℕ → Str → Option Creation) :
    TickMoves s.record now s.seen creations s.store s.runs (advanceRuns now s.seen order creations 0 s.store s.runs) := by
  exact advanceRuns_moves 0 (hs.runs.later hnow) fun r hr => hs.inStore hr

theorem Sound.advance (hs : Sound s) {now : Time} {creations : ℕ → Str → Option Creation} {x : Advance PlaybookRun}
    (hx : TickMoves s.record now s.seen creations s.store s.runs x) :
    Sound { s with store := x.store, clock := now, created := s.created ++ x.created, runs := keptRuns x.left
                   ended := s.ended ++ x.ended } where
  runs := by
    refine runsOk_keptRuns ⟨?_, hx.hosts⟩
    have hserials : (x.left.map PlaybookRun.header).Pairwise fun h h' => h.serial ≠ h'.serial := by
      rw [hx.headers, pairwise_map]
      exact hs.runs.distinct
    rw [pairwise_map] at hserials
    exact hserials
  started := by
    intro r hr
    have hheader : r.header ∈ s.runs.map PlaybookRun.header := by
      rw [← hx.headers]
      exact mem_map_of_mem (mem_of_mem_keptRuns hr)
    obtain ⟨r', hr', heq⟩ := mem_map.mp hheader
    obtain ⟨r₀, hr₀, hr₀'⟩ := hs.started r' hr'
    have hserial : r'.serial = r.serial := congrArg Header.serial heq
    exact ⟨r₀, hserial ▸ hr₀, hr₀'.trans heq⟩
  stored := by
    intro c hc
    rcases mem_append.mp hc with hc | hc
    · obtain ⟨r₀, hr₀, hserial, ⟨j, hj, htenant⟩, hok⟩ := hs.stored c hc
      exact ⟨r₀, hr₀, hserial, ⟨j, hx.kept _ _ hj, htenant⟩, hok.grows (mem_created_add x) (mem_ended_add x)⟩
    · obtain ⟨r, hr, -, hnew⟩ := hx.created c hc
      obtain ⟨r₀, hr₀, hheader⟩ := hs.started r hr
      have hserial : c.serial = r.serial := hnew.serial
      obtain ⟨j, hj, htenant⟩ := hnew.stored
      refine ⟨r₀, by rw [hserial]; exact hr₀, ?_, ⟨j, hj, htenant.trans ?_⟩, ?_⟩
      · exact (congrArg Header.serial hheader).trans hserial.symm
      · exact (congrArg Header.tenant hheader).symm
      · rw [hheader]
        exact hnew.ok
  once := by
    refine pairwise_append.mpr ⟨hs.once, hx.apart.imp ?_, fun c hc c' hc' hat => ?_⟩
    · rintro c c' (hne | hne) hat
      · exact hne hat.1.symm
      · exact hne hat.2.1.symm
    · obtain ⟨r, -, -, hnew⟩ := hx.created c' hc'
      exact hnew.first c hc ⟨hat.1.symm.trans hnew.serial, hat.2.1.symm, hat.2.2.symm⟩

theorem Sound.later (hs : Sound s) {now : Time} (hnow : s.clock ≤ now) : Sound { s with clock := now } where
  runs := hs.runs.later hnow
  started := hs.started
  stored := hs.stored
  once := hs.once

theorem Sound.start (hs : Sound s) (plan : RunPlan) :
    Sound { s with runs := keptRuns (s.runs ++ [plan.run s.starts.length])
                   starts := s.starts ++ [plan.run s.starts.length] } := by
  have hlt : ∀ {k : ℕ} {r₀ : PlaybookRun}, s.starts[k]? = some r₀ → k < s.starts.length ∧
      (s.starts ++ [plan.run s.starts.length])[k]? = some r₀ := by
    intro k r₀ hk
    have hlen := (List.getElem?_eq_some_iff.mp hk).1
    exact ⟨hlen, by rw [getElem?_append_left hlen, hk]⟩
  have hunused : ∀ c ∈ s.created, c.serial ≠ s.starts.length := by
    intro c hc heq
    obtain ⟨r₀, hr₀, -⟩ := hs.stored c hc
    have := (hlt hr₀).1
    omega
  have hnew : HostsOk s.record (plan.run s.starts.length).header s.clock (plan.run s.starts.length).hosts := by
    constructor
    · have hkeys : (plan.run s.starts.length).hosts.map Prod.fst = plan.targets.map Prod.fst := by
        simp [RunPlan.run, Function.comp_def]
      rw [hkeys]
      exact plan.distinct
    · intro p hp
      obtain ⟨t, -, rfl⟩ := mem_map.mp hp
      generalize t.2 = grants
      generalize 0 = i
      induction grants generalizing i with
      | nil => trivial
      | cons g grants ih =>
        refine ⟨⟨fun c hc hat => hunused c hc hat.1, rfl⟩, ?_, ih (i + 1)⟩
        intro x hx
        obtain ⟨g', -, rfl⟩ := mem_map.mp hx
        rfl
  refine ⟨runsOk_keptRuns ⟨?_, ?_⟩, ?_, ?_, hs.once⟩
  · refine pairwise_append.mpr ⟨hs.runs.distinct, pairwise_singleton _ _, fun r hr r' hr' heq => ?_⟩
    obtain ⟨r₀, hr₀, -⟩ := hs.started r hr
    rw [mem_singleton.mp hr'] at heq
    have hlen := (hlt hr₀).1
    have hserial : r.serial = s.starts.length := heq
    omega
  · exact forall_mem_append.mpr ⟨hs.runs.hosts, forall_mem_singleton.mpr hnew⟩
  · intro r hr
    rcases mem_append.mp (mem_of_mem_keptRuns hr) with hr | hr
    · obtain ⟨r₀, hr₀, hheader⟩ := hs.started r hr
      exact ⟨r₀, (hlt hr₀).2, hheader⟩
    · rw [mem_singleton.mp hr]
      exact ⟨plan.run s.starts.length, getElem?_concat_length, rfl⟩
  · intro c hc
    obtain ⟨r₀, hr₀, hrest⟩ := hs.stored c hc
    exact ⟨r₀, (hlt hr₀).2, hrest⟩

theorem Sound.step (hs : Sound s) {e : PlaybookEvent} (hok : SavesCreations s e)
    (hstep : Playbooks.step s e = some s') : Sound s' := by
  cases e with
  | start plan saved =>
    rw [Playbooks.step] at hstep
    split_ifs at hstep
    · cases hstep
      exact hs.start plan
    · cases hstep
      exact hs
  | tick now order creations saved =>
    rw [Playbooks.step] at hstep
    split_ifs at hstep with hback
    cases hstep
    have hnow : s.clock ≤ now := not_lt.mp hback
    have hx := hs.moves hnow order creations
    rw [tick]
    generalize advanceRuns now s.seen order creations 0 s.store s.runs = x at hx ⊢
    split_ifs with hsaved
    · exact hs.advance hx
    · have hnone : (∀ k ep, creations k ep = none) ∨ x.changed = false := by
        rcases hok with rfl | hnone
        · exact .inr (by simpa using hsaved)
        · exact .inl hnone
      obtain ⟨hcreated, hstore⟩ := hx.uncreated hnone
      rw [hcreated, hstore, append_nil]
      exact hs.later hnow
  | job e =>
    cases hstep
    refine ⟨hs.runs, hs.started, fun c hc => ?_, hs.once⟩
    obtain ⟨r₀, hr₀, hserial, ⟨j, hj, htenant⟩, hrest⟩ := hs.stored c hc
    obtain ⟨now, op, hrows⟩ := Store.next_rowsStep s.store e
    obtain ⟨j', hj', hrow⟩ := hrows.kept _ _ hj
    exact ⟨r₀, hr₀, hserial, ⟨j', hj', (rowStep_tenantID hrow).trans htenant⟩, hrest⟩
  | checkIn ep t =>
    cases hstep
    exact { hs with }

/-- The steps of every run were started in order, once and in time. -/
structure InOrder (s : Playbooks) : Prop where
  once : s.created.Pairwise fun c c' => ¬c'.At c.serial c.ep c.step
  ordered : ∀ c ∈ s.created, ∃ r, s.starts[c.serial]? = some r ∧ CreatedOk s.record r.header c

/-- What a step of the hub adds to the record: jobs it put in the store, with the check-in as it was known, and
endings of jobs as the store had them. -/
structure Records (s s' : Playbooks) : Prop where
  created : ∀ c ∈ s'.created, c ∈ s.created ∨ (c.time = s'.clock ∧ c.seen = s.seen c.ep ∧
    s.store.jobs.find c.jobID = none ∧ ∃ j, s'.store.jobs.find c.jobID = some j)
  ended : ∀ e ∈ s'.ended, e ∈ s.ended ∨ (e.time = s'.clock ∧ s.store.jobs.find e.job.id = some e.job)

theorem Sound.records (hs : Sound s) {e : PlaybookEvent} (hstep : Playbooks.step s e = some s') : Records s s' := by
  have hsame : ∀ t : Playbooks, t.created = s.created → t.ended = s.ended → Records s t := by
    intro t hcreated hended
    exact ⟨fun c hc => .inl (hcreated ▸ hc), fun e he => .inl (hended ▸ he)⟩
  cases e with
  | start plan saved =>
    rw [Playbooks.step] at hstep
    split_ifs at hstep <;> cases hstep <;> exact hsame _ rfl rfl
  | job e | checkIn ep t =>
    cases hstep
    exact hsame _ rfl rfl
  | tick now order creations saved =>
    rw [Playbooks.step] at hstep
    split_ifs at hstep with hback
    cases hstep
    have hx := hs.moves (not_lt.mp hback) order creations
    rw [tick]
    generalize advanceRuns now s.seen order creations 0 s.store s.runs = x at hx ⊢
    have hcreated : ∀ c ∈ s.created ++ x.created, c ∈ s.created ∨ (c.time = now ∧ c.seen = s.seen c.ep ∧
        s.store.jobs.find c.jobID = none ∧ ∃ j, x.store.jobs.find c.jobID = some j) := by
      intro c hc
      refine (mem_append.mp hc).imp id fun hc => ?_
      obtain ⟨r, -, hseen, hnew⟩ := hx.created c hc
      obtain ⟨j, hj, -⟩ := hnew.stored
      exact ⟨hnew.time, hseen, hnew.fresh, j, hj⟩
    split_ifs
    · refine ⟨hcreated, fun e he => (mem_append.mp he).imp id fun he => ?_⟩
      obtain ⟨r, -, hend⟩ := hx.ended e he
      exact ⟨hend.time, hend.stored⟩
    · exact ⟨hcreated, fun e he => .inl he⟩

/-- In every run of the hub in which the list is saved by every tick that creates a job: a step's job is created
behind the end of the step before it and the hold of a restart, no step has a second job, and none is started at
or after the deadline. -/
theorem steps_run_in_order {store : Store} {seen : Str → Option Time} {clock : Time} {s : Playbooks}
    (hrun : Run (Guarded SavesCreations (StepOf Playbooks.step)) (idle store seen clock) s) :
    InOrder s ∧ ∀ e s', Playbooks.step s e = some s' → Records s s' := by
  have hs : Sound s := hrun.preserves (fun _ _ _ hs hstep => hs.step hstep.1 hstep.2) (sound_idle store seen clock)
  refine ⟨⟨hs.once, fun c hc => ?_⟩, fun e s' hstep => hs.records hstep⟩
  obtain ⟨r, hr, -, -, hok⟩ := hs.stored c hc
  exact ⟨r, hr, hok⟩

def twoSteps : RunPlan where
  id := str "run-1"
  tenant := str "t"
  playbookID := str "monthly"
  name := str "Monthly"
  requester := str "op"
  started := 0
  deadline := 1000
  steps := [⟨str "cleanup (enforce)", [], false⟩, ⟨str "updates (audit)", [], false⟩]
  targets := [(str "h", [{}, {}])]
  distinct := nodup_singleton _

/-- A tick in which every creation succeeds and draws the same id. -/
def tickWith (now : Time) (jobID : Str) (saved : Bool) : PlaybookEvent :=
  .tick now ⟨id, fun _ => .refl _⟩ (fun _ _ => some ⟨now, jobID⟩) saved

/-- The first step's job is cancelled, and the second step follows. -/
theorem steps_run_in_order_cancelled : ∃ s, runList Playbooks.step (idle ⟨.empty, .empty, []⟩ (fun _ => none) 0)
      [.start twoSteps true, tickWith 1 (str "j1") true, tickWith 2 (str "j2") true,
        .job (.call 3 (.cancel (str "t") (str "j1") (str "op"))), tickWith 4 (str "j2") true] = some s ∧
    s.created.map (fun c => (c.step, c.jobID, c.time)) = [(0, str "j1", 1), (1, str "j2", 4)] ∧ InOrder s := by
  refine exists_runList (fun s => s.created.map (fun c => (c.step, c.jobID, c.time)) =
    [(0, str "j1", 1), (1, str "j2", 4)]) (by decide +kernel) fun s hs hcreated => ⟨hcreated, ?_⟩
  refine (steps_run_in_order (run_of_runList hs (meets_of_forall ?_))).1
  simp [SavesCreations, tickWith]

/-- The job of the first step is created, the list is not saved, and the next tick creates another. -/
theorem unsaved_step_runs_twice : ∃ s, runList Playbooks.step (idle ⟨.empty, .empty, []⟩ (fun _ => none) 0)
      [.start twoSteps true, tickWith 1 (str "j1") false, tickWith 2 (str "j2") true] = some s ∧
    s.created = [⟨0, str "h", 0, str "j1", 1, none⟩, ⟨0, str "h", 0, str "j2", 2, none⟩] ∧
    (s.store.jobs.rows.map (·.id)) = [str "j1", str "j2"] ∧ ¬InOrder s := by
  refine exists_runList (fun s => s.created = [⟨0, str "h", 0, str "j1", 1, none⟩, ⟨0, str "h", 0, str "j2", 2, none⟩] ∧
    (s.store.jobs.rows.map (·.id)) = [str "j1", str "j2"]) (by decide +kernel) ?_
  intro s hs ⟨hcreated, hjobs⟩
  refine ⟨hcreated, hjobs, fun horder => ?_⟩
  have honce := horder.once
  rw [hcreated, pairwise_pair] at honce
  exact honce ⟨rfl, rfl, rfl⟩

end Playbooks

end Ominull.Hub
