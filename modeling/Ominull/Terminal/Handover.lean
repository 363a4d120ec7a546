import Ominull.Terminal.Relay

namespace Ominull.Terminal.Handover

open Lib List

/-! ## What is in flight -/

def AgentPump.held : AgentPump → List Msg
  | .accepted m | .admitted m | .sending m | .reserved m => [m]
  | .idle | .exited => []

/-- The message that the gate counts and the queue does not have yet. -/
def AgentPump.reservation : AgentPump → List Msg
  | .reserved m => [m]
  | .idle | .accepted _ | .admitted _ | .sending _ | .exited => []

/-- The message that a write pump has taken and the gate still counts. -/
def WritePhase.counted : WritePhase → List Msg
  | .taken m => [m]
  | .waiting | .writing _ => []

def WritePhase.held : WritePhase → List Msg
  | .taken m | .writing m => [m]
  | .waiting => []

/-- The call has the operator's side to itself. -/
def Call.owns : Call → Bool
  | .upgrade | .stop _ | .flag | .drain _ | .reset _ | .leave => true
  | .resume _ _ | .detach _ => false

/-- The call is a detach that has not yet reset the gate. -/
def Call.resets : Call → Bool
  | .stop _ | .flag | .drain _ | .reset _ => true
  | .upgrade | .resume _ _ | .detach _ | .leave => false

def Call.isReset : Call → Bool
  | .reset _ => true
  | .upgrade | .resume _ _ | .detach _ | .stop _ | .flag | .drain _ | .leave => false

/-- What a detach has taken off the queue and the gate still counts. -/
def Call.discarded : Call → List Msg
  | .drain discarded | .reset discarded => discarded
  | .upgrade | .resume _ _ | .detach _ | .stop _ | .flag | .leave => []

theorem Call.owns_of_resets {c : Call} (h : c.resets) : c.owns := by
  cases c <;> first | rfl | cases h

theorem Call.discarded_eq_nil {c : Call} (h : c.owns = false) : c.discarded = [] := by
  cases c <;> first | rfl | cases h

section Positions

variable {α β : Type*} {l : List α} {i : ℕ} {a : α}

theorem perm_of_getElem? (h : l[i]? = some a) : l.Perm (a :: l.eraseIdx i) := by
  obtain ⟨hi, rfl⟩ := List.getElem?_eq_some_iff.mp h
  exact (getElem_cons_eraseIdx_perm hi).symm

theorem set_perm_of_getElem? (h : l[i]? = some a) (b : α) : (l.set i b).Perm (b :: l.eraseIdx i) := by
  obtain ⟨hi, rfl⟩ := List.getElem?_eq_some_iff.mp h
  exact set_perm_cons_eraseIdx hi b

end Positions

namespace PairedRelay

variable {s t : PairedRelay}

def countedBehind (s : PairedRelay) : List Msg :=
  s.pumps.flatMap (·.phase.counted) ++ s.calls.flatMap Call.discarded

def counted (s : PairedRelay) : List Msg :=
  s.agentToOp ++ s.agent.reservation ++ s.countedBehind

/-- What an attach or a detach has to itself, and what it leaves behind. -/
structure Inv (s : PairedRelay) : Prop where
  /-- the operator's side has one owner: an attachment, or a call on the way to one or from it -/
  owner : s.calls.countP Call.owns + s.opStop.toList.length = s.operatorConnected.toNat
  detaches : s.detaches = s.resets + s.calls.countP Call.resets
  latest : ∀ j < s.attachments, j ∉ s.stopped → j + 1 = s.attachments
  running : ∀ j < s.attachments, j ∉ s.stopped → s.opStop = some j ∨ Call.stop j ∈ s.calls
  resuming : ∀ j n, Call.resume j n ∈ s.calls → j < s.attachments ∧ n ≤ s.resets
  pumps : ∀ p ∈ s.pumps, p.attachment < s.attachments ∧ p.installed ≤ s.resets
  fresh : ∀ m ∈ s.agentToOp ++ s.agent.held, s.resets ≤ m.detaches
  delivered : ∀ p ∈ s.pumps, ∀ m ∈ p.phase.held, p.installed ≤ m.detaches
  taken : ∀ p ∈ s.pumps, p.phase.counted ≠ [] →
    p.attachment + 1 = s.attachments ∧ (p.attachment ∉ s.stopped ∨ 0 < s.calls.countP Call.resets)
  accounted : Gate.Accounted Msg.bytes maxQueueBytes s.used s.counted

/-- The queue and the two pumps hold nothing from before the detach that is about to reset the gate. -/
structure Settled (s : PairedRelay) : Prop where
  queue : s.agentToOp = []
  pumps : ∀ p ∈ s.pumps, p.phase.counted = []
  reservation : s.agent.reservation = []
  held : ∀ m ∈ s.agent.held, m.detaches = s.detaches

/-- The condition on a step: a write pump that has been stopped takes no message, and a detach resets
the gate while nothing is under way. -/
def Orderly (s : PairedRelay) : Event → Prop
  | .take i => ∀ p ∈ s.pumps[i]?, p.attachment ∉ s.stopped
  | .call i _ => ∀ c ∈ s.calls[i]?, c.isReset → s.Settled
  | _ => True

/-! ## The agent's read pump -/

variable {queue : List Msg}

theorem Inv.withAgent (hinv : s.Inv) {agent : AgentPump} {used : ℕ}
    (hfresh : ∀ m ∈ queue ++ agent.held, m ∈ s.agentToOp ++ s.agent.held ∨ m.detaches = s.detaches)
    (hacc : Gate.Accounted Msg.bytes maxQueueBytes used (queue ++ agent.reservation ++ s.countedBehind)) :
    { s with agent := agent, agentToOp := queue, used := used }.Inv where
  owner := hinv.owner
  detaches := hinv.detaches
  latest := hinv.latest
  running := hinv.running
  resuming := hinv.resuming
  pumps := hinv.pumps
  fresh := by
    intro m hm
    rcases hfresh m hm with hold | hnew
    · exact hinv.fresh m hold
    · have := hinv.detaches
      show s.resets ≤ m.detaches
      omega
  delivered := hinv.delivered
  taken := hinv.taken
  accounted := hacc

theorem Inv.passOn (hinv : s.Inv) {old agent : AgentPump} (hagent : s.agent = old) (hold : old.reservation = [])
    (hnone : agent.reservation = []) (hheld : ∀ m ∈ agent.held, m ∈ old.held) : { s with agent := agent }.Inv := by
  subst hagent
  refine hinv.withAgent (fun m hm => .inl ?_) ?_
  · exact mem_append.mpr ((mem_append.mp hm).imp_right (hheld m))
  · rw [hnone, ← hold]
    exact hinv.accounted

theorem Inv.agentStep {e : Event} (hinv : s.Inv) (h : s.agentStep e = some t) : t.Inv := by
  have hacc := hinv.accounted
  cases e with
  | accept m =>
    simp only [PairedRelay.agentStep] at h
    split at h
    case h_1 hagent =>
      cases h
      rw [counted, hagent] at hacc
      refine hinv.withAgent (fun m hm => ?_) hacc
      rcases mem_append.mp hm with hqueue | hnew
      · exact .inl (mem_append_left _ hqueue)
      · rw [mem_singleton.mp hnew]
        exact .inr rfl
    case h_2 => cases h
  | letIn =>
    simp only [PairedRelay.agentStep] at h
    split at h
    case h_1 m hagent =>
      cases h
      split_ifs
      · exact hinv.passOn hagent rfl rfl nofun
      · exact hinv.passOn hagent rfl rfl fun _ => id
    case h_2 m hagent =>
      cases h
      split_ifs
      · exact hinv.passOn hagent rfl rfl nofun
      · exact hinv.passOn hagent rfl rfl fun _ => id
    case h_3 => cases h
  | acquire =>
    simp only [PairedRelay.agentStep] at h
    split at h
    case h_1 m hagent =>
      split_ifs at h with hroom
      cases h
      rw [counted, hagent] at hacc
      refine hinv.withAgent (fun m' hm' => .inl (by rw [hagent]; exact hm')) ?_
      refine hacc.reserve (fun m => m.cost_pos) hroom ?_
      simp only [AgentPump.reservation, append_nil, append_assoc, singleton_append]
      exact perm_middle
    case h_2 => cases h
  | giveUp =>
    simp only [PairedRelay.agentStep] at h
    split at h
    case h_1 m hagent =>
      split_ifs at h <;> cases h
      · exact hinv.passOn hagent rfl rfl nofun
      · exact hinv.passOn hagent rfl rfl nofun
    case h_2 => cases h
  | send =>
    simp only [PairedRelay.agentStep] at h
    split at h
    case h_1 m hagent =>
      split_ifs at h
      cases h
      rw [counted, hagent] at hacc
      refine hinv.withAgent (fun m' hm' => .inl ?_) ?_
      · rw [hagent]
        simpa [AgentPump.held] using hm'
      · simpa [AgentPump.reservation] using hacc
    case h_2 => cases h
  | abandon done =>
    simp only [PairedRelay.agentStep] at h
    split at h
    case h_1 m hagent =>
      rw [counted, hagent] at hacc
      have hrelease : ∀ agent : AgentPump, agent.held = [] → agent.reservation = [] →
          { s with used := s.used - m.bytes, agent := agent }.Inv := by
        intro agent hheld hnone
        refine hinv.withAgent (fun m' hm' => .inl ?_) ?_
        · rw [hheld, append_nil] at hm'
          exact mem_append_left _ hm'
        · refine hacc.release (a := m) ?_
          rw [hnone, AgentPump.reservation, append_nil, append_assoc, singleton_append]
          exact perm_middle
      split_ifs at h <;> cases h
      · exact hrelease _ rfl rfl
      · exact hrelease _ rfl rfl
    case h_2 => cases h
  | agentGone =>
    simp only [PairedRelay.agentStep] at h
    split at h
    case h_1 hagent =>
      cases h
      exact hinv.passOn hagent rfl rfl nofun
    case h_2 => cases h
  | _ => cases h

/-! ## The write pumps -/

/-- What the gate counts behind the queue, apart from what one pump has taken. -/
def countedBesides (s : PairedRelay) (i : ℕ) : List Msg :=
  (s.pumps.eraseIdx i).flatMap (·.phase.counted) ++ s.calls.flatMap Call.discarded

variable {p : WritePump}

theorem countedBehind_perm {i : ℕ} (hp : s.pumps[i]? = some p) :
    s.countedBehind.Perm (p.phase.counted ++ s.countedBesides i) := by
  rw [countedBehind, countedBesides, ← append_assoc]
  exact ((perm_of_getElem? hp).flatMap_right _).append_right _

theorem Inv.fresh_queue (hinv : s.Inv) (hqueue : ∀ m ∈ queue, m ∈ s.agentToOp) :
    ∀ m ∈ queue ++ s.agent.held, s.resets ≤ m.detaches :=
  fun m hm => hinv.fresh m (mem_append.mpr ((mem_append.mp hm).imp_left (hqueue m)))

theorem Inv.setPhase (hinv : s.Inv) {i : ℕ} (hp : s.pumps[i]? = some p) {phase : WritePhase} {used : ℕ}
    (hqueue : ∀ m ∈ queue, m ∈ s.agentToOp) (hdelivered : ∀ m ∈ phase.held, p.installed ≤ m.detaches)
    (htaken : phase.counted ≠ [] → p.attachment ∉ s.stopped) (hacc : Gate.Accounted Msg.bytes maxQueueBytes used
      (queue ++ s.agent.reservation ++ (phase.counted ++ s.countedBesides i))) :
    ({ s with agentToOp := queue, used := used }.setPhase i p phase).Inv := by
  have hmem : p ∈ s.pumps := mem_of_getElem? hp
  have hset : ∀ {P : WritePump → Prop}, (∀ q ∈ s.pumps, P q) → P { p with phase := phase } →
      ∀ q ∈ s.pumps.set i { p with phase := phase }, P q := by
    intro P hold hnew q hq
    rcases mem_or_eq_of_mem_set hq with hq | rfl
    · exact hold q hq
    · exact hnew
  refine { hinv with
    pumps := hset hinv.pumps (hinv.pumps p hmem)
    fresh := hinv.fresh_queue hqueue
    delivered := hset hinv.delivered hdelivered
    taken := hset hinv.taken fun hcounted => ?_
    accounted := ?_ }
  · have hrunning := htaken hcounted
    exact ⟨hinv.latest _ (hinv.pumps p hmem).1 hrunning, .inl hrunning⟩
  · refine hacc.perm (List.Perm.append_left _ ?_)
    rw [countedBesides, ← append_assoc]
    exact ((set_perm_of_getElem? hp _).flatMap_right _).append_right _

theorem Inv.erasePump (hinv : s.Inv) {i : ℕ} (hp : s.pumps[i]? = some p) (hnone : p.phase.counted = []) :
    { s with pumps := s.pumps.eraseIdx i }.Inv := by
  have hmem : ∀ q ∈ s.pumps.eraseIdx i, q ∈ s.pumps := fun q hq => mem_of_mem_eraseIdx hq
  refine { hinv with pumps := ?_, delivered := ?_, taken := ?_, accounted := ?_ }
  · exact fun q hq => hinv.pumps q (hmem q hq)
  · exact fun q hq => hinv.delivered q (hmem q hq)
  · exact fun q hq => hinv.taken q (hmem q hq)
  · refine hinv.accounted.perm (List.Perm.append_left _ ?_)
    have hperm := countedBehind_perm hp
    rw [hnone] at hperm
    exact hperm.symm

theorem Inv.takeStep (hinv : s.Inv) {i : ℕ} (hp : s.pumps[i]? = some p) (hok : p.attachment ∉ s.stopped)
    (h : s.takeStep i p = some t) : t.Inv := by
  unfold PairedRelay.takeStep at h
  split at h
  case h_1 m rest hphase hqueue =>
    cases h
    have hfresh : ∀ m' ∈ m :: rest, s.resets ≤ m'.detaches := fun m' hm' =>
      hinv.fresh m' (mem_append_left _ (hqueue ▸ hm'))
    refine hinv.setPhase hp (fun m' hm' => hqueue ▸ mem_cons_of_mem _ hm') ?_ (fun _ => hok) ?_
    · intro m' hm'
      rw [mem_singleton.mp hm']
      have := (hinv.pumps p (mem_of_getElem? hp)).2
      have := hfresh m mem_cons_self
      omega
    · refine hinv.accounted.perm ?_
      have hperm := countedBehind_perm hp
      rw [hphase] at hperm
      rw [counted, hqueue, cons_append, cons_append]
      exact perm_middle.trans ((hperm.symm.append_left _).cons m)
  case h_2 => cases h

theorem Inv.releaseStep (hinv : s.Inv) {i : ℕ} (hp : s.pumps[i]? = some p) (h : s.releaseStep i p = some t) :
    t.Inv := by
  unfold PairedRelay.releaseStep at h
  split at h
  case h_1 m hphase =>
    cases h
    refine hinv.setPhase hp (fun _ => id) ?_ (fun hne => absurd rfl hne) ?_
    · intro m' hm'
      apply hinv.delivered p (mem_of_getElem? hp)
      rw [hphase]
      exact hm'
    · refine hinv.accounted.release (a := m) ?_
      have hperm := countedBehind_perm hp
      rw [hphase] at hperm
      exact (hperm.append_left _).trans perm_middle
  case h_2 => cases h

theorem Inv.wroteStep (hinv : s.Inv) {i : ℕ} {ok : Bool} (hp : s.pumps[i]? = some p) (h : s.wroteStep i ok p = some t) :
    t.Inv := by
  unfold PairedRelay.wroteStep at h
  split at h
  case h_1 m hphase =>
    cases h
    split_ifs
    · refine hinv.setPhase hp (fun _ => id) (by simp [WritePhase.held]) (fun hne => absurd rfl hne) ?_
      refine hinv.accounted.perm (List.Perm.append_left _ ?_)
      have hperm := countedBehind_perm hp
      rw [hphase] at hperm
      exact hperm.symm
    · exact hinv.erasePump hp (by rw [hphase]; rfl)
  case h_2 => cases h

theorem Inv.exitStep (hinv : s.Inv) {i : ℕ} (hp : s.pumps[i]? = some p) (h : s.exitStep i p = some t) : t.Inv := by
  unfold PairedRelay.exitStep at h
  split_ifs at h with hphase
  cases h
  exact hinv.erasePump hp (by rw [hphase]; rfl)

/-! ## Attaching and detaching -/

section Calls

variable {i : ℕ} {c : Call}

theorem countP_calls (hc : s.calls[i]? = some c) (p : Call → Bool) :
    s.calls.countP p = (s.calls.eraseIdx i).countP p + (p c).toNat := by
  rw [(perm_of_getElem? hc).countP_eq, countP_cons]
  cases p c <;> rfl

theorem mem_calls (hc : s.calls[i]? = some c) {c' : Call} (h : c' ∈ s.calls) : c' = c ∨ c' ∈ s.calls.eraseIdx i :=
  mem_cons.mp ((perm_of_getElem? hc).mem_iff.mp h)

theorem Inv.running_besides (hinv : s.Inv) (hc : s.calls[i]? = some c) {j : ℕ} (hj : j < s.attachments)
    (hrun : j ∉ s.stopped) (hstop : c ≠ .stop j) (next : List Call) :
    s.opStop = some j ∨ Call.stop j ∈ s.calls.eraseIdx i ++ next :=
  (hinv.running j hj hrun).imp_right fun h =>
    mem_append_left _ ((mem_calls hc h).resolve_left (Ne.symm hstop))

theorem Inv.resuming_besides (hinv : s.Inv) {next : Call} {j n : ℕ}
    (h : Call.resume j n ∈ s.calls.eraseIdx i ++ [next]) (hnext : next ≠ .resume j n) :
    j < s.attachments ∧ n ≤ s.resets := by
  rcases mem_append.mp h with hold | hnew
  · exact hinv.resuming j n (mem_of_mem_eraseIdx hold)
  · exact absurd (mem_singleton.mp hnew).symm hnext

/-- Beside a call that owns the operator's side there is no other and no attachment. -/
theorem Inv.alone (hinv : s.Inv) (hc : s.calls[i]? = some c) (howns : c.owns) :
    s.opStop = none ∧ s.operatorConnected = true ∧ ∀ c' ∈ s.calls.eraseIdx i, c'.owns = false := by
  have howner := hinv.owner
  rw [countP_calls hc, howns] at howner
  have hle := s.operatorConnected.toNat_le
  have hone : true.toNat = 1 := rfl
  have hstop : s.opStop.toList.length = 0 := by omega
  have hrest : (s.calls.eraseIdx i).countP Call.owns = 0 := by omega
  refine ⟨?_, ?_, ?_⟩
  · cases hs : s.opStop with
    | none => rfl
    | some j =>
      rw [hs] at hstop
      cases hstop
  · cases hs : s.operatorConnected with
    | true => rfl
    | false =>
      rw [hs] at howner
      have : false.toNat = 0 := rfl
      omega
  · intro c' hc'
    exact Bool.eq_false_iff.mpr (countP_eq_zero.mp hrest c' hc')

theorem countP_resets_eq_zero {l : List Call} (h : ∀ c ∈ l, c.owns = false) : l.countP Call.resets = 0 := by
  rw [countP_eq_zero]
  intro c hc hresets
  exact Bool.eq_false_iff.mp (h c hc) (Call.owns_of_resets hresets)

theorem flatMap_discarded_eq_nil {l : List Call} (h : ∀ c ∈ l, c.owns = false) : l.flatMap Call.discarded = [] := by
  rw [flatMap_eq_nil_iff]
  exact fun c hc => Call.discarded_eq_nil (h c hc)

theorem counted_proceed (hc : s.calls[i]? = some c) {next : List Call}
    (hperm : (queue ++ next.flatMap Call.discarded).Perm (s.agentToOp ++ c.discarded)) :
    (queue ++ s.agent.reservation ++ (s.pumps.flatMap (·.phase.counted) ++
      (s.calls.eraseIdx i ++ next).flatMap Call.discarded)).Perm s.counted := by
  have hcalls := (perm_of_getElem? hc).flatMap_right Call.discarded
  rw [perm_iff_count]
  intro m
  have h := hperm.count_eq m
  have h' := hcalls.count_eq m
  simp only [counted, countedBehind, flatMap_append, flatMap_cons, count_append] at *
  omega

/-- A detach goes on to its next phase before the reset. -/
theorem Inv.advance (hinv : s.Inv) (hc : s.calls[i]? = some c) (hresets : c.resets) {next : Call}
    (hnext : next.resets) {stopped : List ℕ} {detached : Bool} (hstopped : ∀ j ∈ s.stopped, j ∈ stopped)
    (hstop : ∀ j, c = .stop j → j ∈ stopped) (hqueue : ∀ m ∈ queue, m ∈ s.agentToOp)
    (hperm : (queue ++ next.discarded).Perm (s.agentToOp ++ c.discarded)) :
    ({ s with stopped := stopped, detached := detached, agentToOp := queue }.proceed i [next]).Inv := by
  have hcount : (s.calls.eraseIdx i ++ [next]).countP Call.resets = s.calls.countP Call.resets := by
    rw [countP_calls hc, hresets, countP_append, countP_singleton, if_pos hnext]
    rfl
  refine { hinv with
    owner := ?_, detaches := ?_, latest := ?_, running := ?_, resuming := ?_, fresh := hinv.fresh_queue hqueue
    taken := ?_, accounted := ?_ }
  · show (s.calls.eraseIdx i ++ [next]).countP Call.owns + s.opStop.toList.length = s.operatorConnected.toNat
    rw [← hinv.owner, countP_calls hc, Call.owns_of_resets hresets, countP_append,
      countP_singleton, if_pos (Call.owns_of_resets hnext)]
    rfl
  · exact hinv.detaches.trans (congrArg _ hcount.symm)
  · exact fun j hj hrun => hinv.latest j hj fun h => hrun (hstopped j h)
  · intro j hj hrun
    exact hinv.running_besides hc hj (fun h => hrun (hstopped j h)) (fun h => hrun (hstop j h)) _
  · exact fun j n h => hinv.resuming_besides h (by rintro rfl; cases hnext)
  · intro p hp hcounted
    refine ⟨(hinv.taken p hp hcounted).1, .inr ?_⟩
    show 0 < (s.calls.eraseIdx i ++ [next]).countP Call.resets
    rw [countP_pos_iff]
    exact ⟨next, by simp, hnext⟩
  · have hperm' : (queue ++ [next].flatMap Call.discarded).Perm (s.agentToOp ++ c.discarded) := by
      simpa using hperm
    exact hinv.accounted.perm (counted_proceed hc hperm')

/-- A call that is no detach under way ends; it may have started a write pump. -/
theorem Inv.finish (hinv : s.Inv) (hc : s.calls[i]? = some c) (hresets : c.resets = false)
    (hnone : c.discarded = []) (connected detached : Bool) (added : List WritePump)
    (howner : (s.calls.eraseIdx i).countP Call.owns + s.opStop.toList.length = connected.toNat)
    (hadded : ∀ p ∈ added, p.attachment < s.attachments ∧ p.installed ≤ s.resets ∧ p.phase = .waiting) :
    ({ s with operatorConnected := connected, detached := detached, pumps := s.pumps ++ added }.proceed
      i []).Inv := by
  have hcount : (s.calls.eraseIdx i ++ []).countP Call.resets = s.calls.countP Call.resets := by
    rw [countP_calls hc, hresets, append_nil]
    rfl
  refine { hinv with
    owner := ?_, detaches := ?_, running := ?_, resuming := ?_, pumps := ?_, delivered := ?_, taken := ?_
    accounted := ?_ }
  · show (s.calls.eraseIdx i ++ []).countP Call.owns + s.opStop.toList.length = connected.toNat
    rw [append_nil]
    exact howner
  · exact hinv.detaches.trans (congrArg _ hcount.symm)
  · exact fun j hj hrun => hinv.running_besides hc hj hrun (by rintro rfl; cases hresets) _
  · intro j n h
    rw [proceed, append_nil] at h
    exact hinv.resuming j n (mem_of_mem_eraseIdx h)
  · exact forall_mem_append.mpr ⟨hinv.pumps, fun p hp => ⟨(hadded p hp).1, (hadded p hp).2.1⟩⟩
  · intro p hp m hm
    rcases mem_append.mp hp with hold | hnew
    · exact hinv.delivered p hold m hm
    · rw [(hadded p hnew).2.2] at hm
      cases hm
  · intro p hp hcounted
    rcases mem_append.mp hp with hold | hnew
    · obtain ⟨hlatest, hrun⟩ := hinv.taken p hold hcounted
      exact ⟨hlatest, hrun.imp_right fun h => hcount ▸ h⟩
    · rw [(hadded p hnew).2.2] at hcounted
      exact absurd rfl hcounted
  · have hperm : (s.agentToOp ++ ([] : List Call).flatMap Call.discarded).Perm (s.agentToOp ++ c.discarded) := by
      rw [hnone]
      exact List.Perm.refl _
    have hwaiting : added.flatMap (·.phase.counted) = [] := by
      rw [flatMap_eq_nil_iff]
      intro p hp
      rw [(hadded p hp).2.2]
      rfl
    refine hinv.accounted.perm (List.Perm.trans (List.Perm.of_eq ?_) (counted_proceed hc hperm))
    simp only [counted, countedBehind, proceed, flatMap_append, hwaiting, append_nil]

theorem Inv.leave (hinv : s.Inv) (hc : s.calls[i]? = some c) (howns : c.owns) (hresets : c.resets = false)
    (hnone : c.discarded = []) : ({ s with operatorConnected := false }.proceed i []).Inv := by
  obtain ⟨hopStop, -, hrest⟩ := hinv.alone hc howns
  have hcount : (s.calls.eraseIdx i).countP Call.owns = 0 :=
    countP_eq_zero.mpr fun c' hc' => Bool.eq_false_iff.mp (hrest c' hc')
  have h := hinv.finish hc hresets hnone false s.detached [] (by rw [hcount, hopStop]; rfl) (by simp)
  rwa [append_nil] at h

theorem Inv.install (hinv : s.Inv) (hc : s.calls[i]? = some .upgrade) :
    ({ s with opConn := true, opStop := some s.attachments, attachments := s.attachments + 1 }.proceed i
      [.resume s.attachments s.detaches]).Inv := by
  obtain ⟨hopStop, hconnected, hrest⟩ := hinv.alone hc rfl
  have hnoreset : s.calls.countP Call.resets = 0 := by
    rw [countP_calls hc, countP_resets_eq_zero hrest]
    rfl
  -- every earlier attachment has been stopped
  have hstopped : ∀ j < s.attachments, j ∈ s.stopped := by
    intro j hj
    by_contra hrun
    rcases hinv.running j hj hrun with hopStop' | hcall
    · rw [hopStop] at hopStop'
      cases hopStop'
    · have hpos : 0 < s.calls.countP Call.resets := countP_pos_iff.mpr ⟨_, hcall, rfl⟩
      omega
  have hcount : (s.calls.eraseIdx i ++ [Call.resume s.attachments s.detaches]).countP Call.resets = 0 := by
    rw [countP_append, countP_resets_eq_zero hrest]
    rfl
  have hdetaches : s.detaches = s.resets := by
    have := hinv.detaches
    omega
  refine { hinv with
    owner := ?_, detaches := ?_, latest := ?_, running := ?_, resuming := ?_, pumps := ?_, taken := ?_
    accounted := ?_ }
  · show (s.calls.eraseIdx i ++ [Call.resume s.attachments s.detaches]).countP Call.owns + 1 = s.operatorConnected.toNat
    rw [hconnected, countP_append,
      countP_eq_zero.mpr fun c' hc' => Bool.eq_false_iff.mp (hrest c' hc')]
    rfl
  · exact hdetaches.trans (congrArg (s.resets + ·) hcount.symm)
  · intro j hj hrun
    by_cases hold : j < s.attachments
    · exact absurd (hstopped j hold) hrun
    · have : j < s.attachments + 1 := hj
      show j + 1 = s.attachments + 1
      omega
  · intro j hj hrun
    left
    by_cases hold : j < s.attachments
    · exact absurd (hstopped j hold) hrun
    · have : j < s.attachments + 1 := hj
      show some s.attachments = some j
      congr 1
      omega
  · intro j n h
    rcases mem_append.mp h with hold | hnew
    · have hresume := hinv.resuming j n (mem_of_mem_eraseIdx hold)
      exact ⟨Nat.lt_succ_of_lt hresume.1, hresume.2⟩
    · cases mem_singleton.mp hnew
      exact ⟨Nat.lt_succ_self _, Nat.le_of_eq hdetaches⟩
  · exact fun p hp => ⟨Nat.lt_succ_of_lt (hinv.pumps p hp).1, (hinv.pumps p hp).2⟩
  · -- no pump of a stopped attachment still has a message that the gate counts
    intro p hp hcounted
    obtain ⟨-, hrun⟩ := hinv.taken p hp hcounted
    rcases hrun with hrun | hpos
    · exact absurd (hstopped _ (hinv.pumps p hp).1) hrun
    · omega
  · exact hinv.accounted.perm (counted_proceed hc (List.Perm.refl _))

/-- A detach takes the attachment. -/
theorem Inv.takeAttachment (hinv : s.Inv) {owner : Option ℕ} (hc : s.calls[i]? = some (.detach owner)) {j : ℕ}
    (hopStop : s.opStop = some j) :
    ({ s with opConn := false, opStop := none, detaches := s.detaches + 1 }.proceed i [.stop j]).Inv := by
  have howner := hinv.owner
  have hdetaches := hinv.detaches
  rw [countP_calls hc] at howner hdetaches
  refine { hinv with
    owner := ?_, detaches := ?_, running := ?_, resuming := ?_, taken := ?_, accounted := ?_ }
  · show (s.calls.eraseIdx i ++ [Call.stop j]).countP Call.owns + 0 = s.operatorConnected.toNat
    rw [hopStop] at howner
    rw [countP_append]
    exact howner
  · show s.detaches + 1 = s.resets + (s.calls.eraseIdx i ++ [Call.stop j]).countP Call.resets
    rw [countP_append, hdetaches]
    rfl
  · intro k hk hrun
    right
    rcases hinv.running_besides hc hk hrun nofun [.stop j] with hstop | hcall
    · cases hopStop.symm.trans hstop
      exact mem_append_right _ mem_cons_self
    · exact hcall
  · exact fun k n h => hinv.resuming_besides h nofun
  · intro p hp hcounted
    refine ⟨(hinv.taken p hp hcounted).1, .inr ?_⟩
    show 0 < (s.calls.eraseIdx i ++ [Call.stop j]).countP Call.resets
    exact countP_pos_iff.mpr ⟨.stop j, by simp, rfl⟩
  · exact hinv.accounted.perm (counted_proceed hc (List.Perm.refl _))

theorem Inv.reset (hinv : s.Inv) {discarded : List Msg} (hc : s.calls[i]? = some (.reset discarded))
    (hsettled : s.Settled) : ({ s with used := 0, resets := s.resets + 1 }.proceed i [.leave]).Inv := by
  obtain ⟨hopStop, hconnected, hrest⟩ := hinv.alone hc rfl
  have hdetaches := hinv.detaches
  rw [countP_calls hc, countP_resets_eq_zero hrest] at hdetaches
  have hone : (Call.reset discarded).resets.toNat = 1 := rfl
  refine { hinv with
    owner := ?_, detaches := ?_, running := ?_, resuming := ?_, pumps := ?_, fresh := ?_, taken := ?_
    accounted := ?_ }
  · show (s.calls.eraseIdx i ++ [Call.leave]).countP Call.owns + s.opStop.toList.length = s.operatorConnected.toNat
    rw [← hinv.owner, countP_calls hc, countP_append]
    rfl
  · show s.detaches = s.resets + 1 + (s.calls.eraseIdx i ++ [Call.leave]).countP Call.resets
    rw [countP_append, countP_resets_eq_zero hrest, hdetaches]
    rfl
  · exact fun j hj hrun => hinv.running_besides hc hj hrun nofun _
  · intro j n h
    obtain ⟨hj, hn⟩ := hinv.resuming_besides h nofun
    exact ⟨hj, Nat.le_succ_of_le hn⟩
  · exact fun p hp => ⟨(hinv.pumps p hp).1, Nat.le_succ_of_le (hinv.pumps p hp).2⟩
  · intro m hm
    have hheld : m ∈ s.agent.held := by
      rcases mem_append.mp hm with hqueue | hheld
      · rw [show _ = s.agentToOp from rfl, hsettled.queue] at hqueue
        cases hqueue
      · exact hheld
    have := hsettled.held m hheld
    show s.resets + 1 ≤ m.detaches
    omega
  · exact fun p hp hcounted => absurd (hsettled.pumps p hp) hcounted
  · have hpumps : s.pumps.flatMap (·.phase.counted) = [] := flatMap_eq_nil_iff.mpr hsettled.pumps
    have hnil : ({ s with used := 0, resets := s.resets + 1 }.proceed i [.leave]).counted = [] := by
      simp only [counted, countedBehind, proceed, hsettled.queue, hsettled.reservation, hpumps,
        flatMap_append, flatMap_discarded_eq_nil hrest]
      rfl
    rw [hnil]
    exact Gate.Accounted.nil

theorem Inv.callStep (hinv : s.Inv) (hc : s.calls[i]? = some c) (ok : Bool)
    (hok : c.isReset → s.Settled) : (s.callStep i ok c).Inv := by
  cases c with
  | upgrade =>
    cases ok with
    | true => exact hinv.install hc
    | false => exact hinv.leave hc rfl rfl rfl
  | resume attachment installed =>
    have howner := hinv.owner
    rw [countP_calls hc] at howner
    have hresume := hinv.resuming attachment installed (mem_of_getElem? hc)
    refine hinv.finish hc rfl rfl s.operatorConnected false [⟨attachment, installed, .waiting⟩] howner fun p hp => ?_
    rw [mem_singleton.mp hp]
    exact ⟨hresume.1, hresume.2, rfl⟩
  | detach owner =>
    have howner := hinv.owner
    rw [countP_calls hc] at howner
    have hnothing : (s.proceed i []).Inv := by
      have h := hinv.finish hc rfl rfl s.operatorConnected s.detached [] howner (by simp)
      rwa [append_nil] at h
    unfold PairedRelay.callStep
    dsimp only
    split
    case h_1 => exact hnothing
    case h_2 j hopStop =>
      split_ifs
      · exact hnothing
      · exact hinv.takeAttachment hc hopStop
  | stop attachment =>
    exact hinv.advance hc rfl rfl (fun j hj => mem_cons_of_mem _ hj)
      (fun j hj => by cases hj; exact mem_cons_self) (fun _ => id) (List.Perm.refl _)
  | flag =>
    exact hinv.advance hc rfl rfl (fun _ => id) nofun (fun _ => id) (List.Perm.refl _)
  | drain discarded =>
    unfold PairedRelay.callStep
    dsimp only
    split
    case h_1 hqueue =>
      exact hinv.advance hc rfl rfl (fun _ => id) nofun (fun _ => id) (List.Perm.refl _)
    case h_2 m rest hqueue =>
      refine hinv.advance hc rfl rfl (fun _ => id) nofun (fun m' hm' => ?_) ?_
      · rw [hqueue]
        exact mem_cons_of_mem _ hm'
      · rw [hqueue]
        exact perm_middle
  | reset discarded => exact hinv.reset hc (hok rfl)
  | leave => exact hinv.leave hc rfl rfl rfl

/-- A call begins that does not own the operator's side, or takes it while it is free. -/
theorem Inv.begin (hinv : s.Inv) {c : Call} (hresets : c.resets = false) (hnone : c.discarded = [])
    (hnew : ∀ j n, c ≠ .resume j n) {connected : Bool}
    (howner : s.operatorConnected.toNat + c.owns.toNat = connected.toNat) :
    { s with operatorConnected := connected, calls := s.calls ++ [c] }.Inv := by
  have hcount : (s.calls ++ [c]).countP Call.resets = s.calls.countP Call.resets := by
    rw [countP_append, countP_singleton, hresets]
    rfl
  refine { hinv with
    owner := ?_, detaches := ?_, running := ?_, resuming := ?_, taken := ?_, accounted := ?_ }
  · show (s.calls ++ [c]).countP Call.owns + s.opStop.toList.length = connected.toNat
    have := hinv.owner
    have hone : [c].countP Call.owns = c.owns.toNat := by
      cases h : c.owns <;> simp [h]
    rw [countP_append, hone]
    omega
  · exact hinv.detaches.trans (congrArg _ hcount.symm)
  · exact fun j hj hrun => (hinv.running j hj hrun).imp_right (mem_append_left _)
  · intro j n h
    rcases mem_append.mp h with hold | hmem
    · exact hinv.resuming j n hold
    · exact absurd (mem_singleton.mp hmem).symm (hnew j n)
  · intro p hp hcounted
    obtain ⟨hlatest, hrun⟩ := hinv.taken p hp hcounted
    exact ⟨hlatest, hrun.imp_right fun h => hcount ▸ h⟩
  · have hsame : { s with operatorConnected := connected, calls := s.calls ++ [c] }.counted = s.counted := by
      simp [counted, countedBehind, hnone]
    rw [hsame]
    exact hinv.accounted

end Calls

theorem Inv.step {e : Event} (hinv : s.Inv) (hok : s.Orderly e) (h : s.step e = some t) : t.Inv := by
  cases e with
  | take i =>
    obtain ⟨p, hp, hstep⟩ := Option.bind_eq_some_iff.mp h
    exact hinv.takeStep hp (hok p hp) hstep
  | release i =>
    obtain ⟨p, hp, hstep⟩ := Option.bind_eq_some_iff.mp h
    exact hinv.releaseStep hp hstep
  | wrote i ok =>
    obtain ⟨p, hp, hstep⟩ := Option.bind_eq_some_iff.mp h
    exact hinv.wroteStep hp hstep
  | exit i =>
    obtain ⟨p, hp, hstep⟩ := Option.bind_eq_some_iff.mp h
    exact hinv.exitStep hp hstep
  | attach =>
    simp only [PairedRelay.step] at h
    split_ifs at h with hno
    cases h
    have hfree : s.operatorConnected = false := by simpa using fun h => hno (.inr h)
    exact hinv.begin rfl rfl (fun _ _ h => by cases h) (by rw [hfree]; rfl)
  | detach owner =>
    simp only [PairedRelay.step] at h
    split_ifs at h
    cases h
    exact hinv.begin rfl rfl (fun _ _ h => by cases h) rfl
  | call i ok =>
    obtain ⟨c, hc, rfl⟩ := Option.map_eq_some_iff.mp h
    exact hinv.callStep hc ok (hok c hc)
  | close | endSession =>
    cases h
    exact { hinv with }
  | dropConn =>
    simp only [PairedRelay.step] at h
    split_ifs at h
    cases h
    exact { hinv with }
  | _ =>
    simp only [PairedRelay.step] at h
    exact hinv.agentStep h

theorem Inv.initial (watched : Bool) : { watched := watched : PairedRelay }.Inv where
  owner := rfl
  detaches := rfl
  latest j hj := absurd hj (Nat.not_lt_zero j)
  running j hj := absurd hj (Nat.not_lt_zero j)
  resuming _ _ h := by cases h
  pumps _ h := by cases h
  fresh _ h := by cases h
  delivered _ h := by cases h
  taken _ h := by cases h
  accounted := Gate.Accounted.nil

/-! ## Whole runs -/

/-- What is queued for the current attachment or being written to it. -/
def outstanding (s : PairedRelay) : List Msg :=
  s.agentToOp ++ s.pumps.flatMap fun p => if p.attachment + 1 = s.attachments then p.phase.held else []

/-- Nothing is between two of the gate's statements: no message has been let in and is not queued, none
has been released and is still being written, and none has been discarded before the reset. -/
structure Quiet (s : PairedRelay) : Prop where
  reservation : s.agent.reservation = []
  writing : ∀ p ∈ s.pumps, p.phase.held = p.phase.counted
  discarded : ∀ c ∈ s.calls, c.discarded = []

theorem Inv.outstanding_eq (hinv : s.Inv) (hquiet : s.Quiet) : s.outstanding = s.counted := by
  rw [outstanding, counted, countedBehind, hquiet.reservation, flatMap_eq_nil_iff.mpr hquiet.discarded,
    append_nil, append_nil]
  congr 1
  refine flatMap_congr fun p hp => ?_
  by_cases hcounted : p.phase.counted = []
  · rw [hquiet.writing p hp, hcounted, ite_self]
  · rw [if_pos (hinv.taken p hp hcounted).1, hquiet.writing p hp]

/-- In every run whose steps are orderly, what an attachment is given was accepted after the detaches
before it, and whenever the gate is quiet it counts what is outstanding: at most 1 MiB, or a single
message. -/
theorem handover {watched : Bool}
    (hrun : Run (Guarded Orderly (StepOf step)) { watched := watched : PairedRelay } s) :
    (∀ p ∈ s.pumps, ∀ m ∈ p.phase.held, p.installed ≤ m.detaches) ∧
    (s.Quiet → s.used = Gate.total Msg.bytes s.outstanding ∧
      (Gate.total Msg.bytes s.outstanding ≤ maxQueueBytes ∨ s.outstanding.length = 1)) := by
  have hinv : s.Inv := hrun.preserves (fun _ _ _ hinv hstep => hinv.step hstep.1 hstep.2) (Inv.initial watched)
  refine ⟨hinv.delivered, fun hquiet => ?_⟩
  rw [hinv.outstanding_eq hquiet, ← hinv.accounted.used_eq]
  exact ⟨rfl, hinv.accounted.bound⟩

/-! A message that the agent's read pump has let through the gate when the operator leaves. -/

def sampleMsg : RelayMsg := ⟨str "hello", 69, by decide⟩

def joining : List Event := [.attach, .call 0 true, .call 0 true]

/-- A detach, from the question whether the relay is closed to its end. -/
def leaving : List Event :=
  [.detach none, .call 0 true, .call 0 true, .call 0 true, .call 0 true, .call 0 true, .call 0 true]

def lettingIn : List Event := [.accept sampleMsg, .letIn, .letIn, .acquire]

def after (events : List Event) : PairedRelay :=
  (runList step { watched := false } events).getD { watched := false }

instance decidableSettled (s : PairedRelay) : Decidable s.Settled :=
  decidable_of_iff (s.agentToOp = [] ∧ (∀ p ∈ s.pumps, p.phase.counted = []) ∧ s.agent.reservation = [] ∧
      ∀ m ∈ s.agent.held, m.detaches = s.detaches)
    ⟨fun h => ⟨h.1, h.2.1, h.2.2.1, h.2.2.2⟩, fun h => ⟨h.queue, h.pumps, h.reservation, h.held⟩⟩

instance decidableQuiet (s : PairedRelay) : Decidable s.Quiet :=
  decidable_of_iff (s.agent.reservation = [] ∧ (∀ p ∈ s.pumps, p.phase.held = p.phase.counted) ∧
      ∀ c ∈ s.calls, c.discarded = [])
    ⟨fun h => ⟨h.1, h.2.1, h.2.2⟩, fun h => ⟨h.reservation, h.writing, h.discarded⟩⟩

instance decidableOrderly (s : PairedRelay) (e : Event) : Decidable (s.Orderly e) := by
  cases e <;> dsimp only [Orderly] <;> infer_instance

theorem handover_sample :
    (after (joining ++ lettingIn ++ [.send, .take 0])).used = 69 ∧
    (after (joining ++ lettingIn ++ [.send, .take 0])).outstanding.length = 1 := by
  have hmeets : Meets step Orderly { watched := false : PairedRelay } (joining ++ lettingIn ++ [.send, .take 0]) := by
    decide +kernel
  have hrun : Run (Guarded Orderly (StepOf step)) { watched := false : PairedRelay }
      (after (joining ++ lettingIn ++ [.send, .take 0])) := run_of_runList rfl hmeets
  have hquiet : (after (joining ++ lettingIn ++ [.send, .take 0])).Quiet := by decide +kernel
  have h := (handover hrun).2 hquiet
  exact ⟨h.1.trans (by decide +kernel), by decide +kernel⟩

/-- The detach passes while the message is between the gate and the queue: the next attachment is given
it, and the gate has forgotten it. In an ordinary write, too, what is being written is no longer
counted. -/
theorem handover_broken :
    (after (joining ++ lettingIn ++ leaving ++ joining ++ [.send])).used = 0 ∧
    (after (joining ++ lettingIn ++ leaving ++ joining ++ [.send])).Quiet ∧
    ((after (joining ++ lettingIn ++ leaving ++ joining ++ [.send])).agentToOp.map (·.data)) = [str "hello"] ∧
    (∃ p ∈ (after (joining ++ lettingIn ++ leaving ++ joining ++ [.send, .take 1])).pumps,
      ∃ m ∈ p.phase.held, m.detaches < p.installed) ∧
    (after (joining ++ lettingIn ++ [.send, .take 0, .release 0])).used = 0 ∧
    Gate.total Msg.bytes (after (joining ++ lettingIn ++ [.send, .take 0, .release 0])).outstanding = 69 := by
  decide +kernel

end PairedRelay

end Ominull.Terminal.Handover
