import Ominull.Lib.Run
import Ominull.Screen.Fidelity
import Ominull.Screen.Watch

/-!
A view session never injects: no input is queued for its agent, and no watcher of any session has more
queued than acknowledgements.
-/

namespace Ominull.Screen

open Go Lib Wire List Option

/-! ## What an input is -/

/-- The hub's parser or the helper reads an input from the bytes. -/
def IsInput (tooLarge : Str → Bool) (data : Str) : Prop :=
  (∃ i, parseOperatorFrame data = .ok (.input i)) ∨ ∃ raw, parseIn tooLarge data = some (.input raw)

theorem type_of_parse {data : Str} {i : WireInput} (h : parseOperatorFrame data = .ok (.input i)) :
    ∃ ms, strictObject data = some ms ∧ (member ms "type").bind jsonString = some (ascii "input") := by
  unfold parseOperatorFrame at h
  split at h
  · cases h
  · rename_i ms hms
    refine ⟨ms, hms, ?_⟩
    split at h
    · cases h
    · rename_i typ htyp
      rw [htyp]
      split_ifs at h with htype
      · rw [htype]
      · have hread := parseTyped_eq_ok h
        simp only [parseAck, bind_eq_bind, bind_eq_some_iff] at hread
        obtain ⟨v, -, frame, -, monitor, -, hf⟩ := hread
        cases hf
      · have hread := parseTyped_eq_ok h
        simp only [parseSetMonitor, bind_eq_bind, bind_eq_some_iff] at hread
        obtain ⟨v, -, monitor, -, hf⟩ := hread
        cases hf
      · have hread := parseTyped_eq_ok h
        simp only [parseQuality, bind_eq_bind, bind_eq_some_iff] at hread
        obtain ⟨fps, -, jpegQ, -, hf⟩ := hread
        cases hf
      · have hread := parseTyped_eq_ok h
        cases hread

/-- The helper takes an object for an input only if its tag says so. -/
theorem tag_of_toVariant {tag : List Char} {f : Fields} {raw : RawInput} (h : toVariant tag f = some (.input raw)) :
    tag = ascii "input" := by
  unfold toVariant at h
  split_ifs at h with htag
  · exact htag
  all_goals simp [bind_eq_some_iff] at h

theorem tag_of_parseIn {tooLarge : Str → Bool} {data : Str} {ms : Members} {typ : String} {raw : RawInput}
    (hparse : parse data = some (.obj ((ascii "type", textOf typ) :: ms)))
    (h : parseIn tooLarge data = some (.input raw)) : typ = "input" := by
  obtain ⟨v, hv, hvalue⟩ := bind_eq_some_iff.mp h
  unfold fromSlice at hv
  split_ifs at hv with htext
  rw [hparse, bind_some] at hv
  -- whatever the other members are, the tag is read as it is
  have hobj : ∃ ws, v = .obj ((ascii "type", .str (ascii typ)) :: ws) := by
    change strictValue tooLarge (126 + 1) _ = some v at hv
    rw [strictValue] at hv
    split_ifs at hv
    obtain ⟨vs, hvs, rfl⟩ := map_eq_some_iff.mp hv
    simp only [Wire.strictMembers, textOf, strictValue, bind_eq_bind, bind_some,
      bind_eq_some_iff, Option.some.injEq] at hvs
    obtain ⟨ws, -, rfl⟩ := hvs
    exact ⟨ws, rfl⟩
  obtain ⟨ws, rfl⟩ := hobj
  exact ascii_inj.mp (tag_of_toVariant hvalue)

theorem not_isInput_encode (tooLarge : Str → Bool) (beyond : ℤ → ℤ) {f : OpFrame} (hf : f.typ ≠ "input") :
    ¬IsInput tooLarge (f.encode beyond) := by
  rintro (⟨i, hi⟩ | ⟨raw, hraw⟩)
  · obtain ⟨ms, hms, htype⟩ := type_of_parse hi
    rw [strictObject_canonical] at hms
    cases hms
    rw [member_type] at htype
    exact hf (ascii_inj.mp (Option.some.inj htype))
  · have hms : ∃ ms, f.members beyond = (ascii "type", textOf f.typ) :: ms := by
      cases f with
      | input i => exact absurd rfl hf
      | _ => exact ⟨_, rfl⟩
    obtain ⟨ms, hms⟩ := hms
    have hparse := parse_canonicalMembers beyond f
    rw [hms] at hparse
    exact hf (tag_of_parseIn hparse hraw)

theorem parse_tag (typ : String) :
    parse (Go.encode (.obj [(ascii "type", textOf typ)])) = some (.obj [(ascii "type", textOf typ)]) := by
  apply parse_encode
  show Json.Fits (9999 + 1) _
  simp [Json.Fits, MembersFit, textOf]

theorem not_isInput_tag (typ : String) {data : Str} (htyp : typ ≠ "input")
    (hdata : data = Go.encode (.obj [(ascii "type", textOf typ)]))
    (hhub : parseOperatorFrame data = .error .forbiddenType) (tooLarge : Str → Bool) : ¬IsInput tooLarge data := by
  rintro (⟨i, hi⟩ | ⟨raw, hraw⟩)
  · rw [hhub] at hi
    cases hi
  · exact htyp (tag_of_parseIn (hdata ▸ parse_tag typ) hraw)

theorem not_isInput_pause (tooLarge : Str → Bool) : ¬IsInput tooLarge pauseMessage :=
  not_isInput_tag "pause" (by decide) (by decide +kernel) (by decide +kernel) tooLarge

theorem not_isInput_resume (tooLarge : Str → Bool) : ¬IsInput tooLarge resumeMessage :=
  not_isInput_tag "resume" (by decide) (by decide +kernel) (by decide +kernel) tooLarge

/-! ## What may be queued -/

def IsAck (beyond : ℤ → ℤ) (data : Str) : Prop :=
  ∃ monitor frame, data = (OpFrame.ack monitor frame).encode beyond

/-- What an entry may hold, by who has queued it. -/
structure Entry.Allowed (beyond : ℤ → ℤ) (view : Prop) (e : Entry) : Prop where
  operator : view → ∀ conn, e.source = .operator conn → ∃ f : OpFrame, f.typ ≠ "input" ∧ e.data = f.encode beyond
  watcher : ∀ w, e.source = .watcher w → IsAck beyond e.data
  relay : e.source = .relay → e.data = pauseMessage ∨ e.data = resumeMessage ∨ IsAck beyond e.data

structure ViewSession (program : Str) : Prop where
  screen : programPrefix.isPrefixOf program
  mode : program ≠ programPrefix ++ str "control"

namespace Relay

structure Inv (beyond : ℤ → ℤ) (view : Prop) (r : Relay) : Prop where
  control : view → ∀ p, r.policy = some p → p.control = false
  screen : view → r.policy ≠ none
  inHand : ∀ e ∈ r.inHand, e.Allowed beyond view
  queued : ∀ e ∈ r.opToAgent, e.Allowed beyond view
  acks : ∀ left, r.signal = some (.acks left) → ∀ m ∈ left, IsAck beyond m

end Relay

section Messages

variable {beyond : ℤ → ℤ} {typ : MessageType} {message : Str}

theorem operator_control (p : Policy) : (p.operator beyond typ message).policy.control = p.control := by
  have haudit : ∀ i, (p.auditInput i).2.control = p.control := by
    intro i
    unfold Policy.auditInput
    split_ifs <;> rfl
  unfold Policy.operator
  split
  · rfl
  · split
    · rfl
    · rfl
    · split
      · rfl
      · split_ifs
        · exact haudit _
        · rfl
      all_goals rfl

theorem agent_control (p : Policy) : (p.agent typ message).2.control = p.control := by
  have hframe : ∀ v, (p.frameEnd v).control = p.control := by
    intro v
    unfold Policy.frameEnd
    split
    · split_ifs <;> rfl
    · rfl
  unfold Policy.agent
  split
  · rfl
  · split
    · rfl
    · split_ifs
      · rfl
      · exact hframe _
      all_goals rfl

/-- The relay forwards nothing but the acknowledgements of a watcher. -/
theorem watcher_some {msg : RelayMsg} (h : (reencoded (watcher beyond typ message)).1 = some msg) :
    IsAck beyond msg.data := by
  unfold watcher at h
  split at h
  · cases h
  · split at h
    · cases h
    · cases h
    · rename_i f hf
      cases f with
      | ack monitor frame =>
        cases h
        exact ⟨monitor, frame, rfl⟩
      | _ => cases h

end Messages

namespace Relay

variable {beyond : ℤ → ℤ} {view : Prop} {r : Relay}

theorem Inv.queue {e : Entry} (h : r.Inv beyond view) (he : e.Allowed beyond view) : (r.queue e).Inv beyond view := by
  refine { h with queued := ?_ }
  intro e' he'
  rcases mem_append.mp he' with he' | he'
  · exact h.queued e' he'
  · rw [mem_singleton.mp he']
    exact he

theorem allowed_relay {data : Str} (h : data = pauseMessage ∨ data = resumeMessage ∨ IsAck beyond data) :
    Entry.Allowed beyond view ⟨.relay, data⟩ where
  operator _ _ heq := by cases heq
  watcher _ heq := by cases heq
  relay _ := h

theorem allowed_watcher {w : ℕ} {data : Str} (h : IsAck beyond data) : Entry.Allowed beyond view ⟨.watcher w, data⟩ where
  operator _ _ heq := by cases heq
  watcher _ _ := h
  relay heq := by cases heq

theorem allowed_operator {conn : ℕ} {data : Str} (h : view → ∃ f : OpFrame, f.typ ≠ "input" ∧ data = f.encode beyond) :
    Entry.Allowed beyond view ⟨.operator conn, data⟩ where
  operator hview _ _ := h hview
  watcher _ heq := by cases heq
  relay heq := by cases heq

theorem Inv.fromOperator {p : Policy} {conn : ℕ} {typ : MessageType} {message : Str} (h : r.Inv beyond view)
    (hp : r.policy = some p) : (r.fromOperator beyond p conn typ message).Inv beyond view := by
  have hpolicy : view → ∀ p', some (p.operator beyond typ message).policy = some p' → p'.control = false := by
    intro hview p' hp'
    cases hp'
    rw [operator_control]
    exact h.control hview p hp
  unfold Relay.fromOperator
  dsimp only
  split
  · rename_i msg d hmsg
    have hsome : (operatorMessage beyond p typ message).1 = some msg := congrArg Prod.fst hmsg
    obtain ⟨f, -, -, hdata, hinput⟩ := operatorMessage_some hsome
    refine { h with control := hpolicy, screen := fun _ => some_ne_none _, inHand := ?_ }
    intro e he
    rcases mem_cons.mp he with rfl | he
    · refine allowed_operator fun hview => ⟨f, ?_, hdata⟩
      intro htyp
      obtain ⟨i, hi⟩ := input_of_typ htyp
      have hcontrol := (hinput i hi).1
      rw [h.control hview p hp] at hcontrol
      cases hcontrol
    · exact h.inHand e he
  · split_ifs
    all_goals exact { h with control := hpolicy, screen := fun _ => some_ne_none _ }

theorem Inv.fromWatcher {w : ℕ} {typ : MessageType} {message : Str} (h : r.Inv beyond view) :
    (r.fromWatcher beyond w typ message).Inv beyond view := by
  unfold Relay.fromWatcher
  dsimp only
  split
  · exact { h with }
  · exact h
  · split_ifs
    · split
      · rename_i msg d hmsg
        refine { h with inHand := ?_ }
        intro e he
        rcases mem_cons.mp he with rfl | he
        · exact allowed_watcher (watcher_some (congrArg Prod.fst hmsg))
        · exact h.inHand e he
      · exact h
    · exact h

theorem Inv.fromAgent {p : Policy} {typ : MessageType} {message : Str} (h : r.Inv beyond view)
    (hp : r.policy = some p) : (r.fromAgent p typ message).Inv beyond view := by
  have hpolicy : view → ∀ p', some (p.agent typ message).2 = some p' → p'.control = false := by
    intro hview p' hp'
    cases hp'
    rw [agent_control]
    exact h.control hview p hp
  unfold Relay.fromAgent
  dsimp only
  split_ifs
  all_goals exact { h with control := hpolicy, screen := fun _ => some_ne_none _ }

theorem isAck_resumeMessages {p : Policy} : ∀ m ∈ p.resumeMessages, IsAck beyond m := by
  intro m hm
  unfold Policy.resumeMessages at hm
  split at hm
  · cases hm
  · rename_i monitor frame _
    exact ⟨monitor, frame, eq_of_mem_replicate hm⟩

/-- The relay's own messages: the pause, the resume and the acknowledgements after it. -/
theorem Inv.signalled {t : Relay} {queued : Bool} (h : r.Inv beyond view)
    (hstep : r.step beyond (.signalled queued) = some t) : t.Inv beyond view := by
  simp only [Relay.step] at hstep
  split at hstep
  · cases hstep
  · have hdone : ∀ paused, { r with signal := none, paused := paused }.Inv beyond view :=
      fun _ => { h with acks := fun _ heq => (by cases heq) }
    cases hstep
    split_ifs
    · exact (hdone true).queue (allowed_relay (.inl rfl))
    · exact hdone r.paused
  · have hresumed : { r with
        signal := some (.acks ((r.policy.map Policy.resumeMessages).getD [])), paused := false }.Inv beyond view := by
      refine { h with acks := ?_ }
      intro left hleft m hm
      cases hleft
      cases hp : r.policy with
      | none =>
        rw [hp] at hm
        cases hm
      | some p =>
        rw [hp] at hm
        exact isAck_resumeMessages m hm
    cases hstep
    split_ifs
    · exact hresumed.queue (allowed_relay (.inr (.inl rfl)))
    · exact { h with acks := fun _ heq => (by cases heq) }
  · cases hstep
    exact { h with acks := fun _ heq => (by cases heq) }
  · rename_i m ms hsignal
    have hacks := h.acks _ hsignal
    have hnext : { r with signal := some (.acks ms) }.Inv beyond view := by
      refine { h with acks := ?_ }
      intro left hleft m' hm'
      cases hleft
      exact hacks m' (mem_cons_of_mem _ hm')
    cases hstep
    split_ifs
    · exact hnext.queue (allowed_relay (.inr (.inr (hacks m mem_cons_self))))
    · exact hnext

theorem Inv.step {t : Relay} {a : Event} (h : r.Inv beyond view) (hstep : r.step beyond a = some t) :
    t.Inv beyond view := by
  cases a with
  | attachOperator conn | detachOperator | attachWatcher w =>
    simp only [Relay.step] at hstep
    split_ifs at hstep
    cases hstep
    exact { h with }
  | removeWatcher w | close =>
    cases hstep
    exact { h with }
  | operatorMessage conn typ message =>
    obtain ⟨p, hp, rfl⟩ := map_eq_some_iff.mp hstep
    exact h.fromOperator hp
  | watcherMessage w typ message =>
    simp only [Relay.step] at hstep
    split_ifs at hstep
    cases hstep
    exact h.fromWatcher
  | agentMessage typ message =>
    obtain ⟨p, hp, rfl⟩ := map_eq_some_iff.mp hstep
    exact h.fromAgent hp
  | shellMessage conn data =>
    simp only [Relay.step] at hstep
    split_ifs at hstep with hshell
    cases hstep
    refine { h with inHand := ?_ }
    intro e he
    rcases mem_cons.mp he with rfl | he
    · exact allowed_operator fun hview => absurd hshell (h.screen hview)
    · exact h.inHand e he
  | enqueue e =>
    simp only [Relay.step] at hstep
    split_ifs at hstep with he
    cases hstep
    have herased : { r with inHand := r.inHand.erase e }.Inv beyond view :=
      { h with inHand := fun e' he' => h.inHand e' (mem_of_mem_erase he') }
    exact herased.queue (h.inHand e he)
  | abandon e =>
    cases hstep
    exact { h with inHand := fun e' he' => h.inHand e' (mem_of_mem_erase he') }
  | pause | resume =>
    simp only [Relay.step] at hstep
    split_ifs at hstep
    cases hstep
    exact { h with acks := fun _ heq => (by cases heq) }
  | signalled queued => exact h.signalled hstep
  | audit on =>
    cases hstep
    refine { h with control := ?_, screen := ?_ }
    · intro hview p hp
      obtain ⟨p', hp', rfl⟩ := map_eq_some_iff.mp hp
      exact h.control hview p' hp'
    · intro hview
      simpa using h.screen hview
  | take =>
    cases hstep
    exact { h with queued := fun e he => h.queued e (mem_of_mem_tail he) }

theorem inv_newRelay (program : Str) : (newRelay program).Inv beyond (ViewSession program) where
  control hview p hp := by
    have hnew : kindPolicy program = some (newPolicy program) := if_pos hview.screen
    cases hnew.symm.trans hp
    exact decide_eq_false hview.mode
  screen hview := by
    have hnew : kindPolicy program = some (newPolicy program) := if_pos hview.screen
    rw [newRelay, hnew]
    exact some_ne_none _
  inHand e he := by cases he
  queued e he := by cases he
  acks left hleft := by cases hleft

end Relay

theorem Entry.Allowed.not_isInput {beyond : ℤ → ℤ} {view : Prop} {e : Entry} (h : e.Allowed beyond view)
    (tooLarge : Str → Bool) (hview : view ∨ ∀ conn, e.source ≠ .operator conn) : ¬IsInput tooLarge e.data := by
  have hack : ∀ data, IsAck beyond data → ¬IsInput tooLarge data := by
    rintro data ⟨monitor, frame, rfl⟩
    exact not_isInput_encode tooLarge beyond (by simp [OpFrame.typ])
  cases hsource : e.source with
  | operator conn =>
    rcases hview with hview | hview
    · obtain ⟨f, hf, hdata⟩ := h.operator hview conn hsource
      rw [hdata]
      exact not_isInput_encode tooLarge beyond hf
    · exact absurd hsource (hview conn)
  | watcher w => exact hack e.data (h.watcher w hsource)
  | relay =>
    rcases h.relay hsource with hdata | hdata | hdata
    · rw [hdata]
      exact not_isInput_pause tooLarge
    · rw [hdata]
      exact not_isInput_resume tooLarge
    · exact hack e.data hdata

/-- However the pumps of a session interleave: in a view session no input is queued for the agent, in any
session none that does not come from the control attachment, and of a watcher's messages only
acknowledgements are queued. -/
theorem Relay.view_only (beyond : ℤ → ℤ) (tooLarge : Str → Bool) (program : Str) (t : Relay)
    (hrun : Run (StepOf (Relay.step beyond)) (newRelay program) t) :
    (ViewSession program → ∀ e ∈ t.opToAgent, ¬IsInput tooLarge e.data) ∧
    (∀ e ∈ t.opToAgent, (∀ conn, e.source ≠ .operator conn) → ¬IsInput tooLarge e.data) ∧
    (∀ e ∈ t.opToAgent, ∀ w, e.source = .watcher w → IsAck beyond e.data) := by
  have hinv : t.Inv beyond (ViewSession program) :=
    hrun.preserves (fun _ _ _ h hstep => h.step hstep) (inv_newRelay program)
  refine ⟨?_, ?_, ?_⟩
  · intro hview e he
    exact (hinv.queued e he).not_isInput tooLarge (.inl hview)
  · intro e he hsource
    exact (hinv.queued e he).not_isInput tooLarge (.inr hsource)
  · intro e he w hw
    exact (hinv.queued e he).watcher w hw

def ackMessage : Str := str "\x7b\"type\":\"ack\",\"monitor\":0,\"frame\":7\x7d"

/-- A watcher's acknowledgement is in the queue; the control attachment has tried to type and to click. -/
def watched : Relay :=
  { policy := some (newPolicy (str "screen:view"))
    opConn := some 4
    watchers := [1]
    opToAgent := [⟨.watcher 1, ackMessage⟩] }

theorem view_only_watched :
    (ViewSession (str "screen:view") → ∀ e ∈ watched.opToAgent, ¬IsInput (fun _ => false) e.data) ∧
    (∀ e ∈ watched.opToAgent, (∀ conn, e.source ≠ .operator conn) → ¬IsInput (fun _ => false) e.data) ∧
    (∀ e ∈ watched.opToAgent, ∀ w, e.source = .watcher w → IsAck id e.data) := by
  have hrun : runList (Relay.step id) (newRelay (str "screen:view"))
      [.attachWatcher 1, .watcherMessage 1 .text ackMessage, .enqueue ⟨.watcher 1, ackMessage⟩, .attachOperator 4,
        .operatorMessage 4 .text clickMessage, .watcherMessage 1 .text clickMessage] = some watched := by
    decide +kernel
  exact Relay.view_only id (fun _ => false) (str "screen:view") watched (runList_run hrun)

end Ominull.Screen
