import Ominull.Agent.ManifestBeat
import Ominull.Agent.RoutineText

/-! The routine release keys over the life of a host. -/

namespace Ominull.Agent

open Lib Option

/-- What the program does at start: `Trust_Init`, then `Trust_LoadRoutine`. -/
def startAgent (C : Crypto) (endpointID : Str) : Prog File TrustContext := do
  let t ← init C endpointID
  loadRoutine C t

/-- `Trust_UpdateSigner`: who signed an update's release statement, the compiled-in key or a routine
key. The verifier is the platform's; without a key it uses the compiled-in one. -/
def updateSigner (verify : Option Str → Str → Str → Bool) (t : TrustContext) (msg der : Str) :
    Option (Option TrustRoutineKey) :=
  if der = [] then none
  else if verify none msg der then some none
  else (t.routine.keys.find? fun k => verify (some k.xy) msg der).map some

/-- What happens to a host. Others may take routine.pin away or write something into it that does not
verify. -/
inductive RoutineEvent where
  | start
  | beat (resp : Str) (now : Int) (outcomes : List Outcome)
  | repin (outcomes : List Outcome)
  | stop
  | spoil (content : Option Str)

section

variable (C : Crypto) (endpointID : Str)

def Host.routineStep (s : Host) : RoutineEvent → Host
  | .start => { s with agent := ((startAgent C endpointID).exec s.disk []).result }
  | .beat resp now outcomes => s.step C endpointID (.beat resp now outcomes)
  | .repin outcomes => s.step C endpointID (.repin outcomes)
  | .stop => s.step C endpointID .stop
  | .spoil content => { s with disk := Function.update s.disk .routinePin content }

def RoutineStep (s : Host) (e : RoutineEvent) (s' : Host) : Prop := s' = s.routineStep C endpointID e

/-- What is written over routine.pin holds no released set. -/
def SpoilOnly (_ : Host) (e : RoutineEvent) : Prop :=
  ∀ content, e = .spoil content → storedRoutine C content = none

abbrev RoutineLife : Host → Host → Prop := Run (Guarded (SpoilOnly C) (RoutineStep C endpointID))

end

/-- The set an agent has in force, if it has one. -/
def RoutineKeys.set (r : RoutineKeys) : Option RoutineSet :=
  if r.epoch = 0 then none else some ⟨r.epoch, r.list, r.keys⟩

def diskRoutineFloor (d : Disk File) : Int := routineFloorOf (d .routineEpoch)

/-- What holds of the two files, with a bound no set that is taken may fall below. -/
structure RoutineDisk (C : Crypto) (n : Int) (d : Disk File) : Prop where
  bound : n ≤ diskRoutineFloor d
  stored : ∀ x, storedRoutine C (d .routinePin) = some x → x.epoch ≤ diskRoutineFloor d

structure RoutineHeld (C : Crypto) (n : Int) (d : Disk File) (r : RoutineKeys) : Prop where
  loaded : r.loaded = true
  bound : n ≤ r.floor
  floor : r.floor ≤ diskRoutineFloor d
  stored : ∀ x, storedRoutine C (d .routinePin) = some x → x.epoch ≤ r.floor
  below : r.epoch ≤ r.floor
  released : ∀ x ∈ r.set, x.Released C
  empty : r.set = none → r.keys = []

variable {C : Crypto} {endpointID : Str} {n : Int} {d d' : Disk File} {r r' : RoutineKeys}
  {t : TrustContext}

theorem RoutineHeld.disk (h : RoutineHeld C n d r) : RoutineDisk C n d :=
  ⟨Int.le_trans h.bound h.floor, fun x hx => Int.le_trans (h.stored x hx) h.floor⟩

/-- Where a heartbeat may leave the agent: with the set it had, or with one not below the bound, and
never without one it had. -/
structure RoutineMove (C : Crypto) (n : Int) (r : RoutineKeys) (d' : Disk File) (r' : RoutineKeys) : Prop
    extends RoutineHeld C n d' r' where
  move : r'.set = r.set ∨ ∃ x ∈ r'.set, n ≤ x.epoch

theorem RoutineDisk.congr (hf : ∀ f ∈ routineFiles, d' f = d f) (h : RoutineDisk C n d) : RoutineDisk C n d' := by
  have hfloor : diskRoutineFloor d' = diskRoutineFloor d := congrArg routineFloorOf (hf .routineEpoch (by decide))
  refine ⟨?_, ?_⟩
  · rw [hfloor]
    exact h.bound
  · rw [hfloor, hf .routinePin (by decide)]
    exact h.stored

theorem RoutineHeld.congr (hf : ∀ f ∈ routineFiles, d' f = d f) (h : RoutineHeld C n d r) : RoutineHeld C n d' r := by
  have hfloor : diskRoutineFloor d' = diskRoutineFloor d := congrArg routineFloorOf (hf .routineEpoch (by decide))
  refine { h with floor := ?_, stored := ?_ }
  · rw [hfloor]
    exact h.floor
  · rw [hf .routinePin (by decide)]
    exact h.stored

theorem RoutineHeld.stay (h : RoutineHeld C n d r) : RoutineMove C n r d r := ⟨h, .inl rfl⟩

theorem RoutineHeld.writePin (h : RoutineHeld C n d r) {content : Option Str}
    (hstored : ∀ x, storedRoutine C content = some x → x.epoch ≤ r.floor) :
    RoutineHeld C n (Function.update d .routinePin content) r where
  __ := h
  floor := h.floor
  stored x hx := hstored x (by rwa [Function.update_self] at hx)

/-! ## A start -/

theorem takeStoredRoutine_held (hr : r.floor = 0) (hd : RoutineDisk C n d) :
    RoutineHeld C n d (takeStoredRoutine C r (d .routineEpoch) (d .routinePin)) := by
  rw [takeStoredRoutine_eq, hr]
  unfold takeRoutineSet
  split
  · refine ⟨rfl, hd.bound, Int.le_refl _, hd.stored, routineFloorOf_nonneg _, fun x hx => ?_, fun _ => rfl⟩
    cases hx
  · rename_i x hx
    obtain ⟨hstored, hge⟩ := filter_eq_some_iff.mp hx
    have hle := hd.stored x hstored
    have hpos := storedRoutine_pos hstored
    refine ⟨rfl, ?_, ?_, fun y hy => ?_, Int.le_max_right _ _, fun y hy => ?_, fun hnone => ?_⟩
    · exact Int.le_trans hd.bound (Int.le_max_left _ _)
    · exact Int.max_le.mpr ⟨Int.le_refl _, hle⟩
    · exact Int.le_trans (hd.stored y hy) (Int.le_max_left _ _)
    · rw [RoutineKeys.set, if_neg (by dsimp only; omega)] at hy
      cases hy
      exact (storedRoutine_some hstored).1
    · rw [RoutineKeys.set, if_neg (by dsimp only; omega)] at hnone
      cases hnone

theorem takeStoredRoutine_set (hr : r.floor = 0) :
    (takeStoredRoutine C r (d .routineEpoch) (d .routinePin)).set =
      (storedRoutine C (d .routinePin)).filter fun x => decide (diskRoutineFloor d ≤ x.epoch) := by
  rw [takeStoredRoutine_eq, hr]
  change (takeRoutineSet C r.failed (diskRoutineFloor d) (d .routinePin)).set = _
  unfold takeRoutineSet
  split
  · rename_i hnone
    rw [hnone]
    rfl
  · rename_i x hx
    have hpos := storedRoutine_pos (filter_eq_some_iff.mp hx).1
    rw [hx, RoutineKeys.set, if_neg (by dsimp only; omega)]

/-! ## Pinning a set -/

variable {epoch : Int}

theorem diskRoutineFloor_raise (hlo : 1 ≤ epoch) (hhi : epoch < 2 ^ 63 - 8) :
    diskRoutineFloor (Function.update d .routineEpoch (some (decimalInt epoch ++ str "\n"))) = epoch := by
  exact routineFloorOf_decimalInt hlo (by omega)

/-- What raising the floor leaves: the agent as it was, or with the new floor and the set it had. -/
def RaisedFloor (C : Crypto) (n : Int) (r : RoutineKeys) (epoch : Int) (d' : Disk File) :
    Option RoutineKeys → Prop
  | none => RoutineHeld C n d' r
  | some r' => RoutineHeld C n d' r' ∧ r'.floor = epoch ∧ r'.set = r.set

variable {ok : File → Option Outcome → Prop}

theorem raiseRoutineFloor_wp (h : RoutineHeld C n d r) (hlo : 1 ≤ epoch) (hhi : epoch < 2 ^ 63 - 8)
    (hge : r.floor ≤ epoch) : (raiseRoutineFloor r epoch).wp ok (RoutineDisk C n)
      (fun raised d' => RaisedFloor C n r epoch d' raised) d := by
  have hfloor := diskRoutineFloor_raise (d := d) hlo hhi
  have hraised : RoutineHeld C n (Function.update d .routineEpoch (some (decimalInt epoch ++ str "\n"))) r :=
    { h with floor := hge.trans (Int.le_of_eq hfloor.symm), stored := h.stored }
  refine Prog.wp_ite (fun _ => ⟨fun _ => h.disk, fun o _ => ?_⟩) fun hsame => ⟨h, by omega, rfl⟩
  cases o with
  | failed => exact h
  | unsynced => exact hraised
  | done =>
    refine ⟨{ hraised with bound := ?_, floor := ?_, stored := ?_, below := ?_ }, rfl, rfl⟩
    · exact Int.le_trans h.bound hge
    · exact Int.le_of_eq hfloor.symm
    · exact fun x hx => Int.le_trans (hraised.stored x hx) hge
    · exact Int.le_trans h.below hge

variable {x : RoutineSet}

theorem pinRoutine_wp {sig : Str} (h : RoutineHeld C n d r) (hlo : 1 ≤ x.epoch) (hhi : x.epoch < 2 ^ 63 - 8)
    (hge : r.floor ≤ x.epoch) (hx : x.Released C) : (pinRoutine r x.epoch x.list sig x.keys).wp ok (RoutineDisk C n)
      (fun r' d' => RoutineMove C n r d' r') d := by
  refine Prog.wp_seq (raiseRoutineFloor_wp h hlo hhi hge) ?_
  intro raised d₁ hraised
  cases raised with
  | none => exact ⟨hraised, .inl rfl⟩
  | some r₁ =>
    obtain ⟨h₁, hfloor, hset⟩ := hraised
    -- whatever is read from the new file is of the epoch that is pinned
    have hwritten : RoutineHeld C n (Function.update d₁ .routinePin (some (routinePinText x.epoch x.list sig))) r₁ :=
      h₁.writePin fun y hy => by rw [storedRoutine_epoch (by omega) hy, hfloor]
    refine ⟨fun _ => h₁.disk, fun o _ => ?_⟩
    cases o with
    | failed => exact ⟨h₁, .inl hset⟩
    | unsynced => exact ⟨hwritten, .inl hset⟩
    | done =>
      have hnew : RoutineKeys.set { r₁ with keys := x.keys, epoch := x.epoch, list := x.list } = some x := by
        rw [RoutineKeys.set, if_neg (by dsimp only; omega)]
      refine ⟨{ hwritten with below := Int.le_of_eq hfloor.symm, released := fun y hy => ?_, empty := fun hnone => ?_ },
        .inr ⟨x, hnew, ?_⟩⟩
      · cases hnew.symm.trans hy
        exact hx
      · cases hnew.symm.trans hnone
      · rw [← hfloor]
        exact h₁.bound

theorem readRoutineOffer_some {obj list sig : Str} {keys : List TrustRoutineKey}
    (h : readRoutineOffer obj = some (epoch, list, sig, keys)) :
    (1 ≤ epoch ∧ epoch < 2 ^ 63 - 8) ∧ parseRoutineList list = some keys := by
  simp only [readRoutineOffer, bind_eq_bind, bind_eq_some_iff, Option.some.injEq] at h
  obtain ⟨e, ⟨v, -, he⟩, l, -, g, -, k, hk, heq⟩ := h
  cases heq
  exact ⟨positiveInt_some he, hk⟩

theorem acceptRoutineKeys_wp (h : RoutineHeld C n d t.routine) (obj : Str) :
    (acceptRoutineKeys C t obj).wp ok (RoutineDisk C n) (fun u d' => RoutineMove C n t.routine d' u.routine) d := by
  have hstay := h.stay
  unfold acceptRoutineKeys
  split
  case h_1 => exact hstay
  case h_2 epoch list sig keys hoffer =>
    obtain ⟨⟨hlo, hhi⟩, hkeys⟩ := readRoutineOffer_some hoffer
    refine Prog.wp_ite (fun _ => hstay) fun _ => ?_
    refine Prog.wp_ite (fun _ => hstay) fun hold => ?_
    refine Prog.wp_ite (fun _ => hstay) fun _ => ?_
    refine Prog.wp_ite (fun _ => ⟨{ h with }, .inl rfl⟩) fun hverify => ?_
    have hge : t.routine.floor ≤ epoch := Int.not_lt.mp fun hlt => hold (.inl hlt)
    have hreleased : (RoutineSet.mk epoch list keys).Released C := ⟨⟨sig, by simpa using hverify⟩, hkeys⟩
    rw [Prog.wp_bind]
    exact Prog.wp_mono (fun _ => id) (fun _ _ hm => hm)
      (pinRoutine_wp (x := ⟨epoch, list, keys⟩) h hlo hhi hge hreleased)

/-! ## A heartbeat -/

variable {u : TrustContext}

theorem OfferChange.routine {stored : Option Str} (h : OfferChange C t u stored) : u.routine = t.routine := by
  rcases h with ⟨floor, failed, rfl⟩ | ⟨floor, keys, tenant, epoch, rfl⟩
  · rfl
  · obtain ⟨m, l, dirty, hu⟩ := takeStoredManifest_change (C := C) (t := { t with
      epochFloor := floor, keys := keys, haveKey := ⟨true, true, true⟩, tenant := tenant,
      epoch := epoch }) stored
    rw [hu]

theorem routine_frame {α : Type} {p : Prog File α} {files : List File} {Q : α → Prop} (hp : p.Within (· ∈ files) Q)
    (hfiles : ∀ f ∈ routineFiles, f ∉ files) (h : RoutineMove C n r d r') :
    p.wp ok (RoutineDisk C n) (fun a d' => Q a ∧ RoutineMove C n r d' r') d := by
  have hframe : p.wp ok _ _ d := hp.wp (R := fun d' => RoutineMove C n r d' r')
    (fun e e' he hm => ⟨hm.toRoutineHeld.congr fun f hf => he f (hfiles f hf), hm.move⟩) h
  exact Prog.wp_mono (fun _ hm => hm.disk) (fun _ _ hq => hq) hframe

theorem heartbeatTrust_routine {resp : Str} (h : RoutineHeld C n d t.routine) :
    (heartbeatTrust C t resp).wp ok (RoutineDisk C n) (fun u d' => RoutineMove C n t.routine d' u.routine) d := by
  unfold heartbeatTrust
  rw [Prog.wp_bind, loadRoutineOnce, if_pos h.loaded, Prog.wp_pure, Prog.wp_bind]
  refine Prog.wp_mono (fun _ hs => hs.1) ?_
    (Prog.wp_and (routine_frame (heartbeatPin_within resp) (by decide) h.stay) (heartbeatPin_change resp))
  rintro u d₁ ⟨⟨-, hm₁⟩, hchange⟩
  rw [← hchange.routine] at hm₁
  have hroutine : (heartbeatRoutine C u resp).wp ok (RoutineDisk C n)
      (fun v d' => RoutineMove C n u.routine d' v.routine) d₁ := by
    unfold heartbeatRoutine
    split
    · exact acceptRoutineKeys_wp hm₁.toRoutineHeld _
    · exact hm₁.toRoutineHeld.stay
  refine Prog.wp_seq hroutine ?_
  intro v d₂ hm₂
  rw [hchange.routine] at hm₂
  refine Prog.wp_seq (routine_frame flushFloors_within (by decide) hm₂) ?_
  rintro - d₃ ⟨⟨m, l, dirty, rfl⟩, hm₃⟩
  refine Prog.wp_mono (fun _ => id) ?_ (routine_frame (heartbeatManifest_within resp) (by decide) hm₃)
  rintro - d₄ ⟨⟨m', l', dirty', rfl⟩, hm₄⟩
  exact hm₄

theorem processHeartbeat_routine {resp : Str} {now : Int} (h : RoutineHeld C n d t.routine) :
    (processHeartbeat C t resp now).wp ok (RoutineDisk C n)
      (fun r d' => RoutineMove C n t.routine d' r.2.routine) d := by
  refine processHeartbeat_wp h.stay (heartbeatTrust_routine h) (fun _ _ hm => hm.disk) ?_
  exact fun u s d₁ d₂ hf hm =>
    ⟨hm.toRoutineHeld.congr fun f hmem => hf f (by rintro rfl; revert hmem; decide), hm.move⟩

/-! ## The life of a host -/

theorem init_routine : (init C endpointID).Within (fun _ => False) fun t => t.routine = {} := by
  have htake : ∀ (t : TrustContext) epoch pin, (takePin t epoch pin).routine = t.routine := by
    intro t epoch pin
    unfold takePin
    dsimp only
    split
    · rfl
    · split <;> rfl
  have hstored : ∀ (t : TrustContext) stored, (takeStoredManifest C t stored).routine = t.routine := by
    intro t stored
    obtain ⟨m, l, dirty, h⟩ := takeStoredManifest_change (C := C) (t := t) stored
    rw [h]
  unfold init loadPin loadHostAuthority loadManifestState
  simp only [Prog.within_bind, Prog.within_readFile, Prog.within_pure]
  intro epoch pin ceiling floors authority
  refine Prog.within_ite (fun _ => ?_) fun _ => ?_
  · intro stored state
    exact (hstored _ _).trans (htake _ _ _)
  · intro allow stored state
    exact (hstored _ _).trans (htake _ _ _)

structure RoutineInv (C : Crypto) (n : Int) (s : Host) : Prop where
  disk : RoutineDisk C n s.disk
  agent : ∀ t ∈ s.agent, RoutineHeld C n s.disk t.routine

structure RoutineEffect (C : Crypto) (n : Int) (s : Host) (e : RoutineEvent) (s' : Host) : Prop where
  inv : RoutineInv C n s'
  kept : ∀ u ∈ s'.agent, (e ≠ .start ∧ ∃ t ∈ s.agent, u.routine.set = t.routine.set) ∨
    ∀ x ∈ u.routine.set, n ≤ x.epoch
  running : e ≠ .start → ∀ t ∈ s.agent, t.routine.set ≠ none → ∀ u ∈ s'.agent, u.routine.set ≠ none

variable {s₀ s s' : Host} {e : RoutineEvent}

theorem RoutineEffect.same (h : RoutineInv C n s') (hagent : ∀ u ∈ s'.agent, u ∈ s.agent)
    (he : e ≠ .start) : RoutineEffect C n s e s' :=
  ⟨h, fun u hu => .inl ⟨he, u, hagent u hu, rfl⟩, fun _ t ht hset u hu => by
    cases mem_unique ht (hagent u hu)
    exact hset⟩

theorem startAgent_result (hd : RoutineDisk C n s.disk) (hu : u ∈ (s.routineStep C endpointID .start).agent) :
    RoutineHeld C n s.disk u.routine ∧ u.routine.set =
      (storedRoutine C (s.disk .routinePin)).filter fun x => decide (diskRoutineFloor s.disk ≤ x.epoch) := by
  have hwp : (startAgent C endpointID).wp (fun _ _ => True) (fun _ => True) (fun u d' =>
      RoutineHeld C n s.disk u.routine ∧ u.routine.set = (storedRoutine C (s.disk .routinePin)).filter
        fun x => decide (diskRoutineFloor s.disk ≤ x.epoch)) s.disk := by
    unfold startAgent
    rw [Prog.wp_bind]
    have hinit : (init C endpointID).wp (fun _ _ => True) (fun d => d = s.disk)
        (fun t d' => t.routine = {} ∧ d' = s.disk) s.disk :=
      init_routine.wp (fun d d' hf hd => (funext fun f => hf f id).trans hd) rfl
    refine Prog.wp_mono (fun _ _ => trivial) ?_ hinit
    rintro t d' ⟨ht, rfl⟩
    have hfloor : t.routine.floor = 0 := by rw [ht]
    exact ⟨takeStoredRoutine_held hfloor hd, takeStoredRoutine_set hfloor⟩
  have hsound := Prog.wp_sound hwp [] fun _ _ => trivial
  rw [show ((startAgent C endpointID).exec s.disk []).result = some u from hu] at hsound
  exact hsound

theorem start_routine (h : RoutineInv C n s) : RoutineEffect C n s .start (s.routineStep C endpointID .start) := by
  refine ⟨⟨h.disk, fun u hu => (startAgent_result h.disk hu).1⟩, fun u hu => .inr fun x hx => ?_,
    fun hne => absurd rfl hne⟩
  rw [(startAgent_result h.disk hu).2] at hx
  obtain ⟨-, hge⟩ := filter_eq_some_iff.mp hx
  exact Int.le_trans h.disk.bound (by simpa using hge)

theorem beat_routine {resp : Str} {now : Int} {os : List Outcome} (h : RoutineInv C n s) :
    RoutineEffect C n s (.beat resp now os) (s.routineStep C endpointID (.beat resp now os)) := by
  have hwp : ∀ t, s.agent = some t → (processHeartbeat C t resp now).wp (fun _ _ => True) _ _ s.disk :=
    fun t ht => processHeartbeat_routine (h.agent t ht)
  have hbeat : HostBeat _ _ s (s.step C endpointID (.beat resp now os)) := beat_sound hwp fun _ _ => trivial
  change RoutineEffect C n s (.beat resp now os) (s.step C endpointID (.beat resp now os))
  generalize s.step C endpointID (.beat resp now os) = s' at hbeat ⊢
  cases hbeat with
  | idle hagent => exact .same h (fun _ hu => hu) nofun
  | stopped h => exact ⟨⟨h, fun _ hu => (by cases hu)⟩, fun _ hu => (by cases hu), fun _ _ _ _ _ hu => (by cases hu)⟩
  | @done t r d hagent h =>
    refine ⟨⟨h.disk, fun u hu => ?_⟩, fun u hu => ?_, fun _ t' ht' hset u hu => ?_⟩
    · cases hu
      exact h.toRoutineHeld
    · cases hu
      rcases h.move with hsame | ⟨x, hx, hle⟩
      · exact .inl ⟨nofun, t, hagent, hsame⟩
      · refine .inr fun y hy => ?_
        cases mem_unique hx hy
        exact hle
    · cases hu
      cases hagent.symm.trans ht'
      rcases h.move with hsame | ⟨x, hx, -⟩
      · rw [hsame]
        exact hset
      · rw [show r.2.routine.set = some x from hx]
        exact some_ne_none x

theorem repin_routine {os : List Outcome} (h : RoutineInv C n s) :
    RoutineInv C n (s.routineStep C endpointID (.repin os)) := by
  have hwithin : (repinProcess C endpointID).Within (· ∈ repinFiles ++ manifestFiles) fun _ => True := by
    unfold repinProcess
    rw [Prog.within_bind]
    exact init_routine.mono (fun _ => False.elim) fun t _ => repin_within t
  have hfiles : ∀ f ∈ routineFiles, ((repinProcess C endpointID).exec s.disk os).disk f = s.disk f :=
    fun f hf => hwithin.frame (by revert hf; cases f <;> decide) s.disk os
  exact ⟨h.disk.congr hfiles, fun t ht => (h.agent t ht).congr hfiles⟩

theorem spoil_routine {content : Option Str} (h : RoutineInv C n s) (hspoil : storedRoutine C content = none) :
    RoutineInv C n (s.routineStep C endpointID (.spoil content)) := by
  have hnone : ∀ x, storedRoutine C content ≠ some x := fun x hx => by cases hspoil.symm.trans hx
  refine ⟨⟨h.disk.bound, fun x hx => ?_⟩, fun t ht => (h.agent t ht).writePin fun x hx => absurd hx (hnone x)⟩
  exact absurd hx (hnone x)

theorem step_routine (h : RoutineInv C n s)
    (hstep : Guarded (SpoilOnly C) (RoutineStep C endpointID) s e s') : RoutineEffect C n s e s' := by
  obtain ⟨hok, rfl⟩ := hstep
  cases e with
  | start => exact start_routine h
  | beat resp now os => exact beat_routine h
  | repin os => exact .same (repin_routine h) (fun _ hu => hu) nofun
  | stop => exact .same ⟨h.disk, fun _ ht => by cases ht⟩ (fun _ hu => by cases hu) nofun
  | spoil content => exact .same (spoil_routine h (hok content rfl)) (fun _ hu => hu) nofun

theorem RoutineLife.inv (h : RoutineInv C n s) (hrun : RoutineLife C endpointID s s') : RoutineInv C n s' :=
  hrun.preserves (fun _ _ _ hi hstep => (step_routine hi hstep).inv) h

/-- The release key signs at most one key list to an epoch. -/
def OneList (C : Crypto) : Prop :=
  ∀ epoch list list' sig sig', routineVerify C epoch list sig = true →
    routineVerify C epoch list' sig' = true → list = list'

def Host.RoutineFresh (s : Host) : Prop := s.agent = none ∧ ∀ f ∈ routineFiles, s.disk f = none

theorem RoutineInv.fresh (h : s.RoutineFresh) : RoutineInv C 0 s := by
  obtain ⟨hagent, hfiles⟩ := h
  refine ⟨⟨routineFloorOf_nonneg _, fun x hx => ?_⟩, fun t ht => ?_⟩
  · rw [hfiles .routinePin (by decide)] at hx
    cases hx
  · cases hagent.symm.trans ht

theorem Released.unique {y : RoutineSet} (hone : OneList C) (hx : x.Released C) (hy : y.Released C)
    (hepoch : x.epoch = y.epoch) : x = y := by
  obtain ⟨⟨sig, hsig⟩, hkeys⟩ := hx
  obtain ⟨⟨sig', hsig'⟩, hkeys'⟩ := hy
  rw [← hepoch] at hsig'
  have hlist := hone x.epoch x.list y.list sig sig' hsig hsig'
  rw [← hlist, hkeys] at hkeys'
  obtain ⟨e, l, k⟩ := x
  cases hepoch
  cases hlist
  cases hkeys'
  rfl

theorem RoutineInv.raise {m : Int} (h : RoutineInv C n s) (hdisk : m ≤ diskRoutineFloor s.disk)
    (hagent : ∀ t ∈ s.agent, m ≤ t.routine.floor) : RoutineInv C m s :=
  ⟨⟨hdisk, h.disk.stored⟩, fun t ht => { h.agent t ht with bound := hagent t ht }⟩

theorem RoutineInv.set_le (h : RoutineInv C n s) (ht : t ∈ s.agent) (hx : x ∈ t.routine.set) :
    x.epoch ≤ t.routine.floor := by
  have hbelow := (h.agent t ht).below
  unfold RoutineKeys.set at hx
  split at hx
  · cases hx
  · cases hx
    exact hbelow

/-- The epoch in force does not fall. -/
theorem RoutineLife.epoch_le (h : RoutineInv C n s) (hrun : RoutineLife C endpointID s s') (ht : t ∈ s.agent)
    {y : RoutineSet} (hx : x ∈ t.routine.set) (hu : u ∈ s'.agent) (hy : y ∈ u.routine.set) : x.epoch ≤ y.epoch := by
  have hfloor := h.set_le ht hx
  have hraised : RoutineInv C x.epoch s := by
    refine h.raise (Int.le_trans hfloor (h.agent t ht).floor) fun t' ht' => ?_
    cases mem_unique ht ht'
    exact hfloor
  have hinv : RoutineInv C x.epoch s' ∧ ∀ u ∈ s'.agent, ∀ y ∈ u.routine.set, x.epoch ≤ y.epoch := by
    refine hrun.preserves (I := fun s' => RoutineInv C x.epoch s' ∧ ∀ u ∈ s'.agent, ∀ y ∈ u.routine.set,
      x.epoch ≤ y.epoch) ?_ ⟨hraised, fun u hu y hy => ?_⟩
    · rintro s₁ e s₂ ⟨hi, hbound⟩ hstep
      have heffect := step_routine hi hstep
      refine ⟨heffect.inv, fun u hu y hy => ?_⟩
      rcases heffect.kept u hu with ⟨-, w, hw, hsame⟩ | hge
      · exact hbound w hw y (hsame ▸ hy)
      · exact hge y hy
    · cases mem_unique ht hu
      cases mem_unique hx hy
      exact Int.le_refl _
  exact hinv.2 u hu y hy

theorem updateSigner_routine {verify : Option Str → Str → Str → Bool} {msg der : Str}
    {k : TrustRoutineKey} (h : updateSigner verify t msg der = some (some k)) : k ∈ t.routine.keys := by
  unfold updateSigner at h
  split at h
  · cases h
  · split at h
    · cases h
    · obtain ⟨k', hk', heq⟩ := map_eq_some_iff.mp h
      cases heq
      exact List.mem_of_find?_eq_some hk'

theorem RoutineHeld.mem_keys (h : RoutineHeld C n d t.routine) {k : TrustRoutineKey}
    (hk : k ∈ t.routine.keys) : ∃ y ∈ t.routine.set, k ∈ y.keys := by
  cases hset : t.routine.set with
  | none =>
    rw [h.empty hset] at hk
    cases hk
  | some y =>
    refine ⟨y, rfl, ?_⟩
    unfold RoutineKeys.set at hset
    split at hset
    · cases hset
    · cases hset
      exact hk

def routineList : Str := str "0123456789abcdef:" ++ List.replicate 128 0x61

def routineCrypto : Crypto :=
  { Crypto.sample with
    verifyRelease := fun m _ => m = routineStatement 5 routineList ∨ m = routineStatement 6 [] }

theorem routineStatement_inj {epoch' : Int} {list list' : Str}
    (h : routineStatement epoch list = routineStatement epoch' list') :
    decimalInt epoch = decimalInt epoch' ∧ list = list' := by
  have hrest := List.append_cancel_left h
  have hkeys : str "\nkeys=" = 0x0a :: str "keys=" := by decide
  rw [hkeys, List.cons_append, List.cons_append] at hrest
  have hsplit := congrArg splitLine hrest
  rw [splitLine_append (plain_decimalInt epoch).2, splitLine_append (plain_decimalInt epoch').2] at hsplit
  obtain ⟨hepoch, htail⟩ := Prod.mk.inj (Option.some.inj hsplit)
  exact ⟨hepoch, List.append_cancel_right (List.append_cancel_left htail)⟩

theorem oneList_routineCrypto : OneList routineCrypto := by
  have hverify : ∀ epoch list sig, routineVerify routineCrypto epoch list sig = true →
      (decimalInt epoch = decimalInt 5 ∧ list = routineList) ∨ decimalInt epoch = decimalInt 6 ∧ list = [] := by
    intro epoch list sig h
    unfold routineVerify at h
    simp only [Bool.and_eq_true] at h
    have hrelease := h.2
    simp only [routineCrypto, decide_eq_true_eq] at hrelease
    exact hrelease.imp routineStatement_inj routineStatement_inj
  have hne : decimalInt 5 ≠ decimalInt 6 := by decide
  intro epoch list list' sig sig' h h'
  rcases hverify epoch list sig h with ⟨he, rfl⟩ | ⟨he, rfl⟩ <;>
    rcases hverify epoch list' sig' h' with ⟨he', rfl⟩ | ⟨he', rfl⟩
  · rfl
  · exact absurd (he.symm.trans he') hne
  · exact absurd (he'.symm.trans he) hne
  · rfl

def routineOffer (epoch : Int) (list : Str) : Str :=
  str "\x7b\"routine_keys\":\x7b\"epoch\":" ++ decimalInt epoch ++ str ",\"keys\":\"" ++ list ++
    str "\",\"sig\":\"AAAA\"\x7d\x7d"

def routineHost : Host :=
  (freshHost.routineStep routineCrypto (str "e1") .start).routineStep routineCrypto
    (str "e1") (.beat (routineOffer 5 routineList) 0 [.done, .done])

theorem routineHost_life : RoutineLife routineCrypto (str "e1") freshHost routineHost :=
  ((Run.refl _).tailGuarded (a := .start) rfl nofun).tailGuarded
    (a := .beat (routineOffer 5 routineList) 0 [.done, .done]) rfl nofun

/-- The machine stops between the floor of epoch 6 and its pin, and starts again. -/
def stoppedHost : Host :=
  (routineHost.routineStep routineCrypto (str "e1") (.beat (routineOffer 6 []) 0 [.done])).routineStep
    routineCrypto (str "e1") .start

end Ominull.Agent
