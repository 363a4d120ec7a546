import Ominull.Agent.StateBounds
import Ominull.Agent.EnforcementRun
import Ominull.Hub.Grants

/-!
An agent is handed only the newest of its isolation grants. That is the same as applying all of them
when the newest is an owner's; a detector's grant does nothing to an isolation in force, so what the
grants before it would have done then matters.
-/

namespace Ominull.Hub

open Lib Agent List

/-- An isolation, without the grant it came from. -/
structure Containment where
  isolated : Bool
  source : Str
  allow : List Str
  rules : List TrustRule
  deriving DecidableEq

def containment (s : TrustState) : Containment := ⟨s.isolated, s.source, s.allow, s.rules⟩

variable {a : TrustAction}

namespace Containment

def ofAction (a : TrustAction) : Containment :=
  match a.op with
  | .release => ⟨false, str "none", [], []⟩
  | .autoIsolate => ⟨true, str "auto", a.allow, a.rules⟩
  | _ => ⟨true, str "owner", a.allow, a.rules⟩

def isAuto (a : TrustAction) : Bool := a.op = .autoIsolate

/-- An owner's word is final; a detector's counts where the host is free. -/
def after (c : Containment) (a : TrustAction) : Containment :=
  if isAuto a ∧ c.isolated then c else ofAction a

/-- A free host takes the first detector's word. -/
def fill (c : Containment) (autos : List TrustAction) : Containment :=
  if c.isolated then c else (autos.head?.map ofAction).getD c

/-- What a list of actions comes to: the owner's last word in it, and where that leaves the host
free, the first detector's word after it. -/
def settled (c : Containment) (as : List TrustAction) : Containment :=
  match (as.rdropWhile isAuto).getLast? with
  | some a => (ofAction a).fill (as.rtakeWhile isAuto)
  | none => c.fill (as.rtakeWhile isAuto)

theorem ofAction_auto (h : isAuto a = true) : (ofAction a).isolated = true := by
  unfold isAuto at h
  unfold ofAction
  rw [decide_eq_true_eq] at h
  rw [h]

theorem fill_concat {c : Containment} {autos : List TrustAction} (hautos : ∀ b ∈ autos, isAuto b = true)
    (ha : isAuto a = true) : c.fill (autos ++ [a]) = (c.fill autos).after a := by
  unfold fill after
  by_cases hc : c.isolated = true
  · simp [hc, ha]
  · rw [if_neg hc, if_neg hc]
    cases autos with
    | nil => simp [hc]
    | cons b autos => simp [ha, ofAction_auto (hautos b mem_cons_self)]

theorem foldl_after (c : Containment) (as : List TrustAction) : as.foldl after c = c.settled as := by
  induction as using List.reverseRecOn with
  | nil => simp [settled, fill]
  | append_singleton as a ih =>
    rw [foldl_append, foldl_cons, foldl_nil, ih]
    unfold settled
    by_cases ha : isAuto a = true
    · rw [rdropWhile_concat_pos _ _ _ ha, rtakeWhile_concat_pos _ _ _ ha]
      have hautos : ∀ b ∈ as.rtakeWhile isAuto, isAuto b = true := fun b hb =>
        mem_rtakeWhile_imp hb
      cases (as.rdropWhile isAuto).getLast? with
      | none | some b => exact (fill_concat hautos ha).symm
    · simp [after, ha, fill]

/-- The newest word alone comes to what all of them come to: it is an owner's, or what the older
ones come to makes no difference to it. -/
def LatestDecides (c : Containment) (older : List TrustAction) : Option TrustAction → Prop
  | none => c.settled older = c
  | some a => isAuto a = false ∨
      (if (c.settled older).isolated then c.settled older else ofAction a) =
        if c.isolated then c else ofAction a

instance (c : Containment) (older : List TrustAction) (newest : Option TrustAction) :
    Decidable (c.LatestDecides older newest) := by
  cases newest <;> dsimp only [LatestDecides] <;> infer_instance

theorem latest_iff (c : Containment) (older : List TrustAction) (newest : Option TrustAction) :
    newest.toList.foldl after c = (older ++ newest.toList).foldl after c ↔ c.LatestDecides older newest := by
  rw [foldl_append, foldl_after c older]
  cases newest with
  | none => exact eq_comm
  | some a =>
    change c.after a = (c.settled older).after a ↔ _
    unfold LatestDecides after
    by_cases ha : isAuto a = true
    · simp only [ha, true_and, Bool.true_eq_false, false_or]
      exact eq_comm
    · simp [ha]

end Containment

section Agent

variable {C : Crypto} {t : TrustContext} {g : StoredGrant} {now : Int}

/-- The action an agent takes from an isolation grant, if the grant verifies, can be read and is
allowed here. -/
def taken (C : Crypto) (t : TrustContext) (now : Int) (g : StoredGrant) : Option TrustAction :=
  if (verifyGrantCore C t g.grant g.payload now).1.isSome then none
  else
    match parseAction g.payload g.grant.actionKind g.grant.endpointID t.endpointID with
    | .error _ => none
    | .ok a => if a.op.restricts ∧ !t.allows g.grant.actionKind then none else some a

theorem not_isMeshKind {kind : Str} (h : isIsolationKind kind = true) : isMeshKind kind = false := by
  rcases isIsolationKind_iff.mp h with rfl | rfl
  · decide
  · decide

/-- What an agent makes of an isolation grant: it takes the action, or moves its watermark at
most. -/
theorem judgeGrant_taken (C : Crypto) (t : TrustContext) (now : Int)
    (hkind : isIsolationKind g.kind = true) :
    (∃ a, taken C t now g = some a ∧ judgeGrant C t g.grant g.payload now =
      some ((t.state.mark false g.issuedAt).applyAction false g.grant a now)) ∨
    (taken C t now g = none ∧ (judgeGrant C t g.grant g.payload now = none ∨
      judgeGrant C t g.grant g.payload now = some (false, t.state.mark false g.issuedAt))) := by
  have hmesh : isMeshKind g.grant.actionKind = false := not_isMeshKind hkind
  unfold judgeGrant taken
  rw [hmesh]
  obtain ⟨why, genuine⟩ := verifyGrantCore C t g.grant g.payload now
  cases why with
  | some why =>
    right
    refine ⟨rfl, ?_⟩
    dsimp only
    split
    · exact .inr rfl
    · exact .inl rfl
  | none =>
    cases parseAction g.payload g.grant.actionKind g.grant.endpointID t.endpointID with
    | error e => exact .inr ⟨rfl, .inl rfl⟩
    | ok a =>
      dsimp only
      by_cases hrefused : a.op.restricts = true ∧ (!t.allows g.grant.actionKind) = true
      · rw [if_pos hrefused, if_pos hrefused]
        exact .inr ⟨rfl, .inr rfl⟩
      · rw [if_neg hrefused, if_neg hrefused]
        exact .inl ⟨a, rfl, rfl⟩

variable {s : TrustState}

theorem containment_applyIsolation {g : ResponseGrant} (h : s.isoAt < g.issuedAt) :
    containment (s.applyIsolation g a).2 = (containment s).after a := by
  unfold TrustState.applyIsolation Containment.after Containment.isAuto
  rw [if_neg (by omega)]
  by_cases hauto : a.op = .autoIsolate ∧ s.isolated = true
  · rw [if_pos hauto, if_pos (by simpa [containment] using hauto)]
  · rw [if_neg hauto, if_neg (by simpa [containment] using hauto)]
    cases hop : a.op <;> simp [containment, Containment.ofAction, hop]

/-- What a context is after an isolation grant: the containment moves by the action that is taken,
and the grant's issue time is the highest it has seen. -/
structure Delivered (C : Crypto) (t : TrustContext) (now : Int) (g : StoredGrant)
    (u : TrustContext) : Prop where
  rest : u = { t with state := u.state }
  bounded : u.state.Bounded
  ordered : u.state.isoAt ≤ u.state.isoSeen
  seen : u.state.isoSeen ≤ g.issuedAt
  containment : containment u.state =
    (taken C t now g).toList.foldl Containment.after (containment t.state)

theorem applyAction_isoAt {g : ResponseGrant} (h : s.isoAt ≤ g.issuedAt) :
    (s.applyAction false g a now).2.isoAt ≤ g.issuedAt := by
  change (s.applyIsolation g a).2.isoAt ≤ _
  unfold TrustState.applyIsolation
  split
  · exact h
  split
  · exact h
  · exact Int.le_refl _

theorem Bounded.withPresent (h : s.Bounded) : ({ s with present := true } : TrustState).Bounded :=
  { h with }

/-- A grant that is judged, and its outcome saved. -/
theorem judgeGrant_delivered {changed : Bool} (hkind : isIsolationKind g.kind = true) (hstate : t.state.Bounded)
    (hgrant : g.grant.Bounded) (hordered : t.state.isoAt ≤ t.state.isoSeen) (hnew : t.state.isoSeen < g.issuedAt)
    (hjudge : judgeGrant C t g.grant g.payload now = some (changed, s)) :
    Delivered C t now g { t with state := { s with present := true } } := by
  have hs : s.Bounded := hstate.judgeGrant hgrant hjudge
  have hseen : s.isoSeen = g.issuedAt := by
    have hmark := judgeGrant_seen hjudge false
    have hmesh : isMeshKind g.grant.actionKind = false := not_isMeshKind hkind
    rw [hmesh] at hmark
    exact hmark
  have hat : t.state.isoAt < g.issuedAt := by omega
  refine ⟨rfl, Bounded.withPresent hs, ?_, hseen.le, ?_⟩
  · change s.isoAt ≤ s.isoSeen
    rw [hseen]
    rcases judgeGrant_taken C t now hkind with ⟨a, -, h⟩ | ⟨-, h | h⟩
    · rw [h] at hjudge
      cases hjudge
      exact applyAction_isoAt hat.le
    · rw [h] at hjudge
      cases hjudge
    · rw [h] at hjudge
      cases hjudge
      exact hat.le
  · rcases judgeGrant_taken C t now hkind with ⟨a, htaken, h⟩ | ⟨htaken, h | h⟩
    · rw [h] at hjudge
      cases hjudge
      rw [htaken]
      exact containment_applyIsolation (s := t.state.mark false g.issuedAt) (g := g.grant) hat
    · rw [h] at hjudge
      cases hjudge
    · rw [h] at hjudge
      cases hjudge
      rw [htaken]
      rfl

def Saved (_ : File) (o : Option Outcome) : Prop := o = some .done

instance (f : File) (o : Option Outcome) : Decidable (Saved f o) :=
  inferInstanceAs (Decidable (o = some .done))

/-- One isolation grant that is new to the agent. -/
theorem applyGrant_delivered (hkind : isIsolationKind g.kind = true) (htarget : g.target = t.endpointID)
    (hstate : t.state.Bounded) (hgrant : g.grant.Bounded)
    (hordered : t.state.isoAt ≤ t.state.isoSeen) (hnew : t.state.isoSeen < g.issuedAt)
    (d : Disk File) :
    (applyGrant C t g.grant g.payload now).wp Saved (fun _ => False)
      (fun r _ => Delivered C t now g r.2) d := by
  have hmesh : isMeshKind g.grant.actionKind = false := not_isMeshKind hkind
  have hiso : isIsolationKind g.grant.actionKind = true := hkind
  have hnone : judgeGrant C t g.grant g.payload now = none → Delivered C t now g t := by
    intro hjudge
    rcases judgeGrant_taken C t now hkind with ⟨a, -, h⟩ | ⟨htaken, -⟩
    · rw [h] at hjudge
      cases hjudge
    · refine ⟨rfl, hstate, hordered, hnew.le, ?_⟩
      rw [htaken]
      rfl
  unfold applyGrant
  rw [hmesh, hiso, if_neg (by simp), if_neg (by exact not_le.mpr hnew),
    if_neg (fun h => h.2 htarget)]
  split
  · rename_i hjudge
    exact hnone hjudge
  · rename_i changed s hjudge
    have hs : s.Bounded := hstate.judgeGrant hgrant hjudge
    unfold publish TrustState.save
    rw [if_neg (by have := hs.text_length; omega)]
    refine ⟨fun h => (by cases h), ?_⟩
    rintro o ⟨⟩
    exact judgeGrant_delivered hkind hstate hgrant hordered hnew hjudge

/-- Isolation grants for this host in the order they were issued, all of them new to it. -/
structure Due (t : TrustContext) (gs : List StoredGrant) : Prop where
  kind : ∀ g ∈ gs, isIsolationKind g.kind = true
  target : ∀ g ∈ gs, g.target = t.endpointID
  bounded : ∀ g ∈ gs, g.grant.Bounded
  new : ∀ g ∈ gs, t.state.isoSeen < g.issuedAt
  ordered : gs.Pairwise fun a b => a.issuedAt < b.issuedAt

/-- Hands the agent grants in a heartbeat answer. -/
def deliver (C : Crypto) (now : Int) (t : TrustContext) (gs : List StoredGrant) :
    Prog File (Bool × TrustContext) :=
  applyGrants C now (gs.map StoredGrant.wire) (false, t)

/-- Applied one after the other, the grants come to what their actions come to. -/
theorem applyGrants_delivered {gs : List StoredGrant} (hdue : Due t gs) (hstate : t.state.Bounded)
    (hordered : t.state.isoAt ≤ t.state.isoSeen) (changed : Bool) (d : Disk File) :
    (applyGrants C now (gs.map StoredGrant.wire) (changed, t)).wp Saved (fun _ => False)
      (fun r _ => containment r.2.state =
        (gs.filterMap (taken C t now)).foldl Containment.after (containment t.state)) d := by
  induction gs generalizing t changed d with
  | nil => exact rfl
  | cons g gs ih =>
    have hg : g ∈ g :: gs := mem_cons_self
    rw [map_cons, applyGrants, Prog.wp_bind]
    refine Prog.wp_mono (fun _ => id) ?_ (applyGrant_delivered (hdue.kind g hg) (hdue.target g hg)
      hstate (hdue.bounded g hg) hordered (hdue.new g hg) d)
    rintro ⟨c, u⟩ d' (hu : Delivered C t now g u)
    have hlater := (pairwise_cons.mp hdue.ordered).1
    have hrest : ∀ x ∈ gs, x ∈ g :: gs := fun x => mem_cons_of_mem g
    have hdue' : Due u gs :=
      { kind := fun x hx => hdue.kind x (hrest x hx)
        target := fun x hx => by
          rw [hu.rest]
          exact hdue.target x (hrest x hx)
        bounded := fun x hx => hdue.bounded x (hrest x hx)
        new := fun x hx => hu.seen.trans_lt (hlater x hx)
        ordered := (pairwise_cons.mp hdue.ordered).2 }
    refine Prog.wp_mono (fun _ => id) ?_ (ih hdue' hu.bounded hu.ordered _ d')
    rintro r d'' hr
    have htaken : taken C u now = taken C t now := by
      rw [hu.rest]
      rfl
    rw [hr, htaken, hu.containment, ← foldl_append]
    cases h : taken C t now g with
    | none => rw [filterMap_cons_none h, Option.toList_none, nil_append]
    | some a => rw [filterMap_cons_some h, Option.toList_some, singleton_append]

end Agent

section Latest

variable {C : Crypto} {t : TrustContext} {T : GrantTable} {now nowHub : Int}

/-- The deliverable isolation grants of a host it has not seen, in the order they were issued. -/
def undelivered (T : GrantTable) (t : TrustContext) (nowHub : Int) : List StoredGrant :=
  GrantTable.byIssue (T.isolationGrants t.endpointID t.state.isoSeen nowHub)

def latest (T : GrantTable) (t : TrustContext) (nowHub : Int) : List StoredGrant :=
  (T.latestIsolationGrant t.endpointID t.state.isoSeen nowHub).toList

theorem undelivered_due (hgrants : ∀ g ∈ T.rows, g.grant.Bounded)
    (hdistinct : GrantTable.DistinctTimes (T.isolationGrants t.endpointID t.state.isoSeen nowHub)) :
    Due t (undelivered T t nowHub) := by
  have hmem : ∀ g ∈ undelivered T t nowHub, g ∈ T.isolationGrants t.endpointID t.state.isoSeen nowHub :=
    fun g => GrantTable.mem_byIssue.mp
  constructor
  · exact fun g hg => (GrantTable.mem_isolationGrants.mp (hmem g hg)).2.2.1
  · exact fun g hg => (GrantTable.mem_isolationGrants.mp (hmem g hg)).2.1
  · exact fun g hg => hgrants g (GrantTable.mem_isolationGrants.mp (hmem g hg)).1
  · exact fun g hg => (GrantTable.mem_isolationGrants.mp (hmem g hg)).2.2.2.1
  · exact GrantTable.byIssue_strict (T.nodup_rows.filter _) hdistinct

theorem Due.latest {gs : List StoredGrant} (h : Due t gs) : Due t gs.getLast?.toList := by
  have hmem : ∀ g ∈ gs.getLast?.toList, g ∈ gs := fun g hg =>
    mem_of_getLast? (Option.mem_toList.mp hg)
  refine ⟨fun g hg => h.kind g (hmem g hg), fun g hg => h.target g (hmem g hg),
    fun g hg => h.bounded g (hmem g hg), fun g hg => h.new g (hmem g hg), ?_⟩
  cases gs.getLast? with
  | none => exact List.Pairwise.nil
  | some g => exact pairwise_singleton _ _

theorem filterMap_dropLast_getLast? {α β : Type} (f : α → Option β) (l : List α) :
    l.filterMap f = l.dropLast.filterMap f ++ (l.getLast?.bind f).toList := by
  cases h : l.getLast? with
  | none =>
    rw [getLast?_eq_none_iff.mp h]
    rfl
  | some a =>
    obtain ⟨init, rfl⟩ := getLast?_eq_some_iff.mp h
    rw [dropLast_concat, filterMap_append, Option.bind_some]
    cases ha : f a with
    | none => rw [filterMap_cons_none ha]; rfl
    | some b => rw [filterMap_cons_some ha]; rfl

/-- An agent that is handed only the newest deliverable isolation grant ends in the containment of one that
applies all of them in order if and only if the newest decides, as far as the agent takes them. -/
theorem latest_isolation_suffices_iff (C : Crypto) (now : Int) (d d' : Disk File)
    (os os' : List Outcome) (hstate : t.state.Bounded) (hordered : t.state.isoAt ≤ t.state.isoSeen)
    (hgrants : ∀ g ∈ T.rows, g.grant.Bounded)
    (hdistinct : GrantTable.DistinctTimes (T.isolationGrants t.endpointID t.state.isoSeen nowHub))
    (hlatest : ∀ e ∈ ((deliver C now t (latest T t nowHub)).exec d os).log, Saved e.1 e.2)
    (hall : ∀ e ∈ ((deliver C now t (undelivered T t nowHub)).exec d' os').log, Saved e.1 e.2) :
    ∃ r r', ((deliver C now t (latest T t nowHub)).exec d os).result = some r ∧
      ((deliver C now t (undelivered T t nowHub)).exec d' os').result = some r' ∧
      (containment r.2.state = containment r'.2.state ↔
        (containment t.state).LatestDecides
          ((undelivered T t nowHub).dropLast.filterMap (taken C t now))
          ((undelivered T t nowHub).getLast?.bind (taken C t now))) := by
  have hdue := undelivered_due hgrants hdistinct
  have hlast : latest T t nowHub = (undelivered T t nowHub).getLast?.toList :=
    congrArg Option.toList (GrantTable.latestIsolationGrant_eq hdistinct)
  have hdueLatest : Due t (latest T t nowHub) := hlast ▸ hdue.latest
  obtain ⟨r, hr, hcr⟩ :=
    Prog.wp_returns (applyGrants_delivered hdueLatest hstate hordered false d) os hlatest
  obtain ⟨r', hr', hcr'⟩ :=
    Prog.wp_returns (applyGrants_delivered hdue hstate hordered false d') os' hall
  refine ⟨r, r', hr, hr', ?_⟩
  rw [hcr, hcr', hlast, filterMap_dropLast_getLast? _ (undelivered T t nowHub)]
  have hone : (undelivered T t nowHub).getLast?.toList.filterMap (taken C t now) =
      ((undelivered T t nowHub).getLast?.bind (taken C t now)).toList := by
    cases (undelivered T t nowHub).getLast? with
    | none => rfl
    | some g =>
      cases hg : taken C t now g with
      | none | some a => simp [hg]
  rw [hone]
  exact Containment.latest_iff _ _ _

/-! The host of the samples is free; the owner isolates it with an exception, and so does a
detector. -/

def ownerPayload : Str :=
  str "\x7b\"route\":\"/api/v1/endpoints/isolate\",\"body\":\x7b\"endpoint_id\":\"e1\"," ++
    str "\"allow_ips\":[\"10.0.0.5\"]\x7d,\"targets\":[\"e1\"]\x7d"

def detectorPayload : Str :=
  str "\x7b\"route\":\"auto-isolate\",\"body\":\x7b\"endpoint_id\":\"e1\"\x7d,\"targets\":[\"e1\"]\x7d"

def sampleGrant (id kind key payload : Str) (issuedAt : Int) : StoredGrant :=
  let g : ResponseGrant :=
    { version := 2, grantID := id, tenantID := str "t", endpointID := str "e1", actionKind := kind,
      actionDigest := sha256Hex Crypto.sample payload, issuedAt := issuedAt,
      expiresAt := issuedAt + 900 }
  ⟨{ g with signature := hexEncode (Crypto.sample.sign key g.canonical) }, payload, true⟩

def ownerGrant : Int → StoredGrant :=
  sampleGrant (str "g1") (str "isolation_change") (str "rk") ownerPayload

def detectorGrant : Int → StoredGrant :=
  sampleGrant (str "g2") (str "auto_isolate") (str "ak") detectorPayload

def sampleTable (owner detector : Int) : GrantTable :=
  GrantTable.save Table.empty [ownerGrant owner, detectorGrant detector] 2100

def sampleLatest (T : GrantTable) : Execution File (Bool × TrustContext) :=
  (deliver Crypto.sample 2150 sampleHost (latest T sampleHost 2150)).exec (fun _ => none) [.done]

def sampleAll (T : GrantTable) : Execution File (Bool × TrustContext) :=
  (deliver Crypto.sample 2150 sampleHost (undelivered T sampleHost 2150)).exec (fun _ => none)
    [.done, .done]

theorem sampleHost_bounded : sampleHost.state.Bounded :=
  ⟨by decide, by decide, ⟨by decide, by decide⟩, ⟨by decide, by decide⟩, ⟨by decide, by decide⟩,
    ⟨by decide, nofun⟩, ⟨by decide, nofun⟩,
    ⟨by decide, nofun⟩⟩

/-- The owner's grant is the newer one: it decides. -/
theorem latest_isolation_suffices_iff_sample :
    ∃ r r', (sampleLatest (sampleTable 2100 2000)).result = some r ∧
      (sampleAll (sampleTable 2100 2000)).result = some r' ∧
      r.2.state.allow = [str "10.0.0.5"] ∧ containment r.2.state = containment r'.2.state := by
  have hgrants : ∀ g ∈ (sampleTable 2100 2000).rows, g.grant.Bounded := by
    rintro g (_ | ⟨_, _ | ⟨_, ⟨⟩⟩⟩)
    · exact ⟨by decide, by decide, by decide⟩
    · exact ⟨by decide, by decide, by decide⟩
  have hlatest : ∀ e ∈ (sampleLatest (sampleTable 2100 2000)).log, Saved e.1 e.2 := by
    decide +kernel
  have hall : ∀ e ∈ (sampleAll (sampleTable 2100 2000)).log, Saved e.1 e.2 := by
    decide +kernel
  obtain ⟨r, r', hr, hr', hiff⟩ := latest_isolation_suffices_iff Crypto.sample 2150 (fun _ => none)
    (fun _ => none) [.done] [.done, .done] sampleHost_bounded (by decide) hgrants (by decide +kernel)
    hlatest hall
  have hallow : (sampleLatest (sampleTable 2100 2000)).result.map (·.2.state.allow) =
      some [str "10.0.0.5"] := by decide +kernel
  refine ⟨r, r', hr, hr', ?_, hiff.mpr (by decide +kernel)⟩
  change (sampleLatest (sampleTable 2100 2000)).result = some r at hr
  rw [hr] at hallow
  exact Option.some.inj hallow

/-- The detector's grant is the newer one: handed alone it isolates the host under the detector's
terms, where the owner's isolation with its exception should stand. -/
theorem detector_grant_hides_isolation :
    (sampleLatest (sampleTable 2000 2100)).result.map (fun r => containment r.2.state) =
        some ⟨true, str "auto", [], []⟩ ∧
      (sampleAll (sampleTable 2000 2100)).result.map (fun r => containment r.2.state) =
        some ⟨true, str "owner", [str "10.0.0.5"], []⟩ := by
  decide +kernel

end Latest

end Ominull.Hub
