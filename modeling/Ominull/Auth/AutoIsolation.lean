import Ominull.Auth.ManifestBook
import Ominull.Auth.SignGrant
import Ominull.Hub.PackageRun
import Ominull.Lib.Ration

/-!
The detector's isolations: the authority signs them without an operator, and rations them by tenant and by
endpoint.
-/

namespace Ominull.Auth.AutoIsolation

open Go Lib Response List

def autoIsolateTTL : Int := 600

def autoIsolatePerHour : ℕ := 6

def autoIsolatePerEndpoint : Int := 600 * second

def autoIsolateMaxReasonLen : ℕ := 200

def hour : Int := 3600 * second

/-- `AutoIsolateRequest`; a baseline is its JSON text. -/
structure AutoIsolateRequest where
  tenantID : Str
  endpointID : Str
  reason : Str
  baselines : List Str

/-- What one call finds: the clock, the tenant's keys, the check of the baselines, the enforcement clock and
the random draws. -/
structure Surroundings where
  now : Time
  hasTenantKey : Bool
  baselinesValid : Bool
  slotKey : Option (Str × Str)
  issued : Option Int
  nonce : Option Str
  grantID : Str

inductive Refusal where
  | invalidTenant
  | invalidEndpoint
  | manyBaselines
  | noTenantKey
  | invalidBaselines
  | rateLimit
  | noSlotKey
  | noIssueTime
  | noNonce
  deriving DecidableEq

/-- `autoIsolateBook`: the recent isolations of a tenant, and the last one of an endpoint. -/
structure AutoIsolateBook where
  byTenant : Str → List Time
  byEndpoint : Str → Option Time

def AutoIsolateBook.empty : AutoIsolateBook := ⟨fun _ => [], fun _ => none⟩

/-- The budget: whether an isolation may be signed now, and the book afterwards. -/
def AutoIsolateBook.spend (b : AutoIsolateBook) (tenantID ep : Str) (now : Time) : Bool × AutoIsolateBook :=
  let recent := (b.byTenant tenantID).filter fun t => Hub.timeSub now t < hour
  let key := bookKey tenantID ep
  if (b.byEndpoint key).any fun last => Hub.timeSub now last < autoIsolatePerEndpoint then (false, b)
  else if autoIsolatePerHour ≤ recent.length then
    (false, { b with byTenant := Function.update b.byTenant tenantID recent })
  else
    (true,
      { byTenant := Function.update b.byTenant tenantID (recent ++ [now])
        byEndpoint := fun k => (Function.update b.byEndpoint key (some now) k).filter fun t =>
          !(hour < Hub.timeSub now t : Bool) })

/-- The text of the payload: the members of a map, in the order of their names. -/
def payload (req : AutoIsolateRequest) (ep : Str) : Str :=
  let array (texts : List Str) : Str := 0x5b :: ([0x2c].intercalate texts ++ [0x5d])
  marshalStruct
    [if req.baselines = [] then none else some (str "baselines", array req.baselines),
     some (str "body", marshalStruct
       [some (str "endpoint_id", quote ep),
        some (str "reason", quote (cleanText req.reason autoIsolateMaxReasonLen))]),
     some (str "route", quote (str "auto-isolate")), some (str "targets", array [quote ep])]

def makeGrant (C : Crypto) (tenantID ep payload privKey keyID grantID nonce : Str) (issued : Int) : EndpointGrant :=
  let grant : EndpointGrant :=
    { version := grantVersion, grantID := grantID, tenantID := tenantID, endpointID := ep,
      actionKind := str "auto_isolate", actionDigest := hexEncode (C.sha256 payload), operatorID := str "detector",
      responseSessionID := str "auto-isolate", issuedAt := issued, expiresAt := wrap64 (issued + autoIsolateTTL),
      nonce := hexEncode nonce, signerKeyID := keyID }
  { grant with signature := hexEncode (C.sign privKey grant.canonicalBytes) }

/-- `SignAutoIsolation`: the grant and its payload, or why not, and the book afterwards. -/
def signAutoIsolation (C : Crypto) (b : AutoIsolateBook) (req : AutoIsolateRequest) (w : Surroundings) :
    Except Refusal (EndpointGrant × Str) × AutoIsolateBook :=
  let ep := trimSpace req.endpointID
  if !validTenant req.tenantID then (.error .invalidTenant, b)
  else if ep = [] ∨ 128 < ep.length ∨ cleanText ep 128 ≠ ep ∨ (str "mesh:").isPrefixOf ep then
    (.error .invalidEndpoint, b)
  else if 1 < req.baselines.length then (.error .manyBaselines, b)
  else if !w.hasTenantKey then (.error .noTenantKey, b)
  else if !w.baselinesValid then (.error .invalidBaselines, b)
  else
    match b.spend req.tenantID ep w.now with
    | (false, b) => (.error .rateLimit, b)
    | (true, b) =>
      match w.slotKey with
      | none => (.error .noSlotKey, b)
      | some (privKey, keyID) =>
        match w.issued with
        | none => (.error .noIssueTime, b)
        | some issued =>
          match w.nonce with
          | none => (.error .noNonce, b)
          | some nonce =>
            let payload := payload req ep
            (.ok (makeGrant C req.tenantID ep payload privKey keyID w.grantID nonce issued, payload), b)

/-! ## Calls one after the other -/

structure Call where
  request : AutoIsolateRequest
  surroundings : Surroundings

def Call.now (c : Call) : Int := c.surroundings.now

def answers (C : Crypto) : AutoIsolateBook → List Call → List (Except Refusal (EndpointGrant × Str))
  | _, [] => []
  | b, c :: calls =>
    let r := signAutoIsolation C b c.request c.surroundings
    r.1 :: answers C r.2 calls

def bookAfter (C : Crypto) (b : AutoIsolateBook) (calls : List Call) : AutoIsolateBook :=
  calls.foldl (fun b c => (signAutoIsolation C b c.request c.surroundings).2) b

structure Issue where
  tenantID : Str
  endpointID : Str
  time : Int

def issues (C : Crypto) : AutoIsolateBook → List Call → List Issue
  | _, [] => []
  | b, c :: calls =>
    let r := signAutoIsolation C b c.request c.surroundings
    match r.1 with
    | .ok (g, _) => ⟨g.tenantID, g.endpointID, c.now⟩ :: issues C r.2 calls
    | .error _ => issues C r.2 calls

/-! ## The budget -/

theorem timeSub_lt_iff {t u d : Int} (hd : 0 ≤ d) (hd' : d < 2 ^ 63) : Hub.timeSub t u < d ↔ t - u < d := by
  change max (-2 ^ 63) (min (2 ^ 63 - 1) (t - u)) < d ↔ _
  omega

theorem lt_timeSub_iff {t u d : Int} (hd : 0 ≤ d) (hd' : d < 2 ^ 63 - 1) : d < Hub.timeSub t u ↔ d < t - u := by
  change d < max (-2 ^ 63) (min (2 ^ 63 - 1) (t - u)) ↔ _
  omega

theorem filter_eq_recent (now : Time) (l : List Time) :
    (l.filter fun t => Hub.timeSub now t < hour) = recent hour now l :=
  filter_congr fun t _ => decide_eq_decide.mpr (timeSub_lt_iff (by decide) (by decide))

/-- What counts of a tenant's list that was cut and extended. -/
theorem recent_update (f : Str → List Time) (tenantID t : Str) (l : List Time) {now now' : Int} (hnow : now ≤ now') :
    recent hour now' (Function.update f tenantID (recent hour now (f tenantID) ++ l) t) =
      recent hour now' (f t) ++ recent hour now' (if tenantID = t then l else []) := by
  rw [← recent_append]
  by_cases ht : tenantID = t
  · subst ht
    rw [Function.update_self, if_pos rfl, recent_append, recent_recent hnow, recent_append]
  · rw [Function.update_of_ne (Ne.symm ht), if_neg ht, append_nil]

theorem recent_update_nil (f : Str → List Time) (tenantID t : Str) {now now' : Int} (hnow : now ≤ now') :
    recent hour now' (Function.update f tenantID (recent hour now (f tenantID)) t) = recent hour now' (f t) := by
  simpa [recent] using recent_update f tenantID t [] hnow

section Budget

variable {b b' : AutoIsolateBook} {tenantID ep : Str} {now now' : Int}

/-- The endpoint's last isolation, if the book has one, is long enough ago. -/
def Rested (b : AutoIsolateBook) (tenantID ep : Str) (now : Int) : Prop :=
  ∀ last ∈ b.byEndpoint (bookKey tenantID ep), autoIsolatePerEndpoint ≤ now - last

/-- What the budget answers: refused with the book as it was, or with the tenant's list cut to what counts, or
spent. -/
inductive Spend (b : AutoIsolateBook) (tenantID ep : Str) (now : Int) : Bool × AutoIsolateBook → Prop where
  | tooSoon : ¬Rested b tenantID ep now → Spend b tenantID ep now (false, b)
  | tooMany : Rested b tenantID ep now → autoIsolatePerHour ≤ (recent hour now (b.byTenant tenantID)).length →
      Spend b tenantID ep now
        (false, { b with byTenant := Function.update b.byTenant tenantID (recent hour now (b.byTenant tenantID)) })
  | spent (b' : AutoIsolateBook) : Rested b tenantID ep now →
      (recent hour now (b.byTenant tenantID)).length < autoIsolatePerHour →
      b'.byTenant = Function.update b.byTenant tenantID (recent hour now (b.byTenant tenantID) ++ [now]) →
      (∀ k t, b'.byEndpoint k = some t ↔
        Function.update b.byEndpoint (bookKey tenantID ep) (some now) k = some t ∧ now - t ≤ hour) →
      Spend b tenantID ep now (true, b')

theorem spend_spec (b : AutoIsolateBook) (tenantID ep : Str) (now : Int) :
    Spend b tenantID ep now (b.spend tenantID ep now) := by
  have hrested : ((b.byEndpoint (bookKey tenantID ep)).any fun last =>
      Hub.timeSub now last < autoIsolatePerEndpoint) = true ↔ ¬Rested b tenantID ep now := by
    rw [Rested]
    cases b.byEndpoint (bookKey tenantID ep) with
    | none => simp
    | some last =>
      have hlt : Hub.timeSub now last < autoIsolatePerEndpoint ↔ now - last < autoIsolatePerEndpoint :=
        timeSub_lt_iff (by decide) (by decide)
      simp [hlt]
  simp only [AutoIsolateBook.spend, filter_eq_recent]
  split_ifs with hsoon hmany
  · exact .tooSoon (hrested.mp hsoon)
  · exact .tooMany (not_not.mp (hrested.not.mp hsoon)) hmany
  · refine .spent _ (not_not.mp (hrested.not.mp hsoon)) (by omega) rfl fun k t => ?_
    have hkept : hour < Hub.timeSub now t ↔ hour < now - t := lt_timeSub_iff (by decide) (by decide)
    simp only [Option.filter_eq_some_iff, Bool.not_eq_true', decide_eq_false_iff_not, hkept, not_lt]

end Budget

/-- A call is refused before it comes to the budget, or answers as the budget says; if that lets it pass, what
it answers does not depend on the book. -/
theorem signAutoIsolation_cases (C : Crypto) (req : AutoIsolateRequest) (w : Surroundings) :
    (∃ e, e ≠ .rateLimit ∧ ∀ b, signAutoIsolation C b req w = (.error e, b)) ∨
    ∃ answer : Except Refusal (EndpointGrant × Str), answer ≠ .error .rateLimit ∧
      (∀ g p, answer = .ok (g, p) → g.tenantID = req.tenantID ∧ g.endpointID = trimSpace req.endpointID) ∧
      ∀ b, signAutoIsolation C b req w =
        if (b.spend req.tenantID (trimSpace req.endpointID) w.now).1 then
          (answer, (b.spend req.tenantID (trimSpace req.endpointID) w.now).2)
        else (.error .rateLimit, (b.spend req.tenantID (trimSpace req.endpointID) w.now).2) := by
  unfold signAutoIsolation
  by_cases htenant : (!validTenant req.tenantID) = true
  · exact .inl ⟨.invalidTenant, by decide, fun b => if_pos htenant⟩
  simp only [if_neg htenant]
  by_cases hendpoint : trimSpace req.endpointID = [] ∨ 128 < (trimSpace req.endpointID).length ∨
      cleanText (trimSpace req.endpointID) 128 ≠ trimSpace req.endpointID ∨
      (str "mesh:").isPrefixOf (trimSpace req.endpointID)
  · exact .inl ⟨.invalidEndpoint, by decide, fun b => if_pos hendpoint⟩
  simp only [if_neg hendpoint]
  by_cases hmany : 1 < req.baselines.length
  · exact .inl ⟨.manyBaselines, by decide, fun b => if_pos hmany⟩
  simp only [if_neg hmany]
  by_cases hkey : (!w.hasTenantKey) = true
  · exact .inl ⟨.noTenantKey, by decide, fun b => if_pos hkey⟩
  simp only [if_neg hkey]
  by_cases hvalid : (!w.baselinesValid) = true
  · exact .inl ⟨.invalidBaselines, by decide, fun b => if_pos hvalid⟩
  simp only [if_neg hvalid]
  right
  -- what follows the budget: the key, the issue time and the nonce
  have hmatch : ∀ {answer : Except Refusal (EndpointGrant × Str)} (r : Bool × AutoIsolateBook),
      (match r with
        | (false, b) => (.error .rateLimit, b)
        | (true, b) => (answer, b)) = if r.1 then (answer, r.2) else (.error .rateLimit, r.2) := by
    rintro _ ⟨_ | _, b⟩ <;> rfl
  cases hslot : w.slotKey with
  | none => exact ⟨.error .noSlotKey, by rintro ⟨⟩, (by rintro g p ⟨⟩), fun b => hmatch _⟩
  | some key =>
    obtain ⟨privKey, keyID⟩ := key
    cases hissued : w.issued with
    | none => exact ⟨.error .noIssueTime, by rintro ⟨⟩, (by rintro g p ⟨⟩), fun b => hmatch _⟩
    | some issued =>
      cases hnonce : w.nonce with
      | none => exact ⟨.error .noNonce, by rintro ⟨⟩, (by rintro g p ⟨⟩), fun b => hmatch _⟩
      | some nonce =>
        refine ⟨.ok (makeGrant C req.tenantID (trimSpace req.endpointID) (payload req (trimSpace req.endpointID))
          privKey keyID w.grantID nonce issued, payload req (trimSpace req.endpointID)), by rintro ⟨⟩, ?_,
          fun b => hmatch _⟩
        rintro g p ⟨⟩
        exact ⟨rfl, rfl⟩

/-! ## What the book keeps -/

section Kept

variable {C : Crypto} {b b' : AutoIsolateBook} {granted : List Issue} {clock now : Int}

def timesOf (granted : List Issue) (tenantID : Str) : List Int :=
  (granted.filter fun g => g.tenantID = tenantID).map (·.time)

def timesAt (granted : List Issue) (tenantID ep : Str) : List Int :=
  (granted.filter fun g => g.tenantID = tenantID ∧ g.endpointID = ep).map (·.time)

/-- The grants keep to the limits, and the book still knows those that count at the clock or later. -/
structure Kept (granted : List Issue) (b : AutoIsolateBook) (clock : Int) : Prop where
  tenants : ∀ tenantID, Rationed autoIsolatePerHour hour (timesOf granted tenantID)
  endpoints : ∀ tenantID ep, Rationed 1 autoIsolatePerEndpoint (timesAt granted tenantID ep)
  past : ∀ g ∈ granted, g.time ≤ clock
  counted : ∀ tenantID now, clock ≤ now →
    (recent hour now (timesOf granted tenantID)).length ≤ (recent hour now (b.byTenant tenantID)).length
  last : ∀ g ∈ granted, (∃ t ∈ b.byEndpoint (bookKey g.tenantID g.endpointID), g.time ≤ t) ∨ hour < clock - g.time

theorem kept_empty (clock : Int) : Kept [] .empty clock where
  tenants _ := Rationed.nil
  endpoints _ _ := Rationed.nil
  past := forall_mem_nil _
  counted _ _ _ := Nat.zero_le _
  last := forall_mem_nil _

theorem Kept.later (h : Kept granted b clock) (hnow : clock ≤ now) : Kept granted b now where
  __ := h
  past g hg := (h.past g hg).trans hnow
  counted tenantID now' hnow' := h.counted tenantID now' (hnow.trans hnow')
  last g hg := (h.last g hg).imp_right fun hold => by omega

theorem Kept.cut (h : Kept granted b clock) (tenantID : Str) :
    Kept granted { b with byTenant := Function.update b.byTenant tenantID (recent hour clock (b.byTenant tenantID)) }
      clock where
  __ := h
  counted t now hnow := by
    rw [recent_update_nil _ _ _ hnow]
    exact h.counted t now hnow

theorem times_concat (p : Issue → Prop) [DecidablePred p] (granted : List Issue) (g : Issue) :
    ((granted ++ [g]).filter p).map (·.time) = (granted.filter p).map (·.time) ++ if p g then [g.time] else [] := by
  by_cases h : p g <;> simp [h]

section Spent

variable {tenantID ep : Str} (hrested : Rested b tenantID ep now)
  (hroom : (recent hour now (b.byTenant tenantID)).length < autoIsolatePerHour)
  (htenant : b'.byTenant = Function.update b.byTenant tenantID (recent hour now (b.byTenant tenantID) ++ [now]))
  (hendpoint : ∀ k t, b'.byEndpoint k = some t ↔
    Function.update b.byEndpoint (bookKey tenantID ep) (some now) k = some t ∧ now - t ≤ hour)

include htenant hendpoint

/-- Spent budget is kept whether or not a grant comes of it. -/
theorem Kept.spend (h : Kept granted b now) : Kept granted b' now where
  __ := h
  counted t now' hnow := by
    rw [htenant, recent_update _ _ _ _ hnow, length_append]
    exact (h.counted t now' hnow).trans (Nat.le_add_right _ _)
  last g hg := by
    rcases h.last g hg with ⟨t, ht, hle⟩ | hold
    · by_cases hkey : bookKey g.tenantID g.endpointID = bookKey tenantID ep
      · refine .inl ⟨now, (hendpoint _ _).mpr ⟨?_, ?_⟩, h.past g hg⟩
        · rw [hkey, Function.update_self]
        · rw [Int.sub_self]
          decide
      · by_cases hrecent : now - t ≤ hour
        · refine .inl ⟨t, (hendpoint _ _).mpr ⟨?_, hrecent⟩, hle⟩
          rw [Function.update_of_ne hkey]
          exact ht
        · right
          omega
    · exact .inr hold

include hrested hroom

/-- A grant that is issued keeps to both limits. -/
theorem Kept.issue (h : Kept granted b now) : Kept (granted ++ [⟨tenantID, ep, now⟩]) b' now where
  tenants t := by
    rw [timesOf, times_concat]
    split_ifs with ht
    · subst ht
      apply (h.tenants _).concat
      exact (h.counted _ now le_rfl).trans_lt hroom
    · rw [append_nil]
      exact h.tenants t
  endpoints t e := by
    rw [timesAt, times_concat]
    split_ifs with hte
    · obtain ⟨rfl, rfl⟩ := hte
      apply (h.endpoints _ _).concat
      -- no grant of this endpoint is recent
      rw [Nat.lt_one_iff, length_eq_zero_iff, recent, filter_eq_nil_iff]
      intro s hs
      change ¬ decide (now - s < autoIsolatePerEndpoint) = true
      obtain ⟨g, hg, rfl⟩ := mem_map.mp hs
      rw [List.mem_filter, decide_eq_true_eq] at hg
      obtain ⟨hg, htg, heg⟩ := hg
      rw [decide_eq_true_eq, not_lt]
      rcases h.last g hg with ⟨t, ht, hle⟩ | hold
      · rw [htg, heg] at ht
        have := hrested t ht
        omega
      · have hlong : autoIsolatePerEndpoint ≤ hour := by decide
        omega
    · rw [append_nil]
      exact h.endpoints t e
  past := forall_mem_append.mpr ⟨h.past, forall_mem_singleton.mpr le_rfl⟩
  counted t now' hnow := by
    rw [htenant, timesOf, times_concat, recent_append, recent_update _ _ _ _ hnow, length_append,
      length_append]
    exact Nat.add_le_add_right (h.counted t now' hnow) _
  last := by
    refine forall_mem_append.mpr ⟨(h.spend htenant hendpoint).last, forall_mem_singleton.mpr (.inl ?_)⟩
    refine ⟨now, (hendpoint _ _).mpr ⟨Function.update_self .., ?_⟩, le_rfl⟩
    rw [Int.sub_self]
    decide

end Spent

def issued (C : Crypto) (b : AutoIsolateBook) (c : Call) : List Issue :=
  match (signAutoIsolation C b c.request c.surroundings).1 with
  | .ok (g, _) => [⟨g.tenantID, g.endpointID, c.now⟩]
  | .error _ => []

theorem issues_cons (C : Crypto) (b : AutoIsolateBook) (c : Call) (calls : List Call) :
    issues C b (c :: calls) = issued C b c ++ issues C (signAutoIsolation C b c.request c.surroundings).2 calls := by
  rw [issues, issued]
  cases (signAutoIsolation C b c.request c.surroundings).1 <;> rfl

theorem Kept.step (h : Kept granted b clock) (c : Call) (hnow : clock ≤ c.now) :
    Kept (granted ++ issued C b c) (signAutoIsolation C b c.request c.surroundings).2 c.now := by
  have hlater := h.later hnow
  rw [issued]
  rcases signAutoIsolation_cases C c.request c.surroundings with ⟨e, -, hsign⟩ | ⟨answer, -, hnamed, hsign⟩
  · rw [hsign b]
    rw [append_nil]
    exact hlater
  rw [hsign b]
  have hspend := spend_spec b c.request.tenantID (trimSpace c.request.endpointID) c.surroundings.now
  generalize b.spend c.request.tenantID (trimSpace c.request.endpointID) c.surroundings.now = r at hspend ⊢
  cases hspend with
  | tooSoon =>
    simp only [Bool.false_eq_true, if_false, append_nil]
    exact hlater
  | tooMany =>
    simp only [Bool.false_eq_true, if_false, append_nil]
    exact hlater.cut _
  | spent b' hrested hroom htenant hendpoint =>
    simp only [if_true]
    match answer, hnamed with
    | .error _, _ =>
      rw [append_nil]
      exact hlater.spend htenant hendpoint
    | .ok (g, p), hnamed =>
      obtain ⟨htg, heg⟩ := hnamed g p rfl
      dsimp only
      rw [htg, heg]
      exact hlater.issue hrested hroom htenant hendpoint

/-- Calls in the order of the clock, the first no earlier than `clock`. -/
theorem Kept.run (calls : List Call) (hclock : calls.Pairwise fun c c' => c.now ≤ c'.now) {b : AutoIsolateBook}
    {granted : List Issue} {clock : Int} (h : Kept granted b clock) (hfrom : ∀ c ∈ calls, clock ≤ c.now) :
    ∃ clock, Kept (granted ++ issues C b calls) (bookAfter C b calls) clock := by
  induction calls generalizing b granted clock with
  | nil =>
    rw [issues, append_nil]
    exact ⟨clock, h⟩
  | cons c calls ih =>
    obtain ⟨hfirst, hrest⟩ := pairwise_cons.mp hclock
    rw [issues_cons, ← append_assoc]
    exact ih hrest (h.step c (hfrom c mem_cons_self)) hfirst

end Kept

/-! ## What a refused call leaves -/

section Alike

variable {C : Crypto} {b b' : AutoIsolateBook} {clock now : Int}

/-- From `clock` on the two books allow the same. -/
structure Alike (b b' : AutoIsolateBook) (clock : Int) : Prop where
  tenants : ∀ tenantID now, clock ≤ now →
    recent hour now (b.byTenant tenantID) = recent hour now (b'.byTenant tenantID)
  endpoints : b.byEndpoint = b'.byEndpoint

theorem Alike.refl (b : AutoIsolateBook) (clock : Int) : Alike b b clock := ⟨fun _ _ _ => rfl, rfl⟩

theorem Alike.later (h : Alike b b' clock) (hnow : clock ≤ now) : Alike b b' now :=
  ⟨fun tenantID now' hnow' => h.tenants tenantID now' (hnow.trans hnow'), h.endpoints⟩

theorem Alike.update (h : Alike b b' clock) (tenantID : Str) (l : List Time) (ends : Str → Option Time) :
    Alike ⟨Function.update b.byTenant tenantID l, ends⟩ ⟨Function.update b'.byTenant tenantID l, ends⟩ clock := by
  refine ⟨fun t now hnow => ?_, rfl⟩
  by_cases ht : t = tenantID
  · subst ht
    dsimp only
    rw [Function.update_self, Function.update_self]
  · dsimp only
    rw [Function.update_of_ne ht, Function.update_of_ne ht]
    exact h.tenants t now hnow

theorem Alike.cut (b : AutoIsolateBook) (tenantID : Str) (now : Int) :
    Alike { b with byTenant := Function.update b.byTenant tenantID (recent hour now (b.byTenant tenantID)) } b now := by
  exact ⟨fun t now' hnow => recent_update_nil _ _ _ hnow, rfl⟩

theorem Alike.spend (h : Alike b b' now) (tenantID ep : Str) :
    (b.spend tenantID ep now).1 = (b'.spend tenantID ep now).1 ∧
      Alike (b.spend tenantID ep now).2 (b'.spend tenantID ep now).2 now := by
  simp only [AutoIsolateBook.spend, filter_eq_recent, ← h.endpoints, ← h.tenants tenantID now le_rfl]
  split_ifs with hsoon hmany
  · exact ⟨rfl, h⟩
  · exact ⟨rfl, h.update tenantID _ _⟩
  · exact ⟨rfl, h.update tenantID _ _⟩

theorem Alike.sign (h : Alike b b' now) (req : AutoIsolateRequest) (w : Surroundings) (hw : w.now = now) :
    (signAutoIsolation C b req w).1 = (signAutoIsolation C b' req w).1 ∧
      Alike (signAutoIsolation C b req w).2 (signAutoIsolation C b' req w).2 now := by
  subst hw
  rcases signAutoIsolation_cases C req w with ⟨e, -, hsign⟩ | ⟨answer, -, -, hsign⟩
  · rw [hsign b, hsign b']
    exact ⟨rfl, h⟩
  · obtain ⟨hspend, halike⟩ := h.spend req.tenantID (trimSpace req.endpointID)
    rw [hsign b, hsign b', hspend]
    split_ifs
    · exact ⟨rfl, halike⟩
    · exact ⟨rfl, halike⟩

theorem Alike.answers (calls : List Call) (hclock : calls.Pairwise fun c c' => c.now ≤ c'.now)
    {b b' : AutoIsolateBook} {clock : Int} (h : Alike b b' clock) (hfrom : ∀ c ∈ calls, clock ≤ c.now) :
    answers C b calls = answers C b' calls := by
  induction calls generalizing b b' clock with
  | nil => rfl
  | cons c calls ih =>
    obtain ⟨hfirst, hrest⟩ := pairwise_cons.mp hclock
    obtain ⟨hanswer, hnext⟩ :=
      (h.later (hfrom c mem_cons_self)).sign (C := C) c.request c.surroundings rfl
    rw [AutoIsolation.answers, AutoIsolation.answers, hanswer, ih hrest hnext hfirst]

theorem alike_of_rateLimit (C : Crypto) (b : AutoIsolateBook) (c : Call)
    (hrefused : (signAutoIsolation C b c.request c.surroundings).1 = .error .rateLimit) :
    Alike (signAutoIsolation C b c.request c.surroundings).2 b c.now := by
  rcases signAutoIsolation_cases C c.request c.surroundings with ⟨e, he, hsign⟩ | ⟨answer, hanswer, -, hsign⟩
  · rw [hsign b] at hrefused
    exact absurd (Except.error.inj hrefused) he
  rw [hsign b] at hrefused ⊢
  have hspend := spend_spec b c.request.tenantID (trimSpace c.request.endpointID) c.surroundings.now
  generalize b.spend c.request.tenantID (trimSpace c.request.endpointID) c.surroundings.now = r at hspend hrefused ⊢
  cases hspend with
  | tooSoon => exact Alike.refl b _
  | tooMany => exact Alike.cut b _ _
  | spent => exact absurd hrefused hanswer

end Alike

theorem count_le_of_rationed {p : Issue → Prop} [DecidablePred p] {granted : List Issue} {n : ℕ} {window : Int}
    (h : Rationed n window ((granted.filter p).map (·.time))) (start : Int) :
    (granted.filter fun g => p g ∧ start ≤ g.time ∧ g.time < start + window).length ≤ n := by
  have hcount := h.count_le start
  rw [filter_map, length_map, filter_filter] at hcount
  refine le_trans (le_of_eq (congrArg List.length (filter_congr fun g _ => ?_))) hcount
  rw [Function.comp_apply, ← Bool.decide_and, decide_eq_decide]
  exact and_comm

/-- **The detector's isolations are rationed.** In any hour a tenant gets at most six grants, in any ten minutes
an endpoint gets at most one, and a call that the rate limit refuses takes nothing from the calls after it. -/
theorem auto_isolation_limits (C : Crypto) (calls : List Call)
    (hclock : calls.Pairwise fun c c' => c.now ≤ c'.now) :
    (∀ tenantID start, ((issues C .empty calls).filter fun g =>
      g.tenantID = tenantID ∧ start ≤ g.time ∧ g.time < start + hour).length ≤ 6) ∧
    (∀ tenantID ep start, ((issues C .empty calls).filter fun g =>
      g.tenantID = tenantID ∧ g.endpointID = ep ∧
        start ≤ g.time ∧ g.time < start + autoIsolatePerEndpoint).length ≤ 1) ∧
    ∀ earlier c later, calls = earlier ++ c :: later →
      (signAutoIsolation C (bookAfter C .empty earlier) c.request c.surroundings).1 = .error .rateLimit →
        answers C (bookAfter C .empty (earlier ++ [c])) later = answers C (bookAfter C .empty earlier) later := by
  obtain ⟨clock, hkept⟩ : ∃ clock, Kept (issues C .empty calls) (bookAfter C .empty calls) clock := by
    cases calls with
    | nil => exact ⟨0, kept_empty 0⟩
    | cons c calls =>
      refine Kept.run (c :: calls) hclock (kept_empty c.now) fun c' hc' => ?_
      rcases mem_cons.mp hc' with rfl | hc'
      · exact le_rfl
      · exact (pairwise_cons.mp hclock).1 c' hc'
  refine ⟨fun tenantID => count_le_of_rationed (hkept.tenants tenantID), fun tenantID ep start => ?_,
    fun earlier c later hcalls hrefused => ?_⟩
  · simpa only [and_assoc] using count_le_of_rationed (hkept.endpoints tenantID ep) start
  · subst hcalls
    have hrest := (pairwise_append.mp hclock).2.1
    obtain ⟨hfirst, hlater⟩ := pairwise_cons.mp hrest
    rw [bookAfter, foldl_append, ← bookAfter]
    exact (alike_of_rateLimit C _ c hrefused).answers later hlater hfirst

/-- A detector that asks for one endpoint at the start, a minute and ten minutes later. -/
def askedAt (now : Time) : Call :=
  ⟨⟨str "acme", str "ep-1", str "beacon", []⟩,
    ⟨now, true, true, some (str "key", str "k1"), some 1000, some [1], str "g1"⟩⟩

def thriceAsked : List Call := [askedAt 0, askedAt (60 * second), askedAt (600 * second)]

theorem auto_isolation_limits_thriceAsked :
    (issues .sample .empty thriceAsked).map (·.time) = [0, 600 * second] ∧
    ((issues .sample .empty thriceAsked).filter fun g => g.tenantID = str "acme" ∧ g.endpointID = str "ep-1" ∧
      0 ≤ g.time ∧ g.time < 0 + autoIsolatePerEndpoint).length ≤ 1 ∧
    answers .sample (bookAfter .sample .empty [askedAt 0, askedAt (60 * second)]) [askedAt (600 * second)] =
      answers .sample (bookAfter .sample .empty [askedAt 0]) [askedAt (600 * second)] := by
  have hlimits := auto_isolation_limits .sample thriceAsked (by decide +kernel)
  exact ⟨by decide +kernel, hlimits.2.1 _ _ _,
    hlimits.2.2 [askedAt 0] (askedAt (60 * second)) [askedAt (600 * second)] rfl (by decide +kernel)⟩

end Ominull.Auth.AutoIsolation
