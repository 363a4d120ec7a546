import Mathlib
import Ominull.Response.Leases

/-!
What a call of `OfferPendingJobs` hands out: how it packs the endpoint's oldest jobs, and how often it
can offer one of them over the job's life.
-/

namespace Ominull.Response

open Store List

variable {s s' : Store} {now expiry : Time} {id : Str} {j j' : JobRecord} {fails : Str → Bool}

namespace JobRecord

def Exhausted (j : JobRecord) : Prop := j.state = .offered ∧ offerAttemptsMax ≤ j.attempt

instance (j : JobRecord) : Decidable j.Exhausted := inferInstanceAs (Decidable (_ ∧ _))

/-- A job of which the loop makes an offer when it comes to it: it is not exhausted, its request can be
read and its row written. -/
def eligible (fails : Str → Bool) (j : JobRecord) : Bool :=
  !decide j.Exhausted && (JobRequest.unwrap j.requestJSON).isSome && !fails j.id

def bytes (j : JobRecord) : ℕ := j.requestJSON.length

end JobRecord

/-- What the loop does to the row of a job it comes to. -/
inductive Handled (fails : Str → Bool) (now expiry : Time) (j : JobRecord) : JobRecord → Prop where
  | neverTaken (hout : j.Exhausted) (hwrite : fails j.id = false) :
      Handled fails now expiry j (j.failNeverTaken now)
  | leased (leaseID : Str) (hok : j.eligible fails) :
      Handled fails now expiry j (j.lease now expiry leaseID (j.attempt + 1))
  | skipped (hnot : j.eligible fails = false) (hkeep : j.Exhausted → fails j.id = true) :
      Handled fails now expiry j j

/-- The jobs a call comes to, the offers it makes of them and the rows it leaves. -/
structure OfferCall (fails : Str → Bool) (now expiry : Time) (s : Store) (reached : List JobRecord)
    (offers : List JobOffer) (s' : Store) : Prop where
  offered : offers.map JobOffer.jobID = (reached.filter (·.eligible fails)).map JobRecord.id
  rows : ∀ it ∈ reached, ∃ j', s'.jobs.find it.id = some j' ∧ Handled fails now expiry it j'
  others : ∀ id, id ∉ reached.map JobRecord.id → s'.jobs.find id = s.jobs.find id

variable {it : JobRecord} {reached : List JobRecord} {offers : List JobOffer}

namespace OfferCall

theorem stop : OfferCall fails now expiry s [] [] s :=
  ⟨rfl, fun _ h => absurd h not_mem_nil, fun _ _ => rfl⟩

theorem cons {first : List JobOffer} {s₁ : Store} (hfirst : OfferCall fails now expiry s [it] first s₁)
    (hrest : OfferCall fails now expiry s₁ reached offers s') (hnew : it.id ∉ reached.map JobRecord.id) :
    OfferCall fails now expiry s (it :: reached) (first ++ offers) s' where
  offered := by
    rw [map_append, hfirst.offered, hrest.offered, ← map_append, ← filter_append]
    rfl
  rows := by
    intro it' hit'
    rcases mem_cons.mp hit' with rfl | hit'
    · rw [hrest.others it'.id hnew]
      exact hfirst.rows it' mem_cons_self
    · exact hrest.rows it' hit'
  others := by
    intro id hid
    rw [map_cons, mem_cons, not_or] at hid
    rw [hrest.others id hid.2]
    exact hfirst.others id (by simpa using hid.1)

/-- One job, of which the row alone is written. -/
theorem one {first : List JobOffer} (hfirst : first.map JobOffer.jobID = ([it].filter (·.eligible fails)).map JobRecord.id)
    (hrow : s'.jobs.find it.id = some j') (hhandled : Handled fails now expiry it j')
    (hothers : ∀ id, it.id ≠ id → s'.jobs.find id = s.jobs.find id) : OfferCall fails now expiry s [it] first s' where
  offered := hfirst
  rows := forall_mem_singleton.mpr ⟨j', hrow, hhandled⟩
  others id hid := hothers id fun h => hid (h ▸ mem_cons_self)

theorem neverTaken (hit : s.jobs.find it.id = some it) (hout : it.Exhausted) (hwrite : fails it.id = false) :
    OfferCall fails now expiry s [it] [] (s.failNeverTaken now it) :=
  one (by simp [JobRecord.eligible, hout]) ((find_failNeverTaken hit).trans (by rw [if_pos rfl]))
    (.neverTaken hout hwrite) fun _ => Lib.Table.find_update_other s.jobs (·.failNeverTaken now) fun _ => rfl

theorem skipped (hit : s.jobs.find it.id = some it) (hnot : it.eligible fails = false)
    (hkeep : it.Exhausted → fails it.id = true) : OfferCall fails now expiry s [it] [] s :=
  one (by simp [hnot]) hit (.skipped hnot hkeep) fun _ _ => rfl

theorem leased (hit : s.jobs.find it.id = some it) (hok : it.eligible fails) (leaseID : Str) (r : JobRequest) :
    OfferCall fails now expiry s [it] [it.offer expiry leaseID r] (s.leaseJob now expiry leaseID it) :=
  one (by simp [hok, JobRecord.offer]) ((find_leaseJob hit).trans (by rw [if_pos rfl])) (.leased leaseID hok)
    fun _ => Lib.Table.find_update_other s.jobs (·.lease now expiry leaseID (it.attempt + 1)) fun _ => rfl

end OfferCall

/-- The bytes of the jobs a call comes to that are not exhausted: what it has used of its budget. -/
def budgeted (reached : List JobRecord) : ℕ :=
  ((reached.filter fun j => ¬j.Exhausted).map JobRecord.bytes).sum

/-- The bytes of the jobs it offers. -/
def packed (fails : Str → Bool) (reached : List JobRecord) : ℕ :=
  ((reached.filter (·.eligible fails)).map JobRecord.bytes).sum

/-- Where a call stops: after its last job, or once it has made an offer and the next job does not fit. -/
def StopsAt (used : ℕ) (offers : List JobOffer) : List JobRecord → Prop
  | [] => True
  | it :: _ => offers ≠ [] ∧ ¬it.Exhausted ∧ offerBytesMax < used + it.bytes

theorem budgeted_cons (it : JobRecord) (reached : List JobRecord) :
    budgeted (it :: reached) = budgeted [it] + budgeted reached := by
  unfold budgeted
  rw [← sum_append, ← map_append, ← filter_append]
  rfl

theorem packed_cons (fails : Str → Bool) (it : JobRecord) (reached : List JobRecord) :
    packed fails (it :: reached) = packed fails [it] + packed fails reached := by
  unfold packed
  rw [← sum_append, ← map_append, ← filter_append]
  rfl

theorem packed_le_budgeted (fails : Str → Bool) (it : JobRecord) : packed fails [it] ≤ budgeted [it] := by
  unfold packed budgeted
  by_cases hout : it.Exhausted
  · simp [JobRecord.eligible, hout]
  · rw [filter_cons]
    split_ifs <;> simp [hout]

@[simp] theorem budgeted_exhausted (h : it.Exhausted) : budgeted [it] = 0 := by
  simp [budgeted, h]

@[simp] theorem budgeted_of_not (h : ¬it.Exhausted) : budgeted [it] = it.bytes := by
  simp [budgeted, h]

/-- What the loop does from its place in the selected rows: `used` bytes of the budget are gone and
`offers` are made. -/
structure Packs (fails : Str → Bool) (now expiry : Time) (items : List JobRecord) (used : ℕ)
    (offers : List JobOffer) (s : Store) (reached rest : List JobRecord) (new : List JobOffer)
    (r : List JobOffer × Store) : Prop where
  split : items = reached ++ rest
  made : r.1 = offers ++ new
  call : OfferCall fails now expiry s reached new r.2
  stops : StopsAt (used + budgeted reached) (offers ++ new) rest
  fits : ∀ sent ≤ used, (offers.length ≤ 1 ∨ sent ≤ offerBytesMax) →
    (offers ++ new).length ≤ 1 ∨ sent + packed fails reached ≤ offerBytesMax

/-- The loop comes to one more job, which either adds no offer, adds the first or fits the budget. -/
theorem Packs.cons {items rest : List JobRecord} {used used' : ℕ} {offers' first new : List JobOffer} {s₁ : Store}
    {r : List JobOffer × Store} (h : Packs fails now expiry items used' offers' s₁ reached rest new r)
    (hfirst : OfferCall fails now expiry s [it] first s₁) (hnew : it.id ∉ items.map JobRecord.id)
    (hused : used' = used + budgeted [it]) (hoffers : offers' = offers ++ first)
    (hfit : first = [] ∨ offers = [] ∨ used' ≤ offerBytesMax) :
    Packs fails now expiry (it :: items) used offers s (it :: reached) rest (first ++ new) r where
  split := by rw [h.split, cons_append]
  made := by rw [h.made, hoffers, append_assoc]
  call := by
    refine hfirst.cons h.call fun hmem => hnew ?_
    rw [h.split, map_append]
    exact mem_append_left _ hmem
  stops := by
    have hstops := h.stops
    rw [hoffers, hused, append_assoc, Nat.add_assoc] at hstops
    rwa [budgeted_cons]
  fits := by
    intro sent hsent hbefore
    have hlen : first.length = ([it].filter (·.eligible fails)).length := by
      simpa using congrArg List.length hfirst.offered
    have hle := packed_le_budgeted fails it
    have hrest := h.fits (sent + packed fails [it]) (by omega) ?_
    · rwa [hoffers, append_assoc, Nat.add_assoc, ← packed_cons] at hrest
    rw [hoffers]
    rcases hfit with rfl | rfl | hfit
    · have hnone : [it].filter (·.eligible fails) = [] := eq_nil_of_length_eq_zero hlen.symm
      rw [packed, hnone, append_nil]
      exact hbefore
    · left
      rw [nil_append, hlen]
      exact (length_filter_le _ _).trans (Nat.le_refl 1)
    · right
      omega

/-- The loop over the selected rows comes to the first of them one by one. -/
theorem offerItemsFaulty_packs (fails : Str → Bool) (now expiry : Time) (leases : ℕ → Str)
    (items : List JobRecord) (drawn used : ℕ) (offers : List JobOffer) (s : Store)
    (hsel : Selected now items s) :
    ∃ reached rest new, Packs fails now expiry items used offers s reached rest new
      (offerItemsFaulty fails now expiry leases items drawn used offers s) := by
  induction items generalizing drawn used offers s with
  | nil =>
    exact ⟨[], [], [], rfl, (append_nil _).symm, .stop, trivial, fun _ _ h => by simpa [packed] using h⟩
  | cons it items ih =>
    have hit := hsel.stored it mem_cons_self
    have hnew := (nodup_cons.mp hsel.nodup).1
    rw [offerItemsFaulty]
    split
    · rename_i hout
      have hused : used = used + budgeted [it] := by rw [budgeted_exhausted hout, Nat.add_zero]
      have hnot : it.eligible fails = false := by simp [JobRecord.eligible, show it.Exhausted from hout]
      cases hwrite : fails it.id with
      | true =>
        obtain ⟨_, _, _, h⟩ := ih drawn used offers s hsel.skip
        exact ⟨_, _, _, h.cons (.skipped hit hnot fun _ => hwrite) hnew hused (append_nil _).symm (.inl rfl)⟩
      | false =>
        obtain ⟨_, _, _, h⟩ := ih drawn used offers _ hsel.neverTaken
        exact ⟨_, _, _, h.cons (.neverTaken hit hout hwrite) hnew hused (append_nil _).symm (.inl rfl)⟩
    rename_i hout
    have hused : used + it.requestJSON.length = used + budgeted [it] := by rw [budgeted_of_not hout]; rfl
    split
    · rename_i hstop
      refine ⟨[], it :: items, [], rfl, (append_nil _).symm, .stop, ?_, fun _ _ h => by simpa [packed] using h⟩
      rw [append_nil]
      exact ⟨hstop.1, hout, by simpa [budgeted, JobRecord.bytes] using hstop.2⟩
    rename_i hgo
    have hskip : it.eligible fails = false → ∃ reached rest new, Packs fails now expiry (it :: items) used offers s
        reached rest new (offerItemsFaulty fails now expiry leases items (drawn + 1)
          (used + it.requestJSON.length) offers s) := by
      intro hnot
      obtain ⟨_, _, _, h⟩ := ih (drawn + 1) (used + it.requestJSON.length) offers s hsel.skip
      exact ⟨_, _, _, h.cons (.skipped hit hnot fun h => absurd h hout) hnew hused (append_nil _).symm
        (.inl rfl)⟩
    split
    · rename_i hread
      exact hskip (by simp [JobRecord.eligible, hread])
    rename_i r hread
    cases hwrite : fails it.id with
    | true => exact hskip (by simp [JobRecord.eligible, hwrite])
    | false =>
      have hok : it.eligible fails := by simp [JobRecord.eligible, hread, hwrite, show ¬it.Exhausted from hout]
      obtain ⟨_, _, _, h⟩ := ih (drawn + 1) (used + it.requestJSON.length)
        (offers ++ [it.offer expiry (leases drawn) r]) _ hsel.lease
      refine ⟨_, _, _, h.cons (.leased hit hok (leases drawn) r) hnew hused rfl (.inr ?_)⟩
      rw [not_and_or, not_not, Nat.not_lt] at hgo
      exact hgo

namespace Store

def offerLimit (maxOffers : Int) : ℕ := if maxOffers ≤ 0 ∨ 10 < maxOffers then 4 else maxOffers.toNat

theorem offerFaulty_packs (s : Store) (fails : Str → Bool) (now : Time) (leases : ℕ → Str)
    (tenantID endpointID : Str) (maxOffers : Int) (leaseDuration : Time) :
    ∃ expiry reached rest, ∃ new, Packs fails now expiry
      (s.pendingJobs now tenantID endpointID (offerLimit maxOffers)) 0 [] s reached rest new
      (s.offerFaulty fails now leases tenantID endpointID maxOffers leaseDuration) :=
  ⟨_, offerItemsFaulty_packs _ _ _ _ _ _ _ _ _ (selected_pendingJobs ..)⟩

theorem pairwise_pendingJobs (s : Store) (now : Time) (tenantID endpointID : Str) (limit : ℕ) :
    (s.pendingJobs now tenantID endpointID limit).Pairwise fun a b => a.requestedAt ≤ b.requestedAt := by
  exact (pairwise_insertionSort _ _).sublist (take_sublist _ _)

theorem oldest_pendingJobs {tenantID endpointID : Str} {limit : ℕ} (hj : s.jobs.find id = some j)
    (hoff : offerable now tenantID endpointID j) (hnot : j ∉ s.pendingJobs now tenantID endpointID limit) :
    ∀ it ∈ s.pendingJobs now tenantID endpointID limit, it.requestedAt ≤ j.requestedAt := by
  intro it hit
  unfold pendingJobs at hit hnot
  generalize hsorted : (s.jobs.rows.filter (offerable now tenantID endpointID)).insertionSort
    (fun a b => a.requestedAt ≤ b.requestedAt) = sorted at hit hnot
  have hmem : j ∈ sorted := by
    rw [← hsorted, mem_insertionSort]
    exact List.mem_filter.mpr ⟨Lib.Table.mem_of_find hj, hoff⟩
  have hpairs : sorted.Pairwise fun a b => a.requestedAt ≤ b.requestedAt := by
    rw [← hsorted]
    exact pairwise_insertionSort _ _
  rw [← take_append_drop limit sorted] at hmem hpairs
  exact (pairwise_append.mp hpairs).2.2 it hit j ((mem_append.mp hmem).resolve_left hnot)

end Store

/-! ## Over a job's life -/

/-- No step takes an attempt back, and a queued job was queued before. -/
theorem RowStep.attempt_le {op : Op} (h : RowStep now op j j') :
    j.attempt ≤ j'.attempt ∧ (j'.state = .queued → j.state = .queued) := by
  by_cases hj : j.state = .queued
  · refine ⟨?_, fun _ => hj⟩
    cases h with
    | lease => exact Nat.le_succ _
    | _ => exact Nat.le_refl _
  cases h with
  | keep => exact ⟨Nat.le_refl _, id⟩
  | lease => exact ⟨Nat.le_succ _, JobState.noConfusion⟩
  | neverTaken | accept | reject => exact ⟨Nat.le_refl _, JobState.noConfusion⟩
  | advance =>
    refine ⟨Nat.le_refl _, fun h => ?_⟩
    change j.progressTarget = .queued at h
    unfold JobRecord.progressTarget at h
    split_ifs at h
    exact h
  | complete r => exact ⟨Nat.le_refl _, fun h => absurd h (target_left r).1⟩
  | cancel => exact ⟨Nat.le_refl _, fun h => absurd h (cancelTarget_left j).1⟩
  | endSession errorCode => exact ⟨Nat.le_refl _, fun h => absurd h (sessionTarget_left j errorCode).1⟩

/-- What was asked for, by whom, when and under which grant. -/
def JobRecord.asked (j : JobRecord) :=
  (j.tenantID, j.endpointID, j.kind, j.requestedBy, j.requestedAt, j.idempotencyKey, j.authorizationGrantID,
    j.requestJSON, j.createdAt)

theorem RowStep.asked_eq {op : Op} (h : RowStep now op j j') : j'.asked = j.asked := by
  cases h <;> rfl

namespace Store

def offersAlong (s : Store) : List Event → List JobOffer
  | [] => []
  | e :: events => s.offersOf e ++ (s.next e).offersAlong events

/-- The job was offered `n` times, and its row shows at least as many attempts. -/
structure Offered (s : Store) (id : Str) (n : ℕ) : Prop where
  stored : ∀ j, s.jobs.find id = some j → n ≤ j.attempt ∧ (j.state = .queued → n = 0)
  unknown : s.jobs.find id = none → n = 0
  most : n ≤ offerAttemptsMax

theorem Offered.rowsStep {op : Op} {n : ℕ} (h : s.Offered id n) (hstep : RowsStep now op s s') :
    s'.Offered id n where
  stored := by
    intro j' hj'
    cases hj : s.jobs.find id with
    | none =>
      rw [h.unknown hj]
      exact ⟨Nat.zero_le _, fun _ => rfl⟩
    | some j =>
      obtain ⟨j₁, hj₁, hrow⟩ := hstep.kept id j hj
      obtain rfl : j₁ = j' := Option.some.inj (hj₁.symm.trans hj')
      obtain ⟨hle, hqueued⟩ := hrow.attempt_le
      obtain ⟨hn, hzero⟩ := h.stored j hj
      exact ⟨hn.trans hle, fun h => hzero (hqueued h)⟩
  unknown := by
    intro hnone
    cases hj : s.jobs.find id with
    | none => exact h.unknown hj
    | some j =>
      obtain ⟨_, hj', -⟩ := hstep.kept id j hj
      rw [hnone] at hj'
      cases hj'
  most := h.most

/-- A call offers a job at most once, and counts it in the job's row. -/
theorem Offered.offerCall {n : ℕ} (h : s.Offered id n) (hcall : OfferCall fails now expiry s reached offers s')
    (hsel : Selected now reached s) (hmem : id ∈ offers.map JobOffer.jobID) :
    s'.Offered id (n + (offers.map JobOffer.jobID).count id) := by
  have hnodup : (offers.map JobOffer.jobID).Nodup := by
    rw [hcall.offered]
    exact hsel.nodup.sublist (filter_sublist.map _)
  rw [count_eq_one_of_mem hnodup hmem]
  rw [hcall.offered, mem_map] at hmem
  obtain ⟨it, hit, rfl⟩ := hmem
  obtain ⟨hreached, hok⟩ := List.mem_filter.mp hit
  obtain ⟨hn, hzero⟩ := h.stored it (hsel.stored it hreached)
  obtain ⟨j', hj', hrow⟩ := hcall.rows it hreached
  have hfresh : ¬it.Exhausted := by
    intro hout
    simp [JobRecord.eligible, hout] at hok
  have hless : n + 1 ≤ offerAttemptsMax := by
    rcases hsel.offerable it hreached with hstate | ⟨hstate, -⟩
    · rw [hzero hstate]
      decide
    · have hattempt : it.attempt < offerAttemptsMax := Nat.not_le.mp fun h => hfresh ⟨hstate, h⟩
      omega
  cases hrow with
  | neverTaken hout => exact absurd hout hfresh
  | skipped hnot =>
    rw [hnot] at hok
    cases hok
  | leased leaseID =>
    refine ⟨fun j hj => ?_, fun hnone => ?_, hless⟩
    · obtain rfl := Option.some.inj (hj'.symm.trans hj)
      exact ⟨Nat.succ_le_succ hn, JobState.noConfusion⟩
    · rw [hnone] at hj'
      cases hj'

/-- The events that offer nothing of a job count nothing. -/
theorem Offered.next {n : ℕ} (h : s.Offered id n) (e : Event) :
    (s.next e).Offered id (n + ((s.offersOf e).map JobOffer.jobID).count id) := by
  by_cases hmem : id ∈ (s.offersOf e).map JobOffer.jobID
  · have hfaulty : ∀ fails now leases t e m d, id ∈ (s.offerFaulty fails now leases t e m d).1.map JobOffer.jobID →
        (s.offerFaulty fails now leases t e m d).2.Offered id
          (n + ((s.offerFaulty fails now leases t e m d).1.map JobOffer.jobID).count id) := by
      intro fails now leases t e m d hmem
      obtain ⟨_, reached, rest, new, hpacks⟩ := s.offerFaulty_packs fails now leases t e m d
      rw [hpacks.made, nil_append] at hmem ⊢
      have hall := s.selected_pendingJobs now t e (offerLimit m)
      rw [hpacks.split] at hall
      refine h.offerCall hpacks.call ⟨?_, fun it hit => ?_, fun it hit => ?_⟩ hmem
      · exact hall.nodup.sublist ((sublist_append_left _ _).map _)
      · exact hall.stored it (mem_append_left _ hit)
      · exact hall.offerable it (mem_append_left _ hit)
    unfold offersOf at hmem ⊢
    split at hmem
    · rw [offerPendingJobs_eq_faulty] at hmem ⊢
      simp only [Store.next, exec, offerPendingJobs_eq_faulty]
      exact hfaulty _ _ _ _ _ _ _ hmem
    · exact hfaulty _ _ _ _ _ _ _ hmem
    · cases hmem
  · rw [count_eq_zero_of_not_mem hmem]
    obtain ⟨now, op, hstep⟩ := next_rowsStep s e
    exact h.rowsStep hstep

theorem Offered.along {n : ℕ} (h : s.Offered id n) (events : List Event) :
    n + ((s.offersAlong events).map JobOffer.jobID).count id ≤ offerAttemptsMax := by
  induction events generalizing s n with
  | nil => exact h.most
  | cons e events ih =>
    have hrest := ih (h.next e)
    rw [offersAlong, map_append, count_append]
    omega

/-- Every job is still there, for the same request, with no fewer attempts. -/
def Continues (s s' : Store) : Prop :=
  ∀ id j, s.jobs.find id = some j → ∃ j', s'.jobs.find id = some j' ∧ j'.asked = j.asked ∧ j.attempt ≤ j'.attempt

theorem runEvents_continues (s : Store) (events : List Event) : s.Continues (s.runEvents events) := by
  refine runEvents_preserves (I := s.Continues) ?_ (fun _ j hj => ⟨j, hj, rfl, Nat.le_refl _⟩) events
  intro t e h id j hj
  obtain ⟨j₁, hj₁, hasked, hle⟩ := h id j hj
  obtain ⟨now, op, hstep⟩ := next_rowsStep t e
  obtain ⟨j₂, hj₂, hrow⟩ := hstep.kept id j₁ hj₁
  exact ⟨j₂, hj₂, hrow.asked_eq.trans hasked, hle.trans hrow.attempt_le.1⟩

end Store

end Ominull.Response
