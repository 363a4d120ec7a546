import Ominull.Hub.Rollout

/-!
What one tick of the advance loop decides about a rollout. The canaries are walked in the order of their list, and
the walk ends at the first one that is not healthy.
-/

namespace Ominull.Hub

open Lib Go Response List

variable (fleet : List Endpoint) (ro : AgentRollout) (now : Time)

def canaryHealth : List Str → List (Str × Time) → Verdict × List (Str × Time)
  | [], unclean => (.healthy, unclean)
  | id :: todo, unclean =>
    match canaryVerdict unclean ro now id (fleet.find? fun ep => ep.id = id) with
    | (.healthy, unclean) => canaryHealth todo unclean
    | verdict => verdict

inductive Judgement where
  | release
  | halt
  | wait
  deriving DecidableEq

/-- The switch of `advanceAgentRollouts`. -/
def Verdict.judgement (v : Verdict) (late : Bool) : Judgement :=
  match v with
  | .problem => .halt
  | .healthy => .release
  | .waiting => if late then .halt else .wait

def judge (unclean : List (Str × Time)) : Judgement :=
  (canaryHealth fleet ro now ro.canary unclean).1.judgement (ro.deadline < now)

/-- The verdict on a canary by what is known of it when the tick begins. -/
def verdictOf (unclean : List (Str × Time)) (id : Str) : Verdict :=
  (canaryVerdict unclean ro now id (fleet.find? fun ep => ep.id = id)).1

/-- The decision is the same for every order of the canaries, and a canary with a problem halts the rollout. -/
structure OrderFree (unclean : List (Str × Time)) : Prop where
  order : ∀ canary, canary.Perm ro.canary →
    judge fleet { ro with canary := canary } now unclean = judge fleet ro now unclean
  problem : ∀ id ∈ ro.canary, verdictOf fleet ro now unclean id = .problem → judge fleet ro now unclean = .halt

variable {fleet ro now} {unclean : List (Str × Time)} {id : Str}

/-! ## The walk over the canaries -/

theorem find_filter_key {key key' : Str} (h : key' ≠ key) (unclean : List (Str × Time)) :
    (unclean.filter fun u => u.1 ≠ key).find? (fun u => u.1 = key') = unclean.find? fun u => u.1 = key' := by
  rw [find?_filter]
  congr 1
  funext u
  by_cases hu : u.1 = key' <;> simp [hu, h]

theorem uncleanFor_congr (now : Time) {unclean' : List (Str × Time)} {key : Str}
    (h : (unclean'.find? fun u => u.1 = key) = unclean.find? fun u => u.1 = key) :
    (uncleanFor unclean' key now).1 = (uncleanFor unclean key now).1 := by
  unfold uncleanFor
  rw [h]
  cases unclean.find? fun u => u.1 = key <;> rfl

/-- A healthy canary clears what is remembered of it, which the verdict on no other canary looks at. -/
theorem verdictOf_cleared {cleared : List (Str × Time)}
    (h : canaryVerdict unclean ro now id (fleet.find? fun ep => ep.id = id) = (.healthy, cleared)) (id' : Str) :
    verdictOf fleet ro now cleared id' = verdictOf fleet ro now unclean id' := by
  obtain ⟨ep, hep, hhealthy⟩ := healthy_of_verdict (congrArg Prod.fst h)
  have hverdict (u : List (Str × Time)) : canaryVerdict u ro now id (fleet.find? fun ep => ep.id = id) =
      (.healthy, u.filter fun u => u.1 ≠ ro.id ++ str "/" ++ id) := by
    simp [hep, canaryVerdict, hhealthy.present, hhealthy.running, hhealthy.clean, not_lt.mpr hhealthy.online]
  by_cases hid : id' = id
  · subst hid
    unfold verdictOf
    rw [hverdict, hverdict]
  · rw [hverdict] at h
    cases h
    have hkey : ro.id ++ str "/" ++ id' ≠ ro.id ++ str "/" ++ id := fun heq => hid (append_cancel_left heq)
    have hage := uncleanFor_congr now (find_filter_key hkey unclean)
    unfold verdictOf
    cases fleet.find? fun ep => ep.id = id' with
    | none => rfl
    | some ep =>
      -- what is remembered is read for a canary that is unclean, and only its age counts
      rcases huncleared : uncleanFor unclean (ro.id ++ str "/" ++ id') now with ⟨age, u⟩
      rcases hcleared : uncleanFor (unclean.filter fun u => u.1 ≠ ro.id ++ str "/" ++ id)
        (ro.id ++ str "/" ++ id') now with ⟨age', u'⟩
      rw [huncleared, hcleared] at hage
      subst hage
      simp only [canaryVerdict, huncleared, hcleared]
      cases compareVersions ep.driverVersion ro.version <;> split_ifs <;> rfl

theorem canaryHealth_eq (ids : List Str) :
    (canaryHealth fleet ro now ids unclean).1 =
      ((ids.map (verdictOf fleet ro now unclean)).find? (· ≠ .healthy)).getD .healthy := by
  induction ids generalizing unclean with
  | nil => rfl
  | cons id todo ih =>
    rw [canaryHealth, map_cons]
    split
    · rename_i cleared hverdict
      have hhealthy : verdictOf fleet ro now unclean id = .healthy := congrArg Prod.fst hverdict
      rw [ih, map_congr_left fun id' _ => verdictOf_cleared hverdict id',
        find?_cons_of_neg (by simp [hhealthy])]
    · rename_i hverdict
      have hne : verdictOf fleet ro now unclean id ≠ .healthy := fun h => hverdict _ (Prod.ext h rfl)
      rw [find?_cons_of_pos (by simpa using hne)]
      rfl

/-! ## The order of the list -/

theorem judge_eq (canary : List Str) : judge fleet { ro with canary := canary } now unclean =
    (((canary.map (verdictOf fleet ro now unclean)).find? (· ≠ .healthy)).getD .healthy).judgement
      (ro.deadline < now) := by
  have hverdict : verdictOf fleet { ro with canary := canary } now unclean = verdictOf fleet ro now unclean := by
    funext id
    simp only [verdictOf, canaryVerdict]
  unfold judge
  rw [canaryHealth_eq, hverdict]

/-- The walk ends at a canary of the list that is not healthy, or all are. -/
theorem judge_cases (fleet : List Endpoint) (unclean : List (Str × Time)) (ro : AgentRollout) (now : Time)
    (canary : List Str) :
    ((∀ id ∈ canary, verdictOf fleet ro now unclean id = .healthy) ∧
        judge fleet { ro with canary := canary } now unclean = .release) ∨
      ∃ id ∈ canary, verdictOf fleet ro now unclean id ≠ .healthy ∧
        judge fleet { ro with canary := canary } now unclean =
          (verdictOf fleet ro now unclean id).judgement (ro.deadline < now) := by
  rw [judge_eq]
  cases hfind : (canary.map (verdictOf fleet ro now unclean)).find? (· ≠ .healthy) with
  | none =>
    rw [find?_eq_none] at hfind
    exact .inl ⟨fun id hid => by simpa using hfind _ (mem_map_of_mem hid), rfl⟩
  | some v =>
    obtain ⟨id, hid, rfl⟩ := mem_map.mp (mem_of_find?_eq_some hfind)
    exact .inr ⟨id, hid, by simpa using find?_some hfind, rfl⟩

theorem orderFree_iff (fleet : List Endpoint) (unclean : List (Str × Time)) (ro : AgentRollout) (now : Time) :
    OrderFree fleet ro now unclean ↔
      ∀ id ∈ ro.canary, ∀ id' ∈ ro.canary, verdictOf fleet ro now unclean id = .problem →
        verdictOf fleet ro now unclean id' = .waiting → ro.deadline < now := by
  constructor
  · intro h id hid id' hid' hproblem hwaiting
    by_contra hearly
    -- with the canary that is awaited in front, the walk ends there
    have hfirst : judge fleet { ro with canary := id' :: ro.canary.erase id' } now unclean = .wait := by
      rw [judge_eq, map_cons, find?_cons_of_pos (by simp [hwaiting])]
      simp [hwaiting, Verdict.judgement, hearly]
    have hhalt := h.problem id hid hproblem
    rw [← h.order _ (perm_cons_erase hid').symm, hfirst] at hhalt
    cases hhalt
  · intro h
    have hsame : ∀ id ∈ ro.canary, ∀ id' ∈ ro.canary, verdictOf fleet ro now unclean id ≠ .healthy →
        verdictOf fleet ro now unclean id' ≠ .healthy →
        (verdictOf fleet ro now unclean id).judgement (ro.deadline < now) =
          (verdictOf fleet ro now unclean id').judgement (ro.deadline < now) := by
      intro id hid id' hid' hne hne'
      have h₁ := h id hid id' hid'
      have h₂ := h id' hid' id hid
      revert hne hne' h₁ h₂
      cases verdictOf fleet ro now unclean id <;> cases verdictOf fleet ro now unclean id' <;>
        simp +contextual [Verdict.judgement]
    constructor
    · intro canary hperm
      rcases judge_cases fleet unclean ro now canary with ⟨hall, heq⟩ | ⟨id, hid, hne, heq⟩ <;>
        rcases judge_cases fleet unclean ro now ro.canary with ⟨hall', heq'⟩ | ⟨id', hid', hne', heq'⟩
      · exact heq.trans heq'.symm
      · exact absurd (hall id' (hperm.mem_iff.mpr hid')) hne'
      · exact absurd (hall' id (hperm.mem_iff.mp hid)) hne
      · exact heq.trans ((hsame id (hperm.mem_iff.mp hid) id' hid' hne hne').trans heq'.symm)
    · intro id hid hproblem
      rcases judge_cases fleet unclean ro now ro.canary with ⟨hall, -⟩ | ⟨id', hid', hne, heq⟩
      · rw [hall id hid] at hproblem
        cases hproblem
      · refine heq.trans ((hsame id' hid' id hid hne (by simp [hproblem])).trans ?_)
        rw [hproblem]
        rfl

/-- One canary has yet to install the version; the other one, behind it in the list, is gone. -/
theorem gone_canary_awaited : ¬OrderFree [⟨str "a", [], str "1.0.0", [], [], [], [], [], 0⟩]
    ⟨str "r", str "2.0.0", false, [str "a", str "b"], [], [], 100, .canary⟩ 50 [] := by
  intro h
  exact absurd (h.problem (str "b") (by decide) (by decide +kernel)) (by decide +kernel)

end Ominull.Hub
