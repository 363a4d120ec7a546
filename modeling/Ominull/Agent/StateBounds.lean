import Ominull.Agent.Enforcement

/-!
The buffers of the enforcement state are sized so that its text always fits the state file: a state
that cannot be saved for its length does not exist.
-/

namespace Ominull.Agent

open Lib List

/-- A value of an `int64_t`. -/
def FitsInt64 (n : Int) : Prop := -2 ^ 63 ≤ n ∧ n < 2 ^ 63

structure TrustRule.Bounded (r : TrustRule) : Prop where
  service : r.service.length ≤ 15
  destination : r.destination.length ≤ 63
  protocol : r.protocol.length ≤ 7
  port : 0 ≤ r.port ∧ r.port ≤ 65535

structure TrustMeshSlot.Bounded (m : TrustMeshSlot) : Prop where
  ip : m.ip.length ≤ 63
  since : FitsInt64 m.since

structure TrustState.Bounded (s : TrustState) : Prop where
  source : s.source.length ≤ 11
  isoGrant : s.isoGrant.length ≤ 63
  isoAt : FitsInt64 s.isoAt
  isoSeen : FitsInt64 s.isoSeen
  meshSeen : FitsInt64 s.meshSeen
  allow : s.allow.length ≤ maxAllow ∧ ∀ a ∈ s.allow, a.length ≤ 63
  mesh : s.mesh.length ≤ maxMesh ∧ ∀ m ∈ s.mesh, m.Bounded
  rules : s.rules.length ≤ maxRules ∧ ∀ r ∈ s.rules, r.Bounded

/-- What a grant's buffers hold, as far as they are written to the state. -/
structure ResponseGrant.Bounded (g : ResponseGrant) : Prop where
  grantID : g.grantID.length ≤ 63
  issuedAt : FitsInt64 g.issuedAt

structure TrustAction.Bounded (a : TrustAction) : Prop where
  ip : a.ip.length ≤ 63
  allow : a.allow.length ≤ maxAllow ∧ ∀ x ∈ a.allow, x.length ≤ 63
  rules : a.rules.length ≤ maxRules ∧ ∀ r ∈ a.rules, r.Bounded

section Text

theorem length_flatMap_le {α : Type} {f : α → Str} {l : List α} {b : ℕ}
    (h : ∀ a ∈ l, (f a).length ≤ b) : (l.flatMap f).length ≤ b * l.length := by
  induction l with
  | nil => simp
  | cons a l ih =>
    have ha := h a mem_cons_self
    have hl := ih fun x hx => h x (mem_cons_of_mem _ hx)
    rw [flatMap_cons, length_append, length_cons, Nat.mul_add]
    omega

theorem FitsInt64.length_decimalInt {n : Int} (h : FitsInt64 n) : (decimalInt n).length ≤ 20 := by
  unfold FitsInt64 at h
  exact length_decimalInt_le (e := 19) (by decide) (by omega)

theorem length_flag (b : Bool) : (flag b).length = 1 := by
  cases b <;> decide

/-- The state file is never too long. -/
theorem TrustState.Bounded.text_length {s : TrustState} (h : s.Bounded) : s.text.length < 16384 := by
  have hallow := length_flatMap_le (f := fun a => str "allow " ++ a ++ str "\n") (b := 70) fun a ha => by
    have := h.allow.2 a ha
    have hlit : (str "allow ").length = 6 ∧ (str "\n").length = 1 := by decide
    simp only [length_append]
    omega
  have hmesh := length_flatMap_le (l := s.mesh) (b := 92) (f := fun m : TrustMeshSlot =>
      str "mesh " ++ m.ip ++ str " " ++ flag m.on ++ str " " ++ decimalInt m.since ++ str "\n")
    fun m hm => by
    have hip := (h.mesh.2 m hm).ip
    have hsince := (h.mesh.2 m hm).since.length_decimalInt
    have hlit : (str "mesh ").length = 5 ∧ (str " ").length = 1 ∧ (str "\n").length = 1 := by decide
    simp only [length_append, length_flag]
    omega
  have hrules := length_flatMap_le (l := s.rules) (b := 100) (f := fun r : TrustRule =>
      str "rule " ++ r.service ++ str " " ++ r.destination ++ str " " ++ r.protocol ++ str " " ++
        decimalInt r.port ++ str "\n")
    fun r hr => by
    obtain ⟨hservice, hdestination, hprotocol, hport⟩ := h.rules.2 r hr
    have hlen : (decimalInt r.port).length ≤ 6 :=
      length_decimalInt_le (e := 5) (by decide) (by omega)
    have hlit : (str "rule ").length = 5 ∧ (str " ").length = 1 ∧ (str "\n").length = 1 := by decide
    simp only [length_append]
    omega
  have hsource : (if s.source = [] then str "none" else s.source).length ≤ 11 := by
    split
    · decide
    · exact h.source
  have hgrant : (if s.isoGrant = [] then str "-" else s.isoGrant).length ≤ 63 := by
    split
    · decide
    · exact h.isoGrant
  have hat := h.isoAt.length_decimalInt
  have hseen := h.isoSeen.length_decimalInt
  have hmeshSeen := h.meshSeen.length_decimalInt
  have hlit : TrustState.header.length = 22 ∧ (str "iso ").length = 4 ∧ (str " ").length = 1 ∧
      (str "\nseen ").length = 6 ∧ (str "\n").length = 1 := by decide
  have hcounts : s.allow.length ≤ 32 ∧ s.mesh.length ≤ 64 ∧ s.rules.length ≤ 64 :=
    ⟨h.allow.1, h.mesh.1, h.rules.1⟩
  unfold TrustState.text
  simp only [length_append, length_flag]
  omega

end Text

variable {payload : Str}

section Parse

variable {cap : ℕ} {v : Str}

theorem plain_length {text : Str} (h : TJ.plain cap v = some text) : text.length < cap := by
  unfold TJ.plain at h
  split at h
  · cases h
  · dsimp only at h
    split_ifs at h with hcap
    cases h
    push Not at hcap
    omega

theorem memberPlain_length {obj key text : Str} (h : TJ.memberPlain obj key cap = some text) : text.length < cap := by
  obtain ⟨v, -, hv⟩ := Option.bind_eq_some_iff.mp h
  exact plain_length hv

variable {l : List Str}

theorem plainItems_bounded {fuel : ℕ} {s : Str} (h : TJ.plainItems fuel cap s = some l) :
    l.length ≤ cap ∧ ∀ x ∈ l, x.length ≤ 63 := by
  induction fuel generalizing cap s l with
  | zero => cases h
  | succ fuel ih =>
    unfold TJ.plainItems at h
    dsimp only at h
    split at h
    · cases h
    split at h
    · cases h
    split at h
    · cases h
    case h_2 text htext =>
      have hlen := plain_length htext
      split at h
      · obtain ⟨rest, hrest, rfl⟩ := Option.map_eq_some_iff.mp h
        obtain ⟨hcap, hall⟩ := ih hrest
        exact ⟨by rw [length_cons]; omega, forall_mem_cons.mpr ⟨by omega, hall⟩⟩
      · cases h
        exact ⟨by rw [length_singleton]; omega, forall_mem_singleton.mpr (by omega)⟩
      · cases h

theorem plainArray_bounded (h : TJ.plainArray cap v = some l) : l.length ≤ cap ∧ ∀ x ∈ l, x.length ≤ 63 := by
  unfold TJ.plainArray at h
  dsimp only at h
  split at h
  · cases h
    simp
  split at h
  · split at h
    · cases h
      simp
    · exact plainItems_bounded h
  · cases h

/-- What every element preserves holds behind the array. -/
theorem walkArray_invariant {ε σ : Type} {bad : ε} {f : σ → Str → Except ε σ} {I : σ → Prop}
    (hf : ∀ a v b, I a → f a v = .ok b → I b) {a b : σ} (ha : I a) (h : TJ.walkArray bad f a v = .ok b) : I b := by
  have hitems : ∀ fuel a s, I a → TJ.walkItems bad f fuel a s = .ok b → I b := by
    intro fuel
    induction fuel with
    | zero => exact fun a s _ h => by cases h
    | succ fuel ih =>
      intro a s ha h
      unfold TJ.walkItems at h
      dsimp only at h
      split at h
      · cases h
      split at h
      · cases h
      case h_2 c hc =>
        have hI := hf _ _ _ ha hc
        split at h
        · exact ih _ _ hI h
        · cases h
          exact hI
        · cases h
  unfold TJ.walkArray at h
  split at h
  · split at h
    · cases h
      exact ha
    · exact hitems _ _ _ ha h
  · cases h

theorem isIPLiteral_length {s : Str} (h : isIPLiteral s = true) : s.length ≤ 63 := by
  unfold isIPLiteral at h
  split at h
  · cases h
  · omega

theorem parseRule_bounded {r : TrustRule} (h : parseRule v = some r) : r.Bounded := by
  simp only [parseRule, Option.bind_eq_bind, Option.bind_eq_some_iff] at h
  obtain ⟨service, hservice, destination, hdestination, protocol, hprotocol, port, -, h⟩ := h
  split_ifs at h with hvalid
  cases h
  have hport : 1 ≤ port ∧ port ≤ 65535 := by
    simp only [TrustRule.valid, Bool.and_eq_true, decide_eq_true_eq] at hvalid
    exact ⟨hvalid.1.2, hvalid.2⟩
  have hs := memberPlain_length hservice
  have hd := memberPlain_length hdestination
  have hp := memberPlain_length hprotocol
  constructor
  all_goals dsimp only
  all_goals omega

/-- The elements that were read, each with what its reader guarantees. -/
theorem eachElement_bounded {α : Type} {f : List α → Str → Option α} {P : α → Prop}
    (hf : ∀ l v a, f l v = some a → P a) {l : List α} (h : TJ.eachElement cap f v = some l) :
    l.length ≤ cap ∧ ∀ a ∈ l, P a := by
  unfold TJ.eachElement Except.toOption at h
  split at h
  · rename_i l' hwalk
    cases h
    refine walkArray_invariant (I := fun l => l.length ≤ cap ∧ ∀ a ∈ l, P a) ?_ (by simp) hwalk
    intro l v l' hl hl'
    split at hl'
    · cases hl'
    split at hl'
    · rename_i hroom _ a ha
      cases hl'
      refine ⟨by rw [length_append, length_singleton]; omega, ?_⟩
      exact forall_mem_append.mpr ⟨hl.2, forall_mem_singleton.mpr (hf _ _ _ ha)⟩
    · cases hl'
  · cases h

theorem parseRules_bounded {l : List TrustRule} (h : parseRules v = some l) :
    l.length ≤ maxRules ∧ ∀ r ∈ l, r.Bounded :=
  eachElement_bounded (fun _ _ _ => parseRule_bounded) h

variable {self : Str}

theorem parseBaselines_bounded {l : List TrustRule} (h : parseBaselines payload self = .ok l) :
    l.length ≤ maxRules ∧ ∀ r ∈ l, r.Bounded := by
  have hnil : ([] : List TrustRule).length ≤ maxRules ∧ ∀ r ∈ ([] : List TrustRule), r.Bounded := by
    simp
  unfold parseBaselines at h
  split at h
  · cases h
  · cases h
    exact hnil
  · unfold Except.map at h
    split at h
    · cases h
    · rename_i found hwalk
      cases h
      have hfound : ∀ l ∈ found, l.length ≤ maxRules ∧ ∀ r ∈ l, r.Bounded := by
        refine walkArray_invariant
          (I := fun o => ∀ l ∈ o, l.length ≤ maxRules ∧ ∀ r ∈ l, r.Bounded) ?_ (by simp) hwalk
        intro o v o' ho ho'
        unfold baselineEntry at ho'
        split at ho'
        · split at ho'
          · cases ho'
          split at ho'
          · cases ho'
          case h_2 rules hrules =>
            split_ifs at ho' <;> cases ho'
            · rintro l ⟨⟩
              exact parseRules_bounded hrules
            · exact ho
        · cases ho'
      cases found with
      | none => exact hnil
      | some l => exact hfound l rfl

variable {body : Str}

theorem parseAllow_bounded (h : parseAllow body = .ok l) : l.length ≤ maxAllow ∧ ∀ x ∈ l, x.length ≤ 63 := by
  unfold parseAllow at h
  split at h
  · cases h
  · cases h
    simp
  split at h
  · cases h
  · rename_i hread
    split_ifs at h
    cases h
    exact plainArray_bounded hread

theorem TrustAction.bounded_of_op (op : TrustOp) (version : Str) :
    ({ op := op, version := version } : TrustAction).Bounded :=
  ⟨by simp, by simp, by simp⟩

variable {route : Str} {targets : List Str}

theorem parseMesh_bounded {grantEndpoint : Str} {a : TrustAction}
    (h : parseMesh route body grantEndpoint targets = .ok a) : a.Bounded := by
  unfold parseMesh at h
  dsimp only at h
  split at h
  · cases h
  split at h
  · cases h
  case h_2 ip hip =>
    split_ifs at h
    cases h
    exact ⟨isIPLiteral_length (Option.filter_eq_some_iff.mp hip).2, by simp, by simp⟩

theorem parseIsolation_bounded {a : TrustAction} (h : parseIsolation payload route body self targets = .ok a) :
    a.Bounded := by
  unfold parseIsolation at h
  split at h
  · cases h
  split_ifs at h
  · cases hallow : parseAllow body with
    | error e => simp [hallow, bind, Except.bind] at h
    | ok allow =>
      cases hrules : parseBaselines payload self with
      | error e => simp [hallow, hrules, bind, Except.bind] at h
      | ok rules =>
        simp only [hallow, hrules, bind, Except.bind] at h
        cases h
        exact ⟨by simp, parseAllow_bounded hallow, parseBaselines_bounded hrules⟩
  · cases h
    exact TrustAction.bounded_of_op _ _

theorem parseEndpointAction_bounded {kind : Str} {a : TrustAction}
    (h : parseEndpointAction payload kind route body self targets = .ok a) : a.Bounded := by
  unfold parseEndpointAction at h
  split_ifs at h
  · cases hrules : parseBaselines payload self with
    | error e => simp [hrules, bind, Except.bind] at h
    | ok rules =>
      simp only [hrules, bind, Except.bind] at h
      cases h
      exact ⟨by simp, by simp, parseBaselines_bounded hrules⟩
  · split at h
    · cases h
    · cases h
      exact TrustAction.bounded_of_op _ _
  · exact parseIsolation_bounded h

theorem parseAction_bounded {kind grantEndpoint : Str} {a : TrustAction}
    (h : parseAction payload kind grantEndpoint self = .ok a) : a.Bounded := by
  rcases parseAction_ok h with ⟨-, _, _, _, hmesh⟩ | ⟨-, -, _, _, _, hother⟩
  · exact parseMesh_bounded hmesh
  · exact parseEndpointAction_bounded hother

end Parse

namespace TrustState.Bounded

variable {s : TrustState} {g : ResponseGrant} {a : TrustAction}

theorem mark (h : s.Bounded) (hg : g.Bounded) (mesh : Bool) : (s.mark mesh g.issuedAt).Bounded := by
  cases mesh
  · exact { h with isoSeen := hg.issuedAt }
  · exact { h with meshSeen := hg.issuedAt }

theorem withMesh (h : s.Bounded) {mesh : List TrustMeshSlot} (hlen : mesh.length ≤ maxMesh)
    (hmesh : ∀ m ∈ mesh, m.Bounded) : ({ s with mesh := mesh } : TrustState).Bounded :=
  { h with mesh := ⟨hlen, hmesh⟩ }

theorem applyIsolation (h : s.Bounded) (hg : g.Bounded) (ha : a.Bounded) : (s.applyIsolation g a).2.Bounded := by
  unfold TrustState.applyIsolation
  split
  · exact h
  split
  · exact h
  · refine ⟨?_, hg.grantID, hg.issuedAt, h.isoSeen, h.meshSeen, ?_, h.mesh, ?_⟩
    · dsimp only
      split
      · decide
      · split
        · decide
        · decide
    · dsimp only
      split
      · exact ha.allow
      · simp
    · dsimp only
      split
      · exact ha.rules
      · simp

theorem length_updateFirst {α : Type} (p : α → Bool) (f : α → α) (l : List α) :
    (updateFirst p f l).length = l.length := by
  induction l with
  | nil => rfl
  | cons a l ih =>
    unfold updateFirst
    split
    · rfl
    · rw [length_cons, ih, length_cons]

theorem applyMesh (h : s.Bounded) (hg : g.Bounded) (ha : a.Bounded) : (s.applyMesh g.issuedAt a).2.Bounded := by
  unfold TrustState.applyMesh
  dsimp only
  split
  · split
    · refine h.withMesh ((length_updateFirst ..).trans_le h.mesh.1) fun m hm => ?_
      rcases mem_updateFirst hm with hm | ⟨x, hx, -, rfl⟩
      · exact h.mesh.2 m hm
      · exact ⟨(h.mesh.2 x hx).ip, hg.issuedAt⟩
    · exact h
  · split
    · have hlen : ∀ m : TrustMeshSlot, (s.mesh ++ [m]).length ≤ maxMesh := fun m => by
        rw [length_append, length_singleton]
        omega
      have hmem : ∀ {m : TrustMeshSlot}, m.Bounded → ∀ x ∈ s.mesh ++ [m], x.Bounded := fun hm =>
        forall_mem_append.mpr ⟨h.mesh.2, forall_mem_singleton.mpr hm⟩
      split
      · exact h.withMesh (hlen _) (hmem ⟨ha.ip, hg.issuedAt⟩)
      · exact h.withMesh (hlen _) (hmem ⟨ha.ip, (⟨by decide, by decide⟩ : FitsInt64 0)⟩)
    · exact h

theorem length_forgetMesh_le (now : Int) (fuel : ℕ) (l : List TrustMeshSlot) :
    (forgetMesh now fuel l).length ≤ l.length := by
  induction fuel generalizing l with
  | zero => exact Nat.le_refl _
  | succ fuel ih =>
    cases l with
    | nil => exact Nat.le_refl _
    | cons m l =>
      unfold forgetMesh
      split
      · split
        · exact Nat.zero_le _
        · refine (ih _).trans ?_
          simp only [length_cons, length_dropLast]
          omega
      · exact Nat.succ_le_succ (ih l)

theorem forgetMesh (h : s.Bounded) (now : Int) :
    ({ s with mesh := Agent.forgetMesh now s.mesh.length s.mesh } : TrustState).Bounded :=
  h.withMesh ((length_forgetMesh_le ..).trans h.mesh.1) fun m hm => h.mesh.2 m (mem_forgetMesh hm)

theorem judgeGrant {C : Crypto} {t : TrustContext} {now : Int} {changed : Bool} (h : t.state.Bounded) (hg : g.Bounded)
    (hjudge : Agent.judgeGrant C t g payload now = some (changed, s)) : s.Bounded := by
  rcases judgeGrant_some hjudge with rfl | ⟨a, -, hparse, -, rfl⟩
  · exact h.mark hg _
  · have ha := parseAction_bounded hparse
    cases isMeshKind g.actionKind
    · exact ((h.mark hg false).applyIsolation hg ha).forgetMesh now
    · exact ((h.mark hg true).applyMesh hg ha).forgetMesh now

end TrustState.Bounded

end Ominull.Agent
