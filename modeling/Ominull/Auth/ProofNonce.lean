import Ominull.Auth.Interleaving

/-! How often one signed action proof is answered with a grant. The nonce table is keyed on the nonce
as it was sent, the signature covers the nonce trimmed and lower-cased. -/

namespace Ominull.Auth

open Lib Response

/-- A call in this phase has recorded its proof's nonce. -/
def Phase.consumed : Phase → Bool
  | .recorded .. | .saved .. | .granted _ => true
  | _ => false

/-- A proof's leading identifiers fit their length fields. -/
def ActionProof.Fits (p : ActionProof) : Prop :=
  p.sessionID.length < 2 ^ 32 ∧ p.tenantID.length < 2 ^ 32

/-- Every request's proof fits its length fields, and a proof sent before with the same canonical
bytes had its nonce spelled the same way. -/
def SpelledAlike (s : State) : Event → Prop
  | .request _ req => req.proof.Fits ∧ ∀ j c, s.calls j = some c →
      c.req.proof.canonicalBytes = req.proof.canonicalBytes → c.req.proof.nonce = req.proof.nonce
  | _ => True

theorem ActionProof.tenantID_eq {p q : ActionProof} (hp : p.Fits) (hq : q.Fits)
    (h : p.canonicalBytes = q.canonicalBytes) : p.tenantID = q.tenantID := by
  have hversion := List.append_cancel_left h
  have hsession := (List.append_inj hversion (by simp [writeUint32])).2
  have htenant := (frame_append_inj hp.1 hq.1 hsession).2
  exact (frame_append_inj hp.2 hq.2 htenant).1

theorem proofNonceKey_congr {r r' : SignGrantRequest} (ht : r.tenantID = r'.tenantID)
    (hn : r.proof.nonce = r'.proof.nonce) : proofNonceKey r = proofNonceKey r' := by
  rw [proofNonceKey, proofNonceKey, ht, hn]

structure NonceInv (s : State) : Prop where
  fits : ∀ i c, s.calls i = some c → c.req.proof.Fits
  alike : ∀ i j c d, s.calls i = some c → s.calls j = some d →
    c.req.proof.canonicalBytes = d.req.proof.canonicalBytes → c.req.proof.nonce = d.req.proof.nonce
  tenant : ∀ i c, s.calls i = some c → c.phase.passed = true →
    c.req.proof.tenantID = c.req.tenantID
  used : ∀ i c, s.calls i = some c → c.phase.consumed = true → proofNonceKey c.req ∈ s.nonces
  once : ∀ i j c d, s.calls i = some c → s.calls j = some d → c.phase.consumed = true →
    d.phase.consumed = true → proofNonceKey c.req = proofNonceKey d.req → i = j

namespace NonceInv

variable {C : Crypto} {s t : State} {i : ℕ} {req : SignGrantRequest} {after : Bool} {p q : Phase}

theorem init : NonceInv State.init := by
  constructor <;> intros <;> contradiction

/-- A call moves on; if it consumes its nonce now, no call had recorded that nonce. -/
theorem advance (h : NonceInv s) {nonces : List Str} (hsub : s.nonces ⊆ nonces)
    (hi : s.calls i = some ⟨req, after, p⟩)
    (hv : q.passed = true → req.proof.tenantID = req.tenantID)
    (hc : q.consumed = true → p.consumed = true ∨
      (proofNonceKey req ∈ nonces ∧ proofNonceKey req ∉ s.nonces)) :
    NonceInv ({ s with nonces := nonces }.setCall i ⟨req, after, q⟩) := by
  -- every call of the new state has the request of an old one
  have hold : ∀ j d, ({ s with nonces := nonces }.setCall i ⟨req, after, q⟩).calls j = some d →
      ∃ d', s.calls j = some d' ∧ d'.req = d.req ∧
        (d.phase.passed = true → d.req.proof.tenantID = d.req.tenantID) ∧
        (d.phase.consumed = true → d'.phase.consumed = true ∨
          (j = i ∧ proofNonceKey d.req ∈ nonces ∧ proofNonceKey d.req ∉ s.nonces)) := by
    intro j d hj
    rcases State.calls_setCall hj with ⟨rfl, rfl⟩ | ⟨-, hj⟩
    · exact ⟨_, hi, rfl, hv, fun hq => (hc hq).imp_right fun hkey => ⟨rfl, hkey⟩⟩
    · exact ⟨d, hj, rfl, h.tenant j d hj, .inl⟩
  constructor
  case fits =>
    intro j d hj
    obtain ⟨d', hj', hreq, -, -⟩ := hold j d hj
    exact hreq ▸ h.fits j d' hj'
  case alike =>
    intro j k c d hj hk hbytes
    obtain ⟨c', hj', hc', -, -⟩ := hold j c hj
    obtain ⟨d', hk', hd', -, -⟩ := hold k d hk
    have hnonce := h.alike j k c' d' hj' hk'
    rw [hc', hd'] at hnonce
    exact hnonce hbytes
  case tenant =>
    intro j d hj
    obtain ⟨-, -, -, htenant, -⟩ := hold j d hj
    exact htenant
  case used =>
    intro j d hj hd
    obtain ⟨d', hj', hreq, -, hcons⟩ := hold j d hj
    rcases hcons hd with hd' | ⟨-, hkey, -⟩
    · exact hsub (hreq ▸ h.used j d' hj' hd')
    · exact hkey
  case once =>
    intro j k c d hj hk hcc hdc hkey
    obtain ⟨c', hj', hc', -, hcons⟩ := hold j c hj
    obtain ⟨d', hk', hd', -, hdons⟩ := hold k d hk
    rcases hcons hcc with hcc' | ⟨hji, -, hcnew⟩ <;> rcases hdons hdc with hdc' | ⟨hki, -, hdnew⟩
    · exact h.once j k c' d' hj' hk' hcc' hdc' (by rw [hc', hd', hkey])
    · exact absurd (h.used j c' hj' hcc') (by rwa [hc', hkey])
    · exact absurd (h.used k d' hk' hdc') (by rwa [hd', ← hkey])
    · exact hji.trans hki.symm

theorem setCall (h : NonceInv s) (hi : s.calls i = some ⟨req, after, p⟩)
    (hv : q.passed = true → req.proof.tenantID = req.tenantID)
    (hc : q.consumed = true → p.consumed = true) : NonceInv (s.setCall i ⟨req, after, q⟩) :=
  h.advance (List.Subset.refl _) hi hv fun hq => .inl (hc hq)

theorem refused (h : NonceInv s) (hi : s.calls i = some ⟨req, after, p⟩) (e : SignError) :
    NonceInv (s.setCall i ⟨req, after, .refused e⟩) :=
  h.setCall hi nofun nofun

theorem congr (h : NonceInv s) (hcalls : t.calls = s.calls) (hnonces : s.nonces ⊆ t.nonces) : NonceInv t := by
  constructor <;> rw [hcalls]
  · exact h.fits
  · exact h.alike
  · exact h.tenant
  · exact fun i c hi hc => hnonces (h.used i c hi hc)
  · exact h.once

theorem request (h : NonceInv s) (hok : SpelledAlike s (.request i req)) :
    NonceInv (s.setCall i ⟨req, after, .called⟩) := by
  obtain ⟨hfits, halike⟩ := hok
  constructor
  case fits =>
    intro j d hj
    rcases State.calls_setCall hj with ⟨-, rfl⟩ | ⟨-, hj⟩
    · exact hfits
    · exact h.fits j d hj
  case alike =>
    intro j k c d hj hk hbytes
    rcases State.calls_setCall hj with ⟨-, rfl⟩ | ⟨-, hj⟩ <;>
      rcases State.calls_setCall hk with ⟨-, rfl⟩ | ⟨-, hk⟩
    · rfl
    · exact (halike k d hk hbytes.symm).symm
    · exact halike j c hj hbytes
    · exact h.alike j k c d hj hk hbytes
  case tenant =>
    intro j d hj hv
    rcases State.calls_setCall hj with ⟨-, rfl⟩ | ⟨-, hj⟩
    · cases hv
    · exact h.tenant j d hj hv
  case used =>
    intro j d hj hc
    rcases State.calls_setCall hj with ⟨-, rfl⟩ | ⟨-, hj⟩
    · cases hc
    · exact h.used j d hj hc
  case once =>
    intro j k c d hj hk hcc hdc
    rcases State.calls_setCall hj with ⟨-, rfl⟩ | ⟨-, hj⟩
    · cases hcc
    rcases State.calls_setCall hk with ⟨-, rfl⟩ | ⟨-, hk⟩
    · cases hdc
    exact h.once j k c d hj hk hcc hdc

theorem step (h : NonceInv s) {e : Event} (hok : SpelledAlike s e) (hstep : Step C s e t) : NonceInv t := by
  cases hstep with
  | unlock | lock | lockReturn => exact h.congr rfl (List.Subset.refl _)
  | request i req _ => exact h.request hok
  | read now hi hread =>
    have htenant := checkBinding_proof_tenantID (checkRequest_ok hread).2.2.1
    exact h.setCall hi (fun _ => htenant) nofun
  | refuse now hi _ | replayed hi _ | noKey hi => exact h.refused hi _
  | record hi hnew =>
    have htenant := h.tenant _ _ hi rfl
    exact h.advance (List.subset_cons_self _ _) hi (fun _ => htenant)
      fun _ => .inr ⟨List.mem_cons_self, hnew⟩
  | @save _ _ _ now session hi idleTTL =>
    have htenant := h.tenant _ _ hi rfl
    have hsaved : NonceInv (s.saveSession { session with idleExpiresAt := now + idleTTL }) :=
      h.congr rfl (List.Subset.refl _)
    exact hsaved.setCall hi (fun _ => htenant) (fun _ => rfl)
  | saveFailed hi | sign hi =>
    have htenant := h.tenant _ _ hi rfl
    exact h.setCall hi (fun _ => htenant) (fun _ => rfl)
  | nonce key _ => exact h.congr rfl (List.subset_cons_self _ _)

theorem run (h : Run (Guarded SpelledAlike (Step C)) State.init s) : NonceInv s :=
  Run.preserves (fun _ _ _ hs hstep => hs.step hstep.1 hstep.2) h NonceInv.init

end NonceInv

/-- As long as no proof is sent again with its nonce spelled another way, two granted calls with the
same canonical proof bytes are one call. -/
theorem one_grant_per_proof {C : Crypto} {s : State}
    (h : Run (Guarded SpelledAlike (Step C)) State.init s) {i j : ℕ} {c d : Call}
    {g g' : EndpointGrant} (hi : s.calls i = some c) (hj : s.calls j = some d)
    (hc : c.phase = .granted g) (hd : d.phase = .granted g')
    (hbytes : c.req.proof.canonicalBytes = d.req.proof.canonicalBytes) : i = j := by
  have hinv := NonceInv.run h
  have htenant : c.req.tenantID = d.req.tenantID := by
    rw [← hinv.tenant i c hi (by rw [hc]; rfl), ← hinv.tenant j d hj (by rw [hd]; rfl)]
    exact ActionProof.tenantID_eq (hinv.fits i c hi) (hinv.fits j d hj) hbytes
  have hkey := proofNonceKey_congr htenant (hinv.alike i j c d hi hj hbytes)
  exact hinv.once i j c d hi hj (by rw [hc]; rfl) (by rw [hd]; rfl) hkey

/-- One proof, granted once. -/
theorem one_grant_per_proof_sample : ∃ s, ∃ c : Call, ∃ g : EndpointGrant,
    Run (Guarded SpelledAlike (Step Crypto.sample)) State.init s ∧ s.calls 0 = some c ∧
      c.phase = .granted g ∧ ∀ j d g', s.calls j = some d → d.phase = .granted g' →
        c.req.proof.canonicalBytes = d.req.proof.canonicalBytes → 0 = j := by
  have hread : Run (Guarded SpelledAlike (Step Crypto.sample)) State.init _ :=
    ((Run.refl _).tailGuarded (.unlock sampleSession rfl rfl) trivial).tailGuarded
      (.request 0 (sampleRequest (str "ab")) rfl) ⟨by unfold ActionProof.Fits; decide +kernel, by intros; contradiction⟩
      |>.tailGuarded (.read (i := 0) 0 rfl (by decide +kernel : _ = Except.ok sampleSession)) trivial
  have hgrant := ((hread.tailGuarded (.record (i := 0) rfl (by decide +kernel)) trivial).tailGuarded
    (.save (i := 0) rfl 900) trivial).tailGuarded
    (.sign (i := 0) rfl [] (str "g1") (str "n1")) trivial
  exact ⟨_, _, _, hgrant, rfl, rfl, fun j d g' hj hd hbytes =>
    one_grant_per_proof hgrant rfl hj rfl hd hbytes⟩

/-- One proof sent twice, its nonce spelled in upper case the first time and in lower case the
second, gets two grants. -/
theorem respelled_nonce_granted_twice : ∃ s, ∃ c d : Call, ∃ g g' : EndpointGrant,
    Run (Step Crypto.sample) State.init s ∧ s.calls 0 = some c ∧ s.calls 1 = some d ∧
      c.phase = .granted g ∧ d.phase = .granted g' ∧
      c.req.proof.canonicalBytes = d.req.proof.canonicalBytes := by
  have hfirst : Run (Step Crypto.sample) State.init _ :=
    ((Run.refl _).tail (.unlock sampleSession rfl rfl)).tail
      (.request 0 (sampleRequest (str "AB")) rfl) |>.tail
      (.read (i := 0) 0 rfl (by decide +kernel : _ = Except.ok sampleSession))
  have hgrant := ((hfirst.tail (.record (i := 0) rfl (by decide +kernel))).tail
    (.saveFailed (i := 0) rfl)).tail (.sign (i := 0) rfl [] (str "g1") (str "n1"))
  have hsecond := (hgrant.tail (.request 1 (sampleRequest (str "ab")) rfl)).tail
    (.read (i := 1) 0 rfl (by decide +kernel : _ = Except.ok sampleSession))
  have hagain := ((hsecond.tail (.record (i := 1) rfl (by decide +kernel))).tail
    (.saveFailed (i := 1) rfl)).tail (.sign (i := 1) rfl [] (str "g2") (str "n2"))
  exact ⟨_, _, _, _, _, hagain, rfl, rfl, rfl, rfl, by decide +kernel⟩

end Ominull.Auth
