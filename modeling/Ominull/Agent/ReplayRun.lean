import Ominull.Agent.ReplayCache
import Ominull.Agent.JobGrant
import Ominull.Lib.Run

/-! Whether the replay cache accepts a grant at most once. -/

namespace Ominull.Agent.ReplayCache

open Lib List

/-- The cache file, the last clock reading and the grants accepted so far. -/
structure History where
  content : Str
  clock : Int
  accepted : List HeldGrant

/-- A grant verified at one clock reading and checked at another, or a restart or a call that cannot
open, lock or read the file, which change nothing. -/
inductive Event where
  | offer (g : HeldGrant) (payload key : Str) (verified checked : Int)
  | restart

/-- One event; the clock does not step back, and only a grant that verifies is checked. -/
def step (C : Crypto) (p : Platform) (endpointID : Str) (s : History) : Event → Option History
  | .offer g payload key verified checked =>
    if s.clock ≤ verified ∧ verified ≤ checked then
      if verifyResponseGrantKey C g.1 payload endpointID key verified then
        let r := checkAndRecord p s.content g.1.grantID g.1.nonce g.1.expiresAt checked
        some ⟨r.2, checked, if r.1 then s.accepted ++ [g] else s.accepted⟩
      else some { s with clock := checked }
    else none
  | .restart => some s

def Blankless (g : HeldGrant) : Prop := ∀ b ∈ g.1.grantID ++ g.1.nonce, isSpace b = false

instance decidableBlankless (g : HeldGrant) : Decidable (Blankless g) :=
  inferInstanceAs (Decidable (∀ _ ∈ g.1.grantID ++ g.1.nonce, _))

/-- The event is no check of the grant, or one before the minute after its expiry has passed, of a grant
without blanks. -/
def InTime (g : HeldGrant) (_ : History) : Event → Prop
  | .offer g' _ _ _ checked => g' = g → checked < g.1.expiresAt + 60 ∧ Blankless g
  | .restart => True

instance decidableInTime (g : HeldGrant) (s : History) (e : Event) : Decidable (InTime g s e) := by
  cases e <;> dsimp only [InTime] <;> infer_instance

def HeldGrant.entryText (g : HeldGrant) : Str := ReplayCache.entryText g.1.grantID g.1.nonce g.1.expiresAt

variable {C : Crypto} {p : Platform} {endpointID : Str} {g : HeldGrant}

def nonceText (nonce : Str) : Str := if nonce = [] then str "-" else nonce

theorem nonceText_ne_nil (nonce : Str) : nonceText nonce ≠ [] := by
  unfold nonceText
  split_ifs with h
  · decide
  · exact h

section Text

variable (hblank : Blankless g)

include hblank in
theorem not_isSpace_grantID : ∀ b ∈ g.1.grantID, isSpace b = false := fun b hb =>
  hblank b (mem_append_left _ hb)

include hblank in
theorem not_isSpace_nonceText : ∀ b ∈ nonceText g.1.nonce, isSpace b = false := by
  intro b hb
  unfold nonceText at hb
  split_ifs at hb
  · obtain rfl : b = 0x2d := mem_singleton.mp hb
    rfl
  · exact hblank b (mem_append_right _ hb)

theorem length_grantID (g : HeldGrant) : g.1.grantID.length ≤ 63 :=
  Nat.le_of_lt_succ (g.2.texts (g.1.grantID, 64) (by simp [ResponseGrant.texts])).1

theorem length_nonceText (g : HeldGrant) : (nonceText g.1.nonce).length ≤ 64 := by
  unfold nonceText
  split_ifs
  · decide
  · exact Nat.le_of_lt_succ (g.2.texts (g.1.nonce, 65) (by simp [ResponseGrant.texts])).1

theorem entryText_eq (g : HeldGrant) : HeldGrant.entryText g =
    g.1.grantID ++ (0x20 :: (nonceText g.1.nonce ++ (0x20 :: decimalInt g.1.expiresAt))) := by
  simp [HeldGrant.entryText, entryText, nonceText]

include hblank in
theorem scanEntry_entryText (hne : g.1.grantID ≠ []) (p : Platform) :
    scanEntry (p.lineOf (HeldGrant.entryText g)) = some ⟨g.1.grantID, nonceText g.1.nonce, g.1.expiresAt⟩ := by
  have hline : ∃ r : Str, (∀ b ∈ r.head?, isDigit b = false) ∧ p.lineOf (HeldGrant.entryText g) =
      g.1.grantID ++ (0x20 :: (nonceText g.1.nonce ++ (0x20 :: (decimalInt g.1.expiresAt ++ r)))) := by
    cases p with
    | posix => exact ⟨[0x0a], fun b hb => by cases hb; rfl, by simp [Platform.lineOf, entryText_eq]⟩
    | windows => exact ⟨[], by simp, by simp [Platform.lineOf, entryText_eq]⟩
  obtain ⟨r, hr, hline⟩ := hline
  have hspace : isSpace 0x20 = true := rfl
  have hid := scanWord_append hne (length_grantID g) (not_isSpace_grantID hblank)
    (r := 0x20 :: (nonceText g.1.nonce ++ (0x20 :: (decimalInt g.1.expiresAt ++ r)))) (by simpa using hspace)
  have hnonce := scanWord_append (nonceText_ne_nil g.1.nonce) (length_nonceText g) (not_isSpace_nonceText hblank)
    (r := 0x20 :: (decimalInt g.1.expiresAt ++ r)) (by simpa using hspace)
  have hexp := scanInt_decimalInt g.2.expiresAt.1 g.2.expiresAt.2 hr
  simp only [scanEntry, hline, hid, scanWord_cons hspace, hnonce, scanInt_cons hspace, hexp]

theorem isSpace_of_ends {b : UInt8} (h : isSpace b = false) : b ≠ 0x0a ∧ b ≠ 0x0d := by
  constructor
  · rintro rfl
    cases h
  · rintro rfl
    cases h

include hblank in
theorem lineText_entryText : LineText (HeldGrant.entryText g) := by
  have hdecimal : ∀ b ∈ decimalInt g.1.expiresAt, b ≠ 0 ∧ isSpace b = false := by
    intro b hb
    have hdigit : ∀ n, ∀ b ∈ decimal n, b ≠ 0 ∧ isSpace b = false := by
      intro n b hb
      have hd := isDigit_of_mem_decimal hb
      refine ⟨?_, isSpace_of_isDigit hd⟩
      rintro rfl
      cases hd
    cases hn : g.1.expiresAt with
    | ofNat n =>
      rw [hn] at hb
      exact hdigit n b hb
    | negSucc n =>
      rw [hn] at hb
      obtain rfl | hb := mem_cons.mp hb
      · decide
      · exact hdigit _ b hb
  have hzero : ∀ t ∈ g.1.texts, ∀ b ∈ t.1, b ≠ 0 := fun t ht b hb h0 => (g.2.texts t ht).2 (h0 ▸ hb)
  refine ⟨?_, ?_, ?_⟩
  · rw [entryText_eq]
    simp
  · rw [entryText_eq]
    intro b hb
    simp only [mem_append, mem_cons] at hb
    rcases hb with hb | rfl | hb | rfl | hb
    · exact ⟨hzero (g.1.grantID, 64) (by simp [ResponseGrant.texts]) b hb,
        isSpace_of_ends (not_isSpace_grantID hblank b hb)⟩
    · decide
    · refine ⟨?_, isSpace_of_ends (not_isSpace_nonceText hblank b hb)⟩
      unfold nonceText at hb
      split_ifs at hb
      · obtain rfl : b = 0x2d := mem_singleton.mp hb
        decide
      · exact hzero (g.1.nonce, 65) (by simp [ResponseGrant.texts]) b hb
    · decide
    · exact ⟨(hdecimal b hb).1, isSpace_of_ends (hdecimal b hb).2⟩
  · have hid := length_grantID g
    have hnonce := length_nonceText g
    have hexp := g.2.expiresAt
    have hlength := length_decimalInt_le (n := g.1.expiresAt) (e := 19) (by decide) (by omega)
    rw [entryText_eq]
    simp only [length_append, length_cons]
    omega

end Text

/-! ## One check -/

def Guards (p : Platform) (content : Str) (g : HeldGrant) : Prop :=
  p.lineOf (HeldGrant.entryText g) ∈ p.readLines content

theorem checkAndRecord_cases (p : Platform) (content grantID nonce : Str) (exp now : Int) :
    checkAndRecord p content grantID nonce exp now = (false, content) ∨
      ∃ retained, grantID ≠ [] ∧ retain grantID nonce now [] (p.readLines content) = some retained ∧
        checkAndRecord p content grantID nonce exp now =
          (true, retained.flatMap p.writeLine ++ (entryText grantID nonce exp ++ p.lineEnd)) := by
  unfold checkAndRecord
  split_ifs with hid
  · exact .inl rfl
  · split
    · exact .inl rfl
    · rename_i retained hretained
      exact .inr ⟨retained, hid, hretained, rfl⟩

theorem retained_no_zero {content grantID nonce : Str} {now : Int} {retained : List Str}
    (h : retain grantID nonce now [] (p.readLines content) = some retained) :
    ∀ line ∈ retained, (0 : UInt8) ∉ line := by
  intro line hline
  obtain hnil | hread := (retain_spec h).1 line hline
  · cases hnil
  · exact Platform.not_mem_readLines hread

theorem refused_of_guards {content : Str} {now : Int} (hblank : Blankless g) (hne : g.1.grantID ≠ [])
    (hguards : Guards p content g) (hnow : now < g.1.expiresAt + 60) (exp : Int) :
    checkAndRecord p content g.1.grantID g.1.nonce exp now = (false, content) := by
  obtain h | ⟨retained, -, hretain, -⟩ := checkAndRecord_cases p content g.1.grantID g.1.nonce exp now
  · exact h
  · have hkeep := keep_of_lt hnow
    have hreplay := ((retain_spec hretain).2.2 _ hguards _ (scanEntry_entryText hblank hne p) hkeep).1
    simp [Entry.replays] at hreplay

theorem guards_of_guards {content grantID nonce : Str} {exp now : Int} (hblank : Blankless g)
    (hne : g.1.grantID ≠ []) (hguards : Guards p content g) (hnow : now < g.1.expiresAt + 60) :
    Guards p (checkAndRecord p content grantID nonce exp now).2 g := by
  obtain h | ⟨retained, -, hretain, h⟩ := checkAndRecord_cases p content grantID nonce exp now
  · rw [h]
    exact hguards
  · rw [h]
    have hkeep := keep_of_lt hnow
    have hkept := ((retain_spec hretain).2.2 _ hguards _ (scanEntry_entryText hblank hne p) hkeep).2
    exact (lineText_entryText hblank).mem_rewritten _ (retained_no_zero hretain) hkept

theorem guards_of_accepted {content : Str} {now : Int} (hblank : Blankless g)
    (h : (checkAndRecord p content g.1.grantID g.1.nonce g.1.expiresAt now).1 = true) :
    g.1.grantID ≠ [] ∧
      Guards p (checkAndRecord p content g.1.grantID g.1.nonce g.1.expiresAt now).2 g := by
  obtain heq | ⟨retained, hne, hretain, heq⟩ :=
    checkAndRecord_cases p content g.1.grantID g.1.nonce g.1.expiresAt now
  · rw [heq] at h
    cases h
  · rw [heq]
    exact ⟨hne, (lineText_entryText hblank).mem_recorded (retained_no_zero hretain)⟩

/-! ## Runs -/

/-- Once accepted, the grant has its entry until the minute after its expiry has passed. -/
structure Once (p : Platform) (g : HeldGrant) (s : History) : Prop where
  count : s.accepted.count g ≤ 1
  guarded : g ∈ s.accepted → s.clock < g.1.expiresAt + 60 →
    Blankless g ∧ g.1.grantID ≠ [] ∧ Guards p s.content g

theorem Once.step {s t : History} {e : Event} (h : Once p g s) (hok : InTime g s e)
    (hstep : step C p endpointID s e = some t) : Once p g t := by
  cases e with
  | restart =>
    cases hstep
    exact h
  | offer g' payload key verified checked =>
    rw [ReplayCache.step] at hstep
    split_ifs at hstep with hclock hverify
    · cases hstep
      by_cases hg : g' = g
      · -- a check of the grant itself: refused if it was accepted before
        subst hg
        obtain ⟨hnow, hblank⟩ := hok rfl
        by_cases hmem : g' ∈ s.accepted
        · obtain ⟨-, hne, hguards⟩ := h.guarded hmem (by omega)
          have hrefused := refused_of_guards hblank hne hguards hnow g'.1.expiresAt
          rw [hrefused]
          exact ⟨h.count, fun _ _ => ⟨hblank, hne, hguards⟩⟩
        · have hzero : s.accepted.count g' = 0 := count_eq_zero.mpr hmem
          constructor
          · dsimp only
            split_ifs
            · rw [count_append, hzero]
              simp
            · omega
          · intro hmem' _
            split_ifs at hmem' with hacc
            · exact ⟨hblank, guards_of_accepted hblank hacc⟩
            · exact absurd hmem' hmem
      · -- a check of another grant
        have hsame : ∀ {b : Bool}, (if b then s.accepted ++ [g'] else s.accepted).count g = s.accepted.count g := by
          intro b
          split_ifs
          · simp [count_append, hg]
          · rfl
        constructor
        · exact hsame.trans_le h.count
        · intro hmem hnow
          have hmem' : g ∈ s.accepted := count_pos_iff.mp (by rw [← hsame]; exact count_pos_iff.mpr hmem)
          obtain ⟨hblank, hne, hguards⟩ := h.guarded hmem' (by dsimp only at hnow; omega)
          exact ⟨hblank, hne, guards_of_guards hblank hne hguards hnow⟩
    · cases hstep
      exact ⟨h.count, fun hmem hnow => h.guarded hmem (by dsimp only at hnow; omega)⟩

/-- From any file, in every run in which the grant is checked only before the minute after its expiry
has passed, and has no blanks, it is accepted at most once. -/
theorem accepted_once (C : Crypto) (p : Platform) (endpointID : Str) (g : HeldGrant) (s t : History)
    (hs : s.accepted = [])
    (hrun : Run (Guarded (InTime g) (StepOf (step C p endpointID))) s t) : t.accepted.count g ≤ 1 := by
  have hinit : Once p g s := by
    constructor
    · rw [hs]
      exact Nat.zero_le 1
    · rw [hs]
      intro hmem
      cases hmem
  exact (hrun.preserves (I := Once p g) (fun _ _ _ h hst => h.step hst.1 hst.2) hinit).count

def sampleGrant : ResponseGrant :=
  let unsigned : ResponseGrant :=
    { version := 2, grantID := str "g1", tenantID := str "t", endpointID := str "e",
      actionKind := str "script_exec", actionDigest := sha256Hex Crypto.sample (str "payload"),
      operatorID := str "op", issuedAt := 40, expiresAt := 100, nonce := str "n1" }
  { unsigned with signature := hexEncode (Crypto.sample.sign (str "key") unsigned.canonical) }

theorem sampleGrant_held : sampleGrant.Held :=
  ⟨by decide +kernel, by decide +kernel, by decide +kernel, by decide +kernel⟩

def sampleHeld : HeldGrant := ⟨sampleGrant, sampleGrant_held⟩

def sampleOffer (now : Int) : Event :=
  .offer sampleHeld (str "payload") (str "key") now now

/-- Offered when it expires, again after a restart, and again in the last second but one in which it
verifies: accepted once. -/
theorem accepted_once_sampleGrant :
    ∃ t, Run (Guarded (InTime sampleHeld) (StepOf (step Crypto.sample .posix (str "e"))))
        ⟨[], 0, []⟩ t ∧
      t.accepted ≠ [] ∧ t.accepted.count sampleHeld ≤ 1 := by
  refine exists_run [sampleOffer 100, .restart, sampleOffer 159] (fun t => t.accepted.length = 1) (by decide +kernel)
    (by decide +kernel) fun t hrun hlength => ?_
  exact ⟨ne_nil_of_length_pos (by omega), accepted_once Crypto.sample .posix (str "e") _ _ t rfl hrun⟩

/-- In the last second in which it verifies, its entry is gone: it is accepted a second time. -/
theorem sampleGrant_accepted_twice :
    (runList (step Crypto.sample .posix (str "e")) ⟨[], 0, []⟩ [sampleOffer 100, sampleOffer 160]).map
        (fun t => t.accepted.count sampleHeld) = some 2 ∧
      (runList (step Crypto.sample .windows (str "e")) ⟨[], 0, []⟩ [sampleOffer 100, sampleOffer 160]).map
        (fun t => t.accepted.count sampleHeld) = some 2 := by
  decide +kernel

end Ominull.Agent.ReplayCache
