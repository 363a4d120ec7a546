import Ominull.Response.Supervision
import Mathlib.Data.List.GetD

/-!
What the cleaning of a heartbeat leaves of its texts: the characters of the cleaned text up to a cut.
-/

namespace Ominull.Response

open Go List

variable {s : Str} {cs : List Char} {n : ℕ}

/-- The first byte of a character starts a rune, and no later byte of it does. -/
theorem utf8EncodeChar_cons (c : Char) :
    ∃ b t, String.utf8EncodeChar c = b :: t ∧ runeStart b = true ∧ ∀ x ∈ t, runeStart x = false := by
  have hstart : ∀ b : UInt8, runeStart b = decide (b.toNat / 64 ≠ 2) := forall_byte (by decide +kernel)
  unfold String.utf8EncodeChar
  dsimp only
  split_ifs with h1 h2 h3
  all_goals
    refine ⟨_, _, rfl, ?_⟩
    simp only [hstart, decide_eq_true_eq, decide_eq_false_iff_not, forall_mem_cons, not_mem_nil,
      false_imp_iff, implies_true, and_true, UInt8.toNat_ofNat', ne_eq, not_not]
    omega

theorem runeStart_head (cs : List Char) : runeStart ((utf8 cs).getD 0 0) = true := by
  cases cs with
  | nil => decide
  | cons c cs =>
    obtain ⟨b, t, hbt, hb, -⟩ := utf8EncodeChar_cons c
    simpa [hbt] using hb

/-- A cut leaves whole characters exactly where a character starts, or the text has ended. -/
theorem take_utf8_iff :
    (∃ ds, (utf8 cs).take n = utf8 ds ∧ ds <+: cs) ↔ runeStart ((utf8 cs).getD n 0) = true := by
  constructor
  · rintro ⟨ds, htake, es, rfl⟩
    rw [utf8_append] at htake ⊢
    rcases le_or_gt (utf8 ds ++ utf8 es).length n with hn | hn
    · rw [getD_eq_default _ _ hn]
      decide
    · have hlen := congrArg List.length htake
      rw [length_take_of_le hn.le] at hlen
      rw [hlen, getD_append_right _ _ _ _ le_rfl, Nat.sub_self]
      exact runeStart_head es
  · intro h
    induction cs generalizing n with
    | nil => exact ⟨[], by simp⟩
    | cons c cs ih =>
      obtain ⟨b, t, hbt, -, ht⟩ := utf8EncodeChar_cons c
      rw [utf8_cons, hbt] at h ⊢
      rcases lt_or_ge n (b :: t).length with hn | hn
      · cases n with
        | zero => exact ⟨[], rfl, List.nil_prefix⟩
        | succ m =>
          -- inside a character no byte starts one
          have hm : m < t.length := Nat.lt_of_succ_lt_succ hn
          rw [getD_append _ _ _ _ hn, getD_cons_succ, getD_eq_getElem _ _ hm,
            ht _ (getElem_mem hm)] at h
          cases h
      · rw [getD_append_right _ _ _ _ hn] at h
        obtain ⟨ds, htake, hds⟩ := ih h
        refine ⟨c :: ds, ?_, (List.cons_prefix_cons).mpr ⟨rfl, hds⟩⟩
        rw [take_append, take_of_length_le hn, htake, utf8_cons, hbt]

theorem runeCut_le (s : Str) : runeCut s n ≤ n := by
  induction n with
  | zero => exact le_rfl
  | succ n ih =>
    rw [runeCut]
    split
    · exact le_rfl
    · omega

theorem runeStart_runeCut (cs : List Char) : runeStart ((utf8 cs).getD (runeCut (utf8 cs) n) 0) = true := by
  induction n with
  | zero => exact runeStart_head cs
  | succ n ih =>
    rw [runeCut]
    split
    · assumption
    · exact ih

/-- The characters of a text once cleaned, before any cut. -/
def cleaned (s : Str) : List Char :=
  joinFields (((runes s).filterMap fun r => match r with
    | .valid c => some c
    | .invalid _ => none).map fun c => if isControl c ∨ c.toNat = 0xfffd then ' ' else c)

theorem mem_of_mem_splitOnP {p : Char → Bool} : ∀ l ∈ cs.splitOnP p, ∀ c ∈ l, c ∈ cs := by
  induction cs with
  | nil => simp
  | cons d cs ih =>
    rw [splitOnP_cons_eq_if_modifyHead]
    split
    · simp only [forall_mem_cons]
      exact ⟨by simp, fun l hl c hc => mem_cons_of_mem _ (ih l hl c hc)⟩
    · cases hsplit : cs.splitOnP p with
      | nil => simp
      | cons l ls =>
        rw [hsplit, forall_mem_cons] at ih
        rw [modifyHead_cons, forall_mem_cons, forall_mem_cons]
        exact ⟨⟨mem_cons_self, fun c hc => mem_cons_of_mem _ (ih.1 c hc)⟩,
          fun l hl c hc => mem_cons_of_mem _ (ih.2 l hl c hc)⟩

theorem mem_joinFields {c : Char} (h : c ∈ joinFields cs) : c = ' ' ∨ c ∈ cs := by
  have hparts : ∀ ls : List (List Char), c ∈ List.intercalate [' '] ls → c = ' ' ∨ ∃ l ∈ ls, c ∈ l := by
    intro ls
    induction ls with
    | nil => simp
    | cons l ls ih => cases ls <;> (simp_all [intercalate_cons_cons]; try grind)
  rcases hparts _ h with rfl | ⟨l, hl, hc⟩
  · exact .inl rfl
  · exact .inr (mem_of_mem_splitOnP l (mem_of_mem_filter hl) c hc)

theorem isControl_cleaned {c : Char} (h : c ∈ cleaned s) : isControl c = false := by
  rcases mem_joinFields h with rfl | h
  · decide
  · obtain ⟨d, -, rfl⟩ := mem_map.mp h
    grind [show isControl ' ' = false from by decide]

/-- A text as cleaning leaves it: valid, printable, short, and the start of the cleaned text. -/
def CleanCut (limit : ℕ) (s text : Str) : Prop :=
  ∃ cs, text = utf8 cs ∧ cs <+: cleaned s ∧ (∀ c ∈ cs, isControl c = false) ∧ text.length ≤ limit

theorem CleanCut.of_kept {limit : ℕ} {text : Str} (h : text = utf8 cs) (hcs : cs <+: cleaned s)
    (hlimit : text.length ≤ limit) : CleanCut limit s text :=
  ⟨cs, h, hcs, fun _ hc => isControl_cleaned (hcs.subset hc), hlimit⟩

theorem cleanHeartbeatText_cut (s : Str) : CleanCut maxHeartbeatText s (cleanHeartbeatText s) := by
  have h : cleanHeartbeatText s = if maxHeartbeatText < (utf8 (cleaned s)).length
      then (utf8 (cleaned s)).take (runeCut (utf8 (cleaned s)) maxHeartbeatText) else utf8 (cleaned s) := rfl
  rw [h]
  split
  · obtain ⟨ds, htake, hds⟩ := take_utf8_iff.mpr (runeStart_runeCut (n := maxHeartbeatText) (cleaned s))
    exact .of_kept htake hds ((length_take_le _ _).trans (runeCut_le _))
  · exact .of_kept rfl List.prefix_rfl (by omega)

theorem process_cut_iff (s : Str) :
    CleanCut 64 s ((cleanHeartbeatText s).take 64) ↔ runeStart ((cleanHeartbeatText s).getD 64 0) = true := by
  obtain ⟨cs, hcs, hpre, -⟩ := cleanHeartbeatText_cut s
  rw [hcs, ← take_utf8_iff]
  constructor
  · rintro ⟨ds, hds, hpre', -⟩
    refine ⟨ds, hds, ?_⟩
    rcases List.prefix_or_prefix_of_prefix hpre' hpre with h | ⟨es, rfl⟩
    · exact h
    · have hlen := congrArg List.length hds
      cases es with
      | nil => simp
      | cons e es =>
        obtain ⟨b, t, hbt, -⟩ := utf8EncodeChar_cons e
        simp [hbt] at hlen
        omega
  · rintro ⟨ds, hds, hpre'⟩
    exact .of_kept hds (hpre'.trans hpre) (length_take_le _ _)

theorem clean_cases {hb out : JobHeartbeat} (h : hb.clean = .ok out) :
    out.message = cleanHeartbeatText hb.message ∧
      out.window = if hb.phase = phaseNeedsHands then hb.window.map cleanWindow else none := by
  by_cases hphase : hb.phase = []
  · have hrunning : phaseRunning ≠ phaseNeedsHands := by decide
    have hempty : [] ≠ phaseNeedsHands := by decide
    simp only [JobHeartbeat.clean, hphase, if_true, true_or, if_neg hrunning] at h
    cases h
    simp only [hphase, if_neg hempty, and_self]
  · simp only [JobHeartbeat.clean, if_neg hphase] at h
    split at h
    · cases h
      simp only [and_self]
    · cases h

/-- After `clean` the message and the window's title are cut at a character, at most 200 bytes long;
the process name, cut once more at byte 64, exactly if a character starts there or the name has ended. -/
theorem clean_texts_iff (hb : JobHeartbeat) :
    (∀ out, hb.clean = .ok out → CleanCut 200 hb.message out.message ∧ ∀ w ∈ hb.window, ∀ v ∈ out.window,
        CleanCut 200 w.title v.title ∧ CleanCut 64 w.process v.process) ↔
      (hb.phase = phaseNeedsHands → ∀ w ∈ hb.window,
        runeStart ((cleanHeartbeatText w.process).getD 64 0) = true) := by
  constructor
  · intro htexts hphase w hw
    obtain ⟨out, hout⟩ : ∃ out, hb.clean = .ok out := ⟨_, by simp [JobHeartbeat.clean, hphase]; rfl⟩
    have htexts := htexts out hout
    rw [(clean_cases hout).2, if_pos hphase] at htexts
    have hcut := (htexts.2 w hw _ (Option.mem_map_of_mem cleanWindow hw)).2
    simp only [cleanWindow] at hcut
    exact (process_cut_iff w.process).mp hcut
  · intro hprocess out hout
    obtain ⟨hmessage, hwindow⟩ := clean_cases hout
    rw [hmessage, hwindow]
    refine ⟨cleanHeartbeatText_cut _, fun w hw v hv => ?_⟩
    split at hv
    · rename_i hphase
      rw [Option.mem_def.mp hw, Option.map_some, Option.mem_some_iff] at hv
      subst hv
      simp only [cleanWindow]
      exact ⟨cleanHeartbeatText_cut _, (process_cut_iff w.process).mpr (hprocess hphase w hw)⟩
    · cases hv

/-- A process name of 63 letters and a two-byte character is cut inside the character. -/
theorem process_cut_inside_character :
    let w : SupervisedWindow := { title := [], process := List.replicate 63 0x61 ++ [0xc3, 0xa9], pid := 7, session := 1 }
    let hb : JobHeartbeat := { jobID := [], leaseID := [], phase := phaseNeedsHands, window := some w }
    ∃ out, hb.clean = .ok out ∧ ∃ v ∈ out.window, ¬CleanCut 64 w.process v.process :=
  ⟨_, rfl, _, rfl, (process_cut_iff _).not.mpr (by decide +kernel)⟩

end Ominull.Response
