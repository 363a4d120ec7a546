import Ominull.Agent.ReplayCache

/-!
The replay cache when a write fails. The file is truncated before the kept lines are written back, so what a
failed write leaves is the old file or a first part of the new one.
-/

namespace Ominull.Agent.ReplayCache

open Lib List

/-- Where a check fails once nothing speaks against the grant: the file cannot be truncated, or only so many bytes
of the new text come to it. That may be all of them: the flush or the sync can fail behind the last write. -/
inductive Failure where
  | truncate
  | write (n : ℕ)

/-- The text that takes the place of the file. -/
def rewritten (p : Platform) (grantID nonce : Str) (expiresAt : Int) (retained : List Str) : Str :=
  retained.flatMap p.writeLine ++ (entryText grantID nonce expiresAt ++ p.lineEnd)

/-- What a failure leaves of the file. -/
def remains (p : Platform) (content grantID nonce : Str) (expiresAt now : Int) (f : Failure) : Str :=
  match retain grantID nonce now [] (p.readLines content) with
  | none => content
  | some retained =>
    match f with
    | .truncate => content
    | .write n => (rewritten p grantID nonce expiresAt retained).take n

/-- `ReplayCache_CheckAndRecord` where a write fails. -/
def failedCheck (p : Platform) (content grantID nonce : Str) (expiresAt now : Int) (f : Failure) : Bool × Str :=
  if grantID = [] then (false, content) else (false, remains p content grantID nonce expiresAt now f)

/-- A check finds an entry that speaks against the grant. -/
def Found (p : Platform) (content grantID nonce : Str) (now : Int) : Prop :=
  ∃ line ∈ p.readLines content, ∃ e, scanEntry line = some e ∧ keep e.exp now = true ∧ e.replays grantID nonce = true

/-- Whatever an unexpired entry of the first file speaks against, a later check with the second file finds, and
refuses. -/
def LosesNothing (p : Platform) (content content' : Str) (now : Int) : Prop :=
  ∀ line ∈ p.readLines content, ∀ e, scanEntry line = some e → keep e.exp now = true →
    ∀ later grantID nonce expiresAt, now ≤ later → keep e.exp later = true → e.replays grantID nonce = true →
      Found p content' grantID nonce later ∧ (checkAndRecord p content' grantID nonce expiresAt later).1 = false

/-- The text has an entry with the grant's id, and one with its nonce, that expire no earlier. -/
def Holds (p : Platform) (text : Str) (e : Entry) : Prop :=
  (∃ line ∈ p.readLines text, ∃ e', scanEntry line = some e' ∧ e'.grantID = e.grantID ∧ e.exp ≤ e'.exp) ∧
  (e.nonce ≠ [] → ∃ line ∈ p.readLines text, ∃ e', scanEntry line = some e' ∧ e'.nonce = e.nonce ∧ e.exp ≤ e'.exp)

/-- The failure comes before the file is truncated, or behind the last of the lines that are kept. -/
def Spares (p : Platform) (content grantID nonce : Str) (now : Int) : Failure → Prop
  | .truncate => True
  | .write n => ∀ retained, retain grantID nonce now [] (p.readLines content) = some retained →
      (retained.flatMap p.writeLine).length ≤ n

variable {p : Platform} {content text grantID nonce : Str} {now later : Int} {e : Entry}

theorem keep_mono {exp exp' : Int} (h : exp ≤ exp') (hkeep : keep exp now = true) : keep exp' now = true := by
  rw [keep, decide_eq_true_eq] at hkeep ⊢
  omega

theorem refused_of_found (h : Found p text grantID nonce now) (expiresAt : Int) :
    (checkAndRecord p text grantID nonce expiresAt now).1 = false := by
  obtain ⟨line, hline, e, he, hkeep, hreplays⟩ := h
  rw [checkAndRecord]
  split_ifs
  · rfl
  · cases hretain : retain grantID nonce now [] (p.readLines text) with
    | none => rfl
    | some retained =>
      have hnot := ((retain_spec hretain).2.2 line hline e he hkeep).1
      exact absurd (hreplays.symm.trans hnot) (by decide)

theorem length_scanEntry {line : Str} (h : scanEntry line = some e) : e.grantID.length ≤ 63 := by
  have hword : ∀ {w : ℕ} {s x r : Str}, scanWord w s = some (x, r) → x.length ≤ w := by
    intro w s x r hscan
    rw [scanWord] at hscan
    split_ifs at hscan
    cases hscan
    exact length_take_le _ _
  rw [scanEntry] at h
  split at h
  · cases h
  · rename_i x r hscan
    have hx := hword hscan
    split at h
    · cases h
      exact hx
    · split at h
      · cases h
        exact hx
      · cases h
        exact hx

/-- A later check finds an entry that speaks against a grant exactly as long as the text holds it. -/
theorem holds_iff (hkeep : keep e.exp now = true) : Holds p text e ↔
    ∀ later grantID nonce, now ≤ later → keep e.exp later = true → e.replays grantID nonce = true →
      Found p text grantID nonce later := by
  constructor
  · rintro ⟨hid, hnonce⟩ later grantID nonce - hlater hreplays
    rw [Entry.replays, Bool.or_eq_true, Bool.and_eq_true, decide_eq_true_eq, decide_eq_true_eq, decide_eq_true_eq]
      at hreplays
    rcases hreplays with rfl | ⟨hne, rfl⟩
    · obtain ⟨line, hline, e', he', heq, hle⟩ := hid
      exact ⟨line, hline, e', he', keep_mono hle hlater, by simp [Entry.replays, heq]⟩
    · obtain ⟨line, hline, e', he', heq, hle⟩ := hnonce hne
      exact ⟨line, hline, e', he', keep_mono hle hlater, by simp [Entry.replays, heq, hne]⟩
  · intro hall
    -- in the last second in which the entry is kept, only one that expires no earlier is
    have hlast : now ≤ e.exp + 59 := by
      have hlt : now - 60 < e.exp := of_decide_eq_true hkeep
      omega
    have hkept : keep e.exp (e.exp + 59) = true := keep_of_lt (by omega)
    have hle : ∀ {exp : Int}, keep exp (e.exp + 59) = true → e.exp ≤ exp := by
      intro exp h
      have hlt : e.exp + 59 - 60 < exp := of_decide_eq_true h
      omega
    constructor
    · obtain ⟨line, hline, e', he', hkeep', hreplays⟩ :=
        hall _ e.grantID [] hlast hkept (by simp [Entry.replays])
      exact ⟨line, hline, e', he', by simpa [Entry.replays] using hreplays, hle hkeep'⟩
    · intro hne
      obtain ⟨long, hlong⟩ : ∃ long : Str, long.length = 64 := ⟨List.replicate 64 0x61, length_replicate⟩
      obtain ⟨line, hline, e', he', hkeep', hreplays⟩ := hall _ long e.nonce hlast hkept (by simp [Entry.replays, hne])
      -- no entry has an id that long
      have hid : e'.grantID ≠ long := by
        rintro rfl
        have hlength := length_scanEntry he'
        omega
      exact ⟨line, hline, e', he', by simpa [Entry.replays, hid, hne] using hreplays, hle hkeep'⟩

/-! ## Kept lines are read back -/

theorem scanEntry_concat (line : Str) : scanEntry (line ++ [0x0a]) = scanEntry line := by
  have hspace : isSpace 0x0a = true := rfl
  rw [scanEntry, scanEntry, scanWord_concat hspace]
  cases scanWord 63 line with
  | none => rfl
  | some x =>
    obtain ⟨grantID, rest⟩ := x
    dsimp only [Option.map_some]
    rw [scanWord_concat hspace]
    cases scanWord 64 rest with
    | none => rfl
    | some y =>
      obtain ⟨nonce, rest⟩ := y
      dsimp only [Option.map_some]
      have hint := scanInt_concat hspace rest
      cases h : scanInt rest with
      | none =>
        rw [h, Option.map_none, Option.map_eq_none_iff] at hint
        rw [hint]
      | some z =>
        rw [h] at hint
        obtain ⟨z', hz', heq⟩ := Option.map_eq_some_iff.mp hint
        obtain ⟨exp, r⟩ := z
        obtain ⟨exp', r'⟩ := z'
        obtain rfl : exp' = exp := heq
        rw [hz']

/-- The pieces `fgets` reads, cut at a zero byte, are read back from what is written for them. -/
theorem exists_fgets_writeLine {line : Str} (hlength : line.length ≤ 255) (hends : (0x0a : UInt8) ∉ line.dropLast)
    (hne : line ≠ []) :
    ∃ line' ∈ fgetsAll 255 (Platform.posix.writeLine line), line' = line ∨ line' = line ++ [0x0a] := by
  rw [Platform.writeLine]
  split_ifs with hlast
  · have hline : line = line.dropLast ++ [0x0a] := (dropLast_append_getLast? _ hlast).symm
    refine ⟨line, ?_, .inl rfl⟩
    rw [hline, fgetsAll_line hends (by rw [length_dropLast]; omega)]
    exact mem_singleton_self _
  · have hnot : (0x0a : UInt8) ∉ line := by
      intro hmem
      rw [← dropLast_append_getLast hne, mem_append, mem_singleton] at hmem
      rcases hmem with hmem | hmem
      · exact hends hmem
      · exact hlast (by rw [getLast?_eq_some_getLast hne, ← hmem])
    by_cases hshort : line.length < 255
    · refine ⟨line ++ [0x0a], ?_, .inr rfl⟩
      rw [fgetsAll_line hnot hshort]
      exact mem_singleton_self _
    · refine ⟨line, ?_, .inl rfl⟩
      rw [fgetsAll_full hnot (by omega) hne]
      exact mem_cons_self

theorem exists_readLines_writeLine {line : Str} (hline : line ∈ p.readLines content) (he : scanEntry line = some e) :
    ∃ line' ∈ p.readLines (p.writeLine line), scanEntry line' = some e := by
  have hzero : (0 : UInt8) ∉ line := Platform.not_mem_readLines hline
  cases p with
  | posix =>
    obtain ⟨piece, hpiece, rfl⟩ := mem_map.mp hline
    obtain ⟨hlength, hends⟩ := mem_fgetsAll (by decide) hpiece
    obtain ⟨t, ht⟩ : cString piece <+: piece := List.takeWhile_prefix _
    have hne : cString piece ≠ [] := by
      intro hnil
      rw [hnil] at he
      cases he
    have hshort : (cString piece).length ≤ 255 := by
      rw [← ht, length_append] at hlength
      omega
    have hends' : (0x0a : UInt8) ∉ (cString piece).dropLast := by
      intro hmem
      apply hends
      rw [← ht]
      by_cases hnil : t = []
      · rwa [hnil, append_nil]
      · rw [dropLast_append_of_ne_nil hnil]
        exact mem_append_left _ (dropLast_subset _ hmem)
    obtain ⟨line', hline', heq⟩ := exists_fgets_writeLine hshort hends' hne
    have hscan : scanEntry line' = some e := by
      rcases heq with rfl | rfl
      · exact he
      · rw [scanEntry_concat, he]
    have hzero' : (0 : UInt8) ∉ line' := by
      rcases heq with rfl | rfl
      · exact hzero
      · simpa using hzero
    exact ⟨line', mem_map.mpr ⟨line', hline', cString_of_forall hzero'⟩, hscan⟩
  | windows =>
    obtain ⟨hne, hplain⟩ := mem_strtokAll hline
    refine ⟨line, ?_, he⟩
    rw [Platform.readLines, Platform.writeLine, cString_of_forall (by simpa using hzero), strtokAll_line hplain hne]
    exact mem_singleton_self _

theorem exists_readLines_rewritten {retained : List Str} (hretained : ∀ line ∈ retained, line ∈ p.readLines content)
    {line : Str} (hline : line ∈ retained) (he : scanEntry line = some e) (t : Str) :
    ∃ line' ∈ p.readLines (retained.flatMap p.writeLine ++ t), scanEntry line' = some e := by
  have hzero : ∀ l ∈ retained, (0 : UInt8) ∉ p.writeLine l := fun l hl =>
    Platform.not_mem_writeLine (Platform.not_mem_readLines (hretained l hl))
  obtain ⟨line', hline', he'⟩ := exists_readLines_writeLine (hretained line hline) he
  obtain ⟨before, after, rfl⟩ := append_of_mem hline
  have hbefore : (0 : UInt8) ∉ before.flatMap p.writeLine := by
    intro h0
    obtain ⟨l, hl, h0⟩ := mem_flatMap.mp h0
    exact hzero l (mem_append_left _ hl) h0
  refine ⟨line', ?_, he'⟩
  rw [flatMap_append, flatMap_cons, append_assoc, append_assoc,
    Platform.readLines_append (closed_flatMap fun l _ => p.closed_writeLine l) hbefore,
    Platform.readLines_append (p.closed_writeLine line) (hzero line (by simp))]
  exact mem_append_right _ (mem_append_left _ hline')

theorem holds_of_mem {line : Str} (hline : line ∈ p.readLines text) (he : scanEntry line = some e) : Holds p text e :=
  ⟨⟨line, hline, e, he, rfl, Int.le_refl _⟩, fun _ => ⟨line, hline, e, he, rfl, Int.le_refl _⟩⟩

end Ominull.Agent.ReplayCache
