import Ominull.Agent.Grant
import Ominull.Lib.Lines

/-!
The agent's durable replay cache: a text file with one line for each accepted grant, its id, its
nonce and when it expires. An entry guards while the grant has not expired for a minute.
-/

namespace Ominull.Agent.ReplayCache

open Lib List

/-- The two implementations, which read and end lines in their own ways. -/
inductive Platform where
  | posix
  | windows

def max : ℕ := 4096

def graceSeconds : Int := 60

def keep (exp now : Int) : Bool := now - graceSeconds < exp

theorem keep_of_lt {exp now : Int} (h : now < exp + 60) : keep exp now = true :=
  decide_eq_true (show now - 60 < exp by omega)

/-- An entry as `sscanf` reads it with `"%63s %64s %lld"`; what is missing stays empty or 0. -/
structure Entry where
  grantID : Str
  nonce : Str
  exp : Int
  deriving DecidableEq

def scanEntry (line : Str) : Option Entry :=
  match scanWord 63 line with
  | none => none
  | some (grantID, rest) =>
    match scanWord 64 rest with
    | none => some ⟨grantID, [], 0⟩
    | some (nonce, rest) =>
      match scanInt rest with
      | none => some ⟨grantID, nonce, 0⟩
      | some (exp, _) => some ⟨grantID, nonce, exp⟩

def Entry.replays (e : Entry) (grantID nonce : Str) : Bool :=
  e.grantID = grantID || (nonce ≠ [] && e.nonce = nonce)

namespace Platform

/-- The lines of the file as C strings: `fgets` into 256 bytes, or `strtok` over the whole file. -/
def readLines : Platform → Str → List Str
  | posix, content => (fgetsAll 255 content).map cString
  | windows, content => strtokAll (cString content)

def writeLine : Platform → Str → Str
  | posix, line => if line.getLast? = some 0x0a then line else line ++ [0x0a]
  | windows, line => line ++ [0x0d, 0x0a]

def lineEnd : Platform → Str
  | posix => [0x0a]
  | windows => [0x0d, 0x0a]

end Platform

/-- The loop over the lines: none where the grant is a replay or the cache is full. -/
def retain (grantID nonce : Str) (now : Int) : List Str → List Str → Option (List Str)
  | retained, [] => some retained
  | retained, line :: lines =>
    match scanEntry line with
    | none => retain grantID nonce now retained lines
    | some e =>
      if !keep e.exp now then retain grantID nonce now retained lines
      else if e.replays grantID nonce then none
      else if max - 1 ≤ retained.length then none
      else retain grantID nonce now (retained ++ [line]) lines

/-- What is written for a grant, without its line end. -/
def entryText (grantID nonce : Str) (expiresAt : Int) : Str :=
  grantID ++ [0x20] ++ (if nonce = [] then str "-" else nonce) ++ [0x20] ++ decimalInt expiresAt

/-- `ReplayCache_CheckAndRecord` where every write succeeds: whether the grant is accepted, and the
file afterwards. -/
def checkAndRecord (p : Platform) (content grantID nonce : Str) (expiresAt now : Int) : Bool × Str :=
  if grantID = [] then (false, content)
  else
    match retain grantID nonce now [] (p.readLines content) with
    | none => (false, content)
    | some retained =>
      (true, retained.flatMap p.writeLine ++ (entryText grantID nonce expiresAt ++ p.lineEnd))

/-! ## Lines -/

variable {p : Platform} {grantID nonce : Str} {exp now : Int}

theorem Platform.not_mem_readLines {content line : Str} (h : line ∈ p.readLines content) : (0 : UInt8) ∉ line := by
  cases p with
  | posix =>
    obtain ⟨chunk, -, rfl⟩ := mem_map.mp h
    exact not_mem_cString chunk
  | windows => exact fun h0 => not_mem_cString content (mem_of_mem_strtokAll h h0)

theorem Platform.closed_writeLine (p : Platform) (line : Str) : Closed (p.writeLine line) := by
  cases p with
  | posix =>
    rw [writeLine]
    split_ifs with hend
    · exact .inr ⟨line.dropLast, (dropLast_append_getLast? _ hend).symm⟩
    · exact closed_append_lineEnd line
  | windows =>
    show Closed (line ++ [0x0d, 0x0a])
    rw [show line ++ [0x0d, 0x0a] = line ++ [0x0d] ++ [0x0a] by simp]
    exact closed_append_lineEnd _

theorem Platform.not_mem_writeLine {line : Str} (h : (0 : UInt8) ∉ line) : (0 : UInt8) ∉ p.writeLine line := by
  cases p with
  | posix =>
    rw [writeLine]
    split_ifs
    · exact h
    · simpa using h
  | windows => simpa [writeLine] using h

theorem Platform.readLines_append {s : Str} (hclosed : Closed s) (hzero : (0 : UInt8) ∉ s) (t : Str) :
    p.readLines (s ++ t) = p.readLines s ++ p.readLines t := by
  cases p with
  | posix => rw [readLines, fgetsAll_append hclosed, map_append, readLines, readLines]
  | windows =>
    rw [readLines, cString_append hzero, strtokAll_append hclosed, readLines, readLines,
      cString_of_forall hzero]

/-- The text of a line of an entry: some of it, no line end and no zero byte, and short enough for the
buffer it is read into. -/
structure LineText (s : Str) : Prop where
  ne_nil : s ≠ []
  plain : ∀ b ∈ s, b ≠ 0 ∧ b ≠ 0x0a ∧ b ≠ 0x0d
  short : s.length < 255

/-- The line of a text as it is read back. -/
def Platform.lineOf : Platform → Str → Str
  | posix, s => s ++ [0x0a]
  | windows, s => s

theorem Platform.writeLine_lineOf (p : Platform) (s : Str) : p.writeLine (p.lineOf s) = s ++ p.lineEnd := by
  cases p with
  | posix => simp [writeLine, lineOf, lineEnd]
  | windows => rfl

theorem LineText.readLines {s : Str} (h : LineText s) : p.readLines (s ++ p.lineEnd) = [p.lineOf s] := by
  have hzero : (0 : UInt8) ∉ s := fun h0 => (h.plain 0 h0).1 rfl
  cases p with
  | posix =>
    have hline := fgetsAll_line (fun hb => (h.plain 0x0a hb).2.1 rfl) h.short
    rw [Platform.readLines, Platform.lineEnd, hline]
    exact congrArg (fun l => [l]) (cString_of_forall (by simpa using hzero))
  | windows =>
    rw [Platform.readLines, Platform.lineEnd, cString_of_forall (by simpa using hzero)]
    exact strtokAll_line (fun b hb => ⟨(h.plain b hb).2.2, (h.plain b hb).2.1⟩) h.ne_nil

theorem LineText.mem_rewritten {s : Str} (h : LineText s) {retained : List Str} (t : Str)
    (hzero : ∀ line ∈ retained, (0 : UInt8) ∉ line) (hs : p.lineOf s ∈ retained) :
    p.lineOf s ∈ p.readLines (retained.flatMap p.writeLine ++ t) := by
  obtain ⟨before, after, rfl⟩ := append_of_mem hs
  have hbefore : (0 : UInt8) ∉ before.flatMap p.writeLine := by
    intro h0
    obtain ⟨line, hline, h0⟩ := mem_flatMap.mp h0
    exact Platform.not_mem_writeLine (hzero line (mem_append_left _ hline)) h0
  have hclosed := closed_flatMap (l := before) fun line _ => p.closed_writeLine line
  have hown : Closed (s ++ p.lineEnd) := p.writeLine_lineOf s ▸ p.closed_writeLine _
  have hownZero : (0 : UInt8) ∉ s ++ p.lineEnd := by
    rw [← p.writeLine_lineOf s]
    exact Platform.not_mem_writeLine (hzero _ (mem_append_right _ mem_cons_self))
  rw [flatMap_append, flatMap_cons, p.writeLine_lineOf, append_assoc, append_assoc,
    Platform.readLines_append hclosed hbefore, Platform.readLines_append hown hownZero, h.readLines]
  apply mem_append_right
  exact mem_append_left _ (mem_singleton_self _)

theorem LineText.mem_recorded {s : Str} (h : LineText s) {retained : List Str}
    (hzero : ∀ line ∈ retained, (0 : UInt8) ∉ line) :
    p.lineOf s ∈ p.readLines (retained.flatMap p.writeLine ++ (s ++ p.lineEnd)) := by
  have hclosed := closed_flatMap (l := retained) fun line _ => p.closed_writeLine line
  have hretained : (0 : UInt8) ∉ retained.flatMap p.writeLine := by
    intro h0
    obtain ⟨line, hline, h0⟩ := mem_flatMap.mp h0
    exact Platform.not_mem_writeLine (hzero line hline) h0
  rw [Platform.readLines_append hclosed hretained, h.readLines]
  exact mem_append_right _ (mem_singleton_self _)

/-! ## The loop -/

/-- The lines kept are lines of the file, and of those that are read as an entry that still guards
none is a replay and all are kept. -/
theorem retain_spec {lines retained kept : List Str} (h : retain grantID nonce now retained lines = some kept) :
    (∀ line ∈ kept, line ∈ retained ∨ line ∈ lines) ∧ (∀ line ∈ retained, line ∈ kept) ∧
      ∀ line ∈ lines, ∀ e, scanEntry line = some e → keep e.exp now →
        e.replays grantID nonce = false ∧ line ∈ kept := by
  induction lines generalizing retained with
  | nil =>
    cases h
    exact ⟨fun _ h => .inl h, fun _ h => h, nofun⟩
  | cons line lines ih =>
    rw [retain] at h
    have hskip (h : retain grantID nonce now retained lines = some kept)
        (hline : ∀ e, scanEntry line = some e → ¬keep e.exp now) :
        (∀ l ∈ kept, l ∈ retained ∨ l ∈ line :: lines) ∧ (∀ l ∈ retained, l ∈ kept) ∧
          ∀ l ∈ line :: lines, ∀ e, scanEntry l = some e → keep e.exp now →
            e.replays grantID nonce = false ∧ l ∈ kept := by
      obtain ⟨hsub, hkept, hall⟩ := ih h
      refine ⟨fun l hl => (hsub l hl).imp_right (mem_cons_of_mem _), hkept, fun l hl e he hkeep => ?_⟩
      obtain rfl | hl := mem_cons.mp hl
      · exact absurd hkeep (hline e he)
      · exact hall l hl e he hkeep
    cases he : scanEntry line with
    | none =>
      rw [he] at h
      exact hskip h fun e he' => by rw [he] at he'; cases he'
    | some e =>
      rw [he] at h
      dsimp only at h
      split_ifs at h with hkeep hreplay hfull
      · exact hskip h fun e' he' => by
          obtain rfl := Option.some.inj (he.symm.trans he')
          simpa using hkeep
      · obtain ⟨hsub, hkept, hall⟩ := ih h
        refine ⟨fun l hl => ?_, fun l hl => hkept l (mem_append_left _ hl), fun l hl e' he' hkeep' => ?_⟩
        · obtain hl | hl := hsub l hl
          · obtain hl | hl := mem_append.mp hl
            · exact .inl hl
            · exact .inr (mem_cons.mpr (.inl (mem_singleton.mp hl)))
          · exact .inr (mem_cons_of_mem _ hl)
        · obtain rfl | hl := mem_cons.mp hl
          · obtain rfl := Option.some.inj (he.symm.trans he')
            exact ⟨by simpa using hreplay, hkept l (mem_append_right _ (mem_singleton_self _))⟩
          · exact hall l hl e' he' hkeep'

end Ominull.Agent.ReplayCache
