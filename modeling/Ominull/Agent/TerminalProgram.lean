import Ominull.Agent.TermJsonText

/-!
The program of a terminal session. The agent runs the one `TermPayload_Parse` reads in the offer's
payload; the grant is over the payload `{"program":"…"}` that the check of its digest puts together
with a search of its own.
-/

namespace Ominull.Agent

open Lib List Option

/-! ## The program that is run -/

/-- What `TermPayload_Parse` has copied so far. -/
structure TerminalOffer where
  sessionID : Str := []
  program : Str := []
  connectToken : Str := []
  deriving DecidableEq

structure TerminalBuffers where
  sessionID : ℕ := 64
  program : ℕ := 64
  connectToken : ℕ := 128

/-- What is copied of a value: it must be a string that fits. -/
def TermJson.Value.copied (v : TermJson.Value) (cap : ℕ) : Option Str :=
  match v with
  | .string raw => TermJson.copyString raw cap
  | _ => none

namespace TerminalOffer

variable (caps : TerminalBuffers)

def member (o : TerminalOffer) (key : Str) (v : TermJson.Value) : Option TerminalOffer :=
  if key = str "session_id" then (v.copied caps.sessionID).map fun s => { o with sessionID := s }
  else if key = str "program" then (v.copied caps.program).map fun s => { o with program := s }
  else if key = str "connect_token" then (v.copied caps.connectToken).map fun s => { o with connectToken := s }
  else some o

def members : ℕ → Bool → TerminalOffer → Str → Option TerminalOffer
  | 0, _, _, _ => none
  | fuel + 1, first, o, s =>
    match TermJson.next first s with
    | none => none
    | some none => some o
    | some (some (key, v, rest)) => (o.member caps key v).bind fun o => members fuel false o rest

end TerminalOffer

def termPayloadParse (caps : TerminalBuffers) (payload : Str) : Option TerminalOffer :=
  match TJ.ws payload with
  | 0x7b :: s => TerminalOffer.members caps (s.length + 1) true {} s
  | _ => none

def ResponseGrant.digestedText (C : Crypto) (g : ResponseGrant) (payload : Str) : Str :=
  if equalsIgnoreCase g.actionDigest (sha256Hex C payload) then payload
  else if g.actionKind = str "terminal_session" then (programPayload payload).getD payload
  else if g.actionKind = str "screen_session" then (screenCanonicalFromOffer payload).getD payload
  else payload

/-- The member whose value is run: the last one called `program`. -/
def lastProgram (ms : List TermJson.Member) : Option TermJson.Member :=
  (ms.filter fun m => m.key = str "program").getLast?

def selectedProgram (payload : Str) : Option TermJson.Member :=
  (TermJson.payloadMembers payload).bind lastProgram

namespace TerminalOffer

variable {caps : TerminalBuffers}

theorem members_eq (fuel : ℕ) (first : Bool) (o : TerminalOffer) (s : Str) :
    members caps fuel first o s =
      (TermJson.members fuel first s).bind fun ms => ms.foldlM (fun o m => o.member caps m.key m.value) o := by
  induction fuel generalizing first o s with
  | zero => rfl
  | succ fuel ih =>
    rw [members, TermJson.members]
    cases TermJson.next first s with
    | none => rfl
    | some found =>
      cases found with
      | none => rfl
      | some m =>
        obtain ⟨key, v, rest⟩ := m
        simp only [ih, bind_map]
        -- a later malformed member and an earlier one that does not fit both end in nothing
        cases TermJson.members fuel false rest with
        | none => cases o.member caps key v <;> rfl
        | some ms => rfl

theorem member_program {o o' : TerminalOffer} {key : Str} {v : TermJson.Value} (h : o.member caps key v = some o') :
    if key = str "program" then v.copied caps.program = some o'.program else o'.program = o.program := by
  rw [member] at h
  by_cases hsession : key = str "session_id"
  · rw [if_pos hsession] at h
    obtain ⟨s, -, rfl⟩ := map_eq_some_iff.mp h
    rw [if_neg (by rw [hsession]; decide)]
  rw [if_neg hsession] at h
  by_cases hprogram : key = str "program"
  · rw [if_pos hprogram] at h ⊢
    obtain ⟨s, hs, rfl⟩ := map_eq_some_iff.mp h
    exact hs
  rw [if_neg hprogram] at h ⊢
  split at h
  · obtain ⟨s, -, rfl⟩ := map_eq_some_iff.mp h
    rfl
  · rw [Option.some.inj h]

theorem foldlM_program {ms : List TermJson.Member} {o o' : TerminalOffer}
    (h : ms.foldlM (fun o m => o.member caps m.key m.value) o = some o') :
    match lastProgram ms with
    | none => o'.program = o.program
    | some m => m.value.copied caps.program = some o'.program := by
  induction ms generalizing o with
  | nil =>
    cases h
    rfl
  | cons m ms ih =>
    obtain ⟨o₁, h₁, h⟩ := bind_eq_some_iff.mp h
    have hrest := ih h
    have hm := member_program h₁
    rw [lastProgram] at hrest ⊢
    by_cases hkey : m.key = str "program"
    · rw [filter_cons_of_pos (by simpa using hkey), getLast?_cons]
      rw [if_pos hkey] at hm
      cases hlast : (ms.filter fun m => m.key = str "program").getLast? with
      | none =>
        rw [hlast] at hrest
        rw [getD_none, hrest]
        exact hm
      | some last =>
        rw [hlast] at hrest
        exact hrest
    · rw [filter_cons_of_neg (by simpa using hkey)]
      rw [if_neg hkey] at hm
      rw [hm] at hrest
      exact hrest

end TerminalOffer

/-! ## The program the digest is over -/

def programForm (program : Str) : Str := str "\x7b\"program\":\"" ++ program ++ str "\"\x7d"

def isGapByte (b : UInt8) : Bool := b = 0x20 || b = 0x09 || b = 0x22

def isProgramByte (b : UInt8) : Bool := b ≠ 0x22 && b ≠ 0x2c && b ≠ 0x7d

def spelledProgram (val : Str) : Str := ((val.dropWhile isGapByte).takeWhile isProgramByte).take 127

theorem programPayload_eq {payload text val : Str} {c : UInt8}
    (hfound : strstr payload (str "\"program\"") = some text) (hcolon : text.dropWhile (· ≠ 0x3a) = c :: val) :
    programPayload payload = some (programForm (spelledProgram val)) := by
  simp only [programPayload, hfound, hcolon]
  rfl

theorem quote_not_mem_spelledProgram (val : Str) : (0x22 : UInt8) ∉ spelledProgram val := by
  intro h
  exact absurd (mem_takeWhile_imp (mem_of_mem_take h)) (by decide)

variable {caps : TerminalBuffers}

theorem ws_programForm (x : Str) :
    TJ.ws (programForm x) = 0x7b :: (TJ.quoted (str "program") ++ 0x3a :: 0x22 :: (x ++ [0x22, 0x7d])) := by
  have hform : programForm x = 0x7b :: (TJ.quoted (str "program") ++ 0x3a :: 0x22 :: (x ++ [0x22, 0x7d])) := by
    have hopen : str "\x7b\"program\":\"" = 0x7b :: (TJ.quoted (str "program") ++ [0x3a, 0x22]) := by decide +kernel
    rw [programForm, hopen, show str "\"\x7d" = [0x22, 0x7d] by decide +kernel]
    simp
  rw [hform, TJ.ws_cons_of_not (by decide)]

theorem plainText_program : TJ.PlainText (str "program") := all_iff_forall_prop.mp (by decide +kernel)

theorem next_programForm (x : Str) :
    TermJson.next true (TJ.quoted (str "program") ++ 0x3a :: 0x22 :: (x ++ [0x22, 0x7d])) =
      (TJ.skipStringBody (x ++ [0x22, 0x7d])).map fun rest =>
        some (str "program", .string (TJ.spanTo (x ++ [0x22, 0x7d]) rest).dropLast, rest) := by
  have hskip := TJ.skipString_quoted plainText_program (0x3a :: 0x22 :: (x ++ [0x22, 0x7d]))
  have hspan := TJ.spanTo_append (TJ.quoted (str "program")) (0x3a :: 0x22 :: (x ++ [0x22, 0x7d]))
  have hread : TermJson.next true (TJ.quoted (str "program") ++ 0x3a :: 0x22 :: (x ++ [0x22, 0x7d])) =
      TermJson.readMember (TJ.quoted (str "program") ++ 0x3a :: 0x22 :: (x ++ [0x22, 0x7d])) := by
    rfl
  rw [hread, TermJson.readMember, hskip, bind_eq_bind, bind_some, hspan, TJ.unquoted_quoted,
    TJ.ws_cons_of_not (by decide)]
  change ((TJ.skipStringBody (x ++ [0x22, 0x7d])).bind fun rest =>
    some (some (str "program", TermJson.Value.string (TJ.spanTo (x ++ [0x22, 0x7d]) rest).dropLast, rest))) = _
  cases TJ.skipStringBody (x ++ [0x22, 0x7d]) <;> rfl

/-- The program such a payload names, if the quotes in it are those around the program. -/
theorem program_programForm_iff {x v : Str} (hquote : (0x22 : UInt8) ∉ x) :
    (termPayloadParse caps (programForm x)).map (·.program) = some v ↔
      TJ.Body x ∧ TermJson.copyString x caps.program = some v := by
  have hspan : (TJ.spanTo (x ++ [0x22, 0x7d]) [0x7d]).dropLast = x := by
    rw [show x ++ [0x22, 0x7d] = (x ++ [0x22]) ++ [0x7d] by simp, TJ.spanTo_append]
    exact dropLast_concat
  have hread : TJ.skipStringBody (x ++ [0x22, 0x7d]) = some [0x7d] →
      termPayloadParse caps (programForm x) =
        (TermJson.copyString x caps.program).map fun s => { program := s } := by
    intro hskip
    rw [termPayloadParse, ws_programForm]
    change TerminalOffer.members caps (_ + 1) true {} _ = _
    rw [TerminalOffer.members, next_programForm, hskip, map_some, hspan]
    dsimp only
    rw [TerminalOffer.member, if_neg (by decide +kernel), if_pos rfl, TermJson.Value.copied]
    cases TermJson.copyString x caps.program <;> rfl
  constructor
  · intro h
    cases hskip : TJ.skipStringBody (x ++ [0x22, 0x7d]) with
    | none =>
      rw [termPayloadParse, ws_programForm] at h
      change (TerminalOffer.members caps (_ + 1) true {} _).map _ = _ at h
      rw [TerminalOffer.members, next_programForm, hskip] at h
      cases h
    | some rest =>
      obtain ⟨body, hbody, hsplit⟩ := TJ.body_of_skipStringBody hskip
      obtain ⟨rfl, -, rfl⟩ := (append_cons_inj_of_notMem hquote (by decide)).mp hsplit
      rw [hread hskip, Option.map_map] at h
      exact ⟨hbody, by simpa [Function.comp_def] using h⟩
  · rintro ⟨hbody, hcopy⟩
    rw [hread (TJ.skipStringBody_append hbody [0x7d]), hcopy]
    rfl

section Spelled

theorem spelledProgram_skip {b : UInt8} (hb : isGapByte b) (s : Str) : spelledProgram (b :: s) = spelledProgram s := by
  rw [spelledProgram, dropWhile_cons_of_pos hb, spelledProgram]

theorem spelledProgram_skipAll {w : Str} (hw : ∀ b ∈ w, isGapByte b) (s : Str) :
    spelledProgram (w ++ s) = spelledProgram s := by
  rw [spelledProgram, dropWhile_append_of_pos hw, spelledProgram]

theorem spelledProgram_stop {b : UInt8} (hb : isGapByte b = false) (s : Str) :
    spelledProgram (b :: s) = ((b :: s).takeWhile isProgramByte).take 127 := by
  rw [spelledProgram, dropWhile_cons_of_neg (by simp [hb])]

theorem spelledProgram_end {b : UInt8} (hb : b = 0x2c ∨ b = 0x7d) (s : Str) : spelledProgram (b :: s) = [] := by
  rcases hb with rfl | rfl
  · exact spelledProgram_stop (by decide) s
  · exact spelledProgram_stop (by decide) s

def NoLineBreak (w : Str) : Prop := ∀ b ∈ w, b = 0x20 ∨ b = 0x09

instance (w : Str) : Decidable (NoLineBreak w) := inferInstanceAs (Decidable (∀ b ∈ w, b = 0x20 ∨ b = 0x09))

theorem NoLineBreak.gapByte {w : Str} (h : NoLineBreak w) : ∀ b ∈ w, isGapByte b := by
  intro b hb
  rcases h b hb with rfl | rfl <;> decide

theorem noLineBreak_of_body {w s : Str} (hw : ∀ b ∈ w, TJ.isWs b) (hbody : TJ.Body (spelledProgram (w ++ s))) :
    NoLineBreak w := by
  have hbreak : ∀ b, TJ.isWs b → ¬(b = 0x20 ∨ b = 0x09) → isGapByte b = false ∧ isProgramByte b ∧ b < 0x20 :=
    forall_byte (by decide +kernel)
  induction w with
  | nil => exact fun _ h => absurd h not_mem_nil
  | cons b w ih =>
    rw [cons_append] at hbody
    by_cases hb : b = 0x20 ∨ b = 0x09
    · rw [spelledProgram_skip (by rcases hb with rfl | rfl <;> decide)] at hbody
      exact forall_mem_cons.mpr ⟨hb, ih (fun c hc => hw c (mem_cons_of_mem _ hc)) hbody⟩
    · obtain ⟨hstop, htaken, hctl⟩ := hbreak b (hw b mem_cons_self) hb
      rw [spelledProgram_stop hstop, takeWhile_cons_of_pos htaken, take_succ_cons] at hbody
      exact absurd hctl hbody.head.1

/-- The value is written so that the check of the digest reads it as the reader does: at most 127 bytes, no
blank at its beginning, no escaped quote, comma or brace in it, and no line break around it. -/
structure SpelledOut (gap raw rest : Str) : Prop where
  gap : NoLineBreak gap
  length : raw.length ≤ 127
  plain : ∀ b ∈ raw, b ≠ 0x22 ∧ b ≠ 0x2c ∧ b ≠ 0x7d
  head : raw.head? ≠ some 0x20
  rest : raw = [] → NoLineBreak (rest.takeWhile TJ.isWs)

variable {gap raw rest v : Str}

theorem spelledProgram_rest (hrest : ∃ b t, TJ.ws rest = b :: t ∧ (b = 0x2c ∨ b = 0x7d))
    (hbreak : NoLineBreak (rest.takeWhile TJ.isWs)) : spelledProgram rest = [] := by
  obtain ⟨b, t, hws, hb⟩ := hrest
  have hsplit : rest = rest.takeWhile TJ.isWs ++ b :: t := by
    rw [← hws]
    exact takeWhile_append_dropWhile.symm
  rw [hsplit, spelledProgram_skipAll hbreak.gapByte]
  exact spelledProgram_end hb t

theorem noLineBreak_rest (hbody : TJ.Body (spelledProgram rest)) : NoLineBreak (rest.takeWhile TJ.isWs) := by
  apply noLineBreak_of_body (s := TJ.ws rest) fun b hb => mem_takeWhile_imp hb
  rw [TJ.ws, takeWhile_append_dropWhile]
  exact hbody

theorem SpelledOut.spelledProgram_eq (h : SpelledOut gap raw rest) (hbody : TJ.Body raw)
    (hrest : ∃ b t, TJ.ws rest = b :: t ∧ (b = 0x2c ∨ b = 0x7d)) :
    spelledProgram (gap ++ 0x22 :: (raw ++ 0x22 :: rest)) = raw := by
  rw [spelledProgram_skipAll h.gap.gapByte, spelledProgram_skip (by decide)]
  cases hraw : raw with
  | nil =>
    rw [nil_append, spelledProgram_skip (by decide)]
    exact spelledProgram_rest hrest (h.rest hraw)
  | cons b t =>
    subst hraw
    obtain ⟨hctl, hquote⟩ := hbody.head
    have hstop : isGapByte b = false := by
      have hcases : ∀ b, isGapByte b → b = 0x20 ∨ b < 0x20 ∨ b = 0x22 := forall_byte (by decide +kernel)
      refine Bool.eq_false_iff.mpr fun hgap => ?_
      rcases hcases b hgap with rfl | hlt | rfl
      · exact h.head rfl
      · exact hctl hlt
      · exact hquote rfl
    have hall : ∀ c ∈ b :: t, isProgramByte c := by
      intro c hc
      obtain ⟨h₁, h₂, h₃⟩ := h.plain c hc
      simp [isProgramByte, h₁, h₂, h₃]
    rw [cons_append, spelledProgram_stop hstop, ← cons_append, takeWhile_append_of_pos hall,
      takeWhile_cons_of_neg (by decide), append_nil, take_of_length_le h.length]

theorem spelledOut_of_read (hgap : ∀ b ∈ gap, TJ.isWs b) (hraw : TermJson.unescape raw = some v)
    (hrest : ∃ b t, TJ.ws rest = b :: t ∧ (b = 0x2c ∨ b = 0x7d))
    (hspelled : TJ.Body (spelledProgram (gap ++ 0x22 :: (raw ++ 0x22 :: rest))))
    (hread : TermJson.unescape (spelledProgram (gap ++ 0x22 :: (raw ++ 0x22 :: rest))) = some v) :
    SpelledOut gap raw rest := by
  have hnobreak := noLineBreak_of_body hgap hspelled
  rw [spelledProgram_skipAll hnobreak.gapByte, spelledProgram_skip (by decide)] at hspelled hread
  -- the blanks at the beginning of the value are skipped as well
  have hsplit : raw.takeWhile isGapByte ++ raw.dropWhile isGapByte = raw := takeWhile_append_dropWhile
  have hskipped : ∀ b ∈ raw.takeWhile isGapByte, isGapByte b := fun b => mem_takeWhile_imp
  cases hdrop : raw.dropWhile isGapByte with
  | nil =>
    -- nothing of the value is left, and the check reads on behind it
    rw [hdrop, append_nil] at hsplit
    rw [hsplit] at hskipped
    rw [spelledProgram_skipAll hskipped, spelledProgram_skip (by decide)] at hspelled hread
    have hafter := noLineBreak_rest hspelled
    rw [spelledProgram_rest hrest hafter] at hread
    obtain rfl : [] = v := Option.some.inj hread
    obtain rfl := TermJson.eq_nil_of_unescape hraw
    exact ⟨hnobreak, Nat.zero_le _, fun b hb => absurd hb not_mem_nil, by simp, fun _ => hafter⟩
  | cons c t =>
    have hstop : isGapByte c = false := by
      have hhead := head?_dropWhile_not isGapByte raw
      rw [hdrop] at hhead
      exact hhead
    rw [hdrop] at hsplit
    have hx : spelledProgram (raw ++ 0x22 :: rest) = ((c :: t).takeWhile isProgramByte).take 127 := by
      have hends : (c :: t ++ 0x22 :: rest).takeWhile isProgramByte = (c :: t).takeWhile isProgramByte := by
        by_cases hall : ∀ b ∈ c :: t, isProgramByte b
        · rw [takeWhile_append_of_pos hall, takeWhile_cons_of_neg (by decide), append_nil,
            takeWhile_eq_self_iff.mpr hall]
        · rw [takeWhile_append, if_neg]
          intro hlen
          exact hall (takeWhile_eq_self_iff.mp ((List.takeWhile_prefix _).eq_of_length hlen))
      conv_lhs => rw [← hsplit]
      rw [append_assoc, spelledProgram_skipAll hskipped, cons_append, spelledProgram_stop hstop,
        ← cons_append, hends]
    -- what is taken is the value without something at either end
    obtain ⟨y, hy⟩ : spelledProgram (raw ++ 0x22 :: rest) <+: c :: t := by
      rw [hx]
      exact (List.take_prefix _ _).trans (List.takeWhile_prefix _)
    have hnoslash : ∀ b ∈ raw.takeWhile isGapByte, b ≠ 0x5c := by
      rintro b hb rfl
      exact absurd (hskipped _ hb) (by decide)
    rw [← hsplit, ← hy] at hraw
    obtain ⟨hw, rfl⟩ := TermJson.eq_of_unescape hnoslash hraw hread
    rw [hw, nil_append] at hsplit
    rw [append_nil, hx] at hy
    subst hsplit
    have hall : ∀ b ∈ c :: t, isProgramByte b := by
      intro b hb
      rw [← hy] at hb
      exact mem_takeWhile_imp (mem_of_mem_take hb)
    refine ⟨hnobreak, ?_, fun b hb => ?_, ?_, fun h => absurd h (cons_ne_nil _ _)⟩
    · rw [← hy]
      exact length_take_le _ _
    · simpa [isProgramByte, and_assoc] using hall b hb
    · intro h
      obtain rfl : c = 0x20 := Option.some.inj h
      exact absurd hstop (by decide)

end Spelled

/-! ## Whether the two agree -/

def programNamed (caps : TerminalBuffers) (text : Str) : Option Str := (termPayloadParse caps text).map (·.program)

def TermJson.Member.gap (m : TermJson.Member) : Str := ((m.text.dropWhile (· ≠ 0x3a)).drop 1).takeWhile TJ.isWs

def TermJson.Member.SpelledOut (m : TermJson.Member) : Prop :=
  ∃ raw, m.value = .string raw ∧ Agent.SpelledOut m.gap raw m.rest

/-- How the selected member stands in the payload. -/
theorem selectedProgram_spec {payload : Str} {o : TerminalOffer} {m : TermJson.Member}
    (hparse : termPayloadParse caps payload = some o) (hm : selectedProgram payload = some m) :
    ∃ raw, m.value = .string raw ∧ TermJson.copyString raw caps.program = some o.program ∧ TJ.Body raw ∧
      (∃ b t, TJ.ws m.rest = b :: t ∧ (b = 0x2c ∨ b = 0x7d)) ∧ (∀ b ∈ m.gap, TJ.isWs b) ∧
      m.text.dropWhile (· ≠ 0x3a) = 0x3a :: (m.gap ++ 0x22 :: (raw ++ 0x22 :: m.rest)) := by
  obtain ⟨ms, hms, hlast⟩ := bind_eq_some_iff.mp hm
  have hfound := mem_of_getLast? hlast
  rw [List.mem_filter, decide_eq_true_eq] at hfound
  obtain ⟨hmem, hkey⟩ := hfound
  rw [TermJson.payloadMembers] at hms
  rw [termPayloadParse] at hparse
  split at hms
  · rename_i s hws
    rw [hws] at hparse
    change TerminalOffer.members caps (s.length + 1) true {} s = some o at hparse
    rw [TerminalOffer.members_eq, hms, bind_some] at hparse
    have hprogram := TerminalOffer.foldlM_program hparse
    rw [hlast] at hprogram
    change m.value.copied caps.program = some o.program at hprogram
    obtain ⟨⟨first, t, hnext, htext⟩, hrest⟩ := TermJson.next_of_mem_members hms hmem
    cases hvalue : m.value with
    | scalar raw | nested raw =>
      rw [hvalue] at hprogram
      cases hprogram
    | string raw =>
      rw [hvalue] at hprogram hnext
      obtain ⟨w₁, w₂, hw₁, hw₂, hbody, hspelled⟩ := TermJson.next_string hnext
      have hdrop : m.text.dropWhile (· ≠ 0x3a) = 0x3a :: (w₂ ++ 0x22 :: (raw ++ 0x22 :: m.rest)) := by
        have hnocolon : ∀ b ∈ 0x22 :: (m.key ++ 0x22 :: w₁), decide (b ≠ 0x3a) = true := by
          have hkeyBytes : ∀ b ∈ 0x22 :: (str "program" ++ [0x22]), decide (b ≠ 0x3a) = true :=
            all_iff_forall_prop.mp (by decide +kernel)
          have hblank : ∀ b, TJ.isWs b → decide (b ≠ 0x3a) = true := forall_byte (by decide +kernel)
          rw [hkey, show (0x22 : UInt8) :: (str "program" ++ 0x22 :: w₁) = 0x22 :: (str "program" ++ [0x22]) ++ w₁ by
            simp]
          intro b hb
          rcases mem_append.mp hb with hb | hb
          · exact hkeyBytes b hb
          · exact hblank b (hw₁ b hb)
        rw [htext, hspelled, show (0x22 : UInt8) :: (m.key ++ 0x22 :: (w₁ ++ 0x3a :: (w₂ ++ 0x22 :: (raw ++ 0x22 :: m.rest)))) =
          0x22 :: (m.key ++ 0x22 :: w₁) ++ 0x3a :: (w₂ ++ 0x22 :: (raw ++ 0x22 :: m.rest)) by simp,
          dropWhile_append_of_pos hnocolon, dropWhile_cons_of_neg (by decide)]
      have hgap : m.gap = w₂ := by
        rw [TermJson.Member.gap, hdrop, drop_one, tail_cons, takeWhile_append_of_pos hw₂,
          takeWhile_cons_of_neg (by decide), append_nil]
      rw [hgap]
      exact ⟨raw, rfl, hprogram, hbody, hrest, hw₂, hdrop⟩
  · cases hms

/-- The program that is run is the one the grant is over if the grant is over the whole payload, or the first
`"program"` in the payload is the key of the member that is run, spelled out; with that first key only then. -/
theorem terminal_program_bound (C : Crypto) {g : ResponseGrant} {payload : Str} {o : TerminalOffer}
    (hkind : g.actionKind = str "terminal_session") (hparse : termPayloadParse caps payload = some o) :
    ((equalsIgnoreCase g.actionDigest (sha256Hex C payload) ∨
        ∃ m, selectedProgram payload = some m ∧ strstr payload (str "\"program\"") = some m.text ∧ m.SpelledOut) →
      programNamed caps (g.digestedText C payload) = some o.program) ∧
    ∀ m, selectedProgram payload = some m → strstr payload (str "\"program\"") = some m.text →
      programNamed caps (g.digestedText C payload) = some o.program →
      equalsIgnoreCase g.actionDigest (sha256Hex C payload) ∨ m.SpelledOut := by
  by_cases hwhole : equalsIgnoreCase g.actionDigest (sha256Hex C payload)
  · have hnamed : programNamed caps (g.digestedText C payload) = some o.program := by
      rw [ResponseGrant.digestedText, if_pos hwhole, programNamed, hparse]
      rfl
    exact ⟨fun _ => hnamed, fun _ _ _ _ => .inl hwhole⟩
  have htext : g.digestedText C payload = (programPayload payload).getD payload := by
    rw [ResponseGrant.digestedText, if_neg hwhole, if_pos hkind]
  rw [htext, programNamed]
  constructor
  · rintro (h | ⟨m, hm, hfirst, raw', hvalue', hout⟩)
    · exact absurd h hwhole
    obtain ⟨raw, hvalue, hcopy, hbody, hrest, -, hcolon⟩ := selectedProgram_spec hparse hm
    obtain rfl : raw' = raw := TermJson.Value.string.inj (hvalue'.symm.trans hvalue)
    rw [programPayload_eq hfirst hcolon, hout.spelledProgram_eq hbody hrest, getD_some,
      program_programForm_iff fun h => (hout.plain _ h).1 rfl]
    exact ⟨hbody, hcopy⟩
  · intro m hm hfirst hnamed
    obtain ⟨raw, hvalue, hcopy, hbody, hrest, hgap, hcolon⟩ := selectedProgram_spec hparse hm
    rw [programPayload_eq hfirst hcolon, getD_some,
      program_programForm_iff (quote_not_mem_spelledProgram _)] at hnamed
    have hread := TermJson.copyString_eq_some_iff.mp hnamed.2
    exact .inr ⟨raw, hvalue,
      spelledOut_of_read hgap (TermJson.copyString_eq_some_iff.mp hcopy).1 hrest hnamed.1 hread.1⟩

def terminalGrant (program : Str) : ResponseGrant :=
  let unsigned : ResponseGrant :=
    { version := 2, grantID := str "g1", tenantID := str "t", endpointID := str "e",
      actionKind := str "terminal_session", actionDigest := sha256Hex Crypto.sample (programForm program),
      operatorID := str "op", issuedAt := 40, expiresAt := 100, nonce := str "n1" }
  { unsigned with signature := hexEncode (Crypto.sample.sign (str "key") unsigned.canonical) }

/-- The payload the hub sends, with the program's name between the other two members. -/
def terminalPayload : Str :=
  str "\x7b\"session_id\":\"s1\",\"program\":\"/bin/sh\",\"connect_token\":\"tok\"\x7d"

theorem terminal_program_bound_terminalPayload :
    verifyResponseGrantKey Crypto.sample (terminalGrant (str "/bin/sh")) terminalPayload (str "e") (str "key") 50 ∧
      programNamed {} ((terminalGrant (str "/bin/sh")).digestedText Crypto.sample terminalPayload) =
        some (str "/bin/sh") := by
  have hparse : termPayloadParse {} terminalPayload =
      some ⟨str "s1", str "/bin/sh", str "tok"⟩ := by
    decide +kernel
  refine ⟨by decide +kernel, (terminal_program_bound Crypto.sample rfl hparse).1 (.inr ?_)⟩
  refine ⟨⟨terminalPayload.drop 19, str "program", .string (str "/bin/sh"), terminalPayload.drop 38⟩, ?_, ?_,
    str "/bin/sh", rfl, ?_⟩
  · rfl
  · decide +kernel
  · exact ⟨by decide +kernel, by decide +kernel, by decide +kernel, by decide +kernel, by decide +kernel⟩

/-- With two members of that name the grant is over the first and the second is run. -/
theorem second_program_runs :
    ¬∀ (C : Crypto) (g : ResponseGrant) (payload key : Str) (now : Int) (o : TerminalOffer),
      g.actionKind = str "terminal_session" → verifyResponseGrantKey C g payload (str "e") key now →
      termPayloadParse {} payload = some o → programNamed {} (g.digestedText C payload) = some o.program := by
  intro h
  have hbound := h Crypto.sample (terminalGrant (str "/bin/sh"))
    (str "\x7b\"program\":\"/bin/sh\",\"session_id\":\"s1\",\"connect_token\":\"tok\",\"program\":\"/bin/bash\"\x7d")
    (str "key") 50 ⟨str "s1", str "/bin/bash", str "tok"⟩ rfl (by decide +kernel) (by decide +kernel)
  exact absurd hbound (by decide +kernel)

end Ominull.Agent
