import Ominull.Agent.TrustJson

/-! Reading back JSON the agent printed itself: strings without escapes, whole numbers, arrays of
strings, and objects of these. -/

namespace Ominull.Agent.TJ

open Lib List

def PlainText (s : Str) : Prop := ∀ b ∈ s, ¬b < 0x20 ∧ b ≠ 0x22 ∧ b ≠ 0x5c

theorem quoted_append (t r : Str) : quoted t ++ r = 0x22 :: (t ++ 0x22 :: r) := by
  simp [quoted]

variable {t : Str}

theorem skipStringBody_plain (ht : PlainText t) (r : Str) : skipStringBody (t ++ 0x22 :: r) = some r := by
  induction t with
  | nil => cases r <;> simp [skipStringBody]
  | cons a t ih =>
    obtain ⟨hctl, hquote, hback⟩ := ht a (by simp)
    have hrest := ih fun b hb => ht b (mem_cons_of_mem _ hb)
    obtain ⟨c, s, hcs⟩ : ∃ c s, t ++ 0x22 :: r = c :: s :=
      exists_cons_of_ne_nil (by simp)
    rw [hcs] at hrest
    rw [cons_append, hcs]
    simp only [skipStringBody, if_neg hback, if_neg hquote, if_neg hctl, hrest]

theorem skipString_quoted (ht : PlainText t) (r : Str) : skipString (quoted t ++ r) = some r := by
  rw [quoted_append]
  exact skipStringBody_plain ht r

theorem spanTo_append (a r : Str) : spanTo (a ++ r) r = a := by
  unfold spanTo
  rw [length_append, Nat.add_sub_cancel, take_left]

theorem unquoted_quoted (t : Str) : unquoted (quoted t) = t := by
  simp [unquoted, quoted]

theorem not_mem_of_plainText (ht : PlainText t) : (0x5c : UInt8) ∉ t :=
  fun h => (ht _ h).2.2 rfl

theorem plain_quoted {cap : ℕ} (ht : PlainText t) (hcap : t.length < cap) : plain cap (quoted t) = some t := by
  have hskip := skipString_quoted ht []
  have hspan := spanTo_append (quoted t) []
  rw [append_nil] at hskip hspan
  have hfits : ¬(cap < t.length + 1 ∨ (0x5c : UInt8) ∈ t) := by
    rintro (h | h)
    · omega
    · exact not_mem_of_plainText ht h
  simp only [plain, hskip, hspan, unquoted_quoted, if_neg hfits]

/-! ## Values -/

theorem ws_of_head {s : Str} (h : ∀ b ∈ s.head?, isWs b = false) : ws s = s := by
  cases s with
  | nil => rfl
  | cons b s => exact dropWhile_cons_of_neg (by simp [h b rfl])

theorem ws_cons_of_not {b : UInt8} (h : isWs b = false) (s : Str) : ws (b :: s) = b :: s :=
  dropWhile_cons_of_neg (by simp [h])

theorem skipValueFuel_quoted (ht : PlainText t) (fuel : ℕ) {depth : ℕ} (hdepth : depth ≤ 16) (r : Str) :
    skipValueFuel (fuel + 1) depth (quoted t ++ r) = some r := by
  rw [skipValueFuel, quoted_append, ws_cons_of_not (by decide)]
  simp only [if_neg (Nat.not_lt.mpr hdepth), if_true]
  rw [← quoted_append]
  exact skipString_quoted ht r

/-- A printed value: it does not begin with a blank and is skipped up to the comma or bracket that
follows it. -/
structure Value (v : Str) : Prop where
  head : ∃ b, v.head? = some b ∧ isWs b = false
  skip : ∀ fuel, v.length ≤ fuel + 1 → ∀ depth < 16, ∀ c ∈ [0x2c, 0x7d, 0x5d], ∀ r,
    skipValueFuel (fuel + 1) depth (v ++ c :: r) = some (c :: r)

namespace Value

variable {v : Str}

theorem ws_append (h : Value v) (r : Str) : ws (v ++ r) = v ++ r := by
  obtain ⟨b, hb, hws⟩ := h.head
  refine ws_of_head fun c hc => ?_
  rw [head?_append, hb] at hc
  cases hc
  exact hws

theorem skipValue (h : Value v) {c : UInt8} (hc : c ∈ [0x2c, 0x7d, 0x5d]) (r : Str) :
    TJ.skipValue 1 (v ++ c :: r) = some (c :: r) := by
  refine h.skip _ ?_ 1 (by decide) c hc r
  rw [length_append]
  omega

theorem quoted (ht : PlainText t) : Value (quoted t) :=
  ⟨⟨0x22, rfl, by decide⟩, fun _ _ _ hdepth _ _ _ => skipValueFuel_quoted ht _ hdepth.le _⟩

theorem decimalInt (n : Int) : Value (decimalInt n) := by
  -- a number is a run of scalar bytes
  have hscalar : ∀ b ∈ Ominull.decimalInt n, isScalarByte b = true := by
    have hdigits : ∀ m, ∀ b ∈ decimal m, isScalarByte b = true := fun m b hb => by
      simp [isScalarByte, isAlnum, isDigit_of_mem_decimal hb]
    cases n with
    | ofNat m => exact hdigits m
    | negSucc m =>
      intro b hb
      rcases mem_cons.mp hb with rfl | hb
      · decide
      · exact hdigits _ b hb
  obtain ⟨a, l, hal⟩ : ∃ a l, Ominull.decimalInt n = a :: l := by
    cases n with
    | ofNat m => exact exists_cons_of_ne_nil (decimal_ne_nil m)
    | negSucc m => exact ⟨_, _, rfl⟩
  rw [hal] at hscalar ⊢
  have hfirst : ∀ b, isScalarByte b = true → isWs b = false ∧ b ≠ 0x22 ∧ b ≠ 0x7b ∧ b ≠ 0x5b :=
    forall_byte (by decide +kernel)
  obtain ⟨hws, hquote, hbrace, hbracket⟩ := hfirst a (hscalar a (by simp))
  refine ⟨⟨a, rfl, hws⟩, fun fuel hfuel depth hdepth c hc r => ?_⟩
  have hskip : ws (a :: l ++ c :: r) = a :: (l ++ c :: r) :=
    ws_of_head fun b hb => by cases hb; exact hws
  have hends : ∀ c ∈ ([0x2c, 0x7d, 0x5d] : List UInt8), isScalarByte c = false := by decide +kernel
  have hstop := hends c hc
  have htake : (a :: l ++ c :: r).takeWhile isScalarByte = a :: l :=
    takeWhile_append_of_head hscalar fun b hb => by cases hb; exact hstop
  have hdrop : (a :: l ++ c :: r).dropWhile isScalarByte = c :: r := by
    rw [dropWhile_append_of_pos hscalar]
    exact dropWhile_cons_of_neg (by simp [hstop])
  rw [cons_append] at htake hdrop
  rw [skipValueFuel, hskip]
  simp only [if_neg (Nat.not_lt.mpr hdepth.le), if_neg hquote, if_neg hbrace, if_neg hbracket]
  simp only [skipScalar, htake, hdrop, reduceCtorEq, if_false]

end Value

/-! ## Arrays of strings -/

def quotedList (l : List Str) : Str := [0x2c].intercalate (l.map quoted)

theorem quotedList_cons_cons (a b : Str) (l : List Str) :
    quotedList (a :: b :: l) = quoted a ++ 0x2c :: quotedList (b :: l) := by
  simp [quotedList, List.intercalate]

theorem quotedList_singleton (a : Str) : quotedList [a] = quoted a := by
  simp [quotedList, List.intercalate]

theorem length_quotedList_cons (a b : Str) (l : List Str) :
    (quotedList (a :: b :: l)).length = (quoted a).length + (quotedList (b :: l)).length + 1 := by
  rw [quotedList_cons_cons, length_append, length_cons]
  omega

theorem length_le_quotedList (l : List Str) : l.length ≤ (quotedList l).length := by
  induction l with
  | nil => exact Nat.zero_le _
  | cons a l ih =>
    cases l with
    | nil => simp [quotedList_singleton, quoted]
    | cons b l =>
      rw [length_quotedList_cons, length_cons]
      omega

variable {l : List Str}

theorem skipItems_quotedList (hne : l ≠ []) (hl : ∀ t ∈ l, PlainText t) {fuel : ℕ}
    (hfuel : (quotedList l).length < fuel) {depth : ℕ} (hdepth : depth < 16) (r : Str) :
    skipItems fuel depth false (quotedList l ++ 0x5d :: r) = some r := by
  induction l generalizing fuel with
  | nil => exact absurd rfl hne
  | cons a l ih =>
    have hpos : 0 < (quotedList (a :: l)).length :=
      Nat.lt_of_lt_of_le (Nat.zero_lt_succ _) (length_le_quotedList (a :: l))
    obtain ⟨fuel, rfl⟩ : ∃ n, fuel = n + 2 := ⟨fuel - 2, by omega⟩
    have hskip := skipValueFuel_quoted (hl a (by simp)) fuel (Nat.succ_le_of_lt hdepth)
    cases l with
    | nil =>
      rw [quotedList_singleton, skipItems]
      simp only [Bool.false_eq_true, if_false, hskip, Option.map_some,
        ws_cons_of_not (b := 0x5d) (by decide), if_true]
      rfl
    | cons b l =>
      rw [length_quotedList_cons] at hfuel
      have hrest := ih (by simp) (fun t ht => hl t (mem_cons_of_mem _ ht))
        (by omega : (quotedList (b :: l)).length < fuel + 1)
      rw [quotedList_cons_cons, append_assoc, cons_append, skipItems]
      simp only [Bool.false_eq_true, if_false, hskip, Option.map_some,
        ws_cons_of_not (b := 0x2c) (by decide), if_true, hrest]

def arrayText (l : List Str) : Str := 0x5b :: (quotedList l ++ [0x5d])

theorem arrayText_append (l : List Str) (r : Str) : arrayText l ++ r = 0x5b :: (quotedList l ++ 0x5d :: r) := by
  simp [arrayText]

theorem head?_quotedList (hne : l ≠ []) (r : Str) : ∃ s, quotedList l ++ r = 0x22 :: s := by
  cases l with
  | nil => exact absurd rfl hne
  | cons a l =>
    cases l with
    | nil =>
      exact ⟨_, rfl⟩
    | cons b l =>
      exact ⟨_, rfl⟩

theorem Value.array (hl : ∀ t ∈ l, PlainText t) : Value (arrayText l) := by
  refine ⟨⟨0x5b, rfl, by decide⟩, fun fuel hfuel depth hdepth c _ r => ?_⟩
  have hws : ws (arrayText l ++ c :: r) = 0x5b :: (quotedList l ++ 0x5d :: c :: r) := by
    rw [arrayText_append]
    exact ws_cons_of_not (by decide) _
  have hb : ¬(0x5b : UInt8) = 0x22 ∧ ¬(0x5b : UInt8) = 0x7b := by decide
  rw [skipValueFuel, hws]
  simp only [if_neg (Nat.not_lt.mpr hdepth.le), if_neg hb.1, if_neg hb.2, if_true]
  by_cases hne : l = []
  · subst hne
    rfl
  · obtain ⟨s, hs⟩ := head?_quotedList hne (0x5d :: c :: r)
    have hlen : (quotedList l).length < fuel := by
      simp only [arrayText, length_cons, length_append, length_nil] at hfuel
      omega
    have hitems := skipItems_quotedList hne hl hlen hdepth (c :: r)
    rw [hs] at hitems ⊢
    rw [ws_cons_of_not (by decide)]
    exact hitems

theorem plainItems_quotedList (hne : l ≠ []) (hl : ∀ t ∈ l, PlainText t ∧ t.length < 64) {fuel cap : ℕ}
    (hfuel : l.length ≤ fuel) (hcap : l.length ≤ cap) (r : Str) :
    plainItems fuel cap (quotedList l ++ 0x5d :: r) = some l := by
  induction l generalizing fuel cap with
  | nil => exact absurd rfl hne
  | cons a l ih =>
    obtain ⟨ha, hlen⟩ := hl a (by simp)
    rw [length_cons] at hfuel hcap
    obtain ⟨fuel, rfl⟩ : ∃ n, fuel = n + 1 := ⟨fuel - 1, by omega⟩
    have hws : ∀ r, ws (quoted a ++ r) = quoted a ++ r := fun r => (Value.quoted ha).ws_append r
    have hcap0 : ¬cap = 0 := by omega
    cases l with
    | nil =>
      rw [quotedList_singleton, plainItems]
      simp only [hws, skipString_quoted ha, if_neg hcap0, spanTo_append, plain_quoted ha hlen,
        ws_cons_of_not (b := 0x5d) (by decide)]
    | cons b l =>
      have hrest := ih (by simp) (fun t ht => hl t (mem_cons_of_mem _ ht))
        (by omega : (b :: l).length ≤ fuel) (by omega : (b :: l).length ≤ cap - 1)
      rw [quotedList_cons_cons, append_assoc, cons_append, plainItems]
      simp only [hws, skipString_quoted ha, if_neg hcap0, spanTo_append, plain_quoted ha hlen,
        ws_cons_of_not (b := 0x2c) (by decide), hrest, Option.map_some]

theorem plainArray_arrayText {cap : ℕ} (hl : ∀ t ∈ l, PlainText t ∧ t.length < 64) (hcap : l.length ≤ cap) :
    plainArray cap (arrayText l) = some l := by
  have hws : ws (arrayText l) = arrayText l := ws_cons_of_not (by decide) _
  have hnull : ¬(arrayText l).take 4 = str "null" := by
    intro h
    have hhead := congrArg List.head? h
    simp only [arrayText, take_succ_cons, head?_cons] at hhead
    exact absurd hhead (by decide)
  unfold plainArray
  simp only [hws, if_neg hnull]
  by_cases hne : l = []
  · subst hne
    rfl
  · obtain ⟨s, hs⟩ := head?_quotedList hne [0x5d]
    have hlen : l.length ≤ (quotedList l ++ [0x5d]).length + 1 := by
      have := length_le_quotedList l
      rw [length_append]
      omega
    have hitems := plainItems_quotedList hne hl hlen hcap []
    rw [arrayText]
    rw [hs] at hitems ⊢
    simp only [ws_cons_of_not (b := 0x22) (by decide)]
    exact hitems

/-! ## Objects -/

def membersText : List (Str × Str) → Str
  | [] => []
  | [m] => quoted m.1 ++ 0x3a :: m.2
  | m :: ms => quoted m.1 ++ 0x3a :: (m.2 ++ 0x2c :: membersText ms)

structure GoodKeys (ms : List (Str × Str)) : Prop where
  plain : ∀ m ∈ ms, PlainText m.1
  distinct : ms.Pairwise fun m n => equalsIgnoreCase n.1 m.1 = false

theorem readMembers_membersText {ms : List (Str × Str)} (hne : ms ≠ []) (hkeys : GoodKeys ms)
    (hvalues : ∀ m ∈ ms, Value m.2) (seen : List Str)
    (hseen : ∀ m ∈ ms, ∀ k ∈ seen, equalsIgnoreCase m.1 k = false)
    (hmany : seen.length + ms.length ≤ 48) (fuel : ℕ) (hfuel : ms.length ≤ fuel) (r : Str) :
    readMembers fuel seen (membersText ms ++ 0x7d :: r) = some ms := by
  induction ms generalizing fuel seen with
  | nil => exact absurd rfl hne
  | cons m ms ih =>
    obtain ⟨key, v⟩ := m
    have hk := hkeys.plain _ mem_cons_self
    have hv := hvalues _ mem_cons_self
    rw [length_cons] at hmany hfuel
    obtain ⟨fuel, rfl⟩ : ∃ n, fuel = n + 1 := ⟨fuel - 1, by omega⟩
    have hws : ∀ r, ws (quoted key ++ r) = quoted key ++ r := fun r => (Value.quoted hk).ws_append r
    have hfresh : ¬seen.any (equalsIgnoreCase key) = true := by
      simp only [any_eq_true, not_exists, not_and]
      intro k hmem
      rw [hseen _ mem_cons_self k hmem]
      decide
    have hroom : ¬48 ≤ seen.length := by omega
    have hcolon : ∀ s, ws (0x3a :: s) = 0x3a :: s := ws_cons_of_not (by decide)
    cases ms with
    | nil =>
      rw [membersText, readMembers, append_assoc, cons_append]
      simp only [hws, skipString_quoted hk, spanTo_append, unquoted_quoted,
        if_neg (not_mem_of_plainText hk), if_neg hfresh, if_neg hroom, hcolon, hv.ws_append,
        hv.skipValue (c := 0x7d) (by decide), ws_cons_of_not (b := 0x7d) (by decide)]
    | cons n ms =>
      have hrest := ih (by simp)
        ⟨fun m hm => hkeys.plain m (mem_cons_of_mem _ hm), hkeys.distinct.tail⟩
        (fun m hm => hvalues m (mem_cons_of_mem _ hm)) (seen ++ [key]) ?_
        (by rw [length_append, length_singleton]; omega) fuel (by omega)
      · rw [membersText, readMembers, append_assoc, cons_append, append_assoc,
          cons_append]
        · simp only [hws, skipString_quoted hk, spanTo_append, unquoted_quoted,
            if_neg (not_mem_of_plainText hk), if_neg hfresh, if_neg hroom, hcolon, hv.ws_append,
            hv.skipValue (c := 0x2c) (by decide), ws_cons_of_not (b := 0x2c) (by decide), hrest,
            Option.map_some]
        · simp
      · intro m hm k hk
        rcases mem_append.mp hk with hk | hk
        · exact hseen m (mem_cons_of_mem _ hm) k hk
        · rw [mem_singleton.mp hk]
          exact rel_of_pairwise_cons hkeys.distinct hm

/-- The members of a printed object. -/
theorem members_object {ms : List (Str × Str)} (hne : ms ≠ []) (hkeys : GoodKeys ms) (hvalues : ∀ m ∈ ms, Value m.2)
    (hmany : ms.length ≤ 48) (r : Str) : members (0x7b :: (membersText ms ++ 0x7d :: r)) = some ms := by
  have hhead : ∃ s, membersText ms ++ 0x7d :: r = 0x22 :: s := by
    cases ms with
    | nil => exact absurd rfl hne
    | cons m ms =>
      cases ms <;> exact ⟨_, rfl⟩
  have hlen : ∀ ms : List (Str × Str), ms.length ≤ (membersText ms).length := by
    intro ms
    induction ms with
    | nil => exact Nat.zero_le _
    | cons m ms ih =>
      cases ms with
      | nil => simp [membersText, quoted]
      | cons n ms =>
        simp only [membersText, length_append, length_cons] at ih ⊢
        omega
  have hread := readMembers_membersText hne hkeys hvalues [] (by simp) (by simpa using hmany)
    ((membersText ms ++ 0x7d :: r).length + 1)
    (by have := hlen ms; rw [length_append]; omega) r
  obtain ⟨s, hs⟩ := hhead
  rw [hs] at hread ⊢
  simp only [members, ws_cons_of_not (b := 0x7b) (by decide), ws_cons_of_not (b := 0x22) (by decide)]
  exact hread

end Ominull.Agent.TJ
