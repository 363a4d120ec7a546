import Ominull.Agent.JobGrant
import Ominull.Agent.TrustJsonText

/-! What the bounded reader of offer payloads takes a text for: where its members stand, what is between
the quotes of a string, and which bytes an escaped text stands for. -/

namespace Ominull.Agent

open Lib List Option

/-! ## Where the members of a payload stand -/

namespace TermJson

/-- A member as the reader meets it: the text from its key on, the key, the value and the text
behind it. -/
structure Member where
  text : Str
  key : Str
  value : Value
  rest : Str

def keyText (first : Bool) (s : Str) : Str := if first then TJ.ws s else TJ.ws ((TJ.ws s).drop 1)

def members : ℕ → Bool → Str → Option (List Member)
  | 0, _, _ => none
  | fuel + 1, first, s =>
    match next first s with
    | none => none
    | some none => some []
    | some (some (key, v, rest)) =>
      (members fuel false rest).map (⟨keyText first s, key, v, rest⟩ :: ·)

def payloadMembers (payload : Str) : Option (List Member) :=
  match TJ.ws payload with
  | 0x7b :: s => members (s.length + 1) true s
  | _ => none

end TermJson

/-! ## Texts between quotes -/

namespace TJ

/-- What stands between the quotes of a string. -/
inductive Body : Str → Prop where
  | nil : Body []
  | plain {b : UInt8} {t : Str} : ¬b < 0x20 → b ≠ 0x22 → b ≠ 0x5c → Body t → Body (b :: t)
  | escape {b : UInt8} {t : Str} : Body t → Body (0x5c :: b :: t)

theorem skipStringBody_append {body : Str} (h : Body body) (rest : Str) :
    skipStringBody (body ++ 0x22 :: rest) = some rest := by
  induction h with
  | nil => cases rest <;> simp [skipStringBody]
  | @plain b t hctl hquote hback _ ih =>
    obtain ⟨c, s, hcs⟩ : ∃ c s, t ++ 0x22 :: rest = c :: s := exists_cons_of_ne_nil (by simp)
    rw [hcs] at ih
    rw [cons_append, hcs, skipStringBody, if_neg hback, if_neg hquote, if_neg hctl, ih]
  | escape _ ih =>
    rw [cons_append, cons_append, skipStringBody, if_pos rfl, ih]

theorem body_of_skipStringBody {t rest : Str} (h : skipStringBody t = some rest) :
    ∃ body, Body body ∧ t = body ++ 0x22 :: rest := by
  induction t using skipStringBody.induct with
  | case1 => cases h
  | case2 =>
    cases h
    exact ⟨[], .nil, rfl⟩
  | case3 b hquote =>
    rw [skipStringBody, if_neg hquote] at h
    cases h
  | case4 c s ih =>
    rw [skipStringBody, if_pos rfl] at h
    obtain ⟨body, hbody, rfl⟩ := ih h
    exact ⟨0x5c :: c :: body, .escape hbody, rfl⟩
  | case5 c s hback =>
    rw [skipStringBody, if_neg hback, if_pos rfl] at h
    cases h
    exact ⟨[], .nil, rfl⟩
  | case6 b c s hback hquote hctl =>
    rw [skipStringBody, if_neg hback, if_neg hquote, if_pos hctl] at h
    cases h
  | case7 b c s hback hquote hctl ih =>
    rw [skipStringBody, if_neg hback, if_neg hquote, if_neg hctl] at h
    obtain ⟨body, hbody, hs⟩ := ih h
    exact ⟨b :: body, .plain hctl hquote hback hbody, by rw [hs, cons_append]⟩

theorem Body.head {b : UInt8} {t : Str} (h : Body (b :: t)) : ¬b < 0x20 ∧ b ≠ 0x22 := by
  cases h with
  | plain hctl hquote => exact ⟨hctl, hquote⟩
  | escape => decide

theorem ws_split (s : Str) : ∃ w, (∀ b ∈ w, isWs b) ∧ s = w ++ ws s :=
  ⟨s.takeWhile isWs, fun _ => mem_takeWhile_imp, takeWhile_append_dropWhile.symm⟩

end TJ

namespace TermJson

/-- What `next` reads from a member's key on. -/
def readMember (s : Str) : Option (Option (Str × Value × Str)) := do
  let rest ← TJ.skipString s
  let key := TJ.unquoted (TJ.spanTo s rest)
  match TJ.ws rest with
  | 0x3a :: v =>
    match TJ.ws v with
    | [] => none
    | 0x22 :: v =>
      let rest ← TJ.skipStringBody v
      some (some (key, .string (TJ.spanTo v rest).dropLast, rest))
    | c :: v => do
      let rest ← skipValue 8 (c :: v)
      let raw := TJ.spanTo (c :: v) rest
      let rest := TJ.ws rest
      if rest.head?.all fun b => b = 0x2c || b = 0x7d then
        some (some (key, if c = 0x7b ∨ c = 0x5b then .nested raw else .scalar raw, rest))
      else none
  | _ => none

theorem readMember_of_next {first : Bool} {s : Str} {m : Str × Value × Str} (h : next first s = some (some m)) :
    readMember (keyText first s) = some (some m) := by
  rw [next] at h
  split at h
  · cases h
  · split at h <;> cases h
  rename_i b r hne hws
  rw [keyText, hws]
  cases first with
  | true => exact h
  | false =>
    by_cases hcomma : b = 0x2c
    · simp only [Bool.false_eq_true, if_false, if_pos hcomma] at h
      exact h
    · simp only [Bool.false_eq_true, if_false, if_neg hcomma] at h
      cases h

/-- How a member with a string for its value is spelled. -/
theorem next_string {first : Bool} {s key raw rest : Str}
    (h : next first s = some (some (key, .string raw, rest))) :
    ∃ w₁ w₂, (∀ b ∈ w₁, TJ.isWs b) ∧ (∀ b ∈ w₂, TJ.isWs b) ∧ TJ.Body raw ∧
      keyText first s = 0x22 :: (key ++ 0x22 :: (w₁ ++ 0x3a :: (w₂ ++ 0x22 :: (raw ++ 0x22 :: rest)))) := by
  replace h := readMember_of_next h
  generalize keyText first s = t at h ⊢
  obtain ⟨after, hafter, h⟩ := bind_eq_some_iff.mp h
  cases t with
  | nil => cases hafter
  | cons q t =>
    by_cases hq : q = 0x22
    swap
    · simp [TJ.skipString, hq] at hafter
    subst hq
    obtain ⟨body, -, rfl⟩ := TJ.body_of_skipStringBody hafter
    have hspan : TJ.unquoted (TJ.spanTo (0x22 :: (body ++ 0x22 :: after)) after) = body := by
      rw [show (0x22 : UInt8) :: (body ++ 0x22 :: after) = TJ.quoted body ++ after by simp [TJ.quoted],
        TJ.spanTo_append, TJ.unquoted_quoted]
    rw [hspan] at h
    obtain ⟨w₁, hw₁, hsplit₁⟩ := TJ.ws_split after
    split at h
    · rename_i v hcolon
      obtain ⟨w₂, hw₂, hsplit₂⟩ := TJ.ws_split v
      split at h
      · cases h
      · rename_i v' hquote
        obtain ⟨rest', hrest, h⟩ := bind_eq_some_iff.mp h
        obtain ⟨body', hbody', rfl⟩ := TJ.body_of_skipStringBody hrest
        have hraw : (TJ.spanTo (body' ++ 0x22 :: rest') rest').dropLast = body' := by
          rw [show body' ++ 0x22 :: rest' = (body' ++ [0x22]) ++ rest' by simp, TJ.spanTo_append]
          exact dropLast_concat
        rw [hraw] at h
        simp only [Option.some.injEq, Prod.mk.injEq, Value.string.injEq] at h
        obtain ⟨rfl, rfl, rfl⟩ := h
        refine ⟨w₁, w₂, hw₁, hw₂, hbody', ?_⟩
        rw [← hquote, ← hsplit₂, ← hcolon, ← hsplit₁]
      · -- the value is no string
        obtain ⟨rest', -, h⟩ := bind_eq_some_iff.mp h
        dsimp only at h
        split at h
        · simp only [Option.some.injEq, Prod.mk.injEq] at h
          obtain ⟨-, hv, -⟩ := h
          split at hv <;> cases hv
        · cases h
    · cases h

/-- A member was read from where its key begins, and a comma or the closing brace stands behind it. -/
theorem next_of_mem_members {fuel : ℕ} {first : Bool} {s : Str} {ms : List Member}
    (h : members fuel first s = some ms) {m : Member} (hm : m ∈ ms) :
    (∃ first s, next first s = some (some (m.key, m.value, m.rest)) ∧ m.text = keyText first s) ∧
      ∃ b t, TJ.ws m.rest = b :: t ∧ (b = 0x2c ∨ b = 0x7d) := by
  induction fuel generalizing first s ms with
  | zero => cases h
  | succ fuel ih =>
    rw [members] at h
    split at h
    · cases h
    · cases h
      cases hm
    · rename_i key v rest hnext
      obtain ⟨ms', hms', rfl⟩ := map_eq_some_iff.mp h
      rcases mem_cons.mp hm with rfl | hm
      · refine ⟨⟨first, s, hnext, rfl⟩, ?_⟩
        -- the next round starts at this member's rest, and not as the first
        cases fuel with
        | zero => cases hms'
        | succ fuel =>
          rw [members] at hms'
          cases hws : TJ.ws rest with
          | nil => simp [next, hws] at hms'
          | cons b t =>
            refine ⟨b, t, rfl, ?_⟩
            by_cases hcomma : b = 0x2c
            · exact .inl hcomma
            · by_cases hbrace : b = 0x7d
              · exact .inr hbrace
              · simp [next, hws, hcomma] at hms'
      · exact ih hms' hm

end TermJson

/-! ## Unescaping -/

namespace TermJson

theorem unescape_code {a b c d : UInt8} {n : Int} (hhex : strtolHex [a, b, c, d] = some n) (hn : 0 < n ∧ n ≤ 0x7f)
    (s : Str) : unescape (0x5c :: 0x75 :: a :: b :: c :: d :: s) = (unescape s).map (UInt8.ofNat n.toNat :: ·) := by
  simp only [unescape, hhex, if_pos hn]

theorem unescape_simple {e c : UInt8} (he : simpleEscape e = some c) (s : Str) :
    unescape (0x5c :: e :: s) = (unescape s).map (c :: ·) := by
  have hne : e ≠ 0x75 := by
    rintro rfl
    cases he
  simp [unescape, he, hne]

theorem unescape_plain {c : UInt8} (hc : c ≠ 0x5c) (s : Str) : unescape (c :: s) = (unescape s).map (c :: ·) := by
  simp [unescape, hc]

/-- A text that can be unescaped does not end inside an escape. -/
theorem unescape_append {x v : Str} (h : unescape x = some v) (y : Str) :
    unescape (x ++ y) = (unescape y).map (v ++ ·) := by
  have hunit : ∀ {c : UInt8} {s v : Str}, (unescape s).map (c :: ·) = some v →
      (∀ {v}, unescape s = some v → unescape (s ++ y) = (unescape y).map (v ++ ·)) →
      (unescape (s ++ y)).map (c :: ·) = (unescape y).map (v ++ ·) := by
    intro c s v h ih
    obtain ⟨v', hv', rfl⟩ := map_eq_some_iff.mp h
    rw [ih hv', Option.map_map]
    rfl
  induction x using unescape.induct generalizing v with
  | case1 =>
    cases h
    exact map_id'.symm
  | case2 a b c d s n hhex hn ih =>
    rw [unescape_code hhex hn] at h
    exact (unescape_code hhex hn _).trans (hunit h ih)
  | case3 a b c d s n hhex hn =>
    simp only [unescape, hhex, if_neg hn] at h
    cases h
  | case4 a b c d s hhex =>
    simp only [unescape, hhex] at h
    cases h
  | case5 => cases h
  | case6 e s _ c he ih =>
    rw [unescape_simple he] at h
    exact (unescape_simple he _).trans (hunit h ih)
  | case7 e s hne he =>
    rw [unescape.eq_4 e s hne, he] at h
    cases h
  | case8 c s _ hlast hmore ih =>
    have hc : c ≠ 0x5c := by
      intro hc
      cases s with
      | nil => exact hlast hc rfl
      | cons e s => exact hmore e s hc rfl
    rw [unescape_plain hc] at h
    exact (unescape_plain hc _).trans (hunit h ih)

theorem eq_nil_of_unescape {x : Str} (h : unescape x = some []) : x = [] := by
  induction x using unescape.induct with
  | case1 => rfl
  | case2 a b c d s n hhex hn _ => simp [unescape_code hhex hn] at h
  | case3 a b c d s n hhex hn => simp only [unescape, hhex, if_neg hn, reduceCtorEq] at h
  | case4 a b c d s hhex => simp only [unescape, hhex, reduceCtorEq] at h
  | case5 => cases h
  | case6 e s _ c he _ => simp [unescape_simple he] at h
  | case7 e s hne he =>
    rw [unescape.eq_4 e s hne, he] at h
    cases h
  | case8 c s _ hlast hmore _ =>
    have hc : c ≠ 0x5c := by
      intro hc
      cases s with
      | nil => exact hlast hc rfl
      | cons e s => exact hmore e s hc rfl
    simp [unescape_plain hc] at h

theorem unescape_blanks {w : Str} (hw : ∀ b ∈ w, b ≠ 0x5c) (s : Str) :
    unescape (w ++ s) = (unescape s).map (w ++ ·) := by
  refine unescape_append ?_ s
  induction w with
  | nil => rfl
  | cons b w ih =>
    rw [unescape_plain (hw b mem_cons_self), ih fun c hc => hw c (mem_cons_of_mem _ hc), map_some]

theorem eq_of_unescape {w x y v : Str} (hw : ∀ b ∈ w, b ≠ 0x5c) (h : unescape (w ++ (x ++ y)) = some v)
    (hx : unescape x = some v) : w = [] ∧ y = [] := by
  rw [unescape_blanks hw, unescape_append hx, Option.map_map] at h
  obtain ⟨u, hu, hv⟩ := Option.map_eq_some_iff.mp h
  have hlen := congrArg List.length hv
  simp only [Function.comp, length_append] at hlen
  have hu' : u = [] := length_eq_zero_iff.mp (by omega)
  subst hu'
  exact ⟨length_eq_zero_iff.mp (by omega), eq_nil_of_unescape hu⟩

theorem copyString_eq_some_iff {raw v : Str} {cap : ℕ} :
    copyString raw cap = some v ↔ unescape raw = some v ∧ v.length < cap := by
  rw [copyString, filter_eq_some_iff, decide_eq_true_eq]

end TermJson

end Ominull.Agent
