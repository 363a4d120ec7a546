import Ominull.Screen.Frame
import Ominull.Go.RoundTrip

/-!
The canonical form of a frame: what the hub has parsed is well formed, and its parser reads every
well-formed frame back from the canonical bytes.
-/

namespace Ominull.Screen

open Go List

/-! ## Members -/

variable {allowed : List String} {k : String}

section Member

variable {α β : Type}

@[simp] theorem member_nil (k : String) : member ([] : List (List Char × β)) k = none := rfl

@[simp] theorem member_cons (k k' : String) (v : β) (ms : List (List Char × β)) :
    member ((ascii k', v) :: ms) k = if k' = k then some v else member ms k := by
  by_cases h : k' = k
  · simp [member, h]
  · simp [member, h, ascii_inj]

@[simp] theorem member_append (ms ms' : List (List Char × β)) (k : String) :
    member (ms ++ ms') k = (member ms k <|> member ms' k) := by
  simp only [member, find?_append]
  cases ms.find? (·.1 = ascii k) <;> rfl

@[simp] theorem member_omitempty (k k' : String) (write : α → β) (v : Option α) :
    member (omitempty k' write v) k = if k' = k then v.map write else none := by
  cases v with
  | none | some v => simp [omitempty]

theorem mem_of_onlyKeys {ms : List (List Char × β)} (h : onlyKeys ms allowed) (hk : member ms k ≠ none) :
    k ∈ allowed := by
  obtain ⟨v, hv⟩ := Option.ne_none_iff_exists'.mp hk
  obtain ⟨m, hm, -⟩ := Option.map_eq_some_iff.mp hv
  have hname : m.1 = ascii k := by simpa using find?_some hm
  have hall := all_eq_true.mp h m (mem_of_find?_eq_some hm)
  obtain ⟨k', hk', heq⟩ := any_eq_true.mp hall
  have : k' = k := ascii_inj.mp ((of_decide_eq_true heq).symm.trans hname)
  exact this ▸ hk'

theorem onlyKeys_append (ms ms' : List (List Char × β)) (allowed : List String) :
    onlyKeys (ms ++ ms') allowed = (onlyKeys ms allowed && onlyKeys ms' allowed) := all_append

theorem onlyKeys_omitempty {write : α → β} {v : Option α} (h : v ≠ none → k ∈ allowed) :
    onlyKeys (omitempty k write v) allowed := by
  cases v with
  | none => rfl
  | some v =>
    have hk := h (by simp)
    simp only [omitempty, onlyKeys, all_cons, all_nil, Bool.and_true, any_eq_true]
    exact ⟨k, hk, by simp⟩

theorem keys_omitempty (k : String) (write : α → β) (v : Option α) :
    ((omitempty k write v).map (·.1)).Sublist [ascii k] := by
  cases v with
  | none => exact nil_sublist _
  | some v => exact List.Sublist.refl _

end Member

variable {ms : Members}

theorem strictObject_encode {k : ℕ} (hne : ms ≠ []) (hfit : MembersFit k ms) (hk : k ≤ maxNestingDepth)
    (hnodup : (ms.map (·.1)).Nodup) (hvalid : utf8Valid (Go.encode (.obj ms)) = true) :
    strictObject (Go.encode (.obj ms)) = some ms := by
  rw [strictObject, if_pos hvalid]
  cases ms with
  | nil => exact absurd rfl hne
  | cons m ms =>
    obtain ⟨name, v⟩ := m
    have hmembers := parseMembers_encode (d := 0) name v ms hfit.1 hfit.2 (by omega) (Nat.le_succ _)
    rw [Go.encode, skipSpace_of_head (by decide)]
    rw [quoteChars, cons_append] at hmembers ⊢
    change (members (skipSpace (0x22 :: (name.flatMap escapeChar ++ [0x22] ++ _)))).bind _ = _
    rw [skipSpace_of_head (by decide), members]
    · rw [hmembers]
      exact if_pos ⟨rfl, hnodup⟩
    · intro rest heq
      exact absurd (List.cons.inj heq).1 (by decide)

/-! ## Input frames -/

structure InputRead (ms : Members) (i : WireInput) : Prop where
  ev : (member ms "ev").bind jsonString = some i.ev.name
  keys : onlyKeys ms i.ev.keys
  x : optInt ms "x" = some i.x
  y : optInt ms "y" = some i.y
  monitor : optInt ms "monitor" = some i.monitor
  dx : optInt ms "dx" = some i.dx
  dy : optInt ms "dy" = some i.dy
  code : optInt ms "code" = some i.code
  down : optBool ms "down" = some i.down
  ext : optBool ms "ext" = some i.ext
  ch : optional jsonString ms "ch" = some i.ch
  buttons : optional parseButtons ms "buttons" = some i.buttons

theorem parseEv_name (ev : Ev) : parseEv ev.name = some ev := by
  cases ev <;> decide

theorem name_of_parseEv {s : List Char} {ev : Ev} (h : parseEv s = some ev) : ev.name = s := by
  simpa using find?_some h

variable {i : WireInput}

theorem parseInput_eq_some : parseInput ms = some i ↔ InputRead ms i := by
  constructor
  · intro h
    simp only [parseInput, Option.bind_eq_bind] at h
    -- From the outside in: the other order visits what is bound later once for every binding.
    simp only [↓Option.bind_eq_some_iff, ↓Option.ite_none_right_eq_some] at h
    obtain ⟨v, hv, s, hs, ev, hev, hkeys, x, hx, y, hy, monitor, hmonitor, dx, hdx, dy, hdy, code, hcode,
      down, hdown, ext, hext, ch, hch, buttons, hbuttons, h⟩ := h
    cases h
    refine ⟨?_, hkeys, hx, hy, hmonitor, hdx, hdy, hcode, hdown, hext, hch, hbuttons⟩
    rw [hv, Option.bind_some, hs, name_of_parseEv hev]
  · intro h
    obtain ⟨v, hv, hs⟩ := Option.bind_eq_some_iff.mp h.ev
    simp only [parseInput, Option.bind_eq_bind, hv, hs, parseEv_name, Option.bind_some, if_pos h.keys, h.x, h.y,
      h.monitor, h.dx, h.dy, h.code, h.down, h.ext, h.ch, h.buttons]

theorem jsonInt_jsonOf {n lo hi : ℤ} (h : -2 ^ 63 ≤ n ∧ n < 2 ^ 63) (hrange : lo ≤ n ∧ n ≤ hi) :
    jsonInt (jsonOf n) lo hi = some n := by
  show (parseInt 64 (decimalInt n)).filter (fun n => lo ≤ n ∧ n ≤ hi) = some n
  rw [parseInt_decimalInt h]
  simpa using hrange

theorem jsonInt_range {v : Json} {lo hi n : ℤ} (h : jsonInt v lo hi = some n) : lo ≤ n ∧ n ≤ hi := by
  unfold jsonInt at h
  split at h
  · obtain ⟨-, hrange⟩ := Option.filter_eq_some_iff.mp h
    simpa using hrange
  · cases h

theorem optional_of_member {α : Type} {read : Json → Option α} (write : α → Json) {v : Option α}
    (h : member ms k = v.map write) (hread : ∀ a ∈ v, read (write a) = some a) : optional read ms k = some v := by
  rw [optional, h]
  cases v with
  | none => rfl
  | some a =>
    show (read (write a)).map some = some (some a)
    rw [hread a rfl, Option.map_some]

theorem member_of_optional {α : Type} {read : Json → Option α} {v : Option α} (h : optional read ms k = some v)
    {a : α} (ha : a ∈ v) : ∃ j, member ms k = some j ∧ read j = some a := by
  unfold optional at h
  split at h
  · cases h
    cases ha
  · rename_i j hj
    obtain ⟨a', ha', rfl⟩ := Option.map_eq_some_iff.mp h
    cases ha
    exact ⟨j, hj, ha'⟩

/-- The integers fit the wire, and only the members of the kind of event are there. -/
structure WireInput.WellFormed (i : WireInput) : Prop where
  keys : onlyKeys i.members i.ev.keys
  int64 : ∀ v ∈ [i.x, i.y, i.monitor, i.dx, i.dy, i.code], ∀ n ∈ v, -2 ^ 63 ≤ n ∧ n < 2 ^ 63

/-- What the hub has parsed is well formed. -/
theorem InputRead.wellFormed (h : InputRead ms i) : i.WellFormed := by
  have hallowed : ∀ {α : Type} {read : Json → Option α} {k : String} {v : Option α},
      optional read ms k = some v → v ≠ none → k ∈ i.ev.keys := by
    intro α read k v hv hne
    obtain ⟨a, rfl⟩ := Option.ne_none_iff_exists'.mp hne
    obtain ⟨j, hj, -⟩ := member_of_optional hv rfl
    exact mem_of_onlyKeys h.keys (by simp [hj])
  have hint : ∀ {k : String} {v : Option ℤ}, optInt ms k = some v → ∀ n ∈ v, -2 ^ 63 ≤ n ∧ n < 2 ^ 63 := by
    intro k v hv n hn
    obtain ⟨j, -, hj⟩ := member_of_optional hv hn
    have hrange := jsonInt_range hj
    unfold maxInt64 at hrange
    omega
  refine ⟨?_, ?_⟩
  · simp only [WireInput.members, onlyKeys_append, Bool.and_eq_true]
    have hfixed : onlyKeys [(ascii "type", textOf "input"), (ascii "ev", .str i.ev.name)] i.ev.keys := by
      cases i.ev <;> decide
    exact ⟨⟨⟨⟨⟨⟨⟨⟨⟨⟨hfixed, onlyKeys_omitempty (hallowed h.x)⟩, onlyKeys_omitempty (hallowed h.y)⟩,
      onlyKeys_omitempty (hallowed h.buttons)⟩, onlyKeys_omitempty (hallowed h.monitor)⟩,
      onlyKeys_omitempty (hallowed h.dx)⟩, onlyKeys_omitempty (hallowed h.dy)⟩,
      onlyKeys_omitempty (hallowed h.code)⟩, onlyKeys_omitempty (hallowed h.down)⟩,
      onlyKeys_omitempty (hallowed h.ext)⟩, onlyKeys_omitempty (hallowed h.ch)⟩
  · simp only [forall_mem_cons]
    exact ⟨hint h.x, hint h.y, hint h.monitor, hint h.dx, hint h.dy, hint h.code, forall_mem_nil _⟩

theorem parseButtons_json (b : WireButtons) : parseButtons b.json = some b := by
  obtain ⟨l, r, m⟩ := b
  cases l <;> cases r <;> cases m <;> decide +kernel

/-- The hub reads its own encoding of an input frame back. -/
theorem WireInput.WellFormed.inputRead (h : i.WellFormed) : InputRead i.members i := by
  have hint : ∀ {k : String} {v : Option ℤ}, v ∈ [i.x, i.y, i.monitor, i.dx, i.dy, i.code] →
      member i.members k = v.map jsonOf → optInt i.members k = some v := by
    intro k v hv hmember
    refine optional_of_member jsonOf hmember fun n hn => ?_
    have hrange := h.int64 v hv n hn
    refine jsonInt_jsonOf hrange ⟨hrange.1, ?_⟩
    unfold maxInt64
    omega
  constructor
  case ev => simp [WireInput.members, jsonString]
  case keys => exact h.keys
  case x | y | monitor | dx | dy | code => exact hint (by simp) (by simp [WireInput.members])
  case down | ext => exact optional_of_member .bool (by simp [WireInput.members]) fun _ _ => rfl
  case ch => exact optional_of_member .str (by simp [WireInput.members]) fun _ _ => rfl
  case buttons =>
    exact optional_of_member WireButtons.json (by simp [WireInput.members]) fun b _ => parseButtons_json b

/-! ## Frames -/

/-- The numbers of a frame are in the ranges that the hub checks. -/
def OpFrame.WellFormed : OpFrame → Prop
  | .input i => i.WellFormed
  | .ack monitor frame => (0 ≤ monitor ∧ monitor ≤ maxUint32) ∧ (0 ≤ frame ∧ frame ≤ maxInt64)
  | .setMonitor monitor => 0 ≤ monitor ∧ monitor ≤ maxUint32
  | .quality _ _ | .close => True

variable {f : OpFrame}

theorem parseTyped_eq_ok {read : Option OpFrame} (h : parseTyped ms allowed read = .ok f) : read = some f := by
  unfold parseTyped at h
  split_ifs at h
  cases hr : read with
  | none =>
    rw [hr] at h
    cases h
  | some f' =>
    rw [hr] at h
    cases h
    rfl

theorem wellFormed_of_parse {data : Str} (h : parseOperatorFrame data = .ok f) : f.WellFormed := by
  unfold parseOperatorFrame at h
  split at h
  · cases h
  · rename_i ms hms
    split at h
    · cases h
    · split_ifs at h
      · cases hi : parseInput ms with
        | none =>
          rw [hi] at h
          cases h
        | some i =>
          rw [hi] at h
          cases h
          exact (parseInput_eq_some.mp hi).wellFormed
      · have hread := parseTyped_eq_ok h
        simp only [parseAck, Option.bind_eq_bind, Option.bind_eq_some_iff] at hread
        obtain ⟨v, -, frame, hframe, monitor, hmonitor, hf⟩ := hread
        cases hf
        refine ⟨?_, jsonInt_range hframe⟩
        cases monitor with
        | none => decide
        | some m =>
          obtain ⟨j, -, hj⟩ := member_of_optional hmonitor rfl
          exact jsonInt_range hj
      · have hread := parseTyped_eq_ok h
        simp only [parseSetMonitor, Option.bind_eq_bind, Option.bind_eq_some_iff] at hread
        obtain ⟨v, -, monitor, hmonitor, hf⟩ := hread
        cases hf
        exact jsonInt_range hmonitor
      · have hread := parseTyped_eq_ok h
        simp only [parseQuality, Option.bind_eq_bind, Option.bind_eq_some_iff] at hread
        obtain ⟨fps, -, jpegQ, -, hf⟩ := hread
        cases hf
        trivial
      · have hread := parseTyped_eq_ok h
        cases hread
        trivial

/-- The frame that the canonical bytes stand for: a quality frame with its values clamped. -/
def OpFrame.clamped (beyond : ℤ → ℤ) : OpFrame → OpFrame
  | .quality fps jpegQ =>
    .quality (some (Rat.ofInt (clampInt beyond fps 1 maxFPS maxFPS)))
      (some (Rat.ofInt (clampInt beyond jpegQ minJPEGQuality maxJPEGQuality defaultJPEGQuality)))
  | f => f

/-! ### The canonical bytes -/

theorem nodup_members (beyond : ℤ → ℤ) (f : OpFrame) : ((f.members beyond).map (·.1)).Nodup := by
  cases f with
  | input i =>
    have hall : ([ascii "type", ascii "ev"] ++ [ascii "x"] ++ [ascii "y"] ++ [ascii "buttons"] ++ [ascii "monitor"] ++
        [ascii "dx"] ++ [ascii "dy"] ++ [ascii "code"] ++ [ascii "down"] ++ [ascii "ext"] ++ [ascii "ch"]).Nodup := by
      decide
    refine hall.sublist ?_
    simp only [OpFrame.members, WireInput.members, map_append]
    repeat refine List.Sublist.append ?_ (keys_omitempty _ _ _)
    exact List.Sublist.refl _
  | _ => simp [OpFrame.members, ascii_inj]

/-- A value whose text is made of plain bytes and escaped characters, nested at most once. -/
structure Plain (v : Json) : Prop where
  fits : ∀ k, v.Fits (k + 1)
  pieces : ∀ {P : Str → Prop}, Pieces P → P (Go.encode v)

theorem plain_jsonOf (n : ℤ) : Plain (jsonOf n) where
  fits k := by
    rw [jsonOf, Json.Fits]
    exact numberText_decimalInt n
  pieces h := by
    rw [jsonOf, Go.encode]
    exact h.decimalInt n

theorem plain_str (s : List Char) : Plain (.str s) where
  fits k := by simp [Json.Fits]
  pieces h := by
    rw [Go.encode]
    exact h.quoteChars s

theorem plain_bool (b : Bool) : Plain (.bool b) where
  fits k := by simp [Json.Fits]
  pieces h := h.bool b

theorem plain_buttons (b : WireButtons) : Plain b.json where
  fits k := by simp [WireButtons.json, Json.Fits, MembersFit]
  pieces h := by
    refine h.obj fun m hm => ?_
    simp only [mem_cons, not_mem_nil, or_false] at hm
    rcases hm with rfl | rfl | rfl <;> exact h.bool _

theorem plain_omitempty {α : Type} {write : α → Json} {v : Option α} (h : ∀ a, Plain (write a)) :
    ∀ m ∈ omitempty k write v, Plain m.2 := by
  intro m hm
  cases v with
  | none => cases hm
  | some a =>
    rw [mem_singleton.mp hm]
    exact h a

theorem plain_members (beyond : ℤ → ℤ) (f : OpFrame) : ∀ m ∈ f.members beyond, Plain m.2 := by
  cases f with
  | input i =>
    have hint : ∀ {k : String} {v : Option ℤ}, ∀ m ∈ omitempty k jsonOf v, Plain m.2 := plain_omitempty plain_jsonOf
    simp only [OpFrame.members, WireInput.members, forall_mem_append, and_assoc]
    exact ⟨by simp [textOf, plain_str], hint, hint, plain_omitempty plain_buttons, hint, hint, hint, hint,
      plain_omitempty plain_bool, plain_omitempty plain_bool, plain_omitempty plain_str⟩
  | _ => simp [OpFrame.members, textOf, plain_str, plain_jsonOf]

theorem utf8Valid_canonical (beyond : ℤ → ℤ) (f : OpFrame) : utf8Valid (f.encode beyond) = true := by
  obtain ⟨cs, hcs⟩ : IsText (f.encode beyond) :=
    pieces_isText.obj fun m hm => (plain_members beyond f m hm).pieces pieces_isText
  rw [hcs, utf8Valid, runes_utf8]
  simp

theorem strictObject_canonical (beyond : ℤ → ℤ) (f : OpFrame) :
    strictObject (f.encode beyond) = some (f.members beyond) := by
  have hplain := plain_members beyond f
  refine strictObject_encode (k := 1) ?_ ?_ (by decide) (nodup_members beyond f) (utf8Valid_canonical beyond f)
  · cases f <;> simp [OpFrame.members, WireInput.members]
  · exact membersFit_iff.mpr fun m hm => (hplain m hm).fits 0

theorem clampInt_range (beyond : ℤ → ℤ) (v : Option ℚ) {lo hi default : ℤ} (h : lo ≤ default ∧ default ≤ hi) :
    lo ≤ clampInt beyond v lo hi default ∧ clampInt beyond v lo hi default ≤ hi := by
  unfold clampInt
  split
  · exact h
  · dsimp only
    split_ifs <;> omega

theorem clampedFps_range (beyond : ℤ → ℤ) (v : Option ℚ) :
    0 ≤ clampInt beyond v 1 maxFPS maxFPS ∧ clampInt beyond v 1 maxFPS maxFPS < 100 := by
  have h := clampInt_range beyond v (by decide : 1 ≤ maxFPS ∧ maxFPS ≤ maxFPS)
  have hmax : maxFPS = 10 := rfl
  omega

theorem clampedJpegQ_range (beyond : ℤ → ℤ) (v : Option ℚ) :
    0 ≤ clampInt beyond v minJPEGQuality maxJPEGQuality defaultJPEGQuality ∧
      clampInt beyond v minJPEGQuality maxJPEGQuality defaultJPEGQuality < 100 := by
  have h := clampInt_range beyond v
    (by decide : minJPEGQuality ≤ defaultJPEGQuality ∧ defaultJPEGQuality ≤ maxJPEGQuality)
  have hmin : minJPEGQuality = 30 := rfl
  have hmax : maxJPEGQuality = 85 := rfl
  omega

theorem jsonNumber_jsonOf {n : ℤ} (h : 0 ≤ n ∧ n < 100) : jsonNumber (jsonOf n) = some (Rat.ofInt n) := by
  obtain ⟨m, rfl⟩ := Int.eq_ofNat_of_zero_le h.1
  exact (parseFloat_decimal ⟨m, by omega⟩).1

def OpFrame.typ : OpFrame → String
  | .input _ => "input"
  | .ack _ _ => "ack"
  | .setMonitor _ => "set_monitor"
  | .quality _ _ => "quality"
  | .close => "close"

theorem input_of_typ (h : f.typ = "input") : ∃ i, f = .input i := by
  cases f with
  | input i => exact ⟨i, rfl⟩
  | _ => exact absurd h (by simp [OpFrame.typ])

theorem member_type (beyond : ℤ → ℤ) (f : OpFrame) : member (f.members beyond) "type" = some (textOf f.typ) := by
  cases f <;> simp [OpFrame.members, WireInput.members, OpFrame.typ]

/-- The hub's parser gives back every frame that the hub has encoded. -/
theorem parse_canonical {beyond : ℤ → ℤ} (hf : f.WellFormed) :
    parseOperatorFrame (f.encode beyond) = .ok (f.clamped beyond) := by
  rw [parseOperatorFrame, strictObject_canonical]
  simp only [member_type, Option.bind_some, textOf, jsonString]
  cases f with
  | input i =>
    have hread : parseInput i.members = some i := parseInput_eq_some.mpr (WireInput.WellFormed.inputRead hf)
    rw [OpFrame.typ, if_pos rfl, OpFrame.members, hread]
    rfl
  | ack monitor frame =>
    obtain ⟨hmonitor, hframe⟩ := hf
    have hreadFrame : jsonInt (jsonOf frame) 0 maxInt64 = some frame :=
      jsonInt_jsonOf (by unfold maxInt64 at hframe; omega) hframe
    have hreadMonitor : jsonInt (jsonOf monitor) 0 maxUint32 = some monitor :=
      jsonInt_jsonOf (by unfold maxUint32 at hmonitor; omega) hmonitor
    rw [OpFrame.typ, if_neg (by decide), if_pos rfl]
    show _ = Except.ok (OpFrame.ack monitor frame)
    simp [parseTyped, OpFrame.members, parseAck, optional, onlyKeys, hreadFrame, hreadMonitor]
  | setMonitor monitor =>
    have hread : jsonInt (jsonOf monitor) 0 maxUint32 = some monitor :=
      jsonInt_jsonOf (by unfold OpFrame.WellFormed maxUint32 at hf; omega) hf
    rw [OpFrame.typ, if_neg (by decide), if_neg (by decide), if_pos rfl]
    show _ = Except.ok (OpFrame.setMonitor monitor)
    simp [parseTyped, OpFrame.members, parseSetMonitor, onlyKeys, hread]
  | quality fps jpegQ =>
    have hfps := clampedFps_range beyond fps
    have hjpegQ := clampedJpegQ_range beyond jpegQ
    rw [OpFrame.typ, if_neg (by decide), if_neg (by decide), if_neg (by decide), if_pos rfl, OpFrame.clamped]
    simp [parseTyped, OpFrame.members, parseQuality, optional, onlyKeys, jsonNumber_jsonOf hfps,
      jsonNumber_jsonOf hjpegQ]
  | close => rfl

end Ominull.Screen
