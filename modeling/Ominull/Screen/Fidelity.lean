import Ominull.Screen.Canonical
import Ominull.Screen.Policy
import Ominull.Screen.Wire

/-!
The relay's fidelity: whatever the hub forwards of a control attachment, its own parser and the
helper read from the forwarded bytes the event that the hub has checked and audited.
-/

namespace Ominull.Screen

open Go Wire List

/-! ## The helper reads canonical bytes -/

theorem run_append (e : Escape) (s t : Str) : e.run (s ++ t) = (e.run s).bind (·.run t) := foldlM_append

theorem run_text {s : Str} (h : ∀ b ∈ s, b ≠ 0x5c) : Escape.text.run s = some .text := by
  induction s with
  | nil => rfl
  | cons b s ih =>
    show (Escape.text.next b).bind (·.run s) = some .text
    rw [Escape.next, if_neg (h b mem_cons_self)]
    exact ih fun b' hb' => h b' (mem_cons_of_mem _ hb')

/-- The hub's encoder writes no surrogate pairs: the check is between two escapes after every piece. -/
theorem pieces_run : Pieces fun s => Escape.text.run s = some .text where
  nil := rfl
  append hs ht := by rw [run_append, hs, Option.bind_some, ht]
  plain b _ hb := run_text fun b' hb' => mem_singleton.mp hb' ▸ hb
  escape c := by
    have hbyte : ∀ i : Fin 128, Escape.text.run (escapeByte i) = some .text := by decide +kernel
    rcases escapeChar_cases c with ⟨e, htext, he, -⟩ | ⟨hlow, htext⟩ | ⟨-, htext⟩ | ⟨-, htext⟩ | ⟨htext, -, hslash, -⟩
    · rw [htext]
      show ((Escape.slash false).next e).bind (·.run []) = some .text
      rw [Escape.next, if_neg he]
      rfl
    · rw [htext]
      exact hbyte ⟨c.toNat, hlow⟩
    · rw [htext]
      decide
    · rw [htext]
      decide
    · rw [htext]
      apply run_text
      intro b hb heq
      rcases utf8EncodeChar_bytes c b hb with h | h
      · exact hslash (h.symm.trans (by rw [heq]; rfl))
      · exact absurd (heq ▸ h) (by decide)

theorem wholePairs_canonical (beyond : ℤ → ℤ) (f : OpFrame) : wholePairs (f.encode beyond) = true := by
  have hrun : Escape.text.run (f.encode beyond) = some .text :=
    pieces_run.obj fun m hm => (plain_members beyond f m hm).pieces pieces_run
  rw [wholePairs, hrun]

theorem integer_decimalInt {n : ℤ} (h : -2 ^ 63 ≤ n ∧ n < 2 ^ 64) : integer (decimalInt n) = some n := by
  have hdigits : ∀ m, (decimal m).all isDigit = true := fun m =>
    all_eq_true.mpr fun b hb => isDigit_of_mem_decimal hb
  cases n with
  | ofNat m =>
    rw [Int.ofNat_eq_natCast] at h ⊢
    show integer (decimal m) = some (m : ℤ)
    unfold integer
    split
    · rename_i t ht
      have hb := isDigit_of_mem_decimal (n := m) (b := 0x2d) (ht ▸ mem_cons_self)
      exact absurd hb (by decide)
    · rw [if_pos, digitsValue_decimal]
      rw [digitsValue_decimal]
      exact ⟨hdigits m, by omega⟩
  | negSucc m =>
    show integer (0x2d :: decimal (m + 1)) = some (Int.negSucc m)
    rw [integer, if_pos, digitsValue_decimal, Int.negSucc_eq]
    · rfl
    · rw [digitsValue_decimal]
      exact ⟨hdigits _, by omega, by omega⟩

/-! ### Members -/

def buttonsValue (b : WireButtons) : Value :=
  .obj [(ascii "l", .bool b.l), (ascii "r", .bool b.r), (ascii "m", .bool b.m)]

def inputValues (i : WireInput) : List (List Char × Value) :=
  [(ascii "type", .str (ascii "input")), (ascii "ev", .str i.ev.name)] ++
    omitempty "x" .int i.x ++ omitempty "y" .int i.y ++ omitempty "buttons" buttonsValue i.buttons ++
    omitempty "monitor" .int i.monitor ++ omitempty "dx" .int i.dx ++ omitempty "dy" .int i.dy ++
    omitempty "code" .int i.code ++ omitempty "down" .bool i.down ++ omitempty "ext" .bool i.ext ++
    omitempty "ch" .str i.ch

/-- The members of a canonical frame, as `serde_json` holds them. -/
def frameValues (beyond : ℤ → ℤ) : OpFrame → List (List Char × Value)
  | .input i => inputValues i
  | .ack monitor frame =>
    [(ascii "type", .str (ascii "ack")), (ascii "monitor", .int monitor), (ascii "frame", .int frame)]
  | .setMonitor monitor => [(ascii "type", .str (ascii "set_monitor")), (ascii "monitor", .int monitor)]
  | .quality fps jpegQ =>
    [(ascii "type", .str (ascii "quality")), (ascii "fps", .int (clampInt beyond fps 1 maxFPS maxFPS)),
      (ascii "jpeg_q", .int (clampInt beyond jpegQ minJPEGQuality maxJPEGQuality defaultJPEGQuality))]
  | .close => [(ascii "type", .str (ascii "close"))]

variable {vs : List (List Char × Value)} {i : WireInput} {f : OpFrame}

section Values

variable {tooLarge : Str → Bool} {k : ℕ}

theorem strictValue_jsonOf {n : ℤ} (h : -2 ^ 63 ≤ n ∧ n < 2 ^ 64) :
    strictValue tooLarge k (jsonOf n) = some (.int n) := by
  rw [jsonOf, strictValue, integer_decimalInt h]

theorem strictValue_buttons (b : WireButtons) : strictValue tooLarge (k + 1) b.json = some (buttonsValue b) := by
  rw [WireButtons.json, strictValue, if_pos]
  · simp [Wire.strictMembers, strictValue, buttonsValue]
  · show [ascii "l", ascii "r", ascii "m"].Nodup
    decide

theorem strictMembers_cons {name : List Char} {v : Json} {w : Value} {ms : Members}
    (hv : strictValue tooLarge k v = some w) (hms : Wire.strictMembers tooLarge k ms = some vs) :
    Wire.strictMembers tooLarge k ((name, v) :: ms) = some ((name, w) :: vs) := by
  simp [Wire.strictMembers, hv, hms]

theorem strictMembers_append {ms ms' : Members} {vs' : List (List Char × Value)}
    (h : Wire.strictMembers tooLarge k ms = some vs) (h' : Wire.strictMembers tooLarge k ms' = some vs') :
    Wire.strictMembers tooLarge k (ms ++ ms') = some (vs ++ vs') := by
  induction ms generalizing vs with
  | nil =>
    cases h
    exact h'
  | cons m ms ih =>
    obtain ⟨name, v⟩ := m
    simp only [Wire.strictMembers, Option.bind_eq_bind, Option.bind_eq_some_iff, Option.some.injEq] at h
    obtain ⟨w, hw, ws, hws, rfl⟩ := h
    exact strictMembers_cons hw (ih hws)

theorem strictMembers_omitempty {α : Type} {name : String} {write : α → Json} {read : α → Value} {v : Option α}
    (h : ∀ a ∈ v, strictValue tooLarge k (write a) = some (read a)) :
    Wire.strictMembers tooLarge k (omitempty name write v) = some (omitempty name read v) := by
  cases v with
  | none => rfl
  | some a => exact strictMembers_cons (h a rfl) rfl

theorem strictMembers_input (hi : i.WellFormed) :
    Wire.strictMembers tooLarge (k + 1) i.members = some (inputValues i) := by
  have hint : ∀ {name : String} {v : Option ℤ}, v ∈ [i.x, i.y, i.monitor, i.dx, i.dy, i.code] →
      Wire.strictMembers tooLarge (k + 1) (omitempty name jsonOf v) = some (omitempty name .int v) := by
    intro name v hv
    refine strictMembers_omitempty fun n hn => strictValue_jsonOf ?_
    have hrange := hi.int64 v hv n hn
    omega
  have hbool : ∀ {name : String} {v : Option Bool},
      Wire.strictMembers tooLarge (k + 1) (omitempty name .bool v) = some (omitempty name .bool v) :=
    strictMembers_omitempty fun b _ => rfl
  have hhead : Wire.strictMembers tooLarge (k + 1) [(ascii "type", textOf "input"), (ascii "ev", .str i.ev.name)] =
      some [(ascii "type", .str (ascii "input")), (ascii "ev", .str i.ev.name)] := rfl
  have hbuttons : Wire.strictMembers tooLarge (k + 1) (omitempty "buttons" WireButtons.json i.buttons) =
      some (omitempty "buttons" buttonsValue i.buttons) :=
    strictMembers_omitempty fun b _ => strictValue_buttons b
  have hch : Wire.strictMembers tooLarge (k + 1) (omitempty "ch" .str i.ch) = some (omitempty "ch" .str i.ch) :=
    strictMembers_omitempty fun s _ => rfl
  exact strictMembers_append (strictMembers_append (strictMembers_append (strictMembers_append (strictMembers_append
    (strictMembers_append (strictMembers_append (strictMembers_append (strictMembers_append (strictMembers_append
      hhead (hint (by simp))) (hint (by simp))) hbuttons) (hint (by simp))) (hint (by simp))) (hint (by simp)))
      (hint (by simp))) hbool) hbool) hch

theorem strictMembers_canonical (beyond : ℤ → ℤ) (hf : f.WellFormed) :
    Wire.strictMembers tooLarge (k + 1) (f.members beyond) = some (frameValues beyond f) := by
  cases f with
  | input i => exact strictMembers_input hf
  | ack monitor frame =>
    obtain ⟨hmonitor, hframe⟩ := hf
    unfold maxUint32 at hmonitor
    unfold maxInt64 at hframe
    exact strictMembers_cons rfl (strictMembers_cons (strictValue_jsonOf (by omega))
      (strictMembers_cons (strictValue_jsonOf (by omega)) rfl))
  | setMonitor monitor =>
    unfold OpFrame.WellFormed maxUint32 at hf
    exact strictMembers_cons rfl (strictMembers_cons (strictValue_jsonOf (by omega)) rfl)
  | quality fps jpegQ =>
    have hfps := clampedFps_range beyond fps
    have hjpegQ := clampedJpegQ_range beyond jpegQ
    exact strictMembers_cons rfl (strictMembers_cons (strictValue_jsonOf (by omega))
      (strictMembers_cons (strictValue_jsonOf (by omega)) rfl))
  | close => exact strictMembers_cons rfl rfl

theorem parse_canonicalMembers (beyond : ℤ → ℤ) (f : OpFrame) :
    parse (f.encode beyond) = some (.obj (f.members beyond)) := by
  apply parse_encode
  exact membersFit_iff.mpr fun m hm => (plain_members beyond f m hm).fits 9998

theorem fromSlice_canonical (beyond : ℤ → ℤ) (hf : f.WellFormed) :
    fromSlice tooLarge (f.encode beyond) = some (.obj (frameValues beyond f)) := by
  rw [fromSlice, if_pos ⟨utf8Valid_canonical beyond f, wholePairs_canonical beyond f⟩, parse_canonicalMembers,
    Option.bind_some]
  show strictValue tooLarge (126 + 1) _ = _
  rw [strictValue, if_pos (nodup_members beyond f), strictMembers_canonical (k := 125) beyond hf, Option.map_some]

end Values

/-! ### Messages -/

def WireInput.raw (i : WireInput) : RawInput where
  ev := i.ev.name
  x := i.x
  y := i.y
  buttons := i.buttons.map fun b => ⟨b.l, b.r, b.m⟩
  monitor := i.monitor
  dx := i.dx
  dy := i.dy
  code := i.code
  down := i.down
  ext := i.ext
  ch := i.ch

/-- The helper's message for a frame of the hub. -/
def OpFrame.inMsg (beyond : ℤ → ℤ) : OpFrame → InMsg
  | .input i => .input i.raw
  | .ack monitor frame => .ack monitor frame
  | .setMonitor monitor => .setMonitor monitor
  | .quality fps jpegQ =>
    .quality (some (clampInt beyond fps 1 maxFPS maxFPS))
      (some (clampInt beyond jpegQ minJPEGQuality maxJPEGQuality defaultJPEGQuality))
  | .close => .close

theorem member_filter {β : Type} (ms : List (List Char × β)) {k t : String} (h : k ≠ t) :
    member (ms.filter (·.1 ≠ ascii t)) k = member ms k := by
  rw [member, member, find?_filter]
  congr 2
  funext m
  by_cases hm : m.1 = ascii k
  · simp [hm, ascii_inj, h]
  · simp [hm]

theorem onlyKeys_filter {β : Type} {ms : List (List Char × β)} {t : String} {allowed : List String}
    (h : onlyKeys ms (t :: allowed)) : onlyKeys (ms.filter (·.1 ≠ ascii t)) allowed := by
  rw [onlyKeys, all_eq_true] at h ⊢
  intro m hm
  obtain ⟨hm, hne⟩ := List.mem_filter.mp hm
  have hkey := h m hm
  simpa [of_decide_eq_true hne] using hkey

theorem orNone_of_member {α β : Type} {read : Value → Option β} (write : α → Value) (f : α → β) {k : String}
    {v : Option α} (h : member vs k = v.map write) (hnull : ∀ a, write a ≠ .null)
    (hread : ∀ a ∈ v, read (write a) = some (f a)) : orNone read (member vs k) = some (v.map f) := by
  rw [h]
  cases v with
  | none => rfl
  | some a =>
    rw [Option.map_some, orNone, hread a rfl, Option.map_some, Option.map_some]
    exact hnull a

theorem toInt_int {lo hi n : ℤ} (h : lo ≤ n ∧ n ≤ hi) : Wire.toInt lo hi (.int n) = some n := if_pos h

theorem toButtons_value (b : WireButtons) : toButtons (buttonsValue b) = some ⟨b.l, b.r, b.m⟩ := by
  simp [buttonsValue, toButtons, toButtonsOf, Fields.fits, Fields.get, onlyKeys, withDefault, Wire.toBool]

theorem toRawInput_values (hi : i.WellFormed) :
    toRawInput (.map ((inputValues i).filter (·.1 ≠ ascii "type"))) = some i.raw := by
  have hfits : Fields.fits (.map ((inputValues i).filter (·.1 ≠ ascii "type"))) true rawInputNames := by
    apply onlyKeys_filter
    simp only [inputValues, onlyKeys_append, Bool.and_eq_true]
    refine ⟨⟨⟨⟨⟨⟨⟨⟨⟨⟨?_, ?_⟩, ?_⟩, ?_⟩, ?_⟩, ?_⟩, ?_⟩, ?_⟩, ?_⟩, ?_⟩, ?_⟩
    · cases i.ev <;> decide
    all_goals exact onlyKeys_omitempty fun _ => by decide
  have hget : ∀ {k : String} {n : ℕ}, k ≠ "type" →
      Fields.get (.map ((inputValues i).filter (·.1 ≠ ascii "type"))) k n = member (inputValues i) k :=
    fun h => member_filter _ h
  have hint : ∀ {k : String} {v : Option ℤ}, v ∈ [i.x, i.y, i.monitor, i.dx, i.dy, i.code] →
      member (inputValues i) k = v.map .int → orNone toI64 (member (inputValues i) k) = some (v.map id) := by
    intro k v hv hmember
    refine orNone_of_member .int id hmember nofun fun n hn => toInt_int ?_
    have hrange := hi.int64 v hv n hn
    omega
  have hbool : ∀ {k : String} {v : Option Bool}, member (inputValues i) k = v.map .bool →
      orNone Wire.toBool (member (inputValues i) k) = some (v.map id) :=
    fun hmember => orNone_of_member .bool id hmember nofun fun _ _ => rfl
  have hev : (member (inputValues i) "ev").bind Wire.toString = some i.ev.name := by simp [inputValues, Wire.toString]
  have hx := hint (k := "x") (v := i.x) (by simp) (by simp [inputValues])
  have hy := hint (k := "y") (v := i.y) (by simp) (by simp [inputValues])
  have hmonitor := hint (k := "monitor") (v := i.monitor) (by simp) (by simp [inputValues])
  have hdx := hint (k := "dx") (v := i.dx) (by simp) (by simp [inputValues])
  have hdy := hint (k := "dy") (v := i.dy) (by simp) (by simp [inputValues])
  have hcode := hint (k := "code") (v := i.code) (by simp) (by simp [inputValues])
  have hdown := hbool (k := "down") (v := i.down) (by simp [inputValues])
  have hext := hbool (k := "ext") (v := i.ext) (by simp [inputValues])
  have hch : orNone Wire.toString (member (inputValues i) "ch") = some (i.ch.map id) :=
    orNone_of_member .str id (by simp [inputValues]) nofun fun _ _ => rfl
  have hbuttons : orNone toButtons (member (inputValues i) "buttons") =
      some (i.buttons.map fun b => ⟨b.l, b.r, b.m⟩) :=
    orNone_of_member buttonsValue _ (by simp [inputValues]) nofun fun b _ => toButtons_value b
  rw [toRawInput, if_pos hfits]
  simp only [hget, ne_eq, not_false_eq_true, String.reduceEq, hev, hx, hy, hmonitor, hdx, hdy, hcode,
    hdown, hext, hch, hbuttons, Option.bind_eq_bind, Option.bind_some, Option.map_id, id, WireInput.raw]

theorem parseIn_canonical (tooLarge : Str → Bool) (beyond : ℤ → ℤ) (hf : f.WellFormed) :
    parseIn tooLarge (f.encode beyond) = some (f.inMsg beyond) := by
  rw [parseIn, fromSlice_canonical beyond hf, Option.bind_some]
  cases f with
  | input i =>
    have htag : (member (inputValues i) "type").bind Wire.toString = some (ascii "input") := by
      simp [inputValues, Wire.toString]
    simp only [fromValue, frameValues, htag, Option.bind_eq_bind, Option.bind_some, toVariant, if_true,
      toRawInput_values hf, Option.map_some, OpFrame.inMsg]
  | ack monitor frame =>
    obtain ⟨hmonitor, hframe⟩ := hf
    have hmonitor' : toU32 (.int monitor) = some monitor := toInt_int hmonitor
    have hframe' : toU64 (.int frame) = some frame := toInt_int (by unfold maxInt64 at hframe; omega)
    simp [fromValue, frameValues, Wire.toString, toVariant, Fields.fits, Fields.get, ascii_inj, withDefault, hmonitor',
      hframe', OpFrame.inMsg]
  | setMonitor monitor =>
    have hmonitor : toU32 (.int monitor) = some monitor := toInt_int hf
    simp [fromValue, frameValues, Wire.toString, toVariant, Fields.fits, Fields.get, ascii_inj, hmonitor, OpFrame.inMsg]
  | quality fps jpegQ =>
    have hfps := clampedFps_range beyond fps
    have hjpegQ := clampedJpegQ_range beyond jpegQ
    have hfps' : toU32 (.int _) = some _ := toInt_int ⟨hfps.1, by omega⟩
    have hjpegQ' : toU32 (.int _) = some _ := toInt_int ⟨hjpegQ.1, by omega⟩
    simp [fromValue, frameValues, Wire.toString, toVariant, Fields.fits, Fields.get, ascii_inj, orNone, hfps', hjpegQ',
      OpFrame.inMsg]
  | close => rfl

/-! ## Events -/

/-- An event is the one that an input frame describes, with the defaults of a missing member. -/
inductive WireInput.Describes (i : WireInput) : InputEvent → Prop
  | mouse {x y monitor : ℤ} {b : WireButtons} (hev : i.ev = .mouse) (hx : i.x = some x) (hy : i.y = some y)
      (hb : i.buttons.getD {} = b) (hmonitor : i.monitor.getD 0 = monitor) :
      i.Describes (.mouse x y b.l b.r b.m monitor)
  | wheel {dx dy monitor : ℤ} (hev : i.ev = .wheel) (hdx : i.dx.getD 0 = dx) (hdy : i.dy.getD 0 = dy)
      (hmonitor : i.monitor.getD 0 = monitor) : i.Describes (.wheel dx dy monitor)
  | key {code : ℤ} {down ext : Bool} (hev : i.ev = .key) (hcode : i.code = some code) (hdown : i.down.getD true = down)
      (hext : i.ext.getD false = ext) : i.Describes (.key code down ext)
  | text {s : List Char} (hev : i.ev = .text) (hch : i.ch = some s) : i.Describes (.text (utf16 s))
  | sas (hev : i.ev = .sas) : i.Describes .sas

theorem inCoord_eq {v w : ℤ} (h : inCoord v = some w) : v = w := by
  unfold inCoord at h
  split_ifs at h
  exact Option.some.inj h

theorem inWheel_eq {v w : ℤ} (h : inWheel v = some w) : v = w := by
  unfold inWheel at h
  split_ifs at h
  exact Option.some.inj h

theorem validMonitor_eq {m : Option ℤ} {count n : ℤ} (h : validMonitor m count = some n) : m.getD 0 = n := by
  unfold validMonitor at h
  split_ifs at h
  exact Option.some.inj h

theorem describes_of_validate {count : ℤ} {e : InputEvent} (h : validate i.raw count = some e) : i.Describes e := by
  have hname : i.raw.ev = i.ev.name := rfl
  unfold validate at h
  rw [hname] at h
  cases hev : i.ev with
  | mouse =>
    rw [hev, if_pos (by decide)] at h
    simp only [Option.bind_eq_bind, Option.bind_eq_some_iff, Option.some.injEq] at h
    obtain ⟨x, hx, x', hx', y, hy, y', hy', monitor, hmonitor, rfl⟩ := h
    obtain rfl := inCoord_eq hx'
    obtain rfl := inCoord_eq hy'
    obtain rfl := validMonitor_eq hmonitor
    have hbuttons : i.raw.buttons.getD ⟨false, false, false⟩ =
        ⟨(i.buttons.getD {}).l, (i.buttons.getD {}).r, (i.buttons.getD {}).m⟩ := by
      show (i.buttons.map _).getD _ = _
      cases i.buttons <;> rfl
    rw [hbuttons]
    exact .mouse hev hx hy rfl rfl
  | wheel =>
    rw [hev, if_neg (by decide), if_pos (by decide)] at h
    simp only [Option.bind_eq_bind, Option.bind_eq_some_iff] at h
    obtain ⟨dx, hdx, dy, hdy, monitor, hmonitor, h⟩ := h
    split_ifs at h
    cases h
    exact .wheel hev (inWheel_eq hdx) (inWheel_eq hdy) (validMonitor_eq hmonitor)
  | key =>
    rw [hev, if_neg (by decide), if_neg (by decide), if_pos (by decide)] at h
    simp only [Option.bind_eq_bind, Option.bind_eq_some_iff] at h
    obtain ⟨code, hcode, h⟩ := h
    split_ifs at h
    cases h
    exact .key hev hcode rfl rfl
  | text =>
    rw [hev, if_neg (by decide), if_neg (by decide), if_neg (by decide), if_pos (by decide)] at h
    simp only [Option.bind_eq_bind, Option.bind_eq_some_iff] at h
    obtain ⟨s, hs, h⟩ := h
    split_ifs at h
    cases h
    exact .text hev hs
  | sas =>
    rw [hev, if_neg (by decide), if_neg (by decide), if_neg (by decide), if_neg (by decide), if_pos (by decide)] at h
    cases h
    exact .sas hev

/-! ### The audit of an event -/

/-- How many characters there are: the units that are not the second half of a pair. -/
def characters (units : List ℕ) : ℕ := units.countP fun u => ¬(0xdc00 ≤ u ∧ u < 0xe000)

theorem characters_utf16 (s : List Char) : characters (utf16 s) = s.length := by
  induction s with
  | nil => rfl
  | cons c s ih =>
    have hchar : characters (utf16Char c) = 1 := by
      have hvalid : c.toNat < 0xd800 ∨ 0xdfff < c.toNat ∧ c.toNat < 0x110000 := c.valid
      unfold utf16Char characters
      split_ifs with hlow
      · have hunit : ¬(0xdc00 ≤ c.toNat ∧ c.toNat < 0xe000) := by omega
        simp [hunit]
      · have hfirst : 0xd800 + (c.toNat - 0x10000) / 1024 < 0xdc00 := by omega
        have hsecond : 0xdc00 ≤ 0xdc00 + (c.toNat - 0x10000) % 1024 ∧ 0xdc00 + (c.toNat - 0x10000) % 1024 < 0xe000 := by
          omega
        rw [countP_cons_of_pos (by simp [hfirst]), countP_cons_of_neg (by simpa using hsecond)]
        rfl
    show characters (utf16Char c ++ utf16 s) = s.length + 1
    rw [characters, countP_append]
    unfold characters at hchar ih
    omega

/-- What the audit says of an event, after a last state of the buttons. -/
def eventAudit (held : WireButtons) : InputEvent → AuditCall
  | .mouse x y left right middle monitor => auditMouse held ⟨left, right, middle⟩ (auditAt (some x) (some y) monitor)
  | .wheel dx dy monitor => auditWheel dx dy (auditAt none none monitor)
  | .key _ _ _ => .countKey
  | .text units => auditText (characters units)
  | .sas => auditSas

theorem audit_of_describes {e : InputEvent} (hi : i.WellFormed) (h : i.Describes e) (held : WireButtons) :
    i.audit held = eventAudit held e := by
  cases h with
  | mouse hev hx hy hb hmonitor => simp only [WireInput.audit, eventAudit, hev, hx, hy, hb, hmonitor]
  | wheel hev hdx hdy hmonitor =>
    have hx : i.x = none := by
      by_contra hne
      have hmem := mem_of_onlyKeys hi.keys (k := "x") (by simpa [WireInput.members] using hne)
      rw [hev] at hmem
      exact absurd hmem (by decide)
    have hplace : ∀ m, auditAt i.x i.y m = auditAt none none m := by
      intro m
      rw [hx]
      rfl
    simp only [WireInput.audit, eventAudit, hev, hdx, hdy, hplace, hmonitor]
  | key hev hcode hdown hext | sas hev => simp only [WireInput.audit, eventAudit, hev]
  | text hev hch => simp only [WireInput.audit, eventAudit, hev, hch, Option.getD_some, characters_utf16]

/-! ## The relay -/

/-- What the relay makes of a message of the control attachment. -/
def operatorMessage (beyond : ℤ → ℤ) (p : Policy) (typ : MessageType) (message : Str) : Option RelayMsg × FrameDecision :=
  reencoded (p.operator beyond typ message).decision

/-- A forwarded message is the encoding of a frame that was parsed and, if it is an input, audited. -/
theorem operatorMessage_some {beyond : ℤ → ℤ} {p : Policy} {typ : MessageType} {message : Str} {msg : RelayMsg}
    (h : (operatorMessage beyond p typ message).1 = some msg) :
    ∃ f, parseOperatorFrame message = .ok f ∧ msg.typ = .text ∧ msg.data = f.encode beyond ∧
      ∀ i, f = .input i → p.control ∧ (p.operator beyond typ message).audit = (p.auditInput i).1 := by
  unfold operatorMessage at h
  cases typ with
  | binary => cases h
  | text =>
    simp only [Policy.operator] at h ⊢
    cases hf : parseOperatorFrame message with
    | error err =>
      rw [hf] at h
      cases err <;> cases h
    | ok f =>
      rw [hf] at h
      refine ⟨f, rfl, ?_⟩
      cases f with
      | input i =>
        cases hcontrol : p.control with
        | false =>
          simp only [hcontrol] at h
          cases h
        | true =>
          simp only [hcontrol] at h
          cases h
          refine ⟨rfl, rfl, fun i' hi' => ?_⟩
          cases hi'
          exact ⟨rfl, rfl⟩
      | ack monitor frame | setMonitor monitor | quality fps jpegQ =>
        cases h
        exact ⟨rfl, rfl, fun i hi => by cases hi⟩
      | close => cases h

/-- A click with its members in another order and the right button left out. -/
def clickMessage : Str :=
  str "\x7b\"ev\": \"mouse\", \"monitor\": 1, \"y\": 6, \"x\": 5, \"buttons\": \x7b\"l\": true\x7d, \"type\": \"input\"\x7d"

def clickForwarded : Str :=
  str "\x7b\"type\":\"input\",\"ev\":\"mouse\",\"x\":5,\"y\":6,\"buttons\":\x7b\"l\":true,\"r\":false,\"m\":false\x7d,\"monitor\":1\x7d"

def clickPolicy : Policy := { newPolicy (str "screen:control") with audited := true }

end Ominull.Screen
