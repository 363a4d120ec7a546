import Mathlib.Data.List.Chain
import Ominull.Auth.StateFile
import Ominull.Go.Lower
import Ominull.Lib.Framing
import Ominull.Lib.Run

/-!
The epochs of the trust bundles: the authority raises a tenant's epoch whenever the tenant's three public
keys change, and keeps it in a file.
-/

namespace Ominull.Auth.TrustEpochs

open Go Lib List

@[ext]
structure KeySet where
  response : Str
  autoIsolate : Str
  policy : Str
  deriving DecidableEq

/-- The keys in hex, put together. -/
def KeySet.text (k : KeySet) : Str :=
  hexEncode k.response ++ str "|" ++ hexEncode k.autoIsolate ++ str "|" ++ hexEncode k.policy

structure TrustEpoch where
  epoch : Int := 0
  keys : Str := []
  deriving DecidableEq

namespace TrustEpoch

def marshal (e : TrustEpoch) : Str :=
  marshalStruct [some (str "epoch", decimalInt e.epoch), some (str "keys", quote e.keys)]

def fields : List (Go.Field TrustEpoch) :=
  [⟨ascii "epoch", fun v e => (decodeInt v e.epoch).map fun x => { e with epoch := x }⟩,
   ⟨ascii "keys", fun v e => (decodeString v e.keys).map fun x => { e with keys := x }⟩]

def decode : Json → TrustEpoch → Option TrustEpoch := decodeStruct fields

end TrustEpoch

/-- An epoch that was returned, with the floor of the day. -/
structure Answer where
  tenantID : Str
  keys : KeySet
  epoch : Int
  floor : Int
  deriving DecidableEq

/-- `trustEpochs` and its file, with the epochs returned so far. `items` is `none` for epochs that could
not be read. -/
structure State where
  items : Option (StringMap TrustEpoch)
  floor : Int64
  file : StateFile
  answers : List Answer

def State.init (floor : Int64) : State := ⟨some .empty, floor, .absent, []⟩

section

variable (sha256 : Str → Str) (stateDir : Bool)

def fingerprint (k : KeySet) : Str := hexEncode (sha256 (toLower k.text))

def newTrustEpochs (raw : Option (Option Str)) : Option (StringMap TrustEpoch) :=
  if stateDir then loadMap TrustEpoch.decode {} raw else some .empty

/-- The epoch a key set comes to: its own where only the floor moves it, else the one after. -/
def nextEpoch (cur : Option TrustEpoch) (fp : Str) (floor : Int) : Int :=
  let next := match cur with
    | some c => if c.keys = fp then c.epoch else wrap64 (c.epoch + 1)
    | none => 1
  if next < floor then floor else next

/-- `epochFor`: the epoch, or `none` for an error, and the state afterwards. -/
def epochFor (s : State) (tenantID : Str) (k : KeySet) (o : Saved) : Option Int × State :=
  match s.items with
  | none => (none, s)
  | some m =>
    let fp := fingerprint sha256 k
    let floor := s.floor.toInt
    let cur := m.get tenantID
    match cur.filter fun c => c.keys = fp ∧ floor ≤ c.epoch with
    | some c => (some c.epoch, { s with answers := s.answers ++ [⟨tenantID, k, c.epoch, floor⟩] })
    | none =>
      let epoch := nextEpoch cur fp floor
      let m' := m.set tenantID ⟨epoch, fp⟩
      let file := if stateDir then s.file.write (marshalMap TrustEpoch.marshal m') o else s.file
      if stateDir ∧ o ≠ .done then (none, { s with file := file })
      else (some epoch, ⟨some m', s.floor, file, s.answers ++ [⟨tenantID, k, epoch, floor⟩]⟩)

inductive Event where
  | present (tenantID : Str) (k : KeySet) (o : Saved)
  /-- A restart with a floor, after a power loss or not; the file may be there and not readable. -/
  | restart (floor : Int64) (lost readable : Bool)

def step (s : State) : Event → Option State
  | .present tenantID k o => some (epochFor sha256 stateDir s tenantID k o).2
  | .restart floor lost readable =>
    let file := s.file.reboot lost
    some { s with items := newTrustEpochs stateDir (file.read readable), floor := floor, file := file }

/-- A save that fails does so before the rename, the tenant ids are valid UTF-8, no epoch comes to its
end, and an authority that has returned an epoch restarts only with a state directory. -/
def Kept (s : State) : Event → Prop
  | .present tenantID k o => IsText tenantID ∧ o ≠ .renamed ∧
    ∀ m ∈ s.items, ∀ c ∈ m.get tenantID, c.keys = fingerprint sha256 k ∨ c.epoch < 2 ^ 63 - 1
  | .restart .. => stateDir = true ∨ s.answers = []

instance (s : State) (e : Event) : Decidable (Kept sha256 stateDir s e) := by
  cases e <;> dsimp only [Kept] <;> infer_instance

end

/-! ## Key sets -/

theorem isLowerAscii_text (k : KeySet) : ∀ b ∈ k.text, isLowerAscii b := by
  have hbar : ∀ b ∈ str "|", isLowerAscii b := all_iff_forall_prop.mp (by decide)
  intro b hb
  simp only [KeySet.text, mem_append] at hb
  rcases hb with (((hb | hb) | hb) | hb) | hb
  · exact isLowerAscii_hexEncode b hb
  · exact hbar b hb
  · exact isLowerAscii_hexEncode b hb
  · exact hbar b hb
  · exact isLowerAscii_hexEncode b hb

theorem bar_not_mem_hexEncode (s : Str) : 0x7c ∉ hexEncode s := fun hb =>
  forall_mem_hexEncode (P := (· ≠ 0x7c)) (by decide) s _ hb rfl

theorem KeySet.text_injective : Function.Injective KeySet.text := by
  intro k k' h
  have hshape : ∀ k : KeySet, k.text =
      hexEncode k.response ++ 0x7c :: (hexEncode k.autoIsolate ++ 0x7c :: hexEncode k.policy) := by
    intro k
    have hbar : str "|" = [0x7c] := rfl
    simp only [KeySet.text, hbar, append_assoc, cons_append, nil_append]
  rw [hshape, hshape] at h
  obtain ⟨hresponse, h⟩ := append_sep_inj (bar_not_mem_hexEncode _) (bar_not_mem_hexEncode _) h
  obtain ⟨hauto, hpolicy⟩ := append_sep_inj (bar_not_mem_hexEncode _) (bar_not_mem_hexEncode _) h
  exact KeySet.ext (hexEncode_injective hresponse) (hexEncode_injective hauto) (hexEncode_injective hpolicy)

theorem eq_of_fingerprint {sha256 : Str → Str} {k k' : KeySet} (h : fingerprint sha256 k = fingerprint sha256 k') :
    k = k' ∨ k.text ≠ k'.text ∧ sha256 k.text = sha256 k'.text := by
  have hhash := hexEncode_injective h
  rw [toLower_of_isLowerAscii (isLowerAscii_text k), toLower_of_isLowerAscii (isLowerAscii_text k')] at hhash
  by_cases heq : k.text = k'.text
  · exact .inl (KeySet.text_injective heq)
  · exact .inr ⟨heq, hhash⟩

/-! ## The file -/

theorem spelled_epoch {e : TrustEpoch} (hepoch : -2 ^ 63 ≤ e.epoch ∧ e.epoch < 2 ^ 63) (hkeys : IsText e.keys) :
    ∃ j, Spelled TrustEpoch.marshal TrustEpoch.decode {} j e := by
  obtain ⟨epoch, keys⟩ := e
  obtain ⟨keys, rfl⟩ := hkeys
  let ms : List (List Char × Json) := [(ascii "epoch", .num (decimalInt epoch)), (ascii "keys", .str keys)]
  have hmembers : ∀ e, storeMember TrustEpoch.fields e (ascii "epoch", .num (decimalInt epoch)) =
      some { e with epoch := epoch } := fun e => congrArg (Option.map _) (decodeInt_decimalInt hepoch e.epoch)
  refine ⟨.obj ms, fun n => ?_, ?_, ?_⟩
  · rw [Json.Fits, membersFit_iff]
    simp only [ms, forall_mem_cons, Json.Fits, numberText_decimalInt, true_and]
    exact forall_mem_nil _
  · rw [← marshalStruct_eq_encode]
    simp only [TrustEpoch.marshal, ms, map_cons, map_nil, encode, quote_utf8]
    rfl
  · show ms.foldlM (storeMember TrustEpoch.fields) {} = _
    rw [foldlM_cons, hmembers]
    rfl

/-! ## Runs -/

def answersFor (answers : List Answer) (tenantID : Str) : List Answer := answers.filter fun a => a.tenantID = tenantID

def latest (answers : List Answer) (tenantID : Str) : Option Answer := (answersFor answers tenantID).getLast?

section

variable (sha256 : Str → Str)

/-- The map has the last answer of every tenant, and can be written. -/
structure Records (answers : List Answer) (m : StringMap TrustEpoch) : Prop where
  last : ∀ t, m.get t = (latest answers t).map fun a => ⟨a.epoch, fingerprint sha256 a.keys⟩
  fits : ∀ t e, m.get t = some e → IsText t ∧ -2 ^ 63 ≤ e.epoch ∧ e.epoch < 2 ^ 63 ∧ IsText e.keys

/-- The epochs of a tenant do not fall, tell its key sets apart, and move with the keys or the floor only. -/
structure Ordered (answers : List Answer) : Prop where
  rising : answers.Pairwise fun a b => a.tenantID = b.tenantID → a.epoch ≤ b.epoch
  apart : answers.Pairwise fun a b => a.tenantID = b.tenantID → a.epoch = b.epoch →
    fingerprint sha256 a.keys = fingerprint sha256 b.keys
  steady : ∀ t, (answersFor answers t).IsChain fun a b =>
    fingerprint sha256 a.keys = fingerprint sha256 b.keys → b.epoch = max a.epoch b.floor

/-- The epochs in memory and on disk are those of the last answers. -/
structure State.Holds (stateDir : Bool) (s : State) : Prop where
  ordered : Ordered sha256 s.answers
  memory : ∀ m ∈ s.items, Records sha256 s.answers m
  file : stateDir = true → s.file.Holds TrustEpoch.decode {} (Records sha256 s.answers)

end

variable {sha256 : Str → Str} {stateDir : Bool} {s : State} {m m' : StringMap TrustEpoch} {answers : List Answer}
  {tenantID : Str} {k : KeySet} {a : Answer}

theorem answersFor_append (answers : List Answer) (a : Answer) (t : Str) :
    answersFor (answers ++ [a]) t = answersFor answers t ++ if a.tenantID = t then [a] else [] := by
  unfold answersFor
  rw [filter_append, filter_singleton]
  simp

theorem latest_append (answers : List Answer) (a : Answer) (t : Str) :
    latest (answers ++ [a]) t = if a.tenantID = t then some a else latest answers t := by
  unfold latest
  rw [answersFor_append]
  split_ifs <;> simp

theorem mem_of_latest {t : Str} (h : latest answers t = some a) : a ∈ answers ∧ a.tenantID = t := by
  have hmem := List.mem_filter.mp (mem_of_getLast? h)
  exact ⟨hmem.1, by simpa using hmem.2⟩

theorem rel_latest {R : Answer → Answer → Prop} (hR : answers.Pairwise fun a b => a.tenantID = b.tenantID → R a b)
    {b : Answer} (ha : a ∈ answers) (hb : latest answers a.tenantID = some b) : a = b ∨ R a b := by
  have hpairs : (answersFor answers a.tenantID).Pairwise fun a b => a.tenantID = b.tenantID → R a b := hR.filter _
  obtain ⟨l, hl⟩ := getLast?_eq_some_iff.mp hb
  have hmem : a ∈ answersFor answers a.tenantID := List.mem_filter.mpr ⟨ha, by simp⟩
  rw [hl] at hmem hpairs
  rcases mem_append.mp hmem with hmem | hmem
  · right
    exact (pairwise_append.mp hpairs).2.2 a hmem b mem_cons_self (mem_of_latest hb).2.symm
  · exact .inl (mem_singleton.mp hmem)

namespace Records

theorem congr (h : Records sha256 answers m) (hget : ∀ k, m'.get k = m.get k) : Records sha256 answers m' where
  last t := by rw [hget, h.last]
  fits t e he := h.fits t e (hget t ▸ he)

theorem empty : Records sha256 [] .empty := ⟨fun _ => rfl, fun _ _ h => (by cases h)⟩

theorem writable (h : Records sha256 answers m) :
    StateFile.Holds.Writable TrustEpoch.marshal TrustEpoch.decode {} m := by
  constructor
  · exact fun p hp => (h.fits _ _ (StringMap.get_of_mem hp)).1
  · intro p hp
    obtain ⟨-, hlow, hhigh, hkeys⟩ := h.fits _ _ (StringMap.get_of_mem hp)
    exact spelled_epoch ⟨hlow, hhigh⟩ hkeys

theorem repeated (h : Records sha256 answers m) (ha : m.get a.tenantID = some ⟨a.epoch, fingerprint sha256 a.keys⟩) :
    Records sha256 (answers ++ [a]) m where
  last t := by
    rw [latest_append]
    split_ifs with heq
    · rw [← heq, ha]
      rfl
    · exact h.last t
  fits := h.fits

theorem entered (h : Records sha256 answers m) (hname : IsText a.tenantID)
    (hepoch : -2 ^ 63 ≤ a.epoch ∧ a.epoch < 2 ^ 63) :
    Records sha256 (answers ++ [a]) (m.set a.tenantID ⟨a.epoch, fingerprint sha256 a.keys⟩) where
  last t := by
    rw [latest_append, StringMap.get_set]
    split_ifs
    · rfl
    · exact h.last t
  fits t e he := by
    rw [StringMap.get_set] at he
    split_ifs at he with heq
    · cases he
      exact ⟨heq ▸ hname, hepoch.1, hepoch.2, isText_hexEncode _⟩
    · exact h.fits t e he

end Records

/-- A further answer, held against the tenant's last. -/
theorem Ordered.append (h : Ordered sha256 answers)
    (hlast : ∀ b, latest answers a.tenantID = some b → b.epoch ≤ a.epoch ∧
      (b.epoch = a.epoch → fingerprint sha256 b.keys = fingerprint sha256 a.keys) ∧
      (fingerprint sha256 b.keys = fingerprint sha256 a.keys → a.epoch = max b.epoch a.floor)) :
    Ordered sha256 (answers ++ [a]) := by
  have hsome : ∀ c ∈ answers, c.tenantID = a.tenantID → ∃ b, latest answers c.tenantID = some b ∧
      b.epoch ≤ a.epoch ∧ (b.epoch = a.epoch → fingerprint sha256 b.keys = fingerprint sha256 a.keys) := by
    intro c hc heq
    have hne : answersFor answers c.tenantID ≠ [] := ne_nil_of_mem (List.mem_filter.mpr ⟨hc, by simp⟩)
    obtain ⟨b, hb⟩ := Option.isSome_iff_exists.mp (getLast?_isSome.mpr hne)
    obtain ⟨hle, hfp, -⟩ := hlast b (heq ▸ hb)
    exact ⟨b, hb, hle, hfp⟩
  refine ⟨?_, ?_, fun t => ?_⟩
  · refine pairwise_append.mpr ⟨h.rising, pairwise_singleton _ _, fun c hc a' ha' heq => ?_⟩
    obtain rfl := mem_singleton.mp ha'
    obtain ⟨b, hb, hle, -⟩ := hsome c hc heq
    rcases rel_latest h.rising hc hb with rfl | hcb
    · exact hle
    · exact hcb.trans hle
  · refine pairwise_append.mpr ⟨h.apart, pairwise_singleton _ _, fun c hc a' ha' heq hepoch => ?_⟩
    obtain rfl := mem_singleton.mp ha'
    obtain ⟨b, hb, hle, hfp⟩ := hsome c hc heq
    rcases rel_latest h.rising hc hb with rfl | hcb
    · exact hfp hepoch
    · -- the last answer lies between the two
      have hbetween : b.epoch = a'.epoch := le_antisymm hle (hepoch ▸ hcb)
      rcases rel_latest h.apart hc hb with rfl | hapart
      · exact hfp hepoch
      · exact (hapart (hepoch.trans hbetween.symm)).trans (hfp hbetween)
  · rw [answersFor_append]
    split_ifs with heq
    · refine isChain_append.mpr ⟨h.steady t, isChain_singleton _, fun b hb a' ha' => ?_⟩
      cases ha'
      subst heq
      exact (hlast b hb).2.2
    · rw [append_nil]
      exact h.steady t

theorem nextEpoch_spec (cur : Option TrustEpoch) (fp : Str) {floor : Int} (hfloor : -2 ^ 63 ≤ floor ∧ floor < 2 ^ 63)
    (hcur : ∀ c ∈ cur, -2 ^ 63 ≤ c.epoch ∧ c.epoch < 2 ^ 63 ∧ (c.keys = fp ∨ c.epoch < 2 ^ 63 - 1)) :
    (-2 ^ 63 ≤ nextEpoch cur fp floor ∧ nextEpoch cur fp floor < 2 ^ 63) ∧
      ∀ c ∈ cur, (c.keys = fp → nextEpoch cur fp floor = max c.epoch floor) ∧
        (c.keys ≠ fp → c.epoch < nextEpoch cur fp floor) := by
  cases cur with
  | none =>
    refine ⟨?_, fun _ h => (by cases h)⟩
    simp only [nextEpoch]
    split <;> omega
  | some c =>
    obtain ⟨hlow, hhigh, hroom⟩ := hcur c rfl
    have hnext : nextEpoch (some c) fp floor =
        max (if c.keys = fp then c.epoch else wrap64 (c.epoch + 1)) floor := by
      simp only [nextEpoch]
      split <;> omega
    rw [hnext]
    split_ifs with hkeys
    · refine ⟨by omega, fun c' hc' => ?_⟩
      cases hc'
      exact ⟨fun _ => rfl, fun hne => absurd hkeys hne⟩
    · have hless := hroom.resolve_left hkeys
      rw [wrap64_eq (by omega) (by omega)]
      refine ⟨by omega, fun c' hc' => ?_⟩
      cases hc'
      exact ⟨fun heq => absurd heq hkeys, fun _ => by omega⟩

namespace State.Holds

theorem current (h : s.Holds sha256 stateDir) (hm : s.items = some m) {b : Answer}
    (hb : latest s.answers tenantID = some b) : m.get tenantID = some ⟨b.epoch, fingerprint sha256 b.keys⟩ := by
  rw [(h.memory m hm).last, hb]
  rfl

theorem present (h : s.Holds sha256 stateDir) {o : Saved} (hkept : Kept sha256 stateDir s (.present tenantID k o)) :
    (epochFor sha256 stateDir s tenantID k o).2.Holds sha256 stateDir := by
  obtain ⟨hname, hsaved, hroom⟩ := hkept
  unfold epochFor
  split
  · exact h
  rename_i m hm
  have hrecords := h.memory m hm
  dsimp only
  split
  · -- the same keys, not below the floor
    rename_i c hc
    obtain ⟨hget, hsame⟩ := Option.filter_eq_some_iff.mp hc
    obtain ⟨hkeys, hfloor⟩ := of_decide_eq_true hsame
    have hentry : m.get tenantID = some ⟨c.epoch, fingerprint sha256 k⟩ := by rw [hget, ← hkeys]
    refine ⟨h.ordered.append fun b hb => ?_, fun m' hm' => ?_, fun hdir => (h.file hdir).imp fun m' hm' => ?_⟩
    · have hcur := Option.some.inj ((h.current hm hb).symm.trans hentry)
      obtain ⟨hepoch, hfp⟩ := TrustEpoch.mk.inj hcur
      refine ⟨hepoch.le, fun _ => hfp, fun _ => ?_⟩
      rw [hepoch, max_eq_left hfloor]
    · obtain rfl := Option.some.inj (hm.symm.trans hm')
      exact hrecords.repeated hentry
    · apply hm'.repeated
      rw [hm'.last, ← hrecords.last]
      exact hentry
  have hfloor : -2 ^ 63 ≤ s.floor.toInt ∧ s.floor.toInt < 2 ^ 63 := ⟨Int64.le_toInt _, Int64.toInt_lt _⟩
  obtain ⟨hbounds, hspec⟩ := nextEpoch_spec (m.get tenantID) (fingerprint sha256 k) hfloor fun c hc =>
    ⟨(hrecords.fits _ c hc).2.1, (hrecords.fits _ c hc).2.2.1, hroom m hm c hc⟩
  generalize nextEpoch (m.get tenantID) (fingerprint sha256 k) s.floor.toInt = epoch at hbounds hspec ⊢
  have hentered := hrecords.entered (a := ⟨tenantID, k, epoch, s.floor.toInt⟩) hname hbounds
  split
  · rename_i hfail
    refine ⟨h.ordered, h.memory, fun hdir => ?_⟩
    have hfailed : o = .failed := by
      cases o with
      | failed => rfl
      | renamed => exact absurd rfl hsaved
      | done => exact absurd rfl hfail.2
    rw [if_pos hdir, hfailed]
    exact h.file hdir
  · rename_i hdone
    refine ⟨h.ordered.append fun b hb => ?_, fun m' hm' => ?_, fun hdir => ?_⟩
    · obtain ⟨hsame, hother⟩ := hspec _ (h.current hm hb)
      by_cases hfp : fingerprint sha256 b.keys = fingerprint sha256 k
      · have hepoch : epoch = max b.epoch s.floor.toInt := hsame hfp
        exact ⟨hepoch ▸ le_max_left _ _, fun _ => hfp, fun _ => hepoch⟩
      · have hless : b.epoch < epoch := hother hfp
        exact ⟨hless.le, fun heq => absurd heq hless.ne, fun heq => absurd heq hfp⟩
    · cases hm'
      exact hentered
    · have ho : o = .done := by
        by_contra hne
        exact hdone ⟨hdir, hne⟩
      subst ho
      rw [if_pos hdir]
      exact StateFile.Holds.saved s.file hentered.writable fun m' => hentered.congr

theorem restart (h : s.Holds sha256 stateDir) (hdir : stateDir = true ∨ s.answers = []) (floor : Int64)
    (lost readable : Bool) :
    State.Holds sha256 stateDir
      ⟨newTrustEpochs stateDir ((s.file.reboot lost).read readable), floor, s.file.reboot lost, s.answers⟩ := by
  refine ⟨h.ordered, fun m hm => ?_, fun hdir => (h.file hdir).reboot lost⟩
  cases stateDir with
  | true => exact ((h.file rfl).reboot lost).load readable m hm
  | false =>
    cases hm
    rw [hdir.resolve_left Bool.false_ne_true]
    exact .empty

theorem init (floor : Int64) : (State.init floor).Holds sha256 stateDir where
  ordered := ⟨.nil, .nil, fun _ => .nil⟩
  memory := by
    rintro m ⟨⟩
    exact .empty
  file := fun _ => .absent .empty

end State.Holds

/-- In every run whose steps meet the condition, the epochs returned for a tenant do not fall, answers with one
epoch are for one key set up to collisions of the hash, and of two answers in a row for one key set the later
epoch is the earlier one or the floor. -/
theorem epochs_follow_keys (floor : Int64)
    (h : Run (Guarded (Kept sha256 stateDir) (StepOf (step sha256 stateDir))) (State.init floor) s) :
    (s.answers.Pairwise fun a b => a.tenantID = b.tenantID → a.epoch ≤ b.epoch) ∧
    (s.answers.Pairwise fun a b => a.tenantID = b.tenantID → a.epoch = b.epoch →
      a.keys = b.keys ∨ a.keys.text ≠ b.keys.text ∧ sha256 a.keys.text = sha256 b.keys.text) ∧
    ∀ t, (s.answers.filter fun a => a.tenantID = t).IsChain fun a b =>
      a.keys = b.keys → b.epoch = max a.epoch b.floor := by
  have hholds : s.Holds sha256 stateDir := by
    refine h.preserves (I := State.Holds sha256 stateDir) (fun s e t hs hstep => ?_) (.init floor)
    obtain ⟨hkept, hnext⟩ := hstep
    cases e with
    | present tenantID k o =>
      cases hnext
      exact hs.present hkept
    | restart floor lost readable =>
      cases hnext
      exact hs.restart hkept floor lost readable
  refine ⟨hholds.ordered.rising, hholds.ordered.apart.imp fun hab ht he => eq_of_fingerprint (hab ht he), fun t => ?_⟩
  exact (hholds.ordered.steady t).imp fun a b hab hkeys => hab (congrArg _ hkeys)

def keysA : KeySet := ⟨[1], [2], [3]⟩
def keysB : KeySet := ⟨[4], [2], [3]⟩

/-- The keys change and change back, over a restart that raises the floor. -/
def rotation : List Event :=
  [.present (str "t") keysA .done, .present (str "t") keysB .done, .present (str "t") keysA .failed,
   .restart 7 true true, .present (str "t") keysB .done, .present (str "t") keysA .done]

theorem epochs_follow_keys_rotation :
    ∃ s : State, s.answers.map (fun a => (a.keys, a.epoch)) = [(keysA, 1), (keysB, 2), (keysB, 7), (keysA, 8)] ∧
      (s.answers.Pairwise fun a b => a.tenantID = b.tenantID → a.epoch ≤ b.epoch) ∧
      (s.answers.Pairwise fun a b => a.tenantID = b.tenantID → a.epoch = b.epoch →
        a.keys = b.keys ∨ a.keys.text ≠ b.keys.text ∧ a.keys.text = b.keys.text) ∧
      ∀ t, (s.answers.filter fun a => a.tenantID = t).IsChain fun a b =>
        a.keys = b.keys → b.epoch = max a.epoch b.floor := by
  have hlist : ∃ s, runList (step id true) (State.init 0) rotation = some s ∧
      s.answers.map (fun a => (a.keys, a.epoch)) = [(keysA, 1), (keysB, 2), (keysB, 7), (keysA, 8)] :=
    ⟨_, rfl, by decide +kernel⟩
  obtain ⟨s, hs, hanswers⟩ := hlist
  exact ⟨s, hanswers, epochs_follow_keys 0 (run_of_runList hs (by decide +kernel))⟩

/-- A save of other keys fails after the rename. The first keys are answered from memory with the epoch they
have; after a restart the file has the others, and the first keys come to a new epoch. -/
theorem epoch_moves_without_change :
    ((runList (step id true) (State.init 0)
      [.present (str "t") keysA .done, .present (str "t") keysB .renamed, .present (str "t") keysA .done,
       .restart 0 false true, .present (str "t") keysA .done]).map fun s => s.answers) =
      some [⟨str "t", keysA, 1, 0⟩, ⟨str "t", keysA, 1, 0⟩, ⟨str "t", keysA, 3, 0⟩] := by
  decide +kernel

end Ominull.Auth.TrustEpochs
