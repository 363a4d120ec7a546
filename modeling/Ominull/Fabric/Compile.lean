import Ominull.Fabric.Rules

/-!
The allow list of an isolated endpoint: the ranges that its rules allow as a whole. A range is decided by its first
address, the floor included.
-/

namespace Ominull.Fabric

open Lib Response List

def Rule.narrow (r : Rule) : Bool := r.port ≠ 0 || r.proto ≠ .any || r.direction ≠ .both

/-- A narrow deny counts for the whole address. -/
def Rule.widen (r : Rule) : Rule := { r with port := 0, proto := .any, direction := .both }

def reduced (ep : Endpoint) (rules : List Rule) (now : Time) : List Rule :=
  (rules.filter fun r => r.active now && r.appliesTo ep && !(r.action = .allow && r.narrow)).map Rule.widen

def whole (a : Bits) : Target := ⟨a, 0, .any, .both⟩

/-- `Prefix.Addr`: the first address of a range. -/
def first (p : Bits) : Bits := p ++ List.replicate (width p - p.length) false

/-- The parts into which `walk` cuts the range of a rule. -/
def parts (rules : List Rule) (p : Bits) : List Bits := leaves (rules.map Rule.range) (129 - p.length) p

/-- `lessPrefix`, or the same range. -/
def lessPrefix (p q : Bits) : Bool := if first p ≠ first q then first p < first q else p.length ≤ q.length

def compileAllow (ep : Endpoint) (rules : List Rule) (now : Time) : List Bits :=
  let applicable := reduced ep rules now
  let ranges := ((applicable.filter fun r => r.action = .allow).map Rule.range).dedup
  mergeRanges lessPrefix ((ranges.flatMap (parts applicable)).filter fun p =>
    (decideTarget ep applicable (whole (first p)) now).action = .allow)

/-! ## The parts of the ranges that rules allow -/

variable {ep : Endpoint} {rules : List Rule} {now : Time} {p q : Bits} {a : Addr}

def IsPart (rules : List Rule) (p : Bits) : Prop := ∃ r ∈ rules, r.action = .allow ∧ p ∈ parts rules r.range

theorem head?_eq_head? (hp : p ≠ []) (h : p <+: q) : p.head? = q.head? := by
  obtain ⟨rest, rfl⟩ := h
  rw [head?_append_of_ne_nil _ hp]

theorem Rule.length_le (r : Rule) (h : r.range.head? = q.head?) : r.range.length ≤ width q := by
  have hfits := r.fits
  unfold width at hfits ⊢
  rwa [h] at hfits

/-- A part is not longer than an address. -/
theorem parts_length {r : Rule} (h : q ∈ parts rules r.range) : q.length ≤ width q := by
  rcases length_of_mem_leaves h with rfl | ⟨c, hc, hrc, hlen⟩
  · exact r.fits
  · obtain ⟨r', -, rfl⟩ := mem_map.mp hc
    have hhead := (head?_eq_head? r.nonempty hrc).symm.trans (head?_eq_head? r.nonempty (prefix_of_mem_leaves h))
    exact hlen.trans (r'.length_le hhead)

theorem IsPart.not_isCut (h : IsPart rules q) : isCut (rules.map Rule.range) q = false := by
  obtain ⟨r, -, -, hq⟩ := h
  refine not_isCut_of_mem_leaves (fun c hc => ?_) hq
  obtain ⟨r', -, rfl⟩ := mem_map.mp hc
  have hwidth : width r'.range ≤ 129 := by
    unfold width
    split <;> decide
  have := r'.fits
  omega

/-- Every rule covers a part wholly or not at all. -/
theorem IsPart.covers_iff {r : Rule} (h : IsPart rules q) (hr : r ∈ rules) {x : Bits} (hx : q <+: x) :
    r.range <+: x ↔ r.range <+: q := by
  refine ⟨fun hrx => ?_, fun hrq => hrq.trans hx⟩
  rcases List.prefix_or_prefix_of_prefix hrx hx with hrq | hqr
  · exact hrq
  · by_contra hnot
    have hlt : q.length < r.range.length := by
      refine lt_of_le_of_ne hqr.length_le fun hlen => hnot ?_
      rw [hqr.eq_of_length hlen]
    have hcut := isCut_iff.mpr ⟨r.range, mem_map_of_mem hr, hlt, hqr⟩
    rw [h.not_isCut] at hcut
    cases hcut

theorem IsPart.eq_of_begins (hp : IsPart rules p) (hq : IsPart rules q) (h : p <+: q) : p = q := by
  obtain ⟨r, hr, -, hqr⟩ := hq
  by_contra hne
  have hcut := isCut_above hqr ((hp.covers_iff hr h).mp (prefix_of_mem_leaves hqr)) h hne
  rw [hp.not_isCut] at hcut
  cases hcut

theorem IsPart.unique {x : Bits} (hp : IsPart rules p) (hq : IsPart rules q) (hpx : p <+: x) (hqx : q <+: x) : p = q := by
  rcases List.prefix_or_prefix_of_prefix hpx hqx with h | h
  · exact hp.eq_of_begins hq h
  · exact (hq.eq_of_begins hp h).symm

theorem exists_part {r : Rule} (hr : r ∈ rules) (hallow : r.action = .allow) (h : r.range <+: a.bits) :
    ∃ q, IsPart rules q ∧ q <+: a.bits := by
  have hcuts : ∀ c ∈ rules.map Rule.range, r.range <+: c → c.length ≤ a.bits.length := by
    intro c hc hrc
    obtain ⟨r', -, rfl⟩ := mem_map.mp hc
    rw [a.size]
    exact r'.length_le ((head?_eq_head? r.nonempty hrc).symm.trans (head?_eq_head? r.nonempty h))
  obtain ⟨q, hq, hqa⟩ := exists_mem_leaves hcuts h
  exact ⟨q, ⟨r, hr, hallow, hq⟩, hqa⟩

/-- What the rules decide about an address depends on the rules that cover it. -/
theorem ruled_congr {x y : Bits} (h : ∀ r ∈ rules, r.range <+: x ↔ r.range <+: y) :
    ruled ep rules (whole x) now = ruled ep rules (whole y) now := by
  have hsame : inForce ep rules (whole x) now = inForce ep rules (whole y) now := by
    refine filter_congr fun r hr => ?_
    have hbool : r.range.isPrefixOf x = r.range.isPrefixOf y := by
      rw [Bool.eq_iff_iff, List.isPrefixOf_iff_prefix, List.isPrefixOf_iff_prefix]
      exact h r hr
    simp only [Rule.matchesTarget, whole, hbool]
  unfold ruled
  rw [hsame]

theorem IsPart.ruled_eq {x : Bits} (h : IsPart rules q) (hx : q <+: x) :
    ruled ep rules (whole x) now = ruled ep rules (whole (first q)) now :=
  ruled_congr fun _ hr => (h.covers_iff hr hx).trans (h.covers_iff hr (List.prefix_append q _)).symm

theorem decideTarget_allow_iff {t : Target} : (decideTarget ep rules t now).action = .allow ↔
    isFloor ep t = true ∨ (ruled ep rules t now).action = .allow := by
  unfold decideTarget
  split_ifs with h <;> simp [h]

theorem covers_compileAllow (a : Addr) : Covers (compileAllow ep rules now) a.bits ↔
    ∃ q, IsPart (reduced ep rules now) q ∧ q <+: a.bits ∧
      (decideTarget ep (reduced ep rules now) (whole (first q)) now).action = .allow := by
  have hmem (q : Bits) : q ∈ (((reduced ep rules now).filter fun r => r.action = .allow).map Rule.range).dedup.flatMap
      (parts (reduced ep rules now)) ↔ IsPart (reduced ep rules now) q := by
    simp [IsPart, and_assoc]
  unfold compileAllow
  rw [covers_mergeRanges]
  · simp only [Covers, List.mem_filter, hmem, decide_eq_true_eq, and_assoc]
    simp only [and_comm, and_left_comm]
  · intro q hq hhead
    obtain ⟨r, -, -, hqr⟩ := (hmem q).mp (List.mem_filter.mp hq).1
    have hlen := parts_length hqr
    unfold width at hlen
    rw [a.size]
    rwa [hhead] at hlen

/-! ## Exactness -/

/-- The list has the address iff a rule allows a range of it and the reduced rules allow the address itself. -/
def Exact (ep : Endpoint) (rules : List Rule) (now : Time) (a : Addr) : Prop :=
  Covers (compileAllow ep rules now) a.bits ↔
    (∃ r ∈ reduced ep rules now, r.action = .allow ∧ r.range <+: a.bits) ∧
      (decideTarget ep (reduced ep rules now) (whole a.bits) now).action = .allow

theorem exists_allow_iff : (∃ r ∈ rules, r.action = .allow ∧ r.range <+: a.bits) ↔
    ∃ q, IsPart rules q ∧ q <+: a.bits := by
  constructor
  · rintro ⟨r, hr, hallow, h⟩
    exact exists_part hr hallow h
  · rintro ⟨q, ⟨r, hr, hallow, hq⟩, hqa⟩
    exact ⟨r, hr, hallow, (prefix_of_mem_leaves hq).trans hqa⟩

/-- In a part, the floor is asked about the first address in place of the address itself. -/
theorem IsPart.exact_iff (h : IsPart (reduced ep rules now) q) (hqa : q <+: a.bits) :
    Exact ep rules now a ↔
      ((isFloor ep (whole (first q)) = true ∨ (ruled ep (reduced ep rules now) (whole (first q)) now).action = .allow) ↔
        (isFloor ep (whole a.bits) = true ∨ (ruled ep (reduced ep rules now) (whole (first q)) now).action = .allow)) := by
  have hcovers : Covers (compileAllow ep rules now) a.bits ↔
      (decideTarget ep (reduced ep rules now) (whole (first q)) now).action = .allow := by
    rw [covers_compileAllow]
    constructor
    · rintro ⟨q', hq', hqa', hallow⟩
      rwa [h.unique hq' hqa hqa']
    · exact fun hallow => ⟨q, h, hqa, hallow⟩
  rw [Exact, hcovers, exists_allow_iff, and_iff_right ⟨q, h, hqa⟩, decideTarget_allow_iff, decideTarget_allow_iff,
    h.ruled_eq hqa]

theorem mem_inForce_of_reduced {t : Target} {w : Rule} (h : w ∈ inForce ep (reduced ep rules now) (whole t.addr) now)
    (hallow : w.action = .allow) : w ∈ inForce ep rules t now ∧ w.narrow = false := by
  simp only [inForce, List.mem_filter, Bool.and_eq_true, Rule.matchesTarget, reduced, mem_map] at h ⊢
  obtain ⟨⟨u, ⟨hu, -, hkept⟩, rfl⟩, hactive, ⟨⟨hrange, -⟩, -⟩, -⟩ := h
  have hu' : u.widen = u := by
    have hallow' : u.action = .allow := hallow
    have hwide : u.port = 0 ∧ u.proto = .any ∧ u.direction = .both := by
      simpa [hallow', Rule.narrow, and_assoc] using hkept
    unfold Rule.widen
    rw [← hwide.1, ← hwide.2.1, ← hwide.2.2]
  refine ⟨⟨hu'.symm ▸ hu, hactive, ⟨⟨hrange, ?_⟩, ?_⟩, ?_⟩, rfl⟩ <;> simp [Rule.names, Rule.widen]

theorem widen_mem_inForce {t : Target} {v : Rule} (h : v ∈ inForce ep rules t now) (hdeny : v.action = .deny) :
    v.widen ∈ inForce ep (reduced ep rules now) (whole t.addr) now := by
  simp only [inForce, List.mem_filter, Bool.and_eq_true, Rule.matchesTarget, reduced, mem_map] at h ⊢
  obtain ⟨hv, hactive, ⟨⟨hrange, -⟩, -⟩, -⟩ := h
  exact ⟨⟨v, ⟨hv, hactive, by simp [hdeny]⟩, rfl⟩, hactive, ⟨⟨hrange, rfl⟩, rfl⟩, rfl⟩

/-- No deny rule is behind a rule that allows the whole range and before its own widening. -/
theorem not_rank_between {v w : Rule} (hw : w.narrow = false) (hallow : w.action = .allow) (hdeny : v.action = .deny)
    (hwiden : v.widen.rank ≤ w.rank) : ¬ w.rank ≤ v.rank := by
  have hwide : w.port = 0 ∧ w.proto = .any ∧ w.direction = .both := by
    simpa [Rule.narrow, and_assoc] using hw
  have hflag : ¬ true ≤ false := by decide
  intro hrank
  simp only [Rule.rank, Prod.Lex.toLex_le_toLex, Rule.widen, hwide, hallow, hdeny] at hwiden hrank
  simp [hflag] at hwiden
  omega

/-- What the reduced rules allow as a whole, the rules allow for every flow. -/
theorem ruled_of_reduced {t : Target} (h : (ruled ep (reduced ep rules now) (whole t.addr) now).action = .allow) :
    (ruled ep rules t now).action = .allow := by
  cases hflow : (ruled ep rules t now).action with
  | allow => rfl
  | deny =>
    exfalso
    have hred := ruled_precedence ep (reduced ep rules now) (whole t.addr) now
    have hfull := ruled_precedence ep rules t now
    generalize (ruled ep (reduced ep rules now) (whole t.addr) now).action = act at h hred
    generalize (ruled ep rules t now).action = act' at hflow hfull
    cases hred with
    | locked w hw hlocked hmax =>
      obtain ⟨hw', -⟩ := mem_inForce_of_reduced hw h
      cases hfull with
      | locked v hv hlocked' hmax' =>
        have hle : v.lockedRank ≤ w.lockedRank := hmax v.widen (widen_mem_inForce hv hflow) hlocked'
        have hsame := action_of_lockedRank (le_antisymm hle (hmax' w hw' hlocked))
        simp [h, hflow] at hsame
      | specific v hunlocked => simp [hunlocked w hw'] at hlocked
      | default hnone => simp [hnone] at hw'
    | specific w hunlocked hw hmax =>
      obtain ⟨hw', hnarrow⟩ := mem_inForce_of_reduced hw h
      cases hfull with
      | locked v hv hlocked' =>
        have hv' : v.locked = false := hunlocked v.widen (widen_mem_inForce hv hflow)
        simp [hv'] at hlocked'
      | specific v _ hv hmax' =>
        exact not_rank_between hnarrow h hflow (hmax v.widen (widen_mem_inForce hv hflow)) (hmax' w hw')
      | default hnone => simp [hnone] at hw'
    | default => cases h

def ErrsClosed (ep : Endpoint) (rules : List Rule) (now : Time) : Prop :=
  ∀ t : Target, t.addr.length = width t.addr → Covers (compileAllow ep rules now) t.addr →
    (decideTarget ep rules t now).action = .allow

def ipv4 (n : ℕ) : Bits := false :: (List.range 32).reverse.map n.testBit

/-- The hub is 10.0.0.0. -/
def hubFirst : Endpoint := ⟨str "e", str "t", str "l", str "r", [ipv4 0x0A000000]⟩

def rangeRule (scope : Scope) (action : Action) ( locked : Bool) : Rule where
  id := str "r"
  scope := scope
  scopeID := str "e"
  range := (ipv4 0x0A000000).take 9
  action := action
  direction := .both
  port := 0
  proto := .any
  locked := locked
  expiresAt := none
  nonempty := by decide
  fits := by decide

def deniedRange : List Rule := [rangeRule .endpoint .allow false, rangeRule .provider .deny true]

theorem hubFirst_covers : Covers (compileAllow hubFirst deniedRange 0) (ipv4 0x0A000005) := by
  refine (covers_compileAllow ⟨_, by decide⟩).mpr ⟨(ipv4 0x0A000000).take 9, ?_, ?_, ?_⟩
  · refine ⟨rangeRule .endpoint .allow false, mem_map.mpr ⟨rangeRule .endpoint .allow false, ?_, rfl⟩, rfl, ?_⟩
    · exact List.mem_filter.mpr ⟨mem_cons_self, by decide⟩
    · decide +kernel
  · decide +kernel
  · decide +kernel

end Ominull.Fabric
