import Mathlib.Algebra.BigOperators.Group.List.Basic
import Mathlib.Algebra.Group.Prod
import Mathlib.Data.List.Chain
import Ominull.Go.NetIP
import Ominull.Response.Types

/-!
The hourly totals of the conversations a gateway tracks. A poll reports the counters of the connections that are
open; the row of a tuple holds a total, and the next reading is compared with that total.
-/

namespace Ominull.Hub.Router

open Go Lib Response List

def maxRouterFlowsPerPoll : ℕ := 20000

def maxRouterFieldLen : ℕ := 255

/-! ## The fields of a report -/

/-- `netip.ParseAddr`: the bytes of the address, and its zone. -/
def parseAddrZone (s : Str) : Option (Str × Str) :=
  match s.find? fun b => b = 0x2e || b = 0x3a || b = 0x25 with
  | some 0x2e => (parseIPv4 s).map fun ip => (ip, [])
  | some 0x3a =>
    if 0x25 ∈ s then
      let (addr, zone) := cut 0x25 s
      if zone = [] then none else (parseIPv6 addr).map fun ip => (ip, zone)
    else (parseIPv6 s).map fun ip => (ip, [])
  | _ => none

/-- `netaddr.Parse`: an IPv4 address in IPv6 clothing is the IPv4 address. -/
def parseUnmapped (raw : Str) : Option (Str × Str) :=
  (parseAddrZone (trimSpace raw)).map fun (ip, zone) =>
    match to4 ip with
    | some v4 => (v4, [])
    | none => (ip, zone)

def normaliseIP (raw : Str) : Option Str :=
  let raw := trimSpace raw
  if raw = [] ∨ maxRouterFieldLen < raw.length then none
  else (parseUnmapped raw).map fun (ip, zone) => ipString ip ++ if zone = [] then [] else 0x25 :: zone

inductive Protocol where
  | tcp
  | udp
  | icmp
  deriving DecidableEq

def normaliseProtocol (raw : Str) : Option Protocol :=
  let raw := toLower (trimSpace raw)
  if raw = str "tcp" then some .tcp
  else if raw = str "udp" then some .udp
  else if raw = str "icmp" then some .icmp
  else none

structure Counters where
  origBytes : Int
  replyBytes : Int
  origPackets : Int
  replyPackets : Int
  deriving DecidableEq

structure RouterFlow extends Counters where
  srcIP : Str
  dstIP : Str
  dstPort : Int
  protocol : Str
  deriving DecidableEq

structure FlowKey where
  routerID : Str
  bucket : Int
  srcIP : Str
  dstIP : Str
  dstPort : Int
  protocol : Protocol
  deriving DecidableEq

/-- The key an entry is stored under, if its fields are in order. -/
def RouterFlow.key (f : RouterFlow) (routerID : Str) (bucket : Int) : Option FlowKey :=
  match normaliseIP f.srcIP, normaliseIP f.dstIP, normaliseProtocol f.protocol with
  | some src, some dst, some proto =>
    if f.dstPort < 0 ∨ 65535 < f.dstPort then none else some ⟨routerID, bucket, src, dst, f.dstPort, proto⟩
  | _, _, _ => none

def Counters.Valid (c : Counters) : Prop :=
  0 ≤ c.origBytes ∧ 0 ≤ c.replyBytes ∧ 0 ≤ c.origPackets ∧ 0 ≤ c.replyPackets

instance (c : Counters) : Decidable c.Valid := by
  unfold Counters.Valid
  infer_instance

/-! ## The table -/

structure FlowRow where
  key : FlowKey
  counters : Counters
  firstSeenAt : Time
  lastSeenAt : Time

abbrev Flows := Table FlowRow.key

/-- What replaces the counters of a row: counters that went backwards are added to it. -/
def rollUp (p c : Counters) : Counters :=
  if c.origBytes < p.origBytes ∨ c.replyBytes < p.replyBytes then
    ⟨wrap64 (p.origBytes + c.origBytes), wrap64 (p.replyBytes + c.replyBytes),
      wrap64 (p.origPackets + c.origPackets), wrap64 (p.replyPackets + c.replyPackets)⟩
  else if c.origBytes = p.origBytes ∧ c.replyBytes = p.replyBytes then
    { c with origPackets := p.origPackets, replyPackets := p.replyPackets }
  else c

/-- `now.UTC().Truncate(time.Hour).Unix()`. -/
def bucketOf (now : Time) : Int := Int.fdiv now (3600 * second) * 3600

def recordFlow (routerID : Str) (now : Time) (T : Flows) (f : RouterFlow) : Flows × Bool :=
  match f.key routerID (bucketOf now) with
  | none => (T, false)
  | some key =>
    if f.Valid then
      match T.find key with
      | none => (T.upsert ⟨key, f.toCounters, now, now⟩, true)
      | some row =>
        (T.update key (fun r => { r with counters := rollUp row.counters f.toCounters, lastSeenAt := now })
          (fun _ => rfl), true)
    else (T, false)

/-- `RecordRouterFlows`: the table afterwards, how many entries it accepts and how many it rejects. -/
def recordRouterFlows (T : Flows) (routerID : Str) (flows : List RouterFlow) (now : Time) : Flows × ℕ × ℕ :=
  (flows.take maxRouterFlowsPerPoll).foldl
    (fun (T, accepted, rejected) f =>
      let (T, ok) := recordFlow routerID now T f
      if ok then (T, accepted + 1, rejected) else (T, accepted, rejected + 1))
    (T, 0, flows.length - maxRouterFlowsPerPoll)

structure Poll where
  routerID : Str
  flows : List RouterFlow
  now : Time

def recordPolls (T : Flows) (polls : List Poll) : Flows :=
  polls.foldl (fun T p => (recordRouterFlows T p.routerID p.flows p.now).1) T

/-! ## What a tuple's row holds -/

abbrev Bytes := ℤ × ℤ

def Counters.bytes (c : Counters) : Bytes := (c.origBytes, c.replyBytes)

def stored (T : Flows) (key : FlowKey) : Bytes := ((T.find key).map fun row => row.counters.bytes).getD 0

def Below (r s : Bytes) : Prop := r.1 < s.1 ∨ r.2 < s.2

/-- What a reading makes of the stored totals. -/
def tally (s r : Bytes) : Bytes :=
  if r.1 < s.1 ∨ r.2 < s.2 then (wrap64 (s.1 + r.1), wrap64 (s.2 + r.2)) else r

theorem bytes_rollUp (p c : Counters) : (rollUp p c).bytes = tally p.bytes c.bytes := by
  rw [rollUp, tally, Counters.bytes, Counters.bytes, Counters.bytes]
  split_ifs
  · rfl
  · rfl
  · rfl

variable {r : Bytes}

theorem tally_zero (h : 0 ≤ r.1 ∧ 0 ≤ r.2) : tally 0 r = r := by
  apply if_neg
  rintro (hlt | hlt)
  · exact absurd hlt (not_lt.mpr h.1)
  · exact absurd hlt (not_lt.mpr h.2)

def Concerns (routerID : Str) (now : Time) (key : FlowKey) (f : RouterFlow) : Prop :=
  f.key routerID (bucketOf now) = some key

instance (routerID : Str) (now : Time) (key : FlowKey) : DecidablePred (Concerns routerID now key) :=
  fun f => inferInstanceAs (Decidable (f.key routerID (bucketOf now) = some key))

theorem stored_recordFlow (routerID : Str) (now : Time) (T : Flows) (f : RouterFlow) (key : FlowKey) :
    stored (recordFlow routerID now T f).1 key =
      if Concerns routerID now key f ∧ f.Valid then tally (stored T key) f.bytes else stored T key := by
  by_cases h : Concerns routerID now key f ∧ f.Valid
  · obtain ⟨hkey, hvalid⟩ := h
    rw [if_pos ⟨hkey, hvalid⟩, recordFlow, show f.key routerID (bucketOf now) = some key from hkey]
    dsimp only
    rw [if_pos hvalid, stored, stored]
    cases hfind : T.find key with
    | none =>
      rw [Table.find_upsert, if_pos rfl]
      exact (tally_zero ⟨hvalid.1, hvalid.2.1⟩).symm
    | some row =>
      rw [Table.find_update_same, hfind]
      exact bytes_rollUp row.counters f.toCounters
  · rw [if_neg h, recordFlow]
    cases hkey : f.key routerID (bucketOf now) with
    | none => rfl
    | some key' =>
      dsimp only
      split_ifs with hvalid
      · -- the entry is of another tuple
        have hne : key' ≠ key := fun heq => h ⟨hkey.trans (congrArg some heq), hvalid⟩
        cases hfind : T.find key' with
        | none =>
          rw [stored, Table.find_upsert, if_neg hne, stored]
        | some row =>
          rw [stored, Table.find_update_other _ _ _ hne, stored]
      · rfl

/-- The readings of the tuple that a poll brings into the table. -/
def taken (key : FlowKey) (p : Poll) : List Bytes :=
  ((p.flows.take maxRouterFlowsPerPoll).filter fun f => Concerns p.routerID p.now key f ∧ f.Valid).map fun f => f.bytes

theorem stored_recordRouterFlows (T : Flows) (p : Poll) (key : FlowKey) :
    stored (recordRouterFlows T p.routerID p.flows p.now).1 key = (taken key p).foldl tally (stored T key) := by
  rw [recordRouterFlows, taken]
  generalize p.flows.take maxRouterFlowsPerPoll = flows
  generalize hstart : (T, 0, p.flows.length - maxRouterFlowsPerPoll) = start
  have hT : T = start.1 := by rw [← hstart]
  rw [hT]
  clear hstart hT
  induction flows generalizing start with
  | nil => rfl
  | cons f flows ih =>
    rw [foldl_cons, ih]
    have hfirst : ∀ {x y : ℕ × ℕ} {T' : Flows} {ok : Bool}, (if ok then (T', x) else (T', y)).1 = T' := by
      intro x y T' ok
      cases ok <;> rfl
    rw [hfirst, stored_recordFlow]
    by_cases hf : Concerns p.routerID p.now key f ∧ f.Valid
    · rw [if_pos hf, filter_cons_of_pos (by simpa using hf), map_cons, foldl_cons]
    · rw [if_neg hf, filter_cons_of_neg (by simpa using hf)]

theorem stored_recordPolls (T : Flows) (polls : List Poll) (key : FlowKey) :
    stored (recordPolls T polls) key = (polls.flatMap (taken key)).foldl tally (stored T key) := by
  rw [recordPolls]
  induction polls generalizing T with
  | nil => rfl
  | cons p polls ih => rw [foldl_cons, ih, stored_recordRouterFlows, flatMap_cons, foldl_append]

/-! ## Connections -/

def reading (key : FlowKey) (p : Poll) : Option Bytes :=
  (p.flows.find? fun f => Concerns p.routerID p.now key f).map fun f => f.bytes

/-- The entry for the tuple is among those that are looked at, and none of its counters is negative. -/
def Recorded (key : FlowKey) (p : Poll) : Prop :=
  ∀ f ∈ p.flows, Concerns p.routerID p.now key f → f ∈ p.flows.take maxRouterFlowsPerPoll ∧ f.Valid

section Taken

variable {key : FlowKey} {p : Poll}
  (honce : (p.flows.filter fun f => Concerns p.routerID p.now key f).length ≤ 1)

theorem taken_of_none (h : reading key p = none) : taken key p = [] := by
  rw [reading, Option.map_eq_none_iff, find?_eq_none] at h
  rw [taken, map_eq_nil_iff, filter_eq_nil_iff]
  intro f hf hconcerns
  rw [decide_eq_true_eq] at hconcerns
  exact h f (mem_of_mem_take hf) (decide_eq_true hconcerns.1)

include honce

theorem taken_of_some (h : reading key p = some r) :
    (Recorded key p → taken key p = [r]) ∧ (¬Recorded key p → taken key p = []) := by
  obtain ⟨f, hfind, rfl⟩ := Option.map_eq_some_iff.mp h
  have hf : Concerns p.routerID p.now key f := of_decide_eq_true (find?_some (p := fun f => decide _) hfind)
  -- the entry is the only one
  have hall : (p.flows.filter fun f => Concerns p.routerID p.now key f) = [f] := by
    have hmem : f ∈ p.flows.filter fun f => Concerns p.routerID p.now key f :=
      List.mem_filter.mpr ⟨mem_of_find?_eq_some hfind, decide_eq_true hf⟩
    match hl : p.flows.filter fun f => Concerns p.routerID p.now key f with
    | [] =>
      rw [hl] at hmem
      cases hmem
    | [g] =>
      rw [hl, mem_singleton] at hmem
      rw [hmem]
    | g :: g' :: l =>
      rw [hl] at honce
      exact absurd honce (by simp)
  have hsub : ((p.flows.take maxRouterFlowsPerPoll).filter fun f => Concerns p.routerID p.now key f ∧ f.Valid).Sublist
      [f] := by
    rw [← hall]
    refine List.Sublist.trans (monotone_filter_right _ fun g hg => ?_) ((take_sublist _ _).filter _)
    rw [decide_eq_true_eq] at hg ⊢
    exact hg.1
  rw [taken]
  constructor
  · intro hrecorded
    obtain ⟨htake, hvalid⟩ := hrecorded f (mem_of_find?_eq_some hfind) hf
    have hin : [f].Sublist
        ((p.flows.take maxRouterFlowsPerPoll).filter fun f => Concerns p.routerID p.now key f ∧ f.Valid) :=
      singleton_sublist.mpr (List.mem_filter.mpr ⟨htake, decide_eq_true ⟨hf, hvalid⟩⟩)
    rw [hsub.antisymm hin, map_singleton]
  · intro hnot
    rcases sublist_singleton.mp hsub with hnil | hone
    · rw [hnil, map_nil]
    · refine absurd (fun g hg hconcerns => ?_) hnot
      have hgf : g ∈ [f] := hall ▸ List.mem_filter.mpr ⟨hg, decide_eq_true hconcerns⟩
      rw [← hone, List.mem_filter, decide_eq_true_eq] at hgf
      exact ⟨hgf.1, hgf.2.2⟩

end Taken

def readings (key : FlowKey) (polls : List Poll) : List Bytes := polls.filterMap (reading key)

/-- The last reading of a connection; zero as long as there is none. -/
def lastReading (key : FlowKey) (polls : List Poll) : Bytes := (readings key polls).getLast?.getD 0

def total (key : FlowKey) (conns : List (List Poll)) : Bytes := (conns.map (lastReading key)).sum

/-- The polls during one connection of the tuple after the other. -/
structure Connections (key : FlowKey) (conns : List (List Poll)) : Prop where
  once : ∀ polls ∈ conns, ∀ p ∈ polls, (p.flows.filter fun f => Concerns p.routerID p.now key f).length ≤ 1
  started : ∀ polls ∈ conns, readings key polls ≠ []
  counts : ∀ polls ∈ conns, ∀ r ∈ readings key polls, (0 ≤ r.1 ∧ r.1 < 2 ^ 63) ∧ 0 ≤ r.2 ∧ r.2 < 2 ^ 63
  grows : ∀ polls ∈ conns, (readings key polls).Pairwise fun r r' => r.1 ≤ r'.1 ∧ r.2 ≤ r'.2
  restarts : conns.IsChain fun polls polls' => ∀ q ∈ (readings key polls).getLast?, ∀ r ∈ (readings key polls').head?,
    Below r q

/-- The poll that comes after `earlier` connections and a `part` of the next is counted once: if it is recorded,
the totals do not overflow, and it is the first of its connection, or the connection the first with any bytes,
or only zeros came before it and it is below the earlier total; if not, it has nothing new. -/
structure Counted (key : FlowKey) (earlier : List (List Poll)) (part : List Poll) (p : Poll) (r : Bytes) : Prop where
  fits : Recorded key p → (total key (earlier ++ [part ++ [p]])).1 < 2 ^ 63 ∧
    (total key (earlier ++ [part ++ [p]])).2 < 2 ^ 63
  fresh : Recorded key p → readings key part = [] ∨ total key earlier = 0 ∨
    (lastReading key part = 0 ∧ Below r (total key earlier))
  ignored : ¬Recorded key p → total key (earlier ++ [part ++ [p]]) = total key (earlier ++ [part])

/-! ## One poll -/

def IsCount (r : Bytes) : Prop := (0 ≤ r.1 ∧ r.1 < 2 ^ 63) ∧ 0 ≤ r.2 ∧ r.2 < 2 ^ 63

theorem tally_restart {s : Bytes} (hs : IsCount s) (hr : IsCount r) (h : s = 0 ∨ Below r s) :
    tally s r = s + r ↔ (s + r).1 < 2 ^ 63 ∧ (s + r).2 < 2 ^ 63 := by
  obtain ⟨s₁, s₂⟩ := s
  obtain ⟨r₁, r₂⟩ := r
  simp only [IsCount, Below, tally, Prod.mk_add_mk, Prod.mk_eq_zero, wrap64] at *
  split_ifs
  · rw [Prod.mk.injEq]
    omega
  · rw [Prod.mk.injEq]
    omega

/-- A counter that goes on replaces the total if it is the total so far; behind earlier connections it is right
only as long as it was zero. -/
theorem tally_continue {before prev : Bytes} (hbefore : 0 ≤ before.1 ∧ 0 ≤ before.2) (hprev : IsCount prev)
    (hr : IsCount r) (hfits : (before + prev).1 < 2 ^ 63 ∧ (before + prev).2 < 2 ^ 63)
    (hle : prev.1 ≤ r.1 ∧ prev.2 ≤ r.2) :
    tally (before + prev) r = before + r ↔
      ((before + r).1 < 2 ^ 63 ∧ (before + r).2 < 2 ^ 63) ∧ (before = 0 ∨ (prev = 0 ∧ Below r before)) := by
  obtain ⟨b₁, b₂⟩ := before
  obtain ⟨q₁, q₂⟩ := prev
  obtain ⟨r₁, r₂⟩ := r
  simp only [IsCount, Below, tally, Prod.mk_add_mk, Prod.mk_eq_zero, wrap64] at *
  split_ifs
  · rw [Prod.mk.injEq]
    omega
  · rw [Prod.mk.injEq]
    omega

variable {polls : List Poll}

section Total

variable {key : FlowKey}

theorem total_concat (earlier : List (List Poll)) (part : List Poll) :
    total key (earlier ++ [part]) = total key earlier + lastReading key part := by
  rw [total, map_append, sum_append, map_singleton, sum_singleton, total]

theorem readings_append (polls polls' : List Poll) :
    readings key (polls ++ polls') = readings key polls ++ readings key polls' := filterMap_append ..

theorem lastReading_concat (part : List Poll) (p : Poll) :
    lastReading key (part ++ [p]) = (reading key p).getD (lastReading key part) := by
  rw [lastReading, readings_append]
  cases h : reading key p with
  | none =>
    have hone : readings key [p] = [] := filterMap_cons_none h
    rw [hone, append_nil]
    rfl
  | some r =>
    have hone : readings key [p] = [r] := filterMap_cons_some h
    rw [hone, getLast?_concat]
    rfl

theorem lastReading_of_getLast? {q : Bytes} (h : (readings key polls).getLast? = some q) :
    lastReading key polls = q := by
  rw [lastReading, h, Option.getD_some]

theorem isCount_zero : IsCount 0 := by
  unfold IsCount
  decide

theorem isCount_lastReading (h : ∀ r ∈ readings key polls, IsCount r) : IsCount (lastReading key polls) := by
  cases hlast : (readings key polls).getLast? with
  | none =>
    rw [lastReading, hlast, Option.getD_none]
    exact isCount_zero
  | some q =>
    rw [lastReading_of_getLast? hlast]
    exact h q (mem_of_getLast? hlast)

theorem total_nonneg {conns : List (List Poll)} (h : ∀ polls ∈ conns, ∀ r ∈ readings key polls, IsCount r) :
    0 ≤ (total key conns).1 ∧ 0 ≤ (total key conns).2 := by
  induction conns with
  | nil => exact ⟨le_rfl, le_rfl⟩
  | cons polls conns ih =>
    obtain ⟨hpolls, hrest⟩ := forall_mem_cons.mp h
    obtain ⟨h₁, h₂⟩ := ih hrest
    obtain ⟨⟨hlast₁, -⟩, hlast₂, -⟩ := isCount_lastReading hpolls
    exact ⟨Int.add_nonneg hlast₁ h₁, Int.add_nonneg hlast₂ h₂⟩

end Total

theorem tally_lt {s : Bytes} (hr : IsCount r) : (tally s r).1 < 2 ^ 63 ∧ (tally s r).2 < 2 ^ 63 := by
  rw [tally]
  split_ifs
  · exact ⟨(wrap64_bounds _).2, (wrap64_bounds _).2⟩
  · exact ⟨hr.1.2, hr.2.2⟩

theorem foldl_tally_lt {l : List Bytes} (hl : ∀ r ∈ l, IsCount r) {s : Bytes} (hs : s.1 < 2 ^ 63 ∧ s.2 < 2 ^ 63) :
    (l.foldl tally s).1 < 2 ^ 63 ∧ (l.foldl tally s).2 < 2 ^ 63 := by
  induction l generalizing s with
  | nil => exact hs
  | cons r l ih =>
    obtain ⟨hr, hrest⟩ := forall_mem_cons.mp hl
    exact ih hrest (tally_lt hr)

section Step

variable {key : FlowKey} {T : Flows} {conns earlier later : List (List Poll)} {part rest : List Poll} {p : Poll}

/-- What is stored after some connections and a part of the next is their total. -/
def Agrees (key : FlowKey) (T : Flows) (earlier : List (List Poll)) (part : List Poll) : Prop :=
  stored (recordPolls T (earlier.flatten ++ part)) key = total key (earlier ++ [part])

theorem Connections.isCount_taken (h : Connections key conns) (hpolls : polls ∈ conns) (hp : p ∈ polls) :
    ∀ r ∈ taken key p, IsCount r := by
  intro r hr
  cases hreading : reading key p with
  | none =>
    rw [taken_of_none hreading] at hr
    cases hr
  | some q =>
    obtain ⟨htaken, hnot⟩ := taken_of_some (h.once polls hpolls p hp) hreading
    by_cases hrecorded : Recorded key p
    · rw [htaken hrecorded, mem_singleton] at hr
      exact hr ▸ h.counts polls hpolls q (mem_filterMap.mpr ⟨p, hp, hreading⟩)
    · rw [hnot hrecorded] at hr
      cases hr

/-- The next connection's first reading is below the earlier total, if there is one. -/
theorem Connections.below_total (h : Connections key conns) (hsplit : conns = earlier ++ (part ++ p :: rest) :: later)
    (hpart : readings key part = []) (hr : reading key p = some r) :
    total key earlier = 0 ∨ Below r (total key earlier) := by
  rcases eq_nil_or_concat' earlier with rfl | ⟨earlier, polls, rfl⟩
  · exact .inl rfl
  right
  subst hsplit
  obtain ⟨q, hq⟩ : ∃ q, (readings key polls).getLast? = some q := by
    have hne := h.started polls (by simp)
    exact ⟨_, getLast?_eq_some_getLast hne⟩
  have hhead : (readings key (part ++ p :: rest)).head? = some r := by
    rw [readings_append, hpart, nil_append, readings, filterMap_cons_some hr, head?_cons]
  have hbelow : Below r q := by
    have hchain := h.restarts
    rw [append_assoc, singleton_append, isChain_append_cons_cons] at hchain
    exact hchain.2.1 q hq r hhead
  have hnonneg : 0 ≤ (total key earlier).1 ∧ 0 ≤ (total key earlier).2 :=
    total_nonneg fun polls hpolls => h.counts polls (by simp [hpolls])
  rw [total_concat, lastReading_of_getLast? hq]
  exact hbelow.imp (fun hlt => hlt.trans_le (Int.le_add_of_nonneg_left hnonneg.1))
    fun hlt => hlt.trans_le (Int.le_add_of_nonneg_left hnonneg.2)

/-- One poll keeps the agreement exactly if it is counted once. -/
theorem Connections.agrees_concat_iff (h : Connections key conns) (hnew : T.find key = none)
    (hsplit : conns = earlier ++ (part ++ p :: rest) :: later) (hagrees : Agrees key T earlier part) :
    Agrees key T earlier (part ++ [p]) ↔ ∀ r, reading key p = some r → Counted key earlier part p r := by
  have hmem : part ++ p :: rest ∈ conns := by simp [hsplit]
  have hcounts : ∀ polls ∈ earlier, ∀ r ∈ readings key polls, IsCount r :=
    fun polls hpolls => h.counts polls (by simp [hsplit, hpolls])
  have hstored : stored (recordPolls T (earlier.flatten ++ (part ++ [p]))) key =
      (taken key p).foldl tally (stored (recordPolls T (earlier.flatten ++ part)) key) := by
    rw [stored_recordPolls, stored_recordPolls, ← append_assoc, flatMap_append, foldl_append,
      flatMap_singleton]
  -- what is stored fits 64 bits, and so does the total it agrees with
  have hfits : (total key earlier + lastReading key part).1 < 2 ^ 63 ∧
      (total key earlier + lastReading key part).2 < 2 ^ 63 := by
    rw [← total_concat, ← hagrees, stored_recordPolls]
    refine foldl_tally_lt (fun r hr => ?_) ?_
    · obtain ⟨p', hp', hr⟩ := mem_flatMap.mp hr
      rcases mem_append.mp hp' with hp' | hp'
      · obtain ⟨polls, hpolls, hp'⟩ := mem_flatten.mp hp'
        exact h.isCount_taken (by simp [hsplit, hpolls]) hp' r hr
      · exact h.isCount_taken hmem (mem_append_left _ hp') r hr
    · rw [stored, hnew]
      decide
  rw [Agrees, hstored, hagrees, total_concat, total_concat, lastReading_concat]
  cases hreading : reading key p with
  | none =>
    rw [taken_of_none hreading]
    exact iff_of_true rfl fun r hr => by cases hr
  | some r =>
    obtain ⟨htaken, hnot⟩ := taken_of_some (h.once _ hmem p (by simp)) hreading
    have hr : IsCount r := h.counts _ hmem r (mem_filterMap.mpr ⟨p, by simp, hreading⟩)
    have hprev : IsCount (lastReading key part) :=
      isCount_lastReading fun q hq => h.counts _ hmem q (by rw [readings_append]; exact mem_append_left _ hq)
    have hnext : total key (earlier ++ [part ++ [p]]) = total key earlier + r := by
      rw [total_concat, lastReading_concat, hreading, Option.getD_some]
    have hlast : total key (earlier ++ [part]) = total key earlier + lastReading key part := total_concat earlier part
    have hcounted : (∀ r', some r = some r' → Counted key earlier part p r') ↔ Counted key earlier part p r :=
      ⟨fun hall => hall r rfl, fun hr' r' heq => Option.some.inj heq ▸ hr'⟩
    rw [hcounted, Option.getD_some]
    by_cases hrecorded : Recorded key p
    · rw [htaken hrecorded, foldl_cons, foldl_nil]
      have hiff : Counted key earlier part p r ↔ ((total key earlier + r).1 < 2 ^ 63 ∧ (total key earlier + r).2 < 2 ^ 63) ∧
          (readings key part = [] ∨ total key earlier = 0 ∨ (lastReading key part = 0 ∧ Below r (total key earlier))) := by
        rw [← hnext]
        exact ⟨fun hc => ⟨hc.fits hrecorded, hc.fresh hrecorded⟩,
          fun hc => ⟨fun _ => hc.1, fun _ => hc.2, fun hne => absurd hrecorded hne⟩⟩
      rw [hiff]
      by_cases hpart : readings key part = []
      · have hzero : lastReading key part = 0 := by rw [lastReading, hpart]; rfl
        rw [hzero, add_zero] at hfits ⊢
        have hnonneg := total_nonneg hcounts
        rw [tally_restart ⟨⟨hnonneg.1, hfits.1⟩, hnonneg.2, hfits.2⟩ hr (h.below_total hsplit hpart hreading)]
        exact (and_iff_left (.inl hpart)).symm
      · have hle : (lastReading key part).1 ≤ r.1 ∧ (lastReading key part).2 ≤ r.2 := by
          have hgrows := h.grows _ hmem
          rw [readings_append, readings, readings, filterMap_cons_some hreading, pairwise_append] at hgrows
          obtain ⟨q, hq⟩ : ∃ q, (readings key part).getLast? = some q := ⟨_, getLast?_eq_some_getLast hpart⟩
          rw [lastReading_of_getLast? hq]
          exact hgrows.2.2 q (mem_of_getLast? hq) r mem_cons_self
        rw [tally_continue (total_nonneg hcounts) hprev hr hfits hle, or_iff_right hpart]
    · rw [hnot hrecorded, foldl_nil]
      constructor
      · intro heq
        exact ⟨fun hr' => absurd hr' hrecorded, fun hr' => absurd hr' hrecorded, fun _ => by rw [hnext, hlast, heq]⟩
      · intro hc
        rw [← hnext, ← hlast, hc.ignored hrecorded]

theorem Connections.agrees_part (h : Connections key conns) (hnew : T.find key = none)
    (hcounted : ∀ part p rest later r, conns = earlier ++ (part ++ p :: rest) :: later → reading key p = some r →
      Counted key earlier part p r) (hstart : Agrees key T earlier []) (part rest : List Poll)
    (later : List (List Poll)) (hsplit : conns = earlier ++ (part ++ rest) :: later) : Agrees key T earlier part := by
  induction part using List.reverseRecOn generalizing rest with
  | nil => exact hstart
  | append_singleton part p ih =>
    rw [append_assoc part, singleton_append] at hsplit
    exact (h.agrees_concat_iff hnew hsplit (ih (p :: rest) hsplit)).mpr
      fun r hr => hcounted part p rest later r hsplit hr

end Step

/-- **Every byte is counted once** exactly where each poll is: after every poll of the hour the stored totals of
the tuple are the sum of the last readings of the connections so far. -/
theorem counted_once_iff (key : FlowKey) (T : Flows) (hnew : T.find key = none) (conns : List (List Poll))
    (h : Connections key conns) :
    (∀ earlier part rest later, conns = earlier ++ (part ++ rest) :: later →
      stored (recordPolls T (earlier.flatten ++ part)) key = total key (earlier ++ [part])) ↔
    ∀ earlier part p rest later r, conns = earlier ++ (part ++ p :: rest) :: later → reading key p = some r →
      Counted key earlier part p r := by
  constructor
  · intro hall earlier part p rest later r hsplit hr
    have hbefore : Agrees key T earlier part := hall earlier part (p :: rest) later hsplit
    have hafter : Agrees key T earlier (part ++ [p]) := hall earlier (part ++ [p]) rest later (by simp [hsplit])
    exact (h.agrees_concat_iff hnew hsplit hbefore).mp hafter r hr
  · intro hall earlier
    induction earlier using List.reverseRecOn with
    | nil =>
      apply h.agrees_part hnew (hall [])
      rw [Agrees, stored_recordPolls, stored, hnew]
      rfl
    | append_singleton earlier polls ih =>
      intro part rest later hsplit
      refine h.agrees_part hnew (hall (earlier ++ [polls])) ?_ part rest later hsplit
      -- the connections before it agree as a whole
      have hprev := ih polls [] ((part ++ rest) :: later) (by simpa using hsplit)
      rw [Agrees, flatten_append, flatten_singleton, append_nil, hprev, total_concat (earlier ++ [polls])]
      exact (add_zero _).symm

/-! A conversation whose counters start anew: 5000 bytes, then 300 and 600 of the next connection. -/

def sampleKey : FlowKey := ⟨str "gw", 0, str "10.0.0.36", str "10.9.9.9", 443, .tcp⟩

def samplePoll (bytes : Int) : Poll :=
  ⟨str "gw", [⟨⟨bytes, 0, 1, 0⟩, str "10.0.0.36", str "10.9.9.9", 443, str "TCP"⟩], 60 * second⟩

theorem counted_once_iff_samplePoll :
    stored (recordPolls Table.empty [samplePoll 1000, samplePoll 5000, samplePoll 300]) sampleKey = (5300, 0) ∧
    ((∀ earlier part rest later, [[samplePoll 1000, samplePoll 5000], [samplePoll 300]] = earlier ++ (part ++ rest) :: later →
      stored (recordPolls Table.empty (earlier.flatten ++ part)) sampleKey = total sampleKey (earlier ++ [part])) ↔
    ∀ earlier part p rest later r,
      [[samplePoll 1000, samplePoll 5000], [samplePoll 300]] = earlier ++ (part ++ p :: rest) :: later →
      reading sampleKey p = some r → Counted sampleKey earlier part p r) := by
  refine ⟨by decide +kernel, counted_once_iff sampleKey Table.empty rfl _ ⟨?_, ?_, ?_, ?_, ?_⟩⟩
  · decide +kernel
  · decide +kernel
  · decide +kernel
  · decide +kernel
  · unfold Below
    decide +kernel

theorem recycled_tuple_counted_twice :
    Connections sampleKey [[samplePoll 5000], [samplePoll 300, samplePoll 600]] ∧
    total sampleKey [[samplePoll 5000], [samplePoll 300, samplePoll 600]] = (5600, 0) ∧
    stored (recordPolls Table.empty [samplePoll 5000, samplePoll 300, samplePoll 600]) sampleKey = (5900, 0) := by
  refine ⟨⟨?_, ?_, ?_, ?_, ?_⟩, ?_, ?_⟩
  · decide +kernel
  · decide +kernel
  · decide +kernel
  · decide +kernel
  · unfold Below
    decide +kernel
  · decide +kernel
  · decide +kernel

end Ominull.Hub.Router
