import Ominull.Hub.EnrolmentWindow
import Ominull.Lib.Run
import Ominull.Lib.Threads

/-!
Claims side by side. A claim lists the windows under the read lock and spends a use later, under the write
lock; in between others claim and windows are revoked.
-/

namespace Ominull.Hub

open Lib Go List

/-! ### What the list of a window covers -/

/-- The entry's network holds the address. -/
def EntryCovers (entry addr : Str) : Prop :=
  ∃ net ip, parseEntry entry = .ok net ∧ parseIP (trimSpace addr) = some ip ∧ net.contains ip = true

/-- A window opened with a list covers an address: the list is printed, stored with commas, split again and
read once more. -/
def WindowCovers (raw : List Str) (addr : Str) : Prop :=
  ∃ cidrs, parseCIDRs raw = .ok cidrs ∧ cidrsAllow ((List.intercalate [0x2c] cidrs).splitOn 0x2c) addr = true

variable {entry : Str}

theorem parseEntry_ok {net : IPNet} (h : parseEntry entry = .ok net) :
    ∃ text, entryText entry = .ok text ∧ parseCIDR text = some net := by
  unfold parseEntry at h
  split at h
  · cases h
  · rename_i text htext
    split at h
    · cases h
    · rename_i network hnetwork
      cases h
      exact ⟨text, htext, hnetwork⟩

variable {cidrs : List Str}

theorem parseEntries_ok {entries : List Str} (h : parseEntries entries = .ok cidrs) :
    ∃ nets : List IPNet, cidrs = nets.map IPNet.string ∧ ∀ net, net ∈ nets ↔ ∃ entry ∈ entries, parseEntry entry = .ok net := by
  induction entries generalizing cidrs with
  | nil =>
    cases h
    exact ⟨[], rfl, by simp⟩
  | cons entry rest ih =>
    rw [parseEntries] at h
    split at h
    · cases h
    · rename_i net hnet
      cases hrest : parseEntries rest with
      | error e =>
        rw [hrest] at h
        cases h
      | ok out =>
        rw [hrest] at h
        cases h
        obtain ⟨nets, rfl, hnets⟩ := ih hrest
        refine ⟨net :: nets, rfl, fun net' => ?_⟩
        simp only [mem_cons, hnets, exists_eq_or_imp, hnet, Except.ok.injEq, eq_comm (a := net')]

theorem parseCIDRs_ok {raw : List Str} (h : parseCIDRs raw = .ok cidrs) :
    cidrs ≠ [] ∧ ∃ nets : List IPNet, cidrs = nets.map IPNet.string ∧
      ∀ net, net ∈ nets ↔ ∃ entry ∈ givenEntries raw, parseEntry entry = .ok net := by
  unfold parseCIDRs at h
  split at h
  · cases h
  · rename_i out hout
    split_ifs at h with hne
    cases h
    exact ⟨hne, parseEntries_ok hout⟩

theorem cidrsAllow_string {nets : List IPNet} (h : ∀ net ∈ nets, ∃ text, parseCIDR text = some net) (addr : Str) :
    cidrsAllow (nets.map IPNet.string) addr = true ↔
      ∃ net ∈ nets, ∃ ip, parseIP (trimSpace addr) = some ip ∧ net.contains ip = true := by
  unfold cidrsAllow
  cases hip : parseIP (trimSpace addr) with
  | none => simp
  | some ip =>
    dsimp only
    rw [any_map, any_eq_true]
    refine exists_congr fun net => and_congr_right fun hnet => ?_
    obtain ⟨text, htext⟩ := h net hnet
    obtain ⟨again, hagain, hsame⟩ := IPNet.parseCIDR_string htext
    simp only [Function.comp_apply, hagain, hsame, Option.some.injEq, exists_eq_left']

/-- A window covers what one of its entries covers. -/
theorem windowCovers_iff {raw : List Str} (h : parseCIDRs raw = .ok cidrs) (addr : Str) :
    WindowCovers raw addr ↔ ∃ entry ∈ givenEntries raw, EntryCovers entry addr := by
  obtain ⟨hne, nets, rfl, hnets⟩ := parseCIDRs_ok h
  have hread : ∀ net ∈ nets, ∃ text, parseCIDR text = some net := by
    intro net hnet
    obtain ⟨entry, -, hentry⟩ := (hnets net).mp hnet
    obtain ⟨text, -, htext⟩ := parseEntry_ok hentry
    exact ⟨text, htext⟩
  have hsplit : (List.intercalate [0x2c] (nets.map IPNet.string)).splitOn 0x2c = nets.map IPNet.string := by
    apply splitOn_intercalate
    · intro s hs
      obtain ⟨net, hnet, rfl⟩ := mem_map.mp hs
      obtain ⟨text, htext⟩ := hread net hnet
      exact IPNet.comma_not_mem_string htext
    · exact hne
  have hcovers : WindowCovers raw addr ↔ cidrsAllow (nets.map IPNet.string) addr = true := by
    rw [WindowCovers, h]
    simp only [Except.ok.injEq, exists_eq_left', hsplit]
  rw [hcovers, cidrsAllow_string hread]
  constructor
  · rintro ⟨net, hnet, ip, hip, hcontains⟩
    obtain ⟨entry, hentry, hok⟩ := (hnets net).mp hnet
    exact ⟨entry, hentry, net, ip, hok, hip, hcontains⟩
  · rintro ⟨entry, hentry, net, ip, hok, hip, hcontains⟩
    exact ⟨net, (hnets net).mpr ⟨entry, hentry, hok⟩, ip, hip, hcontains⟩

theorem not_entryCovers_nil (addr : Str) : ¬EntryCovers [] addr := by
  rintro ⟨net, ip, hok, -⟩
  cases hok

theorem windowCovers_singleton (entry addr : Str) : WindowCovers [entry] addr ↔ EntryCovers (trimSpace entry) addr := by
  by_cases hblank : trimSpace entry = []
  · have hno : parseCIDRs [entry] = .error .noNetwork := by simp [parseCIDRs, givenEntries, hblank, parseEntries]
    rw [hblank]
    simp only [not_entryCovers_nil, iff_false]
    rintro ⟨cidrs, hok, -⟩
    rw [hno] at hok
    cases hok
  · have hgiven : givenEntries [entry] = [trimSpace entry] := by simp [givenEntries, hblank]
    cases hparse : parseEntry (trimSpace entry) with
    | error e =>
      have hno : parseCIDRs [entry] = .error e := by rw [parseCIDRs, hgiven, parseEntries, hparse]
      constructor
      · rintro ⟨cidrs, hok, -⟩
        rw [hno] at hok
        cases hok
      · rintro ⟨net, ip, hok, -⟩
        rw [hparse] at hok
        cases hok
    | ok net =>
      have hok : parseCIDRs [entry] = .ok [net.string] := by
        rw [parseCIDRs, hgiven, parseEntries, hparse]
        rfl
      rw [windowCovers_iff hok, hgiven]
      simp

def isMapped (entry : Str) : Bool := 0x3a ∈ entry && ((parseIP entry).bind to4).isSome

def hostBits (ip : Str) : ℕ := if to4 ip ≠ none then 32 else 128

theorem entryText_bare {ip : Str} (hbare : 0x2f ∉ entry) (hip : parseIP entry = some ip) :
    entryText entry = .ok (entry ++ 0x2f :: decimal (hostBits ip)) := by
  rw [entryText, if_neg hbare, hip, hostBits]
  dsimp only
  split_ifs <;> rfl

theorem hostBits_le (ip : Str) : hostBits ip ≤ 128 := by
  unfold hostBits
  split_ifs <;> decide

theorem parseEntry_bare {addr : Str} (hbare : 0x2f ∉ entry) (haddr : parseAddr entry = some addr) :
    parseEntry entry =
      .ok ⟨masked addr (cidrMask (hostBits (as16 addr)) addr.length), cidrMask (hostBits (as16 addr)) addr.length⟩ := by
  have hip : parseIP entry = some (as16 addr) := by rw [parseIP, haddr, Option.map_some]
  have hle := hostBits_le (as16 addr)
  have hfits : hostBits (as16 addr) ≤ 8 * addr.length := by
    rcases parseAddr_cases haddr with ⟨h4, -⟩ | ⟨h16, -⟩
    · rw [hostBits, to4_as16 h4, if_pos (by simp)]
      omega
    · omega
  rw [parseEntry, entryText_bare hbare hip]
  dsimp only
  rw [parseCIDR_append hbare haddr (dtoi_decimal (by omega)) hfits]

theorem length_parseIP {s ip : Str} (h : parseIP s = some ip) : ip.length = 16 := by
  obtain ⟨addr, haddr, rfl⟩ := Option.map_eq_some_iff.mp h
  rcases parseAddr_cases haddr with ⟨h4, -⟩ | ⟨h16, -⟩
  · have hlen : v4InV6Prefix.length = 12 := rfl
    simp [as16, h4, hlen]
  · simp [as16, h16]

theorem entryCovers_of_host {nn : Str} (hshort : IsShort nn)
    (h : parseEntry entry = .ok ⟨nn, cidrMask (8 * nn.length) nn.length⟩) (addr : Str) :
    EntryCovers entry addr ↔ parseIP (trimSpace addr) = some (as16 nn) := by
  constructor
  · rintro ⟨net, ip, hok, hip, hcontains⟩
    rw [h] at hok
    cases hok
    rw [hip, (contains_host hshort (length_parseIP hip)).mp hcontains]
  · intro hip
    exact ⟨_, _, h, hip, (contains_host hshort (length_parseIP hip)).mpr rfl⟩

/-- A bare entry covers its own host and no other, unless it is in the mapped form. -/
theorem entryCovers_bare {ip : Str} (hbare : 0x2f ∉ trimSpace entry) (hip : parseIP (trimSpace entry) = some ip) :
    (∀ addr, EntryCovers (trimSpace entry) addr ↔ parseIP (trimSpace addr) = some ip) ↔
      isMapped (trimSpace entry) = false := by
  obtain ⟨addr, haddr, rfl⟩ := Option.map_eq_some_iff.mp hip
  have hentry := parseEntry_bare hbare haddr
  rcases parseAddr_cases haddr with ⟨h4, hcolon⟩ | ⟨h16, hcolon⟩
  · have hbits : hostBits (as16 addr) = 8 * addr.length := by
      rw [hostBits, to4_as16 h4, if_pos (by simp), h4]
    rw [hbits, masked_full] at hentry
    have hmapped : isMapped (trimSpace entry) = false := by simp [isMapped, hcolon]
    simp only [hmapped, iff_true]
    exact entryCovers_of_host (.inl h4) hentry
  · have has16 : as16 addr = addr := by simp [as16, h16]
    rw [has16] at hip hentry ⊢
    cases hto4 : to4 addr with
    | none =>
      have hbits : hostBits addr = 8 * addr.length := by rw [hostBits, hto4, if_neg (by simp), h16]
      rw [hbits, masked_full] at hentry
      have hmapped : isMapped (trimSpace entry) = false := by simp [isMapped, hip, hto4]
      simp only [hmapped, iff_true]
      have hcovers := entryCovers_of_host (.inr ⟨h16, hto4⟩) hentry
      rwa [has16] at hcovers
    | some v4 =>
      -- The first 32 bits of the mapped form are zero, and IPv4 is not compared with sixteen bytes.
      have hmapped : isMapped (trimSpace entry) = true := by simp [isMapped, hip, hto4, hcolon]
      have hbits : hostBits addr = 32 := by rw [hostBits, hto4, if_pos (by simp)]
      rw [hbits, h16] at hentry
      rw [hmapped, Bool.true_eq_false, iff_false]
      intro hhost
      obtain ⟨net, ip, hok, hip', hcontains⟩ := (hhost entry).mpr hip
      rw [hentry] at hok
      cases hok
      rw [hip] at hip'
      cases hip'
      have hlen : (masked addr (cidrMask 32 16)).length = 16 := by simp [h16]
      have hshort : IsShort (masked addr (cidrMask 32 16)) := by
        refine .inr ⟨hlen, ?_⟩
        rw [to4, if_neg (by omega), if_neg fun h => absurd (le_of_mapped h.2) (by decide)]
      have hreads := IPNet.reads_of_isShort hshort (l := 32) (by omega) (by rw [hlen, masked_masked])
      rw [hlen] at hreads
      have hsame := (hreads.contains_iff addr).mp hcontains
      rw [hto4, Option.getD_some, length_to4 hto4, hlen] at hsame
      exact absurd hsame.1 (by decide)

/-! ### Claims and revocations in any order -/

structure ClaimRequest where
  addr : Str
  passcode : Str
  deriving DecidableEq

inductive ClaimPhase where
  | listed (windows : List EnrolmentWindow)
  | done (result : Except Unavailable EnrolmentWindow)
  deriving DecidableEq

structure Enrolment where
  windows : Windows
  calls : Threads ClaimRequest ClaimPhase
  /-- the windows that served the claims so far -/
  served : List Str

inductive EnrolmentEvent where
  | list (call : ℕ) (req : ClaimRequest)
  | claim (call : ℕ) (clock : Clock)
  | revoke (id : Str) (now : Int)

def servedBy : Except Unavailable EnrolmentWindow → List Str
  | .ok w => [w.id]
  | .error _ => []

namespace Enrolment

def step (C : Crypto) (s : Enrolment) : EnrolmentEvent → Option Enrolment
  | .list i req => do
    let calls ← s.calls.start i req (.listed (listEnrolmentWindows s.windows))
    some { s with calls }
  | .claim i k =>
    match s.calls.find i with
    | some ⟨_, req, .listed ws⟩ =>
      let r := claimFrom C s.windows req.addr req.passcode k ws false []
      some ⟨r.2, s.calls.move i (.done r.1), s.served ++ servedBy r.1⟩
    | _ => none
  | .revoke id now => some { s with windows := Windows.revoke s.windows id now }

def idle (W : Windows) : Enrolment := ⟨W, .empty, []⟩

end Enrolment

/-- A row is a later state of what a claim listed. -/
structure Behind (w : EnrolmentWindow) (r : WindowRow) : Prop where
  id : w.id = r.id
  cidrs : w.cidrs = r.window.cidrs
  maxUses : w.maxUses = r.maxUses
  expiresAt : w.expiresAt = r.expiresAt
  used : w.used ≤ r.used
  revoked : r.revokedAt = none → w.revokedAt = none

/-- What the rows may turn into, for what was listed before. -/
structure Later (r r' : WindowRow) : Prop where
  id : r'.id = r.id
  cidrs : r'.cidrs = r.cidrs
  maxUses : r'.maxUses = r.maxUses
  expiresAt : r'.expiresAt = r.expiresAt
  used : r.used ≤ r'.used
  revoked : r'.revokedAt = none → r.revokedAt = none

variable {w : EnrolmentWindow} {r : WindowRow}

theorem Behind.later {r' : WindowRow} (h : Behind w r) (hr : Later r r') : Behind w r' where
  id := h.id.trans hr.id.symm
  cidrs := by rw [h.cidrs, WindowRow.window, WindowRow.window, hr.cidrs]
  maxUses := h.maxUses.trans hr.maxUses.symm
  expiresAt := h.expiresAt.trans hr.expiresAt.symm
  used := h.used.trans hr.used
  revoked := fun hnone => h.revoked (hr.revoked hnone)

theorem later_spend (now : Int) (r : WindowRow) : Later r (r.spend now) where
  id := rfl
  cidrs := rfl
  maxUses := rfl
  expiresAt := rfl
  used := by
    simp only [WindowRow.spend]
    omega
  revoked := id

theorem later_revoke (now : Int) (r : WindowRow) : Later r (r.revoke now) where
  id := rfl
  cidrs := rfl
  maxUses := rfl
  expiresAt := rfl
  used := le_rfl
  revoked := by
    intro h
    simp only [WindowRow.revoke] at h
    split_ifs at h
    exact h

/-- A list of windows against the table: every row is listed, as it was then. -/
structure Lists (ws : List EnrolmentWindow) (T : Windows) : Prop where
  all : ∀ r ∈ T.rows, ∃ w ∈ ws, Behind w r
  only : ∀ w ∈ ws, ∃ r ∈ T.rows, Behind w r

theorem lists_listEnrolmentWindows (T : Windows) : Lists (listEnrolmentWindows T) T := by
  have hbehind : ∀ r : WindowRow, Behind r.window r := fun r => ⟨rfl, rfl, rfl, rfl, le_rfl, id⟩
  constructor
  · intro r hr
    exact ⟨r.window, mem_map_of_mem ((mem_insertionSort _).mpr hr), hbehind r⟩
  · intro w hw
    obtain ⟨r, hr, rfl⟩ := mem_map.mp hw
    exact ⟨r, (mem_insertionSort _).mp hr, hbehind r⟩

variable {ws : List EnrolmentWindow}

theorem Lists.update {T : Windows} (h : Lists ws T) {id : Str} {f : WindowRow → WindowRow} (hf : ∀ r, Later r (f r)) :
    Lists ws (T.update id f fun r => (hf r).id) := by
  constructor
  · intro r hr
    rcases Table.mem_update.mp hr with ⟨hr, -⟩ | ⟨x, hx, -, rfl⟩
    · exact h.all r hr
    · obtain ⟨w, hw, hbehind⟩ := h.all x hx
      exact ⟨w, hw, hbehind.later (hf x)⟩
  · intro w hw
    obtain ⟨r, hr, hbehind⟩ := h.only w hw
    by_cases hid : r.id = id
    · exact ⟨f r, Table.mem_update.mpr (.inr ⟨r, hr, hid, rfl⟩), hbehind.later (hf r)⟩
    · exact ⟨r, Table.mem_update.mpr (.inl ⟨hr, hid⟩), hbehind⟩

/-- The window authorises the claim at the moment the claim reaches it: a listed network holds the address,
it is open and not expired at either reading of the clock, the passcode is right and a use is left. -/
structure Authorises (C : Crypto) (req : ClaimRequest) (k : Clock) (r : WindowRow) : Prop where
  covers : ∃ entry ∈ r.cidrs.splitOn 0x2c, ∃ net ip, parseCIDR entry = some net ∧
    parseIP (trimSpace req.addr) = some ip ∧ net.contains ip = true
  unrevoked : r.revokedAt = none
  unexpired : k.now < r.expiresAt ∧ k.activeAt r.id ≤ r.expiresAt
  passcode : r.passcodeHash = [] ∨
    (trimSpace req.passcode ≠ [] ∧ hashEnrollmentToken C (trimSpace req.passcode) = r.passcodeHash)
  left : r.maxUses ≤ 0 ∨ r.used < r.maxUses

theorem cidrsAllow_iff {addr : Str} :
    cidrsAllow cidrs addr = true ↔
      ∃ entry ∈ cidrs, ∃ net ip, parseCIDR entry = some net ∧ parseIP (trimSpace addr) = some ip ∧
        net.contains ip = true := by
  unfold cidrsAllow
  cases parseIP (trimSpace addr) with
  | none => simp
  | some ip =>
    rw [any_eq_true]
    refine exists_congr fun entry => and_congr_right fun _ => ?_
    cases parseCIDR entry <;> simp

theorem WindowRow.spendable_iff {now : Int} :
    r.spendable now = true ↔ r.revokedAt = none ∧ now < r.expiresAt ∧ (r.maxUses ≤ 0 ∨ r.used < r.maxUses) := by
  simp [spendable, and_assoc]

theorem EnrolmentWindow.active_iff {t : Int} :
    w.active t = true ↔ w.revokedAt = none ∧ t ≤ w.expiresAt ∧ (w.maxUses ≤ 0 ∨ w.used < w.maxUses) := by
  unfold active
  split_ifs with hrevoked hexpired
  · simp [hrevoked]
  · simp [hexpired]
  · simp only [Bool.or_eq_true, decide_eq_true_eq]
    refine ⟨fun h => ⟨not_not.mp hrevoked, not_lt.mp hexpired, h⟩, fun h => h.2.2⟩

theorem passcodeMatches_iff {C : Crypto} {hash passcode : Str} :
    passcodeMatches C hash passcode = true ↔
      hash = [] ∨ (trimSpace passcode ≠ [] ∧ hashEnrollmentToken C (trimSpace passcode) = hash) := by
  simp [passcodeMatches]

variable {req : ClaimRequest}

/-- A window of an older list serves a claim just when its row authorises it: uses only grow and a revoked
window stays revoked, so what was closed in the list is closed now. -/
theorem serves_iff_authorises {C : Crypto} {T : Windows} {k : Clock} (hr : r ∈ T.rows) (h : Behind w r) :
    Serves C T req.addr req.passcode k w ↔ Authorises C req k r := by
  have hfind : T.find w.id = some r := by
    rw [h.id]
    exact Table.find_of_mem hr
  constructor
  · rintro ⟨hcovers, hactive, r', hr', hpass, hspend⟩
    rw [hfind] at hr'
    cases hr'
    rw [h.cidrs, cidrsAllow_iff] at hcovers
    rw [EnrolmentWindow.active_iff, h.expiresAt, h.id] at hactive
    rw [WindowRow.spendable_iff] at hspend
    exact ⟨hcovers, hspend.1, ⟨hspend.2.1, hactive.2.1⟩, passcodeMatches_iff.mp hpass, hspend.2.2⟩
  · intro hauth
    refine ⟨?_, ?_, r, hfind, passcodeMatches_iff.mpr hauth.passcode, ?_⟩
    · rw [h.cidrs, cidrsAllow_iff]
      exact hauth.covers
    · rw [EnrolmentWindow.active_iff, h.expiresAt, h.id, h.maxUses]
      refine ⟨h.revoked hauth.unrevoked, hauth.unexpired.2, ?_⟩
      exact hauth.left.imp id fun hlt => lt_of_le_of_lt h.used hlt
    · rw [WindowRow.spendable_iff]
      exact ⟨hauth.unrevoked, hauth.unexpired.1, hauth.left⟩

namespace Enrolment

/-- What a use count says of the claims served, and what the lists of the open calls say of the table. -/
structure Kept (W : Windows) (s : Enrolment) : Prop where
  counted : ∀ r ∈ s.windows.rows, ∃ r₀ ∈ W.rows, r₀.id = r.id ∧ r₀.maxUses = r.maxUses ∧
    r.used = r₀.used + s.served.count r.id ∧ (0 < r.maxUses → s.served.count r.id = 0 ∨ r.used ≤ r.maxUses)
  listed : ∀ t ∈ s.calls.rows, ∀ ws, t.phase = .listed ws → Lists ws s.windows

variable {C : Crypto} {W : Windows} {s s' : Enrolment}

theorem kept_idle (W : Windows) : Kept W (idle W) where
  counted := fun r hr => ⟨r, hr, rfl, rfl, by simp [idle], fun _ => .inl rfl⟩
  listed := by simp [idle, Table.empty]

theorem Kept.outcome (h : Kept W s) {i : ℕ} (hcall : s.calls.find i = some ⟨i, req, .listed ws⟩) (k : Clock) :
    ClaimOutcome C s.windows req.addr req.passcode k ws (claimFrom C s.windows req.addr req.passcode k ws false []) ∧
      Lists ws s.windows :=
  ⟨claimFrom_outcome ws false [], h.listed _ (Table.mem_of_find hcall) ws rfl⟩

theorem Kept.spend (h : Kept W s) {id : Str} {now : Int} (hr : s.windows.find id = some r)
    (hspend : r.spendable now = true) {calls : Threads ClaimRequest ClaimPhase}
    (hcalls : ∀ t ∈ calls.rows, ∀ ws, t.phase = .listed ws → t ∈ s.calls.rows) :
    Kept W ⟨Windows.spend s.windows id now, calls, s.served ++ [id]⟩ where
  counted := by
    intro r' hr'
    obtain ⟨hmem, hid⟩ := Table.find_iff.mp hr
    rcases Windows.mem_spend.mp hr' with ⟨hr', hne⟩ | ⟨x, hx, hxid, rfl⟩
    · obtain ⟨r₀, hr₀, hid₀, hmax, hused, hle⟩ := h.counted r' hr'
      have hcount : (s.served ++ [id]).count r'.id = s.served.count r'.id := by
        rw [count_append, count_singleton, if_neg (by simpa using hne.symm), Nat.add_zero]
      dsimp only
      rw [hcount]
      exact ⟨r₀, hr₀, hid₀, hmax, hused, hle⟩
    · obtain rfl : x = r := Table.eq_of_key hx hmem (hxid.trans hid.symm)
      obtain ⟨r₀, hr₀, hid₀, hmax, hused, -⟩ := h.counted x hx
      have hcount : (s.served ++ [id]).count x.id = s.served.count x.id + 1 := by
        rw [count_append, count_singleton, if_pos (by simpa using hid.symm)]
      refine ⟨r₀, hr₀, hid₀, hmax, ?_, fun hpos => .inr ?_⟩
      · simp only [WindowRow.spend, hcount]
        omega
      · have hleft := (WindowRow.spendable_iff.mp hspend).2.2
        simp only [WindowRow.spend] at hpos ⊢
        omega
  listed := fun t ht ws hphase => (h.listed t (hcalls t ht ws hphase) ws hphase).update (later_spend now)

theorem Kept.step (h : Kept W s) {e : EnrolmentEvent} (hstep : Enrolment.step C s e = some s') : Kept W s' := by
  cases e with
  | list i req =>
    simp only [Enrolment.step, Option.bind_eq_bind, Option.bind_eq_some_iff, Option.some.injEq] at hstep
    obtain ⟨calls, hstart, rfl⟩ := hstep
    refine ⟨h.counted, Threads.forall_start hstart h.listed fun ws hphase => ?_⟩
    cases hphase
    exact lists_listEnrolmentWindows s.windows
  | claim i k =>
    simp only [Enrolment.step] at hstep
    split at hstep
    · rename_i i' req ws hcall
      obtain rfl : i' = i := Table.key_of_find hcall
      cases hstep
      have hcalls : ∀ result, ∀ t ∈ (s.calls.move i' (.done result)).rows, ∀ ws, t.phase = .listed ws →
          t ∈ s.calls.rows := by
        intro result
        refine Threads.forall_move (P := fun t => ∀ ws, t.phase = .listed ws → t ∈ s.calls.rows) hcall
          (fun t ht _ _ _ => ht) fun ws hphase => ?_
        cases hphase
      rcases (h.outcome (C := C) hcall k).1 with ⟨w, -, ⟨-, -, row, hrow, -, hspend⟩, heq⟩ | ⟨-, e, heq⟩
      · rw [heq]
        exact h.spend hrow hspend (hcalls _)
      · rw [heq]
        refine ⟨?_, fun t ht ws hphase => h.listed t (hcalls _ t ht ws hphase) ws hphase⟩
        simpa [servedBy] using h.counted
    · cases hstep
  | revoke id now =>
    cases hstep
    refine ⟨fun r hr => ?_, fun t ht ws hphase => (h.listed t ht ws hphase).update (later_revoke now)⟩
    rcases Windows.mem_revoke.mp hr with ⟨hr, -⟩ | ⟨x, hx, -, rfl⟩
    · exact h.counted r hr
    · exact h.counted x hx

/-- The answer of a claim and what it leaves, in a state that a run has reached. -/
theorem Kept.claim (h : Kept W s) {i : ℕ} (hcall : s.calls.find i = some ⟨i, req, .listed ws⟩) (k : Clock) :
    ∃ s' result, Enrolment.step C s (.claim i k) = some s' ∧ s'.calls.find i = some ⟨i, req, .done result⟩ ∧
      ((∃ w, result = .ok w) ↔ ∃ r ∈ s.windows.rows, Authorises C req k r) ∧
      (∀ w, result = .ok w → (∃ r ∈ s.windows.rows, r.id = w.id ∧ Authorises C req k r) ∧
        s'.windows = Windows.spend s.windows w.id k.now ∧ s'.served = s.served ++ [w.id]) ∧
      (∀ e, result = .error e → s'.windows = s.windows ∧ s'.served = s.served) := by
  obtain ⟨houtcome, hlists⟩ := h.outcome (C := C) hcall k
  generalize hr : claimFrom C s.windows req.addr req.passcode k ws false [] = r at houtcome
  have hstep : Enrolment.step C s (.claim i k) =
      some ⟨r.2, s.calls.move i (.done r.1), s.served ++ servedBy r.1⟩ := by
    simp only [Enrolment.step, hcall, hr]
  have hmoved : (s.calls.move i (.done r.1)).find i = some ⟨i, req, .done r.1⟩ := by
    rw [Threads.move, Table.find_update_same, hcall, Option.map_some]
  refine ⟨_, r.1, hstep, hmoved, ?_⟩
  rcases houtcome with ⟨w, hw, hserves, rfl⟩ | ⟨hnone, e, rfl⟩
  · obtain ⟨row, hrow, hbehind⟩ := hlists.only w hw
    have hauth : Authorises C req k row := (serves_iff_authorises hrow hbehind).mp hserves
    refine ⟨⟨fun _ => ⟨row, hrow, hauth⟩, fun _ => ⟨_, rfl⟩⟩, ?_, ?_⟩
    · intro w' hw'
      cases hw'
      exact ⟨⟨row, hrow, hbehind.id.symm, hauth⟩, rfl, rfl⟩
    · intro e he
      cases he
  · refine ⟨⟨?_, ?_⟩, ?_, fun e' _ => ⟨rfl, append_nil _⟩⟩
    · rintro ⟨w, hw⟩
      cases hw
    · rintro ⟨row, hrow, hauth⟩
      obtain ⟨w, hw, hbehind⟩ := hlists.all row hrow
      exact absurd ((serves_iff_authorises hrow hbehind).mpr hauth) (hnone w hw)
    · intro w hw
      cases hw

end Enrolment

open Enrolment in
/-- Whatever claims and revocations run side by side, a claim is served just when some window authorises it and
takes one use of it, and no window serves more than its maximum; a window covers what its entries cover, and a
bare address one host unless it is written in the mapped form. -/
theorem claims_and_hosts (C : Crypto) :
    (∀ (W : Windows) (s : Enrolment), Run (StepOf (Enrolment.step C)) (idle W) s →
      (∀ i req ws k, s.calls.find i = some ⟨i, req, .listed ws⟩ →
        ∃ s' result, Enrolment.step C s (.claim i k) = some s' ∧ s'.calls.find i = some ⟨i, req, .done result⟩ ∧
          ((∃ w, result = .ok w) ↔ ∃ r ∈ s.windows.rows, Authorises C req k r) ∧
          (∀ w, result = .ok w → (∃ r ∈ s.windows.rows, r.id = w.id ∧ Authorises C req k r) ∧
            s'.windows = Windows.spend s.windows w.id k.now ∧ s'.served = s.served ++ [w.id]) ∧
          (∀ e, result = .error e → s'.windows = s.windows ∧ s'.served = s.served)) ∧
      ∀ r ∈ s.windows.rows, ∃ r₀ ∈ W.rows, r₀.id = r.id ∧ r₀.maxUses = r.maxUses ∧
        r.used = r₀.used + s.served.count r.id ∧
        (0 < r.maxUses → s.served.count r.id = 0 ∨ r.used ≤ r.maxUses)) ∧
    ∀ raw cidrs, parseCIDRs raw = .ok cidrs →
      (∀ addr, WindowCovers raw addr ↔ ∃ entry ∈ raw, WindowCovers [entry] addr) ∧
      ((∀ entry ∈ raw, ∀ ip, 0x2f ∉ trimSpace entry → parseIP (trimSpace entry) = some ip →
          ∀ addr, WindowCovers [entry] addr ↔ parseIP (trimSpace addr) = some ip) ↔
        ∀ entry ∈ raw, 0x2f ∉ trimSpace entry → isMapped (trimSpace entry) = false) := by
  refine ⟨fun W s hrun => ?_, fun raw cidrs hok => ⟨fun addr => ?_, ?_⟩⟩
  · have hkept : Kept W s := hrun.preserves (fun _ _ _ h hstep => h.step hstep) (kept_idle W)
    exact ⟨fun i req ws k hcall => hkept.claim hcall k, hkept.counted⟩
  · rw [windowCovers_iff hok]
    simp only [windowCovers_singleton, givenEntries, List.mem_filter, mem_map, decide_eq_true_eq]
    constructor
    · rintro ⟨_, ⟨⟨entry, hentry, rfl⟩, -⟩, hcovers⟩
      exact ⟨entry, hentry, hcovers⟩
    · rintro ⟨entry, hentry, hcovers⟩
      refine ⟨_, ⟨⟨entry, hentry, rfl⟩, fun hblank => ?_⟩, hcovers⟩
      rw [hblank] at hcovers
      exact not_entryCovers_nil addr hcovers
  · simp only [windowCovers_singleton]
    refine forall₂_congr fun entry _ => ⟨fun h hbare => ?_, fun h ip hbare hip => ?_⟩
    · cases hip : parseIP (trimSpace entry) with
      | none => simp [isMapped, hip]
      | some ip => exact (entryCovers_bare hbare hip).mp (h ip hbare hip)
    · exact (entryCovers_bare hbare hip).mpr (h hbare)

def lastUse : WindowRow where
  id := str "win-1"
  label := []
  cidrs := str "192.0.2.0/24"
  passcodeHash := []
  tenantID := []
  locationID := []
  role := []
  maxUses := 1
  used := 0
  createdAt := 0
  expiresAt := 100
  createdBy := []
  revokedAt := none
  lastUsedAt := none

def visitor : ClaimRequest := ⟨str "192.0.2.7", []⟩

/-- Two machines list the window with its last use, and one of them is served. -/
theorem claims_and_hosts_last_use :
    ∃ s s' e, runList (Enrolment.step Crypto.sample) (Enrolment.idle ⟨[lastUse], nodup_singleton _⟩)
        [.list 0 visitor, .list 1 visitor, .claim 0 ⟨5, fun _ => 5, fun _ => 5⟩] = some s ∧
      s.served = [str "win-1"] ∧ Enrolment.step Crypto.sample s (.claim 1 ⟨6, fun _ => 6, fun _ => 6⟩) = some s' ∧
      s'.calls.find 1 = some ⟨1, visitor, .done (.error e)⟩ := by
  obtain ⟨s, hs, hserved, hrows, hcall⟩ : ∃ s, runList (Enrolment.step Crypto.sample)
      (Enrolment.idle ⟨[lastUse], nodup_singleton _⟩)
      [.list 0 visitor, .list 1 visitor, .claim 0 ⟨5, fun _ => 5, fun _ => 5⟩] = some s ∧
      s.served = [str "win-1"] ∧ s.windows.rows = [lastUse.spend 5] ∧
      s.calls.find 1 = some ⟨1, visitor, .listed [lastUse.window]⟩ := ⟨_, rfl, by decide +kernel⟩
  obtain ⟨s', result, hstep, hdone, hiff, -⟩ :=
    ((claims_and_hosts Crypto.sample).1 _ s (runList_run hs)).1 1 visitor _ ⟨6, fun _ => 6, fun _ => 6⟩ hcall
  cases result with
  | ok w =>
    obtain ⟨r, hr, hauth⟩ := hiff.mp ⟨w, rfl⟩
    rw [hrows, mem_singleton] at hr
    subst hr
    exact absurd hauth.left (by decide)
  | error e => exact ⟨s, s', e, hs, hserved, hstep, hdone⟩

/-- A window with the mapped form of one address covers the loopback address, and not the address. -/
theorem mapped_entry_opens_others :
    parseCIDRs [str "::ffff:192.0.2.1"] = .ok [str "::/32"] ∧
      WindowCovers [str "::ffff:192.0.2.1"] (str "::1") ∧
      ¬WindowCovers [str "::ffff:192.0.2.1"] (str "192.0.2.1") ∧
      parseIP (trimSpace (str "192.0.2.1")) = parseIP (str "::ffff:192.0.2.1") := by
  have hok : parseCIDRs [str "::ffff:192.0.2.1"] = .ok [str "::/32"] := by decide +kernel
  refine ⟨hok, ⟨_, hok, by decide +kernel⟩, ?_, by decide +kernel⟩
  rintro ⟨cidrs, hcidrs, hallow⟩
  cases hcidrs
  exact absurd hallow (by decide +kernel)

end Ominull.Hub
