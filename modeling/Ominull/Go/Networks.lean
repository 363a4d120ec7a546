import Ominull.Go.NetIPText

/-! Networks: what `IPNet.String` prints is read back as the same network, and a host is a network of one. -/

namespace Ominull.Go

open Lib List

/-! ### Masks -/

@[simp] theorem length_cidrMask (n l : ℕ) : (cidrMask n l).length = l := by
  induction l generalizing n with
  | zero => rfl
  | succ l ih =>
    rw [cidrMask]
    split_ifs <;> rw [length_cons, ih]

theorem cidrMask_zero (l : ℕ) : cidrMask 0 l = List.replicate l 0 := by
  induction l with
  | zero => rfl
  | succ l ih =>
    rw [cidrMask, if_neg (by decide), ih, replicate_succ]
    rfl

variable {n : ℕ}

theorem drop_cidrMask (k l : ℕ) (h : 8 * k ≤ n) : (cidrMask n (k + l)).drop k = cidrMask (n - 8 * k) l := by
  induction k generalizing n with
  | zero => simp
  | succ k ih =>
    rw [Nat.add_right_comm, cidrMask, if_pos (by omega), drop_succ_cons, ih (by omega)]
    congr 1
    omega

theorem simpleMaskLength_cidrMask {l : ℕ} (h : n ≤ 8 * l) : simpleMaskLength (cidrMask n l) = some n := by
  induction l generalizing n with
  | zero =>
    obtain rfl : n = 0 := by omega
    rfl
  | succ l ih =>
    rw [cidrMask]
    split_ifs with hn
    · rw [simpleMaskLength, if_pos rfl, ih (by omega), Option.map_some, Nat.sub_add_cancel hn]
    · have hbyte : ∀ i : Fin 8, (~~~(0xff >>> UInt8.ofNat i) : UInt8) ≠ 0xff ∧
          leadingOnes 8 (~~~(0xff >>> UInt8.ofNat i)) = some i.val := by decide
      obtain ⟨hne, hones⟩ := hbyte ⟨n, by omega⟩
      rw [simpleMaskLength, if_neg hne, cidrMask_zero, if_pos (by simp), hones]

@[simp] theorem length_masked (ip mask : Str) : (masked ip mask).length = min ip.length mask.length :=
  length_zipWith

theorem masked_masked (ip mask : Str) : masked (masked ip mask) mask = masked ip mask := by
  induction ip generalizing mask with
  | nil => rfl
  | cons a ip ih =>
    cases mask with
    | nil => rfl
    | cons m mask =>
      have htail := ih mask
      simp only [masked, zipWith_cons_cons, UInt8.and_assoc, UInt8.and_self] at htail ⊢
      rw [htail]

theorem drop_masked (k : ℕ) (ip mask : Str) : (masked ip mask).drop k = masked (ip.drop k) (mask.drop k) :=
  drop_zipWith

variable {ip : Str}

theorem le_of_mapped (h : (masked ip (cidrMask n 16)).take 12 = v4InV6Prefix) : 96 ≤ n := by
  by_contra hn
  have hshort : ∀ i : Fin 96, (cidrMask i 16)[11]? ≠ some 0xff := by decide +kernel
  have hbyte : ((masked ip (cidrMask n 16)).take 12)[11]? = some 0xff := by rw [h]; rfl
  rw [getElem?_take_of_lt (by decide), masked, getElem?_zipWith] at hbyte
  apply hshort ⟨n, by omega⟩
  generalize ip[11]? = a at hbyte
  generalize (cidrMask n 16)[11]? = m at hbyte ⊢
  match a, m with
  | some a, some m =>
    have hand : a &&& m = 0xff := Option.some.inj hbyte
    have hle : a &&& m ≤ m := UInt8.and_le_right
    rw [hand] at hle
    have hmax : m.toNat < 256 := m.toNat_lt
    have hge : 255 ≤ m.toNat := UInt8.le_iff_toNat_le.mp hle
    congr 1
    exact UInt8.toNat_inj.mp (by
      change m.toNat = 255
      omega)

/-! ### Networks -/

variable {s : Str}

theorem length_parseIPv4 (h : parseIPv4 s = some ip) : ip.length = 4 := by
  unfold parseIPv4 at h
  split_ifs at h with hok
  cases h
  rw [length_map]
  simp only [isIPv4, Bool.and_eq_true, decide_eq_true_eq] at hok
  exact hok.1

theorem length_expandEllipsis {r : Str × Option ℕ} (h : expandEllipsis r = some ip) : ip.length = 16 := by
  obtain ⟨s, ellipsis⟩ := r
  cases ellipsis with
  | none =>
    simp only [expandEllipsis, Option.ite_none_right_eq_some, Option.some.injEq] at h
    rw [← h.2, h.1]
  | some e =>
    simp only [expandEllipsis, Option.ite_none_right_eq_some, Option.some.injEq] at h
    obtain ⟨hlt, rfl⟩ := h
    have hsplit := congrArg List.length (take_append_drop e s)
    simp only [length_append, length_replicate] at hsplit ⊢
    omega

theorem length_parseIPv6 (h : parseIPv6 s = some ip) : ip.length = 16 := by
  unfold parseIPv6 at h
  split at h
  · cases h
    rfl
  · obtain ⟨r, -, hr⟩ := Option.bind_eq_some_iff.mp h
    exact length_expandEllipsis hr
  · obtain ⟨r, -, hr⟩ := Option.bind_eq_some_iff.mp h
    exact length_expandEllipsis hr

theorem colon_not_mem_of_parseIPv4 (h : parseIPv4 s = some ip) : (0x3a : UInt8) ∉ s := by
  unfold parseIPv4 at h
  split_ifs at h with hok
  intro hcolon
  simp only [isIPv4, Bool.and_eq_true, all_eq_true] at hok
  have hwhole : List.intercalate [0x2e] (s.splitOn 0x2e) = s := intercalate_splitOn 0x2e
  rw [← hwhole] at hcolon
  rcases mem_intercalate hcolon with hdot | ⟨field, hfield, hmem⟩
  · exact absurd hdot (by decide)
  · have hoctet := hok.2 field hfield
    simp only [isOctet, Bool.and_eq_true, all_eq_true] at hoctet
    exact absurd (hoctet.1.1.1.2 _ hmem) (by decide)

theorem parseAddr_cases (h : parseAddr s = some ip) : (ip.length = 4 ∧ 0x3a ∉ s) ∨ (ip.length = 16 ∧ 0x3a ∈ s) := by
  unfold parseAddr at h
  split_ifs at h
  split at h
  · exact .inl ⟨length_parseIPv4 h, colon_not_mem_of_parseIPv4 h⟩
  · rename_i b hne hfind
    have hb : b = 0x2e ∨ b = 0x3a := by simpa using find?_some hfind
    obtain rfl : b = 0x3a := hb.resolve_left hne
    exact .inr ⟨length_parseIPv6 h, mem_of_find?_eq_some hfind⟩
  · cases h

theorem cut_append {c : UInt8} (hs : c ∉ s) (t : Str) : cut c (s ++ c :: t) = (s, t) := by
  have hall : ∀ b ∈ s, (decide (b ≠ c)) = true := fun b hb => by
    simpa using ne_of_mem_of_not_mem hb hs
  have htake : (s ++ c :: t).takeWhile (fun b => decide (b ≠ c)) = s := takeWhile_append_of_head hall (by simp)
  have hdrop : (s ++ c :: t).dropWhile (fun b => decide (b ≠ c)) = c :: t := by
    rw [dropWhile_append_of_pos hall, dropWhile_cons_of_neg (by simp)]
  rw [cut, htake, hdrop, tail_cons]

theorem dtoi_decimal (h : n < 0xffffff) : dtoi (decimal n) = some n := by
  have hdigits : (decimal n).all isDigit = true := all_eq_true.mpr fun b => isDigit_of_mem_decimal
  simp [dtoi, decimal_ne_nil, hdigits, digitsValue_decimal, h]

/-- The masked address of a network, whichever form `As16` gives it. -/
theorem maskIP_as16 (h : ip.length = 4 ∨ ip.length = 16) (n : ℕ) :
    maskIP (as16 ip) (cidrMask n ip.length) = masked ip (cidrMask n ip.length) := by
  rcases h with h | h
  · have hlen : v4InV6Prefix.length = 12 := rfl
    simp [maskIP, as16, h, hlen, take_left' hlen, drop_left' hlen]
  · simp [maskIP, as16, h]

theorem parseCIDR_append {m : Str} (hs : 0x2f ∉ s) (hip : parseAddr s = some ip) (hm : dtoi m = some n)
    (hn : n ≤ 8 * ip.length) :
    parseCIDR (s ++ 0x2f :: m) = some ⟨masked ip (cidrMask n ip.length), cidrMask n ip.length⟩ := by
  have hsize : ip.length = 4 ∨ ip.length = 16 := (parseAddr_cases hip).imp And.left And.left
  simp only [parseCIDR, cut_append hs, hip, hm, Option.bind_eq_bind, Option.bind_some, maskIP_as16 hsize]
  rw [if_neg (by simp), if_neg (by omega)]

theorem parseCIDR_ok {net : IPNet} (h : parseCIDR s = some net) :
    ∃ ip n, (ip.length = 4 ∨ ip.length = 16) ∧ n ≤ 8 * ip.length ∧
      net = ⟨masked ip (cidrMask n ip.length), cidrMask n ip.length⟩ := by
  unfold parseCIDR at h
  split_ifs at h
  obtain ⟨ip, hip, h⟩ := Option.bind_eq_some_iff.mp h
  obtain ⟨n, -, h⟩ := Option.bind_eq_some_iff.mp h
  have hsize : ip.length = 4 ∨ ip.length = 16 := (parseAddr_cases hip).imp And.left And.left
  split_ifs at h with hn
  cases h
  exact ⟨ip, n, hsize, by omega, by rw [maskIP_as16 hsize]⟩

namespace IPNet

structure Reads (net : IPNet) (nn : Str) (l : ℕ) : Prop where
  parts : net.networkNumberAndMask = some (nn, cidrMask l nn.length)
  short : IsShort nn
  bits : l ≤ 8 * nn.length
  masked : masked nn (cidrMask l nn.length) = nn

theorem reads_of_isShort {nn : Str} {l : ℕ} (hshort : IsShort nn) (hbits : l ≤ 8 * nn.length)
    (hmasked : Go.masked nn (cidrMask l nn.length) = nn) : Reads ⟨nn, cidrMask l nn.length⟩ nn l := by
  refine ⟨?_, hshort, hbits, hmasked⟩
  rw [networkNumberAndMask]
  rw [hshort.to4_getD]
  rcases hshort with h | ⟨h, -⟩ <;> simp [h]

theorem exists_reads {net : IPNet} (h : parseCIDR s = some net) : ∃ nn l, Reads net nn l := by
  obtain ⟨ip, n, hsize, hn, rfl⟩ := parseCIDR_ok h
  have hlen : (Go.masked ip (cidrMask n ip.length)).length = ip.length := by simp
  by_cases hshort : IsShort (Go.masked ip (cidrMask n ip.length))
  · refine ⟨Go.masked ip (cidrMask n ip.length), n, ?_⟩
    have hreads := reads_of_isShort hshort (l := n) (by rw [hlen]; exact hn) (by rw [hlen, masked_masked])
    rwa [hlen] at hreads
  · -- A network in the mapped range is one of IPv4.
    have h16 : ip.length = 16 := hsize.resolve_left fun h4 => hshort (.inl (by rw [hlen, h4]))
    rw [h16] at hn hlen hshort ⊢
    have hmapped : (Go.masked ip (cidrMask n 16)).take 12 = v4InV6Prefix := by
      by_contra hne
      exact hshort (.inr ⟨hlen, by simp [to4, hlen, hne]⟩)
    have hwide : 96 ≤ n := le_of_mapped hmapped
    have hmask : (cidrMask n 16).drop 12 = cidrMask (n - 96) 4 := drop_cidrMask 12 4 hwide
    have hnumber : (Go.masked ip (cidrMask n 16)).drop 12 = Go.masked (ip.drop 12) (cidrMask (n - 96) 4) := by
      rw [drop_masked, hmask]
    have hfour : (Go.masked (ip.drop 12) (cidrMask (n - 96) 4)).length = 4 := by simp [h16]
    refine ⟨Go.masked (ip.drop 12) (cidrMask (n - 96) 4), n - 96, ?_, .inl hfour, by omega, ?_⟩
    · have hto4 : to4 (Go.masked ip (cidrMask n 16)) = some (Go.masked (ip.drop 12) (cidrMask (n - 96) 4)) := by
        rw [to4, if_neg (by omega), if_pos ⟨hlen, hmapped⟩, hnumber]
      rw [networkNumberAndMask]
      rw [hto4, Option.getD_some, hfour, hmask]
      simp
    · rw [hfour, masked_masked]

variable {net : IPNet} {nn : Str} {l : ℕ}

theorem Reads.string (h : Reads net nn l) : net.string = ipString nn ++ 0x2f :: decimal l := by
  rw [IPNet.string, h.parts]
  dsimp only
  rw [simpleMaskLength_cidrMask h.bits]

/-- What `IPNet.String` prints is read back as the same network. -/
theorem Reads.parseCIDR_string (h : Reads net nn l) : parseCIDR net.string = some ⟨nn, cidrMask l nn.length⟩ := by
  have hslash : (0x2f : UInt8) ∉ ipString nn := fun hb => absurd (isAddrByte_of_mem_ipString hb) (by decide)
  have hbits : l ≤ 8 * nn.length := h.bits
  have hsmall : l < 0xffffff := by
    rcases h.short with h4 | ⟨h16, -⟩ <;> omega
  rw [h.string, parseCIDR_append hslash (parseAddr_ipString h.short) (dtoi_decimal hsmall) hbits, h.masked]

theorem contains_congr {m : IPNet} (h : net.networkNumberAndMask = m.networkNumberAndMask) (ip : Str) :
    net.contains ip = m.contains ip := by
  rw [contains, contains, h]

theorem parseCIDR_string (h : parseCIDR s = some net) :
    ∃ m, parseCIDR net.string = some m ∧ ∀ ip, m.contains ip = net.contains ip := by
  obtain ⟨nn, l, hreads⟩ := exists_reads h
  refine ⟨_, hreads.parseCIDR_string, contains_congr ?_⟩
  rw [(reads_of_isShort hreads.short hreads.bits hreads.masked).parts, hreads.parts]

theorem comma_not_mem_string (h : parseCIDR s = some net) : 0x2c ∉ net.string := by
  obtain ⟨nn, l, hreads⟩ := exists_reads h
  rw [hreads.string, mem_append, mem_cons]
  rintro (hb | hb | hb)
  · exact absurd (isAddrByte_of_mem_ipString hb) (by decide)
  · exact absurd hb (by decide)
  · exact absurd (isDigit_of_mem_decimal hb) (by decide)

theorem Reads.contains_iff (h : Reads net nn l) (ip : Str) :
    net.contains ip = true ↔
      ((to4 ip).getD ip).length = nn.length ∧ Go.masked ((to4 ip).getD ip) (cidrMask l nn.length) = nn := by
  rw [contains, h.parts]
  dsimp only
  rw [h.masked, Bool.and_eq_true, decide_eq_true_eq, decide_eq_true_eq, eq_comm (a := nn)]

end IPNet

theorem masked_full (ip : Str) : masked ip (cidrMask (8 * ip.length) ip.length) = ip := by
  induction ip with
  | nil => rfl
  | cons b ip ih =>
    rw [length_cons, cidrMask, if_pos (by omega), masked, zipWith_cons_cons,
      show 8 * (ip.length + 1) - 8 = 8 * ip.length by omega]
    congr 1
    revert b
    exact forall_byte (by decide +kernel)

theorem to4_as16 (h : ip.length = 4) : to4 (as16 ip) = some ip := by
  have hlen : v4InV6Prefix.length = 12 := rfl
  simp [to4, as16, h, hlen, take_left' hlen, drop_left' hlen]

theorem length_to4 {v4 : Str} (h : to4 ip = some v4) : v4.length = 4 := by
  unfold to4 at h
  split_ifs at h with h4 h16
  · cases h
    exact h4
  · cases h
    rw [length_drop, h16.1]

/-- An address as `networkNumberAndMask` compares it stands for one address of sixteen bytes. -/
theorem to4_getD_eq_iff {nn : Str} (h : ip.length = 16) (hshort : IsShort nn) :
    (to4 ip).getD ip = nn ↔ ip = as16 nn := by
  rcases hshort with h4 | ⟨h16, hmapped⟩
  · constructor
    · intro heq
      by_cases htake : ip.take 12 = v4InV6Prefix
      · have hdrop : ip.drop 12 = nn := by simpa [to4, h, htake] using heq
        rw [as16, if_pos h4, ← hdrop, ← htake, take_append_drop]
      · rw [to4, if_neg (by omega), if_neg (fun hc => htake hc.2), Option.getD_none] at heq
        rw [heq] at h
        omega
    · rintro rfl
      rw [to4_as16 h4, Option.getD_some]
  · rw [as16, if_neg (by omega)]
    constructor
    · intro heq
      cases hto4 : to4 ip with
      | none => rwa [hto4, Option.getD_none] at heq
      | some v4 =>
        have hlen : v4.length = 4 := length_to4 hto4
        rw [hto4, Option.getD_some] at heq
        rw [heq] at hlen
        omega
    · rintro rfl
      rw [hmapped, Option.getD_none]

theorem contains_host {nn : Str} (hshort : IsShort nn) (h : ip.length = 16) :
    IPNet.contains ⟨nn, cidrMask (8 * nn.length) nn.length⟩ ip = true ↔ ip = as16 nn := by
  have hreads := IPNet.reads_of_isShort hshort le_rfl (masked_full nn)
  rw [hreads.contains_iff, ← to4_getD_eq_iff h hshort]
  constructor
  · rintro ⟨hlen, hmasked⟩
    rwa [← hlen, masked_full] at hmasked
  · intro heq
    rw [heq]
    exact ⟨rfl, masked_full nn⟩

end Ominull.Go
