import Mathlib.Data.List.Forall2
import Ominull.Go.NetIP

/-! What `IP.String` prints is read back as the same address. -/

namespace Ominull.Go

open Lib List

/-- A group as `appendHex` prints it: up to four hex digits with its value. -/
structure IsGroup (s : Str) (x : ℕ) : Prop where
  ne_nil : s ≠ []
  length_le : s.length ≤ 4
  digits : ∀ b ∈ s, isHexDigit b = true
  value : hexNumber s = x

theorem isHexDigit_hexDigit {n : ℕ} (h : n < 16) : isHexDigit (hexDigit n) = true := by
  rw [isHexDigit, hexValue_hexDigit h, Option.isSome_some]

theorem hexNumber_append_hexDigit (s : Str) {n : ℕ} (h : n < 16) :
    hexNumber (s ++ [hexDigit n]) = 16 * hexNumber s + n := by
  rw [hexNumber, foldl_append, foldl_cons, foldl_nil, hexValue_hexDigit h, Option.getD_some,
    hexNumber]

theorem hexNumber_append_if {s : Str} {p : Prop} [Decidable p] {n : ℕ} (h : n < 16)
    (hzero : ¬ p → hexNumber s = 0 ∧ n = 0) :
    hexNumber (s ++ if p then [hexDigit n] else []) = 16 * hexNumber s + n := by
  split_ifs with hp
  · exact hexNumber_append_hexDigit s h
  · obtain ⟨hs, hn⟩ := hzero hp
    rw [append_nil, hs, hn]

theorem hexNumber_hexGroup {x : ℕ} (h : x < 65536) : hexNumber (hexGroup x) = x := by
  have h1 : hexNumber (if 0x1000 ≤ x then [hexDigit (x / 0x1000)] else []) = x / 0x1000 := by
    have hfirst := @hexNumber_append_if [] (0x1000 ≤ x) _ (x / 0x1000) (by omega) (fun hx => ⟨rfl, by omega⟩)
    exact hfirst.trans (by simp [hexNumber])
  have h2 := @hexNumber_append_if _ (0x100 ≤ x) _ (x / 0x100 % 16) (Nat.mod_lt _ (by decide))
    (fun hx => ⟨h1.trans (by omega), by omega⟩)
  have h3 := @hexNumber_append_if _ (0x10 ≤ x) _ (x / 0x10 % 16) (Nat.mod_lt _ (by decide))
    (fun hx => ⟨h2.trans (by rw [h1]; omega), by omega⟩)
  rw [hexGroup, hexNumber_append_hexDigit _ (Nat.mod_lt _ (by decide)), h3, h2, h1]
  omega

theorem isGroup_hexGroup {x : ℕ} (h : x < 65536) : IsGroup (hexGroup x) x where
  ne_nil := by simp [hexGroup]
  length_le := by
    unfold hexGroup
    split_ifs <;> simp
  digits := by
    intro b hb
    simp only [hexGroup, mem_append, mem_ite_nil_right, mem_singleton] at hb
    obtain ((⟨-, rfl⟩ | ⟨-, rfl⟩) | ⟨-, rfl⟩) | rfl := hb <;> apply isHexDigit_hexDigit <;> omega
  value := hexNumber_hexGroup h

section Loop

variable {s t ip : Str} {x left : ℕ} {ellipsis : Option ℕ}

theorem IsGroup.takeWhile (hs : IsGroup s x) (ht : ∀ b ∈ t.head?, isHexDigit b = false) :
    (s ++ t).takeWhile isHexDigit = s :=
  takeWhile_append_of_head hs.digits ht

theorem IsGroup.fits (hs : IsGroup s x) : ¬(s = [] ∨ 4 < s.length) := by
  rintro (hnil | hlong)
  · exact hs.ne_nil hnil
  · exact absurd hs.length_le (by omega)

theorem ipv6Loop_last (hs : IsGroup s x) :
    ipv6Loop (left + 1) ip ellipsis s = some (ip ++ bigEndian 2 x, ellipsis) := by
  have htake : s.takeWhile isHexDigit = s := takeWhile_eq_self_iff.mpr hs.digits
  simp only [ipv6Loop, htake, if_neg hs.fits, drop_length, hs.value]

/-- A group with a colon and another group behind it. -/
theorem ipv6Loop_colon (hs : IsGroup s x) (ht : ∃ b ∈ t.head?, isHexDigit b = true) :
    ipv6Loop (left + 1) ip ellipsis (s ++ 0x3a :: t) = ipv6Loop left (ip ++ bigEndian 2 x) ellipsis t := by
  have htake : (s ++ 0x3a :: t).takeWhile isHexDigit = s := hs.takeWhile (by simp [isHexDigit, hexValue])
  obtain ⟨b, hb, hdigit⟩ := ht
  cases t with
  | nil => cases hb
  | cons c t =>
    cases hb
    have hc : b ≠ 0x3a := by
      rintro rfl
      exact absurd hdigit (by decide)
    simp only [ipv6Loop, htake, if_neg hs.fits, drop_left, hs.value]
    split
    · contradiction
    · rename_i heq
      exact absurd (List.cons.inj heq).1 (by decide)
    · rename_i heq
      cases heq
    · rename_i heq
      cases heq
      exact absurd rfl hc
    · rename_i heq
      cases heq
      rfl
    · rename_i h
      exact absurd rfl (h _)

theorem ipv6Loop_ellipsis (hs : IsGroup s x) :
    ipv6Loop (left + 1) ip none (s ++ 0x3a :: 0x3a :: t) =
      if t = [] then some (ip ++ bigEndian 2 x, some (ip.length + 2))
      else ipv6Loop left (ip ++ bigEndian 2 x) (some (ip.length + 2)) t := by
  have htake : (s ++ 0x3a :: 0x3a :: t).takeWhile isHexDigit = s := hs.takeWhile (by simp [isHexDigit, hexValue])
  simp only [ipv6Loop, htake, if_neg hs.fits, drop_left, hs.value, length_append, length_bigEndian,
    ne_eq, not_true_eq_false, if_false]

def IsGroups (gs : List ℕ) : Prop := ∀ x ∈ gs, x < 65536

def joinTexts (fs : List Str) : Str := List.intercalate [0x3a] fs

theorem joinTexts_cons (f g : Str) (fs : List Str) : joinTexts (f :: g :: fs) = f ++ 0x3a :: joinTexts (g :: fs) := by
  simp [joinTexts, List.intercalate]

theorem joinTexts_singleton (f : Str) : joinTexts [f] = f := by
  simp [joinTexts, List.intercalate]

theorem forall₂_hexGroup {gs : List ℕ} (h : IsGroups gs) : List.Forall₂ IsGroup (gs.map hexGroup) gs := by
  rw [forall₂_map_left_iff, forall₂_same]
  exact fun x hx => isGroup_hexGroup (h x hx)

def groupBytes (gs : List ℕ) : Str := gs.flatMap (bigEndian 2)

@[simp] theorem groupBytes_cons (x : ℕ) (gs : List ℕ) : groupBytes (x :: gs) = bigEndian 2 x ++ groupBytes gs :=
  flatMap_cons

@[simp] theorem length_groupBytes (gs : List ℕ) : (groupBytes gs).length = 2 * gs.length := by
  induction gs with
  | nil => rfl
  | cons x gs ih =>
    rw [groupBytes_cons, length_append, length_bigEndian, ih, length_cons]
    omega

variable {fs : List Str} {gs : List ℕ}

theorem head?_joinTexts (h : List.Forall₂ IsGroup fs gs) (hne : fs ≠ []) (r : Str) :
    ∃ b ∈ (joinTexts fs ++ r).head?, isHexDigit b = true := by
  cases h with
  | nil => exact absurd rfl hne
  | cons hx htail =>
    rename_i f _ fs _
    obtain ⟨b, s, rfl⟩ := exists_cons_of_ne_nil hx.ne_nil
    refine ⟨b, ?_, hx.digits b mem_cons_self⟩
    cases fs with
    | nil =>
      rfl
    | cons g fs =>
      rfl

theorem head?_joinTexts_ne (h : List.Forall₂ IsGroup fs gs) (hne : fs ≠ []) (r : Str) :
    (joinTexts fs ++ r).head? ≠ some 0x3a := by
  obtain ⟨b, hb, hdigit⟩ := head?_joinTexts h hne r
  intro hcolon
  rw [hcolon] at hb
  cases hb
  exact absurd hdigit (by decide)

theorem ipv6Loop_joinTexts (h : List.Forall₂ IsGroup fs gs) (hne : fs ≠ []) (hleft : fs.length ≤ left) :
    ipv6Loop left ip ellipsis (joinTexts fs) = some (ip ++ groupBytes gs, ellipsis) := by
  induction h generalizing left ip with
  | nil => exact absurd rfl hne
  | cons hx htail ih =>
    obtain ⟨left, rfl⟩ : ∃ n, left = n + 1 := ⟨left - 1, by simp at hleft; omega⟩
    cases htail with
    | nil =>
      rw [joinTexts_singleton, ipv6Loop_last hx, groupBytes_cons]
      simp [groupBytes]
    | cons hy htail =>
      have hhead := head?_joinTexts (.cons hy htail) (by simp) []
      rw [append_nil] at hhead
      rw [joinTexts_cons, ipv6Loop_colon hx hhead, ih (by simp) (by simpa using hleft), append_assoc]
      rfl

theorem ipv6Loop_joinTexts_ellipsis (h : List.Forall₂ IsGroup fs gs) (hne : fs ≠ []) (hleft : fs.length ≤ left) :
    ipv6Loop left ip none (joinTexts fs ++ 0x3a :: 0x3a :: t) =
      if t = [] then some (ip ++ groupBytes gs, some (ip ++ groupBytes gs).length)
      else ipv6Loop (left - fs.length) (ip ++ groupBytes gs) (some (ip ++ groupBytes gs).length) t := by
  induction h generalizing left ip with
  | nil => exact absurd rfl hne
  | cons hx htail ih =>
    obtain ⟨left, rfl⟩ : ∃ n, left = n + 1 := ⟨left - 1, by simp at hleft; omega⟩
    cases htail with
    | nil =>
      rw [joinTexts_singleton, ipv6Loop_ellipsis hx, groupBytes_cons]
      simp [groupBytes]
    | cons hy htail =>
      rw [joinTexts_cons, append_assoc, cons_append,
        ipv6Loop_colon hx (head?_joinTexts (.cons hy htail) (by simp) _), ih (by simp) (by simpa using hleft)]
      simp

end Loop

/-! ### The groups of an address and the run of zeros that is not printed -/

theorem groupBytes_groups (ip : Str) (h : ip.length % 2 = 0) : groupBytes (groups ip) = ip := by
  match ip with
  | [] => rfl
  | [_] => simp at h
  | a :: b :: ip =>
    have ha := a.toNat_lt
    have hb := b.toNat_lt
    have hrest : groupBytes (groups ip) = ip := groupBytes_groups ip (by
      rw [length_cons, length_cons] at h
      omega)
    have hhigh : (256 * a.toNat + b.toNat) / 256 = a.toNat := by omega
    have hpair : bigEndian 2 (256 * a.toNat + b.toNat) = [a, b] := by simp [bigEndian, hhigh]
    rw [groups, groupBytes_cons, hpair, hrest]
    rfl

theorem isGroups_groups (ip : Str) : IsGroups (groups ip) := by
  match ip with
  | [] => simp [groups, IsGroups]
  | [_] => simp [groups, IsGroups]
  | a :: b :: ip =>
    have ha := a.toNat_lt
    have hb := b.toNat_lt
    intro x hx
    rcases mem_cons.mp hx with rfl | hx
    · omega
    · exact isGroups_groups ip x hx

theorem length_groups (ip : Str) : (groups ip).length = ip.length / 2 := by
  match ip with
  | [] => rfl
  | [_] => simp [groups]
  | a :: b :: ip =>
    rw [groups, length_cons, length_groups ip, length_cons, length_cons]
    omega

/-- A run of zero groups from one position to another. -/
structure ZeroRun (gs : List ℕ) (start stop : ℕ) : Prop where
  wide : start + 2 ≤ stop
  fits : stop ≤ gs.length
  zeros : gs = gs.take start ++ List.replicate (stop - start) 0 ++ gs.drop stop

theorem zeroRun_zerosFrom (gs : List ℕ) (i : ℕ) (h : 2 ≤ zerosFrom gs i) : ZeroRun gs i (i + zerosFrom gs i) := by
  have hle : zerosFrom gs i ≤ (gs.drop i).length := (List.takeWhile_prefix _).length_le
  have hlen : (gs.drop i).length = gs.length - i := length_drop
  have hzeros : (gs.drop i).takeWhile (· = 0) = List.replicate (zerosFrom gs i) 0 := by
    rw [eq_replicate_iff]
    exact ⟨rfl, fun x hx => by simpa using mem_takeWhile_imp hx⟩
  have hrest : (gs.drop i).dropWhile (· = 0) = gs.drop (i + zerosFrom gs i) := by
    have hsplit := takeWhile_append_dropWhile (p := fun x => decide (x = 0)) (l := gs.drop i)
    have hdrop := congrArg (List.drop (zerosFrom gs i)) hsplit
    rw [zerosFrom, drop_left, drop_drop] at hdrop
    exact hdrop
  refine ⟨by omega, by omega, ?_⟩
  rw [Nat.add_sub_cancel_left, ← hzeros, ← hrest, append_assoc, takeWhile_append_dropWhile,
    take_append_drop]

theorem zeroRun_spec (gs : List ℕ) : 8 ≤ (zeroRun gs).1 ∨ ZeroRun gs (zeroRun gs).1 (zeroRun gs).2 := by
  have hfold : ∀ (l : List ℕ) (best : ℕ × ℕ), (8 ≤ best.1 ∨ ZeroRun gs best.1 best.2) →
      let r := l.foldl (fun best i =>
        if 2 ≤ zerosFrom gs i ∧ best.2 - best.1 < zerosFrom gs i then (i, i + zerosFrom gs i) else best) best
      8 ≤ r.1 ∨ ZeroRun gs r.1 r.2 := by
    intro l
    induction l with
    | nil => exact fun _ h => h
    | cons i l ih =>
      intro best h
      apply ih
      dsimp only
      split_ifs with hi
      · exact .inr (zeroRun_zerosFrom gs i hi.1)
      · exact h
  exact hfold _ _ (.inl (by decide))

/-! ### Addresses -/

theorem parseIPv6_of_head {s : Str} (h : s.head? ≠ some 0x3a) :
    parseIPv6 s = (ipv6Loop 8 [] none s).bind expandEllipsis := by
  unfold parseIPv6
  split
  · exact absurd rfl h
  · exact absurd rfl h
  · rfl

theorem expandEllipsis_append (s t : Str) (h : s.length + t.length < 16) :
    expandEllipsis (s ++ t, some s.length) = some (s ++ List.replicate (16 - (s.length + t.length)) 0 ++ t) := by
  rw [expandEllipsis, if_pos (by simpa using h), take_left, drop_left, length_append]

/-- An address with the ellipsis in front, in the middle or at the end. -/
theorem parseIPv6_ellipsis {pre post : List Str} {gs gs' : List ℕ} (hpre : List.Forall₂ IsGroup pre gs)
    (hpost : List.Forall₂ IsGroup post gs') (hlen : pre.length + post.length < 8) :
    parseIPv6 (joinTexts pre ++ 0x3a :: 0x3a :: joinTexts post) =
      some (groupBytes gs ++ List.replicate (16 - (2 * pre.length + 2 * post.length)) 0 ++ groupBytes gs') := by
  have hcount := hpre.length_eq
  have hcount' := hpost.length_eq
  have hexpand := expandEllipsis_append (groupBytes gs) (groupBytes gs') (by simp; omega)
  rw [length_groupBytes, length_groupBytes, ← hcount, ← hcount'] at hexpand
  rw [← hexpand]
  have hhead : post ≠ [] → ∃ b t, joinTexts post = b :: t := by
    intro hne
    obtain ⟨b, hb, -⟩ := head?_joinTexts hpost hne []
    rw [append_nil] at hb
    exact ⟨b, _, eq_cons_of_mem_head? hb⟩
  rcases eq_or_ne pre [] with rfl | hne
  · cases hpre
    rcases eq_or_ne post [] with rfl | hpostNe
    · cases hpost
      rfl
    · -- Behind the leading ellipsis the text goes on with a digit.
      obtain ⟨b, t, ht⟩ := hhead hpostNe
      have hparse : parseIPv6 (joinTexts [] ++ 0x3a :: 0x3a :: joinTexts post) =
          (ipv6Loop 8 [] (some 0) (joinTexts post)).bind expandEllipsis := by
        rw [ht]
        rfl
      rw [hparse, ipv6Loop_joinTexts hpost hpostNe (by omega)]
      rfl
  · rw [parseIPv6_of_head (head?_joinTexts_ne hpre hne _), ipv6Loop_joinTexts_ellipsis hpre hne (by omega),
      nil_append, length_groupBytes, ← hcount]
    rcases eq_or_ne post [] with rfl | hpostNe
    · cases hpost
      rw [if_pos (by rfl), Option.bind_some]
      simp [groupBytes]
    · obtain ⟨b, t, ht⟩ := hhead hpostNe
      rw [if_neg (by rw [ht]; exact cons_ne_nil _ _), ipv6Loop_joinTexts hpost hpostNe (by omega),
        Option.bind_some]

/-- What `appendTo6` prints is read back. -/
theorem parseIPv6_string6 {ip : Str} (h : ip.length = 16) : parseIPv6 (string6 ip) = some ip := by
  have hgroups : IsGroups (groups ip) := isGroups_groups ip
  have hbytes : groupBytes (groups ip) = ip := groupBytes_groups ip (by omega)
  have hlen : (groups ip).length = 8 := by rw [length_groups, h]
  unfold string6
  dsimp only
  split_ifs with hstart
  · have hrun : ZeroRun (groups ip) (zeroRun (groups ip)).1 (zeroRun (groups ip)).2 :=
      (zeroRun_spec (groups ip)).resolve_left (by omega)
    generalize (zeroRun (groups ip)).1 = start at *
    generalize (zeroRun (groups ip)).2 = stop at *
    have hwide := hrun.wide
    have hfits := hrun.fits
    have hzeros : groupBytes (List.replicate (stop - start) 0) = List.replicate (2 * (stop - start)) 0 := by
      generalize stop - start = n
      induction n with
      | zero => rfl
      | succ n ih =>
        rw [replicate_succ, groupBytes_cons, ih, Nat.mul_succ, Nat.add_comm, replicate_add]
        rfl
    have hpre : IsGroups ((groups ip).take start) := fun x hx => hgroups x (mem_of_mem_take hx)
    have hpost : IsGroups ((groups ip).drop stop) := fun x hx => hgroups x (mem_of_mem_drop hx)
    have hparse := parseIPv6_ellipsis (forall₂_hexGroup hpre) (forall₂_hexGroup hpost) (by simp; omega)
    have hcount : 16 - (2 * (((groups ip).take start).map hexGroup).length +
        2 * (((groups ip).drop stop).map hexGroup).length) = 2 * (stop - start) := by
      rw [length_map, length_map, length_take, length_drop]
      omega
    rw [append_assoc]
    refine hparse.trans ?_
    have hwhole := congrArg groupBytes hrun.zeros
    simp only [groupBytes, flatMap_append] at hwhole hzeros hbytes ⊢
    rw [hcount, ← hzeros, ← hwhole, hbytes]
  · have htexts := forall₂_hexGroup hgroups
    have hne : (groups ip).map hexGroup ≠ [] := by simp [← length_eq_zero_iff, hlen]
    have hhead := head?_joinTexts_ne htexts hne []
    rw [append_nil] at hhead
    rw [joinGroups, ← joinTexts, parseIPv6_of_head hhead, ipv6Loop_joinTexts htexts hne (by simp [hlen]),
      nil_append, hbytes, Option.bind_some, expandEllipsis, if_pos h]

/-- The first separator of a text with only one kind of separator. -/
theorem find?_eq_some_of_mem {p : UInt8 → Bool} {s : Str} {c : UInt8} (hc : c ∈ s) (hp : p c = true)
    (h : ∀ b ∈ s, p b = true → b = c) : s.find? p = some c := by
  obtain ⟨b, hb⟩ := Option.isSome_iff_exists.mp (find?_isSome.mpr ⟨c, hc, hp⟩)
  rw [hb, h b (mem_of_find?_eq_some hb) (find?_some hb)]

def isAddrByte (b : UInt8) : Bool := isHexDigit b || b = 0x3a || b = 0x2e

theorem mem_intercalate {c b : UInt8} {l : List Str} (h : b ∈ List.intercalate [c] l) : b = c ∨ ∃ s ∈ l, b ∈ s := by
  induction l with
  | nil => cases h
  | cons s l ih =>
    cases l with
    | nil => exact .inr ⟨s, by simp, by simpa [List.intercalate] using h⟩
    | cons t l =>
      rw [intercalate_cons_cons, append_assoc, mem_append, mem_append, mem_singleton] at h
      rcases h with h | h | h
      · exact .inr ⟨s, by simp, h⟩
      · exact .inl h
      · exact (ih h).imp id fun ⟨u, hu, hb⟩ => ⟨u, mem_cons_of_mem _ hu, hb⟩

theorem mem_joinGroups {gs : List ℕ} (h : IsGroups gs) {b : UInt8} (hb : b ∈ joinGroups gs) :
    isHexDigit b = true ∨ b = 0x3a := by
  rcases mem_intercalate hb with hb | ⟨s, hs, hb⟩
  · exact .inr hb
  · obtain ⟨x, hx, rfl⟩ := mem_map.mp hs
    exact .inl ((isGroup_hexGroup (h x hx)).digits b hb)

theorem mem_string6 {ip : Str} {b : UInt8} (hb : b ∈ string6 ip) : isHexDigit b = true ∨ b = 0x3a := by
  have hgroups : IsGroups (groups ip) := isGroups_groups ip
  unfold string6 at hb
  dsimp only at hb
  split_ifs at hb
  · rw [mem_append, mem_append] at hb
    rcases hb with (hb | hb) | hb
    · exact mem_joinGroups (fun x hx => hgroups x (mem_of_mem_take hx)) hb
    · right
      have hcolons : ∀ b ∈ ([0x3a, 0x3a] : Str), b = 0x3a := all_iff_forall_prop.mp (by decide)
      exact hcolons b hb
    · exact mem_joinGroups (fun x hx => hgroups x (mem_of_mem_drop hx)) hb
  · exact mem_joinGroups hgroups hb

theorem colon_mem_string6 {ip : Str} (h : ip.length = 16) : 0x3a ∈ string6 ip := by
  unfold string6
  dsimp only
  split_ifs
  · have hcolon : (0x3a : UInt8) ∈ str "::" := by decide
    simp only [mem_append, hcolon, or_true, true_or]
  · match hgs : groups ip with
    | [] => simp [length_groups, ← length_eq_zero_iff, h] at hgs
    | [_] =>
      have := congrArg List.length hgs
      simp [length_groups, h] at this
    | x :: y :: gs => simp [joinGroups, List.intercalate]

theorem parseAddr_string6 {ip : Str} (h : ip.length = 16) : parseAddr (string6 ip) = some ip := by
  have hnot : ∀ b : UInt8, isHexDigit b = true ∨ b = 0x3a → b ≠ 0x25 ∧ b ≠ 0x2e := by
    rintro b (hb | rfl)
    · constructor <;> rintro rfl <;> exact absurd hb (by decide)
    · decide
  have hzone : (0x25 : UInt8) ∉ string6 ip := fun hb => (hnot _ (mem_string6 hb)).1 rfl
  have hfind : (string6 ip).find? (fun b => b = 0x2e || b = 0x3a) = some 0x3a := by
    apply find?_eq_some_of_mem (colon_mem_string6 h) (by decide)
    intro b hb hp
    have hdot := (hnot b (mem_string6 hb)).2
    simpa [hdot] using hp
  rw [parseAddr, if_neg hzone, hfind]
  exact parseIPv6_string6 h

theorem isOctet_decimal : ∀ b : UInt8, isOctet (decimal b.toNat) = true := forall_byte (by decide +kernel)

theorem parseIPv4_dotted {ip : Str} (h : ip.length = 4) : parseIPv4 (dotted ip) = some ip := by
  have hfields : (dotted ip).splitOn 0x2e = ip.map fun b => decimal b.toNat := by
    apply splitOn_intercalate
    · intro s hs hdot
      obtain ⟨b, -, rfl⟩ := mem_map.mp hs
      exact absurd (isDigit_of_mem_decimal hdot) (by decide)
    · simp [← length_eq_zero_iff, h]
  have hok : isIPv4 (dotted ip) = true := by
    rw [isIPv4, hfields]
    simp [h, isOctet_decimal]
  rw [parseIPv4, if_pos hok, hfields, map_map]
  rw [map_congr_left (g := id), map_id]
  intro b _
  rw [Function.comp_apply, digitsValue_decimal, UInt8.ofNat_toNat, id]

theorem mem_dotted {ip : Str} {b : UInt8} (hb : b ∈ dotted ip) : isDigit b = true ∨ b = 0x2e := by
  rcases mem_intercalate hb with hb | ⟨s, hs, hb⟩
  · exact .inr hb
  · obtain ⟨c, -, rfl⟩ := mem_map.mp hs
    exact .inl (isDigit_of_mem_decimal hb)

theorem parseAddr_dotted {ip : Str} (h : ip.length = 4) : parseAddr (dotted ip) = some ip := by
  have hnot : ∀ b : UInt8, isDigit b = true ∨ b = 0x2e → b ≠ 0x25 ∧ b ≠ 0x3a := by
    rintro b (hb | rfl)
    · constructor <;> rintro rfl <;> exact absurd hb (by decide)
    · decide
  have hdot : (0x2e : UInt8) ∈ dotted ip := by
    obtain ⟨a, b, c, d, rfl⟩ : ∃ a b c d, ip = [a, b, c, d] := length_eq_four.mp h
    simp [dotted, List.intercalate]
  have hzone : (0x25 : UInt8) ∉ dotted ip := fun hb => (hnot _ (mem_dotted hb)).1 rfl
  have hfind : (dotted ip).find? (fun b => b = 0x2e || b = 0x3a) = some 0x2e := by
    apply find?_eq_some_of_mem hdot (by decide)
    intro b hb hp
    have hcolon := (hnot b (mem_dotted hb)).2
    simpa [hcolon] using hp
  rw [parseAddr, if_neg hzone, hfind]
  exact parseIPv4_dotted h

/-- An address as `networkNumberAndMask` leaves it: the mapped form is never kept. -/
def IsShort (ip : Str) : Prop := ip.length = 4 ∨ (ip.length = 16 ∧ to4 ip = none)

theorem IsShort.to4_getD {ip : Str} (h : IsShort ip) : (to4 ip).getD ip = ip := by
  rcases h with h | ⟨-, h⟩
  · simp [to4, h]
  · rw [h, Option.getD_none]

theorem ipString_of_length {ip : Str} (h : ip.length = 4) : ipString ip = dotted ip := by
  simp [ipString, to4, h]

/-- What `IP.String` prints is read back. -/
theorem parseAddr_ipString {ip : Str} (h : IsShort ip) : parseAddr (ipString ip) = some ip := by
  rcases h with h | ⟨h, hmapped⟩
  · rw [ipString_of_length h, parseAddr_dotted h]
  · rw [ipString, hmapped]
    exact parseAddr_string6 h

theorem isAddrByte_of_mem_ipString {ip : Str} {b : UInt8} (hb : b ∈ ipString ip) : isAddrByte b = true := by
  have hdigit : ∀ b, isDigit b = true → isHexDigit b = true := forall_byte (by decide +kernel)
  unfold ipString at hb
  split at hb
  · rcases mem_dotted hb with hb | rfl
    · simp [isAddrByte, hdigit b hb]
    · rfl
  · rcases mem_string6 hb with hb | rfl
    · simp [isAddrByte, hb]
    · rfl

end Ominull.Go
