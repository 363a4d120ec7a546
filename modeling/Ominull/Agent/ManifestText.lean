import Ominull.Agent.PinText
import Ominull.Agent.TrustJsonText

/-! Reading back the files of a manifest: `manifest.state` and `manifest.floor` hold what was written
to them. -/

namespace Ominull.Agent

open Lib List

/-! ## Texts and numbers that were read -/

variable {s : Str}

theorem skipStringBody_some {rest : Str} (h : TJ.skipStringBody s = some rest) :
    ∃ t, s = t ++ 0x22 :: rest ∧ ((0x5c : UInt8) ∉ t → TJ.PlainText t) := by
  induction s using TJ.skipStringBody.induct generalizing rest with
  | case1 => cases h
  | case2 => 
    cases h
    exact ⟨[], rfl, nofun⟩
  | case3 b hb =>
    simp [TJ.skipStringBody, hb] at h
  | case4 c s ih =>
    simp only [TJ.skipStringBody, if_true] at h
    obtain ⟨t, rfl, -⟩ := ih h
    exact ⟨0x5c :: c :: t, rfl, fun hno => absurd (by simp) hno⟩
  | case5 c s hb =>
    simp only [TJ.skipStringBody, if_neg hb, if_true] at h
    cases h
    exact ⟨[], rfl, nofun⟩
  | case6 b c s hback hquote hctl =>
    simp [TJ.skipStringBody, hback, hquote, hctl] at h
  | case7 b c s hback hquote hctl ih =>
    simp only [TJ.skipStringBody, if_neg hback, if_neg hquote, if_neg hctl] at h
    obtain ⟨t, ht, hplain⟩ := ih h
    refine ⟨b :: t, by rw [ht]; rfl, fun hno a ha => ?_⟩
    rcases mem_cons.mp ha with rfl | ha
    · exact ⟨hctl, hquote, hback⟩
    · exact hplain (fun hmem => hno (mem_cons_of_mem _ hmem)) a ha

/-- A text that was read as plain is one. -/
theorem plain_some {cap : ℕ} {v t : Str} (h : TJ.plain cap v = some t) : TJ.PlainText t ∧ t.length < cap := by
  unfold TJ.plain at h
  split at h
  · cases h
  · rename_i rest hskip
    dsimp only at h
    split at h
    · cases h
    · rename_i hok
      cases h
      push Not at hok
      obtain ⟨hlen, hback⟩ := hok
      refine ⟨?_, by omega⟩
      unfold TJ.skipString at hskip
      split at hskip
      · obtain ⟨t, rfl, hplain⟩ := skipStringBody_some hskip
        have hspan : TJ.spanTo (0x22 :: (t ++ 0x22 :: rest)) rest = TJ.quoted t := by
          have := TJ.spanTo_append (TJ.quoted t) rest
          rwa [TJ.quoted_append] at this
        rw [hspan, TJ.unquoted_quoted] at hback ⊢
        exact hplain hback
      · cases hskip

theorem plainItems_some {fuel cap : ℕ} {l : List Str} (h : TJ.plainItems fuel cap s = some l) :
    (∀ t ∈ l, TJ.PlainText t ∧ t.length < 64) ∧ l.length ≤ cap := by
  induction fuel generalizing cap s l with
  | zero => cases h
  | succ fuel ih =>
    unfold TJ.plainItems at h
    dsimp only at h
    split at h
    · cases h
    split at h
    · cases h
    split at h
    · cases h
    case h_2 hcap _ text htext =>
      split at h
      · obtain ⟨l', hl', rfl⟩ := Option.map_eq_some_iff.mp h
        obtain ⟨hall, hlen⟩ := ih hl'
        refine ⟨fun t ht => ?_, by rw [length_cons]; omega⟩
        rcases mem_cons.mp ht with rfl | ht
        · exact plain_some htext
        · exact hall t ht
      · cases h
        refine ⟨fun t ht => ?_, by rw [length_singleton]; omega⟩
        rw [mem_singleton.mp ht]
        exact plain_some htext
      · cases h

theorem plainArray_some {cap : ℕ} {v : Str} {l : List Str} (h : TJ.plainArray cap v = some l) :
    (∀ t ∈ l, TJ.PlainText t ∧ t.length < 64) ∧ l.length ≤ cap := by
  have hnil : (∀ t ∈ ([] : List Str), TJ.PlainText t ∧ t.length < 64) ∧
      ([] : List Str).length ≤ cap :=
    ⟨fun t ht => absurd ht not_mem_nil, Nat.zero_le _⟩
  unfold TJ.plainArray at h
  dsimp only at h
  split at h
  · cases h
    exact hnil
  split at h
  · split at h
    · cases h
      exact hnil
    · exact plainItems_some h
  · cases h

theorem le_foldl_digits (s : Str) (x : ℕ) : x ≤ s.foldl (fun n b => 10 * n + (b.toNat - 0x30)) x := by
  induction s generalizing x with
  | nil => exact Nat.le_refl _
  | cons b s ih => exact Nat.le_trans (by omega) (ih (10 * x + (b.toNat - 0x30)))

theorem readDigits_eq (hs : ∀ b ∈ s, isDigit b = true) (x : ℕ)
    (hlt : s.foldl (fun n b => 10 * n + (b.toNat - 0x30)) x < 2 ^ 63 - 8) :
    TJ.readDigits x s = some (s.foldl (fun n b => 10 * n + (b.toNat - 0x30)) x) := by
  induction s generalizing x with
  | nil => rfl
  | cons b s ih =>
    have hle := le_foldl_digits s (10 * x + (b.toNat - 0x30))
    rw [foldl_cons] at hlt
    rw [TJ.readDigits, if_pos (hs b (by simp)), if_neg (by omega), foldl_cons]
    exact ih (fun c hc => hs c (mem_cons_of_mem _ hc)) _ hlt

/-- A number that was printed is read back. -/
theorem int_decimalInt {n : Int} (h : Readable n) : TJ.int (decimalInt n) = some n := by
  obtain ⟨hlo, hhi⟩ := h
  have hread : ∀ m : ℕ, m < 2 ^ 63 - 8 → TJ.readDigits 0 (decimal m) = some m := by
    intro m hm
    have hvalue := digitsValue_decimal m
    unfold digitsValue at hvalue
    rw [readDigits_eq (fun b hb => isDigit_of_mem_decimal hb) 0 (by rw [hvalue]; exact hm), hvalue]
  have hdecimal : ∀ m : ℕ, ∃ b s, decimal m = b :: s ∧ isDigit b = true := by
    intro m
    obtain ⟨b, s, hbs⟩ := exists_cons_of_ne_nil (decimal_ne_nil m)
    exact ⟨b, s, hbs, isDigit_of_mem_decimal (n := m) (by simp [hbs])⟩
  have hdigit : ∀ b, isDigit b = true → TJ.isWs b = false ∧ b ≠ 0x2d := forall_byte (by decide +kernel)
  cases n with
  | ofNat m =>
    obtain ⟨b, s, hbs, hb⟩ := hdecimal m
    have hr := hread m (by simp only [Int.ofNat_eq_natCast] at hhi; omega)
    obtain ⟨hws, hminus⟩ := hdigit b hb
    have hsign : scanMinus (TJ.ws (decimal m)) = (false, decimal m) := by
      rw [hbs, TJ.ws_cons_of_not hws]
      exact scanMinus_of_head fun c hc => by cases hc; exact hminus
    simp only [decimalInt, TJ.int, hsign]
    rw [hbs] at hr ⊢
    simp [hb, hr]
  | negSucc m =>
    obtain ⟨b, s, hbs, hb⟩ := hdecimal (m + 1)
    have hr := hread (m + 1) (by omega)
    have hsign : scanMinus (TJ.ws (0x2d :: decimal (m + 1))) = (true, decimal (m + 1)) := by
      rw [TJ.ws_cons_of_not (by decide)]
      rfl
    simp only [decimalInt, TJ.int, hsign]
    rw [hbs] at hr ⊢
    simp [hb, hr]
    omega

/-! ## The stored manifest -/

namespace TrustManifest

structure Printable (m : TrustManifest) : Prop where
  tenantID : TJ.PlainText m.tenantID ∧ m.tenantID.length < 64
  endpointID : TJ.PlainText m.endpointID ∧ m.endpointID.length < 64
  profile : TJ.PlainText m.profile ∧ m.profile.length < 24
  caps : ∀ c ∈ m.caps, TJ.PlainText c ∧ c.length < 24
  capCount : m.caps.length ≤ 12
  seq : Readable m.seq
  issuedAt : Readable m.issuedAt
  signerKeyID : TJ.PlainText m.signerKeyID ∧ m.signerKeyID.length < 65
  signature : TJ.PlainText m.signature ∧ m.signature.length < 129

variable {m : TrustManifest}

theorem parse_printable {v : Str} (h : parse v = some m) : m.Printable := by
  have hplain : ∀ {key : Str} {cap : ℕ} {t : Str}, TJ.memberPlain v key cap = some t →
      TJ.PlainText t ∧ t.length < cap := by
    intro key cap t ht
    obtain ⟨span, -, hspan⟩ := Option.bind_eq_some_iff.mp ht
    exact plain_some hspan
  simp only [parse, Option.bind_eq_bind, Option.bind_eq_some_iff] at h
  obtain ⟨version, -, h⟩ := h
  split at h
  · cases h
  simp only [Option.bind_eq_some_iff, Option.some.injEq] at h
  obtain ⟨tenantID, h1, endpointID, h2, profile, h3, signerKeyID, h4, signature, h5, seq, h6, issuedAt,
    h7, caps, ⟨span, -, h8⟩, rfl⟩ := h
  simp only [parseCaps, Option.bind_eq_bind, Option.bind_eq_some_iff] at h8
  obtain ⟨l, hl, h8⟩ := h8
  split at h8
  · rename_i hshort
    cases h8
    obtain ⟨hall, hlen⟩ := plainArray_some hl
    refine ⟨hplain h1, hplain h2, hplain h3, fun c hc => ⟨(hall c hc).1, ?_⟩, hlen,
      memberInt_readable h6, memberInt_readable h7, hplain h4, hplain h5⟩
    have := all_eq_true.mp hshort c hc
    simpa using this
  · cases h8

/-- The members of the printed manifest. -/
def fields (m : TrustManifest) : List (Str × Str) :=
  [(str "v", decimalInt 1), (str "tenant_id", TJ.quoted m.tenantID),
    (str "endpoint_id", TJ.quoted m.endpointID), (str "profile", TJ.quoted m.profile),
    (str "caps", TJ.arrayText m.caps), (str "seq", decimalInt m.seq),
    (str "issued_at", decimalInt m.issuedAt), (str "signer_key_id", TJ.quoted m.signerKeyID),
    (str "signature", TJ.quoted m.signature)]

theorem json_eq (m : TrustManifest) : m.json = 0x7b :: (TJ.membersText m.fields ++ 0x7d :: [0x0a]) := by
  have h1 : str "\x7b\"v\":1,\"tenant_id\":" = 0x7b :: (TJ.quoted (str "v") ++ 0x3a :: (decimalInt 1 ++
      0x2c :: (TJ.quoted (str "tenant_id") ++ [0x3a]))) := by decide
  have h2 : str ",\"endpoint_id\":" = 0x2c :: (TJ.quoted (str "endpoint_id") ++ [0x3a]) := by decide
  have h3 : str ",\"profile\":" = 0x2c :: (TJ.quoted (str "profile") ++ [0x3a]) := by decide
  have h4 : str ",\"caps\":[" = 0x2c :: (TJ.quoted (str "caps") ++ [0x3a, 0x5b]) := by decide
  have h5 : str "],\"seq\":" = 0x5d :: 0x2c :: (TJ.quoted (str "seq") ++ [0x3a]) := by decide
  have h6 : str ",\"issued_at\":" = 0x2c :: (TJ.quoted (str "issued_at") ++ [0x3a]) := by decide
  have h7 : str ",\"signer_key_id\":" = 0x2c :: (TJ.quoted (str "signer_key_id") ++ [0x3a]) := by
    decide
  have h8 : str ",\"signature\":" = 0x2c :: (TJ.quoted (str "signature") ++ [0x3a]) := by decide
  have h9 : str "\x7d\n" = [0x7d, 0x0a] := by decide
  simp only [json, h1, h2, h3, h4, h5, h6, h7, h8, h9, fields, TJ.membersText, TJ.arrayText,
    TJ.quotedList, append_assoc, cons_append, nil_append]

theorem goodKeys_fields (m : TrustManifest) : TJ.GoodKeys m.fields := by
  have hplain : ∀ k ∈ m.fields.map Prod.fst, ∀ b ∈ k, ¬b < 0x20 ∧ b ≠ 0x22 ∧ b ≠ 0x5c := by
    simp only [fields, map_cons, map_nil]
    decide +kernel
  have hdistinct : (m.fields.map Prod.fst).Pairwise fun k l => equalsIgnoreCase l k = false := by
    simp only [fields, map_cons, map_nil]
    decide +kernel
  exact ⟨fun f hf => hplain f.1 (mem_map_of_mem hf), pairwise_map.mp hdistinct⟩

theorem Printable.values (h : m.Printable) : ∀ f ∈ m.fields, TJ.Value f.2 := by
  simp only [fields, forall_mem_cons]
  exact ⟨TJ.Value.decimalInt _, TJ.Value.quoted h.tenantID.1, TJ.Value.quoted h.endpointID.1,
    TJ.Value.quoted h.profile.1, TJ.Value.array fun c hc => (h.caps c hc).1, TJ.Value.decimalInt _,
    TJ.Value.decimalInt _, TJ.Value.quoted h.signerKeyID.1, TJ.Value.quoted h.signature.1,
    fun f hf => absurd hf not_mem_nil⟩

/-- The parser reads a printed manifest back. -/
theorem parse_json (h : m.Printable) : parse m.json = some m := by
  have hmembers : TJ.members m.json = some m.fields := by
    rw [json_eq]
    exact TJ.members_object (cons_ne_nil _ _) (goodKeys_fields m) h.values (Nat.le_of_ble_eq_true rfl) _
  have hfound : ∀ key, TJ.found m.json key = (m.fields.find? fun f => f.1 = key).map Prod.snd := by
    intro key
    simp [TJ.found, TJ.member, hmembers]
  have hcaps : parseCaps (TJ.arrayText m.caps) = some m.caps := by
    have hread : TJ.plainArray maxCaps (TJ.arrayText m.caps) = some m.caps := TJ.plainArray_arrayText
      (fun c hc => ⟨(h.caps c hc).1, Nat.lt_trans (h.caps c hc).2 (by decide)⟩) h.capCount
    simp only [parseCaps, hread, Option.bind_eq_bind, Option.bind_some, ite_eq_left_iff]
    intro hlong
    refine absurd (all_eq_true.mpr fun c hc => ?_) hlong
    simpa using (h.caps c hc).2
  have hversion : TJ.memberInt m.json (str "v") = some 1 := by
    rw [TJ.memberInt, hfound]
    exact int_decimalInt (n := 1) (by unfold Readable; decide)
  have htenant : TJ.memberPlain m.json (str "tenant_id") 64 = some m.tenantID := by
    rw [TJ.memberPlain, hfound]
    exact TJ.plain_quoted h.tenantID.1 h.tenantID.2
  have hendpoint : TJ.memberPlain m.json (str "endpoint_id") 64 = some m.endpointID := by
    rw [TJ.memberPlain, hfound]
    exact TJ.plain_quoted h.endpointID.1 h.endpointID.2
  have hprofile : TJ.memberPlain m.json (str "profile") 24 = some m.profile := by
    rw [TJ.memberPlain, hfound]
    exact TJ.plain_quoted h.profile.1 h.profile.2
  have hsigner : TJ.memberPlain m.json (str "signer_key_id") 65 = some m.signerKeyID := by
    rw [TJ.memberPlain, hfound]
    exact TJ.plain_quoted h.signerKeyID.1 h.signerKeyID.2
  have hsignature : TJ.memberPlain m.json (str "signature") 129 = some m.signature := by
    rw [TJ.memberPlain, hfound]
    exact TJ.plain_quoted h.signature.1 h.signature.2
  have hseq : TJ.memberInt m.json (str "seq") = some m.seq := by
    rw [TJ.memberInt, hfound]
    exact int_decimalInt h.seq
  have hissued : TJ.memberInt m.json (str "issued_at") = some m.issuedAt := by
    rw [TJ.memberInt, hfound]
    exact int_decimalInt h.issuedAt
  have hcapsFound : (TJ.found m.json (str "caps")).bind parseCaps = some m.caps := by
    rw [hfound]
    exact hcaps
  simp [parse, hversion, htenant, hendpoint, hprofile, hsigner, hsignature, hseq, hissued, hcapsFound]

theorem Printable.zero_not_mem (h : m.Printable) : (0 : UInt8) ∉ m.json := by
  have hquoted : ∀ {t : Str}, TJ.PlainText t → (0 : UInt8) ∉ TJ.quoted t := by
    intro t ht
    have ht0 : (0 : UInt8) ∉ t := fun h0 => (ht 0 h0).1 (by decide)
    simp only [TJ.quoted, mem_cons, mem_append, not_mem_nil, or_false, not_or]
    exact ⟨by decide, ht0, by decide⟩
  have hcaps : ∀ l : List Str, (∀ c ∈ l, TJ.PlainText c) → (0 : UInt8) ∉ TJ.quotedList l := by
    intro l hl
    induction l with
    | nil => decide
    | cons a l ih =>
      have hrest := ih fun c hc => hl c (mem_cons_of_mem _ hc)
      cases l with
      | nil =>
        rw [TJ.quotedList_singleton]
        exact hquoted (hl a (by simp))
      | cons b l =>
        rw [TJ.quotedList_cons_cons]
        simp only [mem_append, mem_cons, not_or]
        exact ⟨hquoted (hl a (by simp)), by decide, hrest⟩
  have hlits : ∀ l ∈ [str "\x7b\"v\":1,\"tenant_id\":", str ",\"endpoint_id\":", str ",\"profile\":",
      str ",\"caps\":[", str "],\"seq\":", str ",\"issued_at\":", str ",\"signer_key_id\":",
      str ",\"signature\":", str "\x7d\n"], (0 : UInt8) ∉ l := by decide
  simp only [forall_mem_cons] at hlits
  obtain ⟨h1, h2, h3, h4, h5, h6, h7, h8, h9, -⟩ := hlits
  simp only [json, mem_append, not_or]
  exact ⟨h1, hquoted h.tenantID.1, h2, hquoted h.endpointID.1, h3, hquoted h.profile.1, h4,
    hcaps m.caps fun c hc => (h.caps c hc).1, h5, (plain_decimalInt _).1, h6, (plain_decimalInt _).1,
    h7, hquoted h.signerKeyID.1, h8, hquoted h.signature.1, h9⟩

theorem length_quotedList_le {l : List Str} {n : ℕ} (h : ∀ c ∈ l, c.length < n) :
    (TJ.quotedList l).length ≤ l.length * (n + 2) := by
  induction l with
  | nil => simp [TJ.quotedList, List.intercalate]
  | cons a l ih =>
    have ha := h a (by simp)
    have hrest := ih fun c hc => h c (mem_cons_of_mem _ hc)
    have hquoted : (TJ.quoted a).length = a.length + 2 := by simp [TJ.quoted]
    cases l with
    | nil =>
      rw [TJ.quotedList_singleton, hquoted, length_singleton]
      omega
    | cons b l =>
      rw [TJ.length_quotedList_cons, hquoted, length_cons, Nat.succ_mul]
      omega

theorem Readable.length_decimalInt {n : Int} (h : Readable n) : (decimalInt n).length ≤ 20 := by
  unfold Readable at h
  exact length_decimalInt_le (e := 19) (by decide) (by omega)

theorem Printable.length_json (h : m.Printable) : m.json.length < 2047 := by
  have hquoted : ∀ t : Str, (TJ.quoted t).length = t.length + 2 := fun t => by simp [TJ.quoted]
  have hcaps := length_quotedList_le fun c hc => (h.caps c hc).2
  have hcount := h.capCount
  have hseq := Readable.length_decimalInt h.seq
  have hissued := Readable.length_decimalInt h.issuedAt
  have h1 := h.tenantID.2
  have h2 := h.endpointID.2
  have h3 := h.profile.2
  have h4 := h.signerKeyID.2
  have h5 := h.signature.2
  have l1 : (str "\x7b\"v\":1,\"tenant_id\":").length = 19 := by decide
  have l2 : (str ",\"endpoint_id\":").length = 15 := by decide
  have l3 : (str ",\"profile\":").length = 11 := by decide
  have l4 : (str ",\"caps\":[").length = 9 := by decide
  have l5 : (str "],\"seq\":").length = 8 := by decide
  have l6 : (str ",\"issued_at\":").length = 13 := by decide
  have l7 : (str ",\"signer_key_id\":").length = 17 := by decide
  have l8 : (str ",\"signature\":").length = 13 := by decide
  have l9 : (str "\x7d\n").length = 2 := by decide
  have hlist : ([0x2c].intercalate (m.caps.map TJ.quoted)).length = (TJ.quotedList m.caps).length := rfl
  simp only [json, length_append, hquoted, hlist, l1, l2, l3, l4, l5, l6, l7, l8, l9, ← Nat.add_assoc]
  omega

end TrustManifest

theorem storedManifest_json {m : TrustManifest} (h : m.Printable) : storedManifest (some m.json) = some m := by
  have hne : m.json ≠ [] := by
    rw [m.json_eq]
    exact cons_ne_nil _ _
  rw [storedManifest, readSmall_eq hne h.length_json h.zero_not_mem, Option.bind_some,
    TrustManifest.parse_json h]

/-! ## The floors -/

/-- A floor that was written is read back. -/
structure TrustFloor.Printable (f : TrustFloor) : Prop where
  key : f.key.length = 32
  seq : 0 < f.seq
  bounded : f.seq < 2 ^ 63

theorem isHexDigit_hexEncode {b : UInt8} (h : b ∈ hexEncode s) : isHexDigit b = true :=
  forall_mem_hexEncode (P := fun b => isHexDigit b = true) (by decide) s b h

theorem isHex64_hexEncode {key : Str} (h : key.length = 32) : isHex64 (hexEncode key) = true := by
  simp only [isHex64, Bool.and_eq_true, decide_eq_true_eq, all_eq_true]
  exact ⟨by rw [length_hexEncode, h], fun b hb => isHexDigit_hexEncode hb⟩

theorem hexKey_hexEncode {key : Str} (h : key.length = 32) : hexKey (hexEncode key) = some key := by
  rw [hexKey_eq (isHex64_hexEncode h), hexDecode_hexEncode]

variable {f : TrustFloor}

theorem TrustFloor.Printable.length_line (h : f.Printable) : (floorLine f).length ≤ 86 := by
  have hseq : (decimalInt f.seq).length ≤ 20 := by
    obtain ⟨n, hn⟩ := Int.eq_ofNat_of_zero_le (Int.le_of_lt h.seq)
    have hbound := h.bounded
    rw [hn]
    exact Nat.le_trans (decimal_length_le (e := 19) (by decide) (by omega)) (by decide)
  have hblank : (str " ").length = 1 := by decide
  have hend : (str "\n").length = 1 := by decide
  rw [floorLine, length_append, length_append, length_append, length_hexEncode, h.key,
    hblank, hend]
  omega

theorem TrustFloor.Printable.zero_not_mem (h : f.Printable) : (0 : UInt8) ∉ floorLine f := by
  simp only [floorLine, mem_append, not_or]
  exact ⟨(plain_of_isHex64 (isHex64_hexEncode h.key)).1, by decide, (plain_decimalInt _).1, by decide⟩

/-- One line of manifest.floor. -/
theorem loadFloors_line (h : f.Printable) {acc : List TrustFloor} (hroom : acc.length < maxMfloor) (fuel : ℕ)
    (r : Str) : loadFloors (fuel + 1) acc (floorLine f ++ r) = loadFloors fuel (acc ++ [f]) r := by
  have hhex := isHex64_hexEncode h.key
  have hplain := plain_of_isHex64 hhex
  have hlen : (hexEncode f.key).length = 64 := by rw [length_hexEncode, h.key]
  have hne : hexEncode f.key ≠ [] := fun hnil => by rw [hnil] at hlen; cases hlen
  have hbound := h.bounded
  have hpos := h.seq
  have htext : floorLine f ++ r = hexEncode f.key ++ 0x20 :: (decimalInt f.seq ++ 0x0a :: r) := by
    have hblank : str " " = [0x20] := by decide
    have hend : str "\n" = [0x0a] := by decide
    simp [floorLine, hblank, hend]
  have hword : scanWord 79 (floorLine f ++ r) =
      some (hexEncode f.key, 0x20 :: (decimalInt f.seq ++ 0x0a :: r)) := by
    rw [htext]
    refine scanWord_append hne (by omega) (fun b hb => ?_) (by simp [isSpace])
    exact (isHexDigit_not_space b (isHexDigit_hexEncode hb)).1
  have hseq : scanInt (0x20 :: (decimalInt f.seq ++ 0x0a :: r)) = some (f.seq, 0x0a :: r) := by
    have hskip : skipSpaces (0x20 :: (decimalInt f.seq ++ 0x0a :: r)) =
        skipSpaces (decimalInt f.seq ++ 0x0a :: r) := dropWhile_cons_of_pos (by decide)
    have hread := scanInt_decimalInt (n := f.seq) (r := 0x0a :: r) (by omega) hbound (by simp [isDigit])
    unfold scanInt at hread ⊢
    rw [hskip]
    exact hread
  have hdrop : (floorLine f ++ r).dropWhile (· != 0x0a) = 0x0a :: r := by
    rw [htext, dropWhile_append_of_pos, dropWhile_cons_of_pos (by decide),
      dropWhile_append_of_pos, dropWhile_cons_of_neg (by decide)]
    · intro b hb
      simp only [bne_iff_ne]
      exact fun heq => (plain_decimalInt f.seq).2 (heq ▸ hb)
    · intro b hb
      simp only [bne_iff_ne]
      exact fun heq => hplain.2 (heq ▸ hb)
  have hstart : ¬(floorLine f ++ r = [] ∨ maxMfloor ≤ acc.length) := by
    rintro (hnil | hfull)
    · rw [htext] at hnil
      exact hne (append_eq_nil_iff.mp hnil).1
    · omega
  rw [loadFloors, if_neg hstart]
  simp only [hword, hseq, hexKey_hexEncode h.key, Option.bind_eq_bind, Option.bind_some, if_pos hpos,
    hdrop, Option.toList_some]

variable {l : List TrustFloor}

theorem loadFloors_floorsText {acc : List TrustFloor} (hl : ∀ f ∈ l, f.Printable)
    (hroom : acc.length + l.length ≤ maxMfloor) {fuel : ℕ} (hfuel : l.length < fuel) :
    loadFloors fuel acc (floorsText l) = acc ++ l := by
  induction l generalizing acc fuel with
  | nil =>
    obtain ⟨fuel, rfl⟩ : ∃ n, fuel = n + 1 := ⟨fuel - 1, by omega⟩
    have hnil : floorsText [] = [] := rfl
    rw [hnil, loadFloors, if_pos (.inl rfl), append_nil]
  | cons f l ih =>
    rw [length_cons] at hroom hfuel
    obtain ⟨fuel, rfl⟩ : ∃ n, fuel = n + 1 := ⟨fuel - 1, by omega⟩
    have htext : floorsText (f :: l) = floorLine f ++ floorsText l := rfl
    rw [htext, loadFloors_line (hl f (by simp)) (by omega),
      ih (fun g hg => hl g (mem_cons_of_mem _ hg)) (by simp; omega) (by omega), append_assoc]
    rfl

theorem length_floorsText (hl : ∀ f ∈ l, f.Printable) :
    l.length ≤ (floorsText l).length ∧ (floorsText l).length ≤ 86 * l.length := by
  induction l with
  | nil => exact ⟨Nat.le_refl _, Nat.le_refl _⟩
  | cons f l ih =>
    obtain ⟨hlo, hhi⟩ := ih fun g hg => hl g (mem_cons_of_mem _ hg)
    have hf := (hl f (by simp)).length_line
    have hpos : 0 < (floorLine f).length := by
      rw [floorLine, length_append, length_hexEncode, (hl f (by simp)).key]
      omega
    have htext : (floorsText (f :: l)).length = (floorLine f).length + (floorsText l).length :=
      length_append
    rw [htext, length_cons]
    omega

/-- Floors that were written are read back. -/
theorem floorsOf_floorsText (hl : ∀ f ∈ l, f.Printable) (hlen : l.length ≤ maxMfloor) :
    floorsOf (some (floorsText l)) = l := by
  obtain ⟨hlo, hhi⟩ := length_floorsText hl
  have hread : (readSmall 2048 (some (floorsText l))).getD [] = floorsText l := by
    cases l with
    | nil => rfl
    | cons f l =>
      have hzero : (0 : UInt8) ∉ floorsText (f :: l) := by
        intro h0
        obtain ⟨g, hg, h0⟩ := mem_flatMap.mp h0
        exact (hl g hg).zero_not_mem h0
      unfold maxMfloor at hlen
      rw [readSmall_eq _ _ hzero]
      · rfl
      · intro hnil
        rw [hnil] at hlo
        cases hlo
      · omega
  unfold floorsOf
  rw [hread]
  exact loadFloors_floorsText hl (by simpa using hlen) (by omega)

end Ominull.Agent
