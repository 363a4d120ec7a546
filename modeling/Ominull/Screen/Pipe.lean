import Mathlib
import Ominull.Lib.Text

/-!
The frames on the pipe between the helper and the agent: a kind, a length and a payload. A read of the pipe may
be interrupted and may give less than was asked for.
-/

namespace Ominull.Screen.Pipe

open List

inductive FrameKind where
  | text
  | binary
  | service
  deriving DecidableEq

def FrameKind.toByte : FrameKind → UInt8
  | .text => 0
  | .binary => 1
  | .service => 2

def FrameKind.fromByte (b : UInt8) : Option FrameKind :=
  if b = 0 then some .text else if b = 1 then some .binary else if b = 2 then some .service else none

def maxPayload : ℕ := 1024 * 1024

abbrev Frame := FrameKind × Str

/-- What is still to come, and how the next reads go: `none` is interrupted, `some k` gives at most `k + 1`
bytes. Behind them a read gives all it is asked for. -/
structure Reader where
  data : Str
  reads : List (Option ℕ)

/-- The loop of `read_exact` and `read_exact_or_eof`: reads into `buf` until there are `len` bytes or a read gives
none. -/
def fill (len : ℕ) (data buf : Str) : List (Option ℕ) → Str × Reader
  | [] => (buf ++ data.take (len - buf.length), ⟨data.drop (len - buf.length), []⟩)
  | none :: reads => if len ≤ buf.length then (buf, ⟨data, none :: reads⟩) else fill len data buf reads
  | some k :: reads =>
    if len ≤ buf.length then (buf, ⟨data, some k :: reads⟩)
    else
      let n := min (len - buf.length) (k + 1)
      if data.take n = [] then (buf, ⟨data, reads⟩) else fill len (data.drop n) (buf ++ data.take n) reads

inductive FrameError where
  | truncatedHeader
  | badKind
  | overCap
  | unexpectedEof

def leBytes (n : ℕ) : Str :=
  [UInt8.ofNat n, UInt8.ofNat (n / 2 ^ 8), UInt8.ofNat (n / 2 ^ 16), UInt8.ofNat (n / 2 ^ 24)]

def fromLeBytes (hdr : Str) : ℕ :=
  (hdr.getD 1 0).toNat + (hdr.getD 2 0).toNat * 2 ^ 8 + (hdr.getD 3 0).toNat * 2 ^ 16 +
    (hdr.getD 4 0).toNat * 2 ^ 24

def readFrame (r : Reader) : Except FrameError (Option Frame) × Reader :=
  let (hdr, r) := fill 5 r.data [] r.reads
  if hdr.length < 5 then (if hdr = [] then .ok none else .error .truncatedHeader, r)
  else
    match FrameKind.fromByte (hdr.getD 0 0) with
    | none => (.error .badKind, r)
    | some kind =>
      let len := fromLeBytes hdr
      if maxPayload < len then (.error .overCap, r)
      else
        let (buf, r) := fill len r.data [] r.reads
        (if buf.length < len then .error .unexpectedEof else .ok (some (kind, buf)), r)

def header (f : Frame) : Str := f.1.toByte :: leBytes f.2.length

def writeFrame (f : Frame) : Option Str := if maxPayload < f.2.length then none else some (header f ++ f.2)

def writeFrames : List Frame → Option Str
  | [] => some []
  | f :: fs => do
    let s ← writeFrame f
    let t ← writeFrames fs
    some (s ++ t)

/-- The bytes of a frame. -/
def frameLength (f : Frame) : ℕ := 5 + f.2.length

/-- What so many calls of `read_frame` give, and how the last one ended. -/
def readFrames : ℕ → Reader → List Frame × Option (Except FrameError Unit)
  | 0, _ => ([], none)
  | calls + 1, r =>
    match (readFrame r).1 with
    | .error e => ([], some (.error e))
    | .ok none => ([], some (.ok ()))
    | .ok (some f) => ((readFrames calls (readFrame r).2).map (f :: ·) id)

/-- However the reads go, the buffer is filled as far as there is data. -/
theorem fill_eq (len : ℕ) (data buf : Str) (reads : List (Option ℕ)) : ∃ reads',
    fill len data buf reads = (buf ++ data.take (len - buf.length), ⟨data.drop (len - buf.length), reads'⟩) := by
  induction reads generalizing data buf with
  | nil => exact ⟨[], rfl⟩
  | cons step reads ih =>
    by_cases hfull : len ≤ buf.length
    · refine ⟨step :: reads, ?_⟩
      rw [Nat.sub_eq_zero_of_le hfull, take_zero, append_nil, drop_zero]
      cases step <;> exact if_pos hfull
    cases step with
    | none =>
      rw [fill, if_neg hfull]
      exact ih data buf
    | some k =>
      rw [fill, if_neg hfull]
      dsimp only
      split_ifs with hend
      · rcases take_eq_nil_iff.mp hend with h | rfl
        · omega
        · exact ⟨reads, by simp⟩
      · have hshort : (data.take (min (len - buf.length) (k + 1))).length ≤ len - buf.length := by
          rw [length_take]
          omega
        have hsplit := take_append_drop (min (len - buf.length) (k + 1)) data
        generalize data.take _ = u at *
        generalize data.drop _ = v at *
        obtain ⟨reads', h⟩ := ih v (buf ++ u)
        refine ⟨reads', ?_⟩
        rw [h, ← hsplit, take_append, take_of_length_le hshort, drop_append, drop_eq_nil_of_le hshort,
          length_append, Nat.sub_add_eq, append_assoc, nil_append]

theorem fromByte_toByte (kind : FrameKind) : FrameKind.fromByte kind.toByte = some kind := by
  cases kind <;> rfl

theorem fromLeBytes_cons (b : UInt8) {n : ℕ} (h : n ≤ maxPayload) : fromLeBytes (b :: leBytes n) = n := by
  simp only [fromLeBytes, leBytes, getD_cons_succ, getD_cons_zero, UInt8.toNat_ofNat']
  unfold maxPayload at h
  omega

theorem readFrame_nil (reads : List (Option ℕ)) : (readFrame ⟨[], reads⟩).1 = .ok none := by
  obtain ⟨reads', h⟩ := fill_eq 5 [] [] reads
  simp [readFrame, h]

variable {f : Frame} {s : Str} {cut : ℕ}

theorem writeFrame_eq (h : writeFrame f = some s) : f.2.length ≤ maxPayload ∧ s = header f ++ f.2 := by
  unfold writeFrame at h
  split_ifs at h with hcap
  exact ⟨Nat.not_lt.mp hcap, (Option.some.inj h).symm⟩

/-- With the whole header there, the payload is what counts. -/
theorem readFrame_header (hcap : f.2.length ≤ maxPayload) (data : Str) (reads : List (Option ℕ)) : ∃ reads',
    readFrame ⟨header f ++ data, reads⟩ =
      (if data.length < f.2.length then .error .unexpectedEof else .ok (some (f.1, data.take f.2.length)),
        ⟨data.drop f.2.length, reads'⟩) := by
  obtain ⟨reads', hhdr⟩ := fill_eq 5 (header f ++ data) [] reads
  obtain ⟨reads'', hbody⟩ := fill_eq f.2.length data [] reads'
  have htake : (header f ++ data).take 5 = header f := take_left' rfl
  have hdrop : (header f ++ data).drop 5 = data := drop_left' rfl
  have hlen : fromLeBytes (header f) = f.2.length := fromLeBytes_cons _ hcap
  refine ⟨reads'', ?_⟩
  simp only [readFrame, hhdr, length_nil, Nat.sub_zero, nil_append, htake, hdrop, hlen, hbody]
  rw [if_neg (by simp [header, leBytes]), header, getD_cons_zero, fromByte_toByte]
  simp only [if_neg (Nat.not_lt.mpr hcap), length_take]
  split_ifs <;> first | rfl | omega

/-- A stream that ends within a frame. -/
theorem readFrame_part (hf : writeFrame f = some s) (hpos : 0 < cut) (hcut : cut < s.length)
    (reads : List (Option ℕ)) : ∃ e, (readFrame ⟨s.take cut, reads⟩).1 = .error e := by
  obtain ⟨hcap, rfl⟩ := writeFrame_eq hf
  have hlen : (header f).length = 5 := rfl
  rw [length_append, hlen] at hcut
  by_cases hhdr : cut < 5
  · obtain ⟨reads', h⟩ := fill_eq 5 ((header f ++ f.2).take cut) [] reads
    refine ⟨.truncatedHeader, ?_⟩
    simp only [readFrame, h, length_nil, Nat.sub_zero, nil_append, take_take, length_take]
    rw [if_pos (by omega), if_neg (by simp [header]; omega)]
  · obtain ⟨reads', h⟩ := readFrame_header hcap (f.2.take (cut - 5)) reads
    refine ⟨.unexpectedEof, ?_⟩
    rw [take_append, take_of_length_le (by omega), hlen]
    exact (congrArg Prod.fst h).trans (if_pos (by rw [length_take]; omega))

/-- However the reads are split and wherever the written stream ends: the frames that are wholly there are read in
order, and behind them is a clean end exactly when the stream ends behind a frame. -/
theorem frames_read {frames : List Frame} {stream : Str} (h : writeFrames frames = some stream) {calls : ℕ}
    (hcalls : frames.length < calls) (reads : List (Option ℕ)) (cut : ℕ) :
    ∃ n e, readFrames calls ⟨stream.take cut, reads⟩ = (frames.take n, some e) ∧
      ((frames.take n).map frameLength).sum ≤ cut ∧
      (∀ f, frames[n]? = some f → cut < ((frames.take n).map frameLength).sum + frameLength f) ∧
      (e = .ok () ↔ n = frames.length ∨ cut = ((frames.take n).map frameLength).sum) := by
  induction frames generalizing stream calls reads cut with
  | nil =>
    cases h
    cases calls with
    | zero => cases hcalls
    | succ calls => exact ⟨0, .ok (), by simp [readFrames, readFrame_nil], by simp⟩
  | cons f fs ih =>
    cases calls with
    | zero => cases hcalls
    | succ calls =>
      obtain ⟨s, hs, t, ht, hst⟩ :
          ∃ s, writeFrame f = some s ∧ ∃ t, writeFrames fs = some t ∧ s ++ t = stream := by
        simpa [writeFrames, Option.bind_eq_some_iff] using h
      obtain ⟨hcap, hbytes⟩ := writeFrame_eq hs
      have hlen : s.length = frameLength f := by
        rw [hbytes, length_append]
        rfl
      subst hst
      by_cases hpart : cut < s.length
      · rw [take_append_of_le_length (Nat.le_of_lt hpart)]
        rcases Nat.eq_zero_or_pos cut with rfl | hpos
        · exact ⟨0, .ok (), by simp [readFrames, readFrame_nil], by simp, by simp; omega, by simp⟩
        · obtain ⟨e, he⟩ := readFrame_part hs hpos hpart reads
          refine ⟨0, .error e, by simp [readFrames, he], by simp, ?_, ?_⟩
          · simp [← hlen, hpart]
          · simp [Nat.ne_of_gt hpos]
      · obtain ⟨reads', hread⟩ := readFrame_header hcap (f.2 ++ t.take (cut - s.length)) reads
        rw [if_neg (by simp), take_left, drop_left, ← append_assoc, ← hbytes] at hread
        obtain ⟨n, e, hrest, hle, hnext, hend⟩ := ih ht (Nat.lt_of_succ_lt_succ hcalls) reads' (cut - s.length)
        refine ⟨n + 1, e, ?_, ?_, fun g hg => ?_, ?_⟩
        · rw [take_append, take_of_length_le (Nat.not_lt.mp hpart), readFrames, hread]
          simp [hrest]
        · simp only [take_succ_cons, map_cons, sum_cons]
          omega
        · have := hnext g (by simpa using hg)
          simp only [take_succ_cons, map_cons, sum_cons]
          omega
        · simp only [hend, take_succ_cons, map_cons, sum_cons, length_cons]
          omega

/-- A text frame and an empty one, cut within the header of the second. -/
theorem frames_read_sample : ∃ n e,
    readFrames 3 ⟨[0, 2, 0, 0, 0, 0x68, 0x69, 1, 0, 0], [none, some 1, none, some 0]⟩ =
      ([(.text, str "hi"), (.binary, [])].take n, some e) := by
  obtain ⟨n, e, h, -⟩ := frames_read (show writeFrames [(.text, str "hi"), (.binary, [])] = some _ from rfl)
    (show 2 < 3 by decide) [none, some 1, none, some 0] 10
  exact ⟨n, e, h⟩

theorem header_bytes {kind : FrameKind} : ∀ {hdr : Str}, hdr.length = 5 →
    FrameKind.fromByte (hdr.getD 0 0) = some kind → kind.toByte :: leBytes (fromLeBytes hdr) = hdr
  | [b, b₁, b₂, b₃, b₄], _, hkind => by
    have hb : kind.toByte = b := by
      rw [getD_cons_zero, FrameKind.fromByte] at hkind
      split_ifs at hkind <;> cases hkind <;> exact Eq.symm (by assumption)
    have := b₁.toNat_lt
    have := b₂.toNat_lt
    have := b₃.toNat_lt
    have := b₄.toNat_lt
    simp [hb, leBytes, fromLeBytes, ← UInt8.toNat_inj]
    omega

theorem fill_nil (len : ℕ) (data : Str) (reads : List (Option ℕ)) : ∃ reads',
    fill len data [] reads = (data.take len, ⟨data.drop len, reads'⟩) :=
  fill_eq len data [] reads

/-- A frame is read from no other bytes than those it is written as. -/
theorem data_of_readFrame {r r' : Reader} (h : readFrame r = (.ok (some f), r')) :
    f.2.length ≤ maxPayload ∧ r.data = header f ++ f.2 ++ r'.data := by
  obtain ⟨reads, hhdr⟩ := fill_nil 5 r.data r.reads
  unfold readFrame at h
  rw [hhdr] at h
  dsimp only at h
  split at h
  · split at h <;> cases h
  rename_i hshort
  split at h
  · cases h
  rename_i kind hkind
  have hbytes := header_bytes (by rw [length_take] at hshort ⊢; omega) hkind
  generalize fromLeBytes (r.data.take 5) = n at h hbytes
  obtain ⟨reads', hbody⟩ := fill_nil n (r.data.drop 5) reads
  rw [hbody] at h
  dsimp only at h
  by_cases hcap : maxPayload < n
  · rw [if_pos hcap] at h
    cases h
  rw [if_neg hcap] at h
  split at h
  · cases h
  rename_i hpart
  cases h
  have hn : ((r.data.drop 5).take n).length = n := by
    rw [length_take] at hpart ⊢
    omega
  refine ⟨hn.trans_le (Nat.not_lt.mp hcap), ?_⟩
  rw [header, hn, hbytes, append_assoc, take_append_drop, take_append_drop]

/-- Whatever bytes come, and however they are split: the frames that are read are a written stream with which the
bytes begin. -/
theorem frames_written (calls : ℕ) (r : Reader) :
    ∃ stream, writeFrames (readFrames calls r).1 = some stream ∧ stream <+: r.data := by
  induction calls generalizing r with
  | zero => exact ⟨[], rfl, nil_prefix⟩
  | succ calls ih =>
    rw [readFrames]
    split
    · exact ⟨[], rfl, nil_prefix⟩
    · exact ⟨[], rfl, nil_prefix⟩
    · rename_i f hf
      obtain ⟨t, ht, hbegins⟩ := ih (readFrame r).2
      obtain ⟨hcap, hdata⟩ := data_of_readFrame (Prod.ext hf rfl)
      refine ⟨header f ++ f.2 ++ t, ?_, ?_⟩
      · simp [writeFrames, writeFrame, Nat.not_lt.mpr hcap, ht]
      · rw [hdata]
        exact (prefix_append_right_inj _).mpr hbegins

end Ominull.Screen.Pipe
