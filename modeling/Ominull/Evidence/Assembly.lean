import Ominull.Evidence.Store
import Ominull.Lib.Spans

/-!
Assembling an item from chunks: the rows of its chunks, the file their bytes are written to, and the
chunks that were accepted.
-/

namespace Ominull.Evidence

open Lib List

/-! ## Bytes at an offset -/

section WriteAt

variable (file : Str) (offset : ℕ) (data : Str)

theorem getElem?_writeAt (i : ℕ) : (writeAt file offset data)[i]? =
    if i < offset then (if i < file.length then file[i]? else some 0)
    else if i < offset + data.length then data[i - offset]? else file[i]? := by
  unfold writeAt
  have hlen : ((file ++ List.replicate (offset - file.length) 0).take offset).length = offset := by
    simp only [length_take, length_append, length_replicate]
    omega
  rw [append_assoc, getElem?_append, hlen]
  split
  · rename_i hi
    rw [getElem?_take, if_pos hi, getElem?_append]
    split
    · rfl
    · rw [getElem?_replicate, if_pos (by omega)]
  · rw [getElem?_append]
    split
    · rw [if_pos (by omega)]
    · rw [if_neg (by omega), getElem?_drop]
      congr 1
      omega

/-- A file only grows, and reaches the end of what is written. -/
theorem le_length_writeAt : file.length ≤ (writeAt file offset data).length ∧
    offset + data.length ≤ (writeAt file offset data).length := by
  simp only [writeAt, length_append, length_take, length_replicate, length_drop]
  omega

theorem of_writeAt : Span.of ⟨offset, data.length⟩ (writeAt file offset data) = data := by
  apply ext_getElem?
  intro i
  simp only [Span.of, getElem?_take, getElem?_drop, getElem?_writeAt]
  by_cases hi : i < data.length
  · rw [if_pos hi, if_neg (by omega), if_pos (by omega)]
    congr 1
    omega
  · rw [if_neg hi, getElem?_eq_none (by omega)]

variable {file offset data}

theorem of_writeAt_apart {s : Span} (h : s.Apart ⟨offset, data.length⟩)
    (hs : s.start + s.length ≤ file.length) : s.of (writeAt file offset data) = s.of file := by
  apply ext_getElem?
  intro i
  simp only [Span.of, getElem?_take, getElem?_drop, getElem?_writeAt]
  split
  · rcases h with h | h
    · dsimp only at h
      rw [if_pos (by omega), if_pos (by omega)]
    · dsimp only at h
      rw [if_neg (by omega), if_neg (by omega)]
  · rfl

end WriteAt

/-! ## Chunks -/

/-- The bytes of a chunk that was accepted, and where they go. -/
structure Accepted where
  offset : ℕ
  data : Str
  deriving DecidableEq

def Accepted.span (a : Accepted) : Span := ⟨a.offset, a.data.length⟩

def EvidenceChunk.span (c : EvidenceChunk) : Span := ⟨c.offset.toNat, c.length.toNat⟩

/-- Chunks fill a size without gap or overlap; a chunk may have been sent again. -/
structure Tiles (size : Int) (accepted : List Accepted) : Prop where
  within : ∀ a ∈ accepted, (a.offset + a.data.length : Int) ≤ size
  apart : ∀ a ∈ accepted, ∀ b ∈ accepted, a = b ∨ a.span.Apart b.span
  covers : ∀ p : ℕ, (p : Int) < size → ∃ a ∈ accepted, a.span.Has p

/-- The rows of an item's chunks: apart from each other, within the size, with the digests of what
the file has at their place; every accepted chunk has its row. -/
structure Assembling (C : Crypto) (size : Int) (rows : List EvidenceChunk) (file : Str)
    (accepted : List Accepted) : Prop where
  offset : ∀ c ∈ rows, 0 ≤ c.offset ∧ 0 < c.length
  within : ∀ c ∈ rows, c.offset + c.length ≤ size
  inFile : ∀ c ∈ rows, c.span.start + c.span.length ≤ file.length
  digest : ∀ c ∈ rows, computeDigest C (c.span.of file) = c.sha256
  apart : rows.Pairwise fun c c' => c.span.Apart c'.span
  accepted : ∀ a ∈ accepted, ∃ c ∈ rows, c.span = a.span ∧ c.span.of file = a.data

def rowBytes : List EvidenceChunk → Int
  | [] => 0
  | c :: rows => c.length + rowBytes rows

/-- Some of the rows are counted, all of them accepted chunks; only when all bytes are there has the
last of them perhaps not been. -/
structure Progress (C : Crypto) (size received : Int) (rows : List EvidenceChunk) (file : Str)
    (accepted : List Accepted) : Prop where
  assembling : Assembling C size rows file accepted
  counted : ∃ K : List EvidenceChunk, K.Sublist rows ∧ received = rowBytes K ∧
    (received = size ∨ ∀ c ∈ K, ∃ a ∈ accepted, a.span = c.span)

section Assembling

variable {C : Crypto} {size received : Int} {rows : List EvidenceChunk} {file : Str}
  {accepted : List Accepted} {a : Accepted} {c : EvidenceChunk}

theorem Assembling.write (h : Assembling C size rows file accepted) (hapart : ∀ c ∈ rows, c.span.Apart a.span) :
    Assembling C size rows (writeAt file a.offset a.data) accepted := by
  have hof : ∀ c ∈ rows, c.span.of (writeAt file a.offset a.data) = c.span.of file :=
    fun c hc => of_writeAt_apart (hapart c hc) (h.inFile c hc)
  refine { h with inFile := ?_, digest := ?_, accepted := ?_ }
  · exact fun c hc => (h.inFile c hc).trans (le_length_writeAt file a.offset a.data).1
  · intro c hc
    rw [hof c hc]
    exact h.digest c hc
  · intro x hx
    obtain ⟨c, hc, hspan, hdata⟩ := h.accepted x hx
    exact ⟨c, hc, hspan, (hof c hc).trans hdata⟩

theorem Assembling.insert (h : Assembling C size rows file accepted) (hoffset : 0 ≤ c.offset ∧ 0 < c.length)
    (hwithin : c.offset + c.length ≤ size) (hfile : c.span.start + c.span.length ≤ file.length)
    (hdigest : computeDigest C (c.span.of file) = c.sha256) (hapart : ∀ x ∈ rows, x.span.Apart c.span) :
    Assembling C size (rows ++ [c]) file accepted := by
  have hall : ∀ {p : EvidenceChunk → Prop}, (∀ x ∈ rows, p x) → p c → ∀ x ∈ rows ++ [c], p x :=
    fun hrows hc => forall_mem_append.mpr ⟨hrows, forall_mem_singleton.mpr hc⟩
  refine ⟨hall h.offset hoffset, hall h.within hwithin, hall h.inFile hfile, hall h.digest hdigest, ?_, ?_⟩
  · refine pairwise_append.mpr ⟨h.apart, pairwise_singleton _ _, ?_⟩
    intro x hx y hy
    exact mem_singleton.mp hy ▸ hapart x hx
  · intro x hx
    obtain ⟨c', hc', hspan, hdata⟩ := h.accepted x hx
    exact ⟨c', mem_append_left _ hc', hspan, hdata⟩

theorem Assembling.accept (h : Assembling C size rows file accepted) (hc : c ∈ rows) (hspan : c.span = a.span)
    (hdata : c.span.of file = a.data) : Assembling C size rows file (accepted ++ [a]) := by
  refine { h with accepted := forall_mem_append.mpr ⟨h.accepted, ?_⟩ }
  exact forall_mem_singleton.mpr ⟨c, hc, hspan, hdata⟩

theorem rowBytes_eq {K : List EvidenceChunk} (hK : ∀ c ∈ K, 0 < c.length) :
    rowBytes K = (Span.size (K.map (·.span)) : ℕ) := by
  induction K with
  | nil => rfl
  | cons c K ih =>
    have hc := hK c mem_cons_self
    have hrest := ih fun x hx => hK x (mem_cons_of_mem _ hx)
    rw [rowBytes, hrest, map_cons, Span.size]
    show _ = ((c.length.toNat + _ : ℕ) : Int)
    omega

theorem rowBytes_append (K : List EvidenceChunk) (c : EvidenceChunk) :
    rowBytes (K ++ [c]) = rowBytes K + c.length := by
  induction K with
  | nil => simp [rowBytes]
  | cons x K ih =>
    rw [cons_append, rowBytes, rowBytes, ih]
    omega

section Spans

variable (h : Assembling C size rows file accepted) {K : List EvidenceChunk} (hK : K.Sublist rows)

include h hK

theorem Assembling.spans_apart : (K.map (·.span)).Pairwise Span.Apart :=
  pairwise_map.mpr (h.apart.sublist hK)

theorem Assembling.spans_within : ∀ s ∈ K.map (·.span), s.start + s.length ≤ size.toNat := by
  intro s hs
  obtain ⟨c, hc, rfl⟩ := mem_map.mp hs
  have hoffset := h.offset c (hK.mem hc)
  have hwithin := h.within c (hK.mem hc)
  show c.offset.toNat + c.length.toNat ≤ _
  omega

theorem Assembling.sum_spans : rowBytes K = (Span.size (K.map (·.span)) : ℕ) :=
  rowBytes_eq fun c hc => (h.offset c (hK.mem hc)).2

theorem Assembling.sum_le (hsize : 0 ≤ size) : rowBytes K ≤ size := by
  have hle := Span.size_le (h.spans_apart hK) (h.spans_within hK)
  rw [h.sum_spans hK]
  omega

end Spans

/-- All bytes are there and counted: the accepted chunks are the item. -/
theorem Assembling.tiles (h : Assembling C size rows file accepted) {K : List EvidenceChunk} (hK : K.Sublist rows)
    (hsum : rowBytes K = size) (hall : ∀ c ∈ K, ∃ a ∈ accepted, a.span = c.span) : Tiles size accepted := by
  constructor
  · intro a ha
    obtain ⟨c, hc, hspan, -⟩ := h.accepted a ha
    have hoffset := h.offset c hc
    have hwithin := h.within c hc
    have hstart : c.offset.toNat = a.offset := congrArg Span.start hspan
    have hlength : c.length.toNat = a.data.length := congrArg Span.length hspan
    omega
  · intro a ha b hb
    obtain ⟨c, hc, hspan, hdata⟩ := h.accepted a ha
    obtain ⟨c', hc', hspan', hdata'⟩ := h.accepted b hb
    rw [← hspan, ← hspan']
    by_cases heq : c = c'
    · subst heq
      refine .inl ?_
      have hoffset : a.offset = b.offset := congrArg Span.start (hspan.symm.trans hspan')
      cases a
      cases b
      cases hoffset
      cases hdata
      cases hdata'
      rfl
    · have hsymm : Std.Symm fun c c' : EvidenceChunk => c.span.Apart c'.span :=
        ⟨fun _ _ => Span.Apart.symm⟩
      exact .inr (h.apart.forall hc hc' heq)
  · intro p hp
    have hnat : Span.size (K.map (·.span)) = size.toNat := by
      have hspans := h.sum_spans hK
      omega
    obtain ⟨s, hs, hhas⟩ := Span.covers (h.spans_apart hK) (h.spans_within hK) hnat (p := p) (by omega)
    obtain ⟨c, hc, rfl⟩ := mem_map.mp hs
    obtain ⟨a, ha, hspan⟩ := hall c hc
    exact ⟨a, ha, hspan ▸ hhas⟩

/-! ### Steps of an upload -/

structure RowOf (C : Crypto) (a : Accepted) (c : EvidenceChunk) : Prop where
  offset : c.offset = a.offset
  length : c.length = a.data.length
  sha256 : c.sha256 = computeDigest C a.data

theorem RowOf.span (h : RowOf C a c) : c.span = a.span := by
  unfold EvidenceChunk.span Accepted.span
  rw [h.offset, h.length, Int.toNat_natCast, Int.toNat_natCast]

/-- A chunk that fits: within the size, and apart from the rows. -/
structure Fits (size : Int) (rows : List EvidenceChunk) (a : Accepted) : Prop where
  nonempty : 0 < a.data.length
  within : (a.offset + a.data.length : Int) ≤ size
  apart : ∀ c ∈ rows, c.span.Apart a.span

theorem Progress.write (h : Progress C size received rows file accepted) (hfits : Fits size rows a) :
    Progress C size received rows (writeAt file a.offset a.data) accepted :=
  ⟨h.assembling.write hfits.apart, h.counted⟩

theorem Assembling.add (h : Assembling C size rows file accepted) (hfits : Fits size rows a) (hrow : RowOf C a c) :
    Assembling C size (rows ++ [c]) (writeAt file a.offset a.data) accepted := by
  have hoffset := hrow.offset
  have hlength := hrow.length
  have hpos := hfits.nonempty
  have hwithin := hfits.within
  refine (h.write hfits.apart).insert ⟨by omega, by omega⟩ (by omega) ?_ ?_ ?_
  · rw [hrow.span]
    exact (le_length_writeAt file a.offset a.data).2
  · rw [hrow.span, hrow.sha256]
    exact congrArg _ (of_writeAt file a.offset a.data)
  · rw [hrow.span]
    exact hfits.apart

theorem Progress.add (h : Progress C size received rows file accepted) (hfits : Fits size rows a)
    (hrow : RowOf C a c) :
    Progress C size received (rows ++ [c]) (writeAt file a.offset a.data) accepted := by
  obtain ⟨K, hK, hsum, hall⟩ := h.counted
  exact ⟨h.assembling.add hfits hrow, K, hK.trans (sublist_append_left rows [c]), hsum, hall⟩

/-- The new row is counted and its chunk accepted: not all bytes were there before, so all that was
counted had been accepted. -/
theorem Progress.count (h : Progress C size received rows file accepted) (hfits : Fits size rows a)
    (hrow : RowOf C a c) : received + a.data.length ≤ size ∧
      Assembling C size (rows ++ [c]) (writeAt file a.offset a.data) (accepted ++ [a]) ∧
      ∃ K : List EvidenceChunk, K.Sublist (rows ++ [c]) ∧ received + a.data.length = rowBytes K ∧
        ∀ c ∈ K, ∃ x ∈ accepted ++ [a], x.span = c.span := by
  obtain ⟨K, hK, hsum, hall⟩ := h.counted
  have hadd := h.assembling.add hfits hrow
  have hpos := hfits.nonempty
  have hwithin := hfits.within
  have hK' : (K ++ [c]).Sublist (rows ++ [c]) := hK.append (List.Sublist.refl [c])
  have hsum' : received + a.data.length = rowBytes (K ++ [c]) := by
    rw [hsum, rowBytes_append, hrow.length]
  have hle : received + a.data.length ≤ size := by
    rw [hsum']
    exact hadd.sum_le hK' (by omega)
  refine ⟨hle, hadd.accept (mem_append_right _ mem_cons_self) hrow.span ?_, K ++ [c], hK', hsum', ?_⟩
  · rw [hrow.span]
    exact of_writeAt file a.offset a.data
  · have hbefore := hall.resolve_left (by omega)
    intro x hx
    rcases mem_append.mp hx with hx | hx
    · obtain ⟨y, hy, hspan⟩ := hbefore x hx
      exact ⟨y, mem_append_left _ hy, hspan⟩
    · rw [mem_singleton.mp hx]
      exact ⟨a, mem_append_right _ mem_cons_self, hrow.span.symm⟩

theorem Progress.received_nonneg (h : Progress C size received rows file accepted) : 0 ≤ received := by
  obtain ⟨K, hK, hsum, -⟩ := h.counted
  rw [hsum, h.assembling.sum_spans hK]
  omega

theorem Assembling.placed (h : Assembling C size rows file accepted) : ∀ a ∈ accepted, a.span.of file = a.data := by
  intro a ha
  obtain ⟨c, -, hspan, hdata⟩ := h.accepted a ha
  rw [← hspan]
  exact hdata

theorem Progress.retry (h : Progress C size received rows file accepted) (hc : c ∈ rows) (hspan : c.span = a.span)
    (hdata : c.span.of file = a.data) : Progress C size received rows file (accepted ++ [a]) := by
  obtain ⟨K, hK, hsum, hall⟩ := h.counted
  refine ⟨h.assembling.accept hc hspan hdata, K, hK, hsum, hall.imp_right fun hall c hc => ?_⟩
  obtain ⟨y, hy, hspan⟩ := hall c hc
  exact ⟨y, mem_append_left _ hy, hspan⟩

end Assembling

end Ominull.Evidence
