import Mathlib.Data.List.Dedup

namespace Ominull.Lib

open List

variable {κ ρ : Type*} [DecidableEq κ] {key : ρ → κ}

/-- A table with a primary key: its rows in insertion order, no two with one key. -/
structure Table (key : ρ → κ) where
  rows : List ρ
  nodup : (rows.map key).Nodup

namespace Table

def empty : Table key := ⟨[], nodup_nil⟩

def find (T : Table key) (k : κ) : Option ρ := T.rows.find? fun r => key r = k

theorem mem_of_find {T : Table key} {k : κ} {r : ρ} (h : T.find k = some r) : r ∈ T.rows :=
  mem_of_find?_eq_some h

theorem key_of_find {T : Table key} {k : κ} {r : ρ} (h : T.find k = some r) : key r = k := by
  simpa using find?_some h

theorem find_of_mem {T : Table key} {r : ρ} (h : r ∈ T.rows) : T.find (key r) = some r := by
  have hex : (T.find (key r)).isSome := by
    simp only [find, find?_isSome, decide_eq_true_eq]
    exact ⟨r, h, rfl⟩
  obtain ⟨r', hr'⟩ := Option.isSome_iff_exists.mp hex
  have hk : key r' = key r := key_of_find hr'
  rw [hr', inj_on_of_nodup_map T.nodup (mem_of_find hr') h hk]

theorem find_iff {T : Table key} {k : κ} {r : ρ} : T.find k = some r ↔ r ∈ T.rows ∧ key r = k := by
  constructor
  · exact fun h => ⟨mem_of_find h, key_of_find h⟩
  · rintro ⟨h, rfl⟩
    exact find_of_mem h

/-- A key has one row. -/
theorem filter_key {T : Table key} {k : κ} {r : ρ} (h : T.find k = some r) :
    T.rows.filter (fun x => key x = k) = [r] := by
  have hall : ∀ l : List ρ, (l.map key).Nodup → r ∈ l → key r = k → l.filter (fun x => key x = k) = [r] := by
    intro l hnodup hr hk
    induction l with
    | nil => cases hr
    | cons x l ih =>
      rw [map_cons, nodup_cons] at hnodup
      by_cases hx : key x = k
      · have hrest : l.filter (fun x => key x = k) = [] := by
          rw [filter_eq_nil_iff]
          intro y hy hyk
          apply hnodup.1
          rw [hx, ← of_decide_eq_true hyk]
          exact mem_map_of_mem hy
        rcases mem_cons.mp hr with rfl | hr
        · rw [filter_cons_of_pos (by simpa using hx), hrest]
        · exact absurd (hx.trans hk.symm ▸ mem_map_of_mem hr) hnodup.1
      · rw [filter_cons_of_neg (by simpa using hx)]
        rcases mem_cons.mp hr with rfl | hr
        · exact absurd hk hx
        · exact ih hnodup.2 hr
  exact hall T.rows T.nodup (mem_of_find h) (key_of_find h)

/-- Adds a row; a row with the same key is a conflict. -/
def insert (T : Table key) (r : ρ) : Option (Table key) :=
  if h : key r ∈ T.rows.map key then none
  else some ⟨T.rows ++ [r], by
    rw [map_append, map_singleton, nodup_append']
    exact ⟨T.nodup, nodup_singleton _, by simpa using h⟩⟩

theorem insert_rows {T T' : Table key} {r : ρ} (h : T.insert r = some T') :
    T'.rows = T.rows ++ [r] ∧ T.find (key r) = none := by
  unfold insert at h
  split at h
  · cases h
  · rename_i hk
    cases h
    refine ⟨rfl, ?_⟩
    simpa [find] using hk

theorem mem_insert_of_mem {T T' : Table key} {r x : ρ} (h : T.insert r = some T') (hx : x ∈ T.rows) :
    x ∈ T'.rows := by
  rw [(insert_rows h).1]
  exact mem_append_left _ hx

theorem insert_of_find_none {T : Table key} {r : ρ} (h : T.find (key r) = none) : ∃ T', T.insert r = some T' := by
  unfold insert
  have hk : key r ∉ T.rows.map key := by
    rw [find, find?_eq_none] at h
    simpa using h
  rw [dif_neg hk]
  exact ⟨_, rfl⟩

theorem find_insert {T T' : Table key} {r : ρ} (h : T.insert r = some T') (k : κ) :
    T'.find k = if key r = k then some r else T.find k := by
  obtain ⟨hrows, hnone⟩ := insert_rows h
  simp only [find] at hnone ⊢
  rw [hrows, find?_append]
  split_ifs with hk
  · subst hk
    rw [hnone]
    simp
  · simp [hk]

theorem find_insert_of_find {T T' : Table key} {r x : ρ} {k : κ} (h : T.insert r = some T')
    (hx : T.find k = some x) : T'.find k = some x := by
  rw [find_insert h, hx]
  split_ifs with hk
  · have hnone := (insert_rows h).2
    rw [hk, hx] at hnone
    cases hnone
  · rfl

/-- Rewrites the row with a key; `f` keeps the key of every row it is given. -/
def update (T : Table key) (k : κ) (f : ρ → ρ) (hf : ∀ r, key (f r) = key r) : Table key where
  rows := T.rows.map fun r => if key r = k then f r else r
  nodup := by
    have hmap : (T.rows.map fun r => if key r = k then f r else r).map key = T.rows.map key := by
      rw [map_map]
      refine map_congr_left fun r _ => ?_
      simp only [Function.comp_apply]
      split_ifs with h
      · exact hf r
      · rfl
    rw [hmap]
    exact T.nodup

theorem find_update (T : Table key) (k : κ) (f : ρ → ρ) (hf : ∀ r, key (f r) = key r) (k' : κ) :
    (T.update k f hf).find k' = if k = k' then (T.find k').map f else T.find k' := by
  have hkey : ∀ r, key (if key r = k then f r else r) = key r := fun r => by
    split_ifs
    · exact hf r
    · rfl
  simp only [find, update, find?_map]
  have hcomp : ((fun r => decide (key r = k')) ∘ fun r => if key r = k then f r else r) =
      fun r => decide (key r = k') := by
    funext r
    simp only [Function.comp_apply, hkey]
  rw [hcomp]
  cases hr : T.rows.find? fun r => decide (key r = k') with
  | none => simp
  | some r =>
    have hrk : key r = k' := by simpa using find?_some hr
    simp only [Option.map_some, hrk, eq_comm (a := k)]
    split_ifs <;> rfl

@[simp] theorem find_update_same (T : Table key) (k : κ) (f : ρ → ρ) (hf : ∀ r, key (f r) = key r) :
    (T.update k f hf).find k = (T.find k).map f := by
  rw [find_update, if_pos rfl]

theorem find_update_other (T : Table key) {k k' : κ} (f : ρ → ρ) (hf : ∀ r, key (f r) = key r)
    (h : k ≠ k') : (T.update k f hf).find k' = T.find k' := by
  rw [find_update, if_neg h]

theorem mem_update {T : Table key} {k : κ} {f : ρ → ρ} {hf : ∀ r, key (f r) = key r} {r : ρ} :
    r ∈ (T.update k f hf).rows ↔ (r ∈ T.rows ∧ key r ≠ k) ∨ ∃ x ∈ T.rows, key x = k ∧ f x = r := by
  simp only [update, mem_map]
  constructor
  · rintro ⟨x, hx, rfl⟩
    by_cases hk : key x = k
    · rw [if_pos hk]
      exact .inr ⟨x, hx, hk, rfl⟩
    · rw [if_neg hk]
      exact .inl ⟨hx, hk⟩
  · rintro (⟨hr, hk⟩ | ⟨x, hx, hk, rfl⟩)
    · exact ⟨r, hr, if_neg hk⟩
    · exact ⟨x, hx, if_pos hk⟩

theorem filter_update (T : Table key) (k : κ) (f : ρ → ρ) (hf : ∀ r, key (f r) = key r) {p : ρ → Bool}
    (h : ∀ r, T.find k = some r → p r = false ∧ p (f r) = false) :
    (T.update k f hf).rows.filter p = T.rows.filter p := by
  have hall : ∀ l : List ρ, (∀ r ∈ l, key r = k → p r = false ∧ p (f r) = false) →
      (l.map fun r => if key r = k then f r else r).filter p = l.filter p := by
    intro l hl
    induction l with
    | nil => rfl
    | cons x l ih =>
      have hrest := ih fun r hr => hl r (mem_cons_of_mem _ hr)
      rw [map_cons]
      by_cases hx : key x = k
      · obtain ⟨hbefore, hafter⟩ := hl x mem_cons_self hx
        rw [if_pos hx, filter_cons_of_neg (by simpa using hafter), filter_cons_of_neg (by simpa using hbefore),
          hrest]
      · rw [if_neg hx, filter_cons, filter_cons, hrest]
  exact hall T.rows fun r hr hk => h r (find_iff.mpr ⟨hr, hk⟩)

omit [DecidableEq κ] in
theorem eq_of_key {T : Table key} {r r' : ρ} (hr : r ∈ T.rows) (hr' : r' ∈ T.rows) (h : key r = key r') : r = r' :=
  inj_on_of_nodup_map T.nodup hr hr' h

/-- Keeps the rows that meet a condition. -/
def filter (T : Table key) (p : ρ → Bool) : Table key :=
  ⟨T.rows.filter p, T.nodup.sublist (filter_sublist.map key)⟩

omit [DecidableEq κ] in
@[simp] theorem mem_filter {T : Table key} {p : ρ → Bool} {r : ρ} : r ∈ (T.filter p).rows ↔ r ∈ T.rows ∧ p r = true :=
  List.mem_filter

theorem find_filter (T : Table key) (p : ρ → Bool) (k : κ) : (T.filter p).find k = (T.find k).filter p := by
  cases h : (T.find k).filter p with
  | none =>
    rw [find, find?_eq_none]
    intro r hr hk
    obtain ⟨hr, hp⟩ := mem_filter.mp hr
    have hfind : T.find k = some r := find_iff.mpr ⟨hr, by simpa using hk⟩
    rw [hfind, Option.filter_some, if_pos hp] at h
    cases h
  | some r =>
    obtain ⟨hfind, hp⟩ := Option.filter_eq_some_iff.mp h
    exact find_iff.mpr ⟨mem_filter.mpr ⟨mem_of_find hfind, hp⟩, key_of_find hfind⟩

theorem find_filter_ne (T : Table key) {k k' : κ} (h : k' ≠ k) :
    (T.filter fun r => key r ≠ k').find k = T.find k := by
  rw [find_filter]
  cases hr : T.find k with
  | none => rfl
  | some r =>
    simpa [key_of_find hr] using h.symm

/-- Rewrites every row; `f` keeps the key of every row it is given. -/
def modify (T : Table key) (f : ρ → ρ) (hf : ∀ r, key (f r) = key r) : Table key where
  rows := T.rows.map f
  nodup := by
    have hmap : (T.rows.map f).map key = T.rows.map key := by
      rw [map_map]
      exact map_congr_left fun r _ => hf r
    rw [hmap]
    exact T.nodup

omit [DecidableEq κ] in
@[simp] theorem mem_modify {T : Table key} {f : ρ → ρ} {hf : ∀ r, key (f r) = key r} {r : ρ} :
    r ∈ (T.modify f hf).rows ↔ ∃ x ∈ T.rows, f x = r :=
  mem_map

/-- Adds a row in place of the one with its key, if there is one. -/
def upsert (T : Table key) (r : ρ) : Table key where
  rows := T.rows.filter (fun x => key x ≠ key r) ++ [r]
  nodup := by
    rw [map_append, map_singleton, nodup_append']
    refine ⟨T.nodup.sublist (filter_sublist.map key), nodup_singleton _, ?_⟩
    simp

@[simp] theorem mem_upsert {T : Table key} {r x : ρ} :
    x ∈ (T.upsert r).rows ↔ (x ∈ T.rows ∧ key x ≠ key r) ∨ x = r := by
  simp [upsert]

theorem find_upsert (T : Table key) (r : ρ) (k : κ) :
    (T.upsert r).find k = if key r = k then some r else T.find k := by
  split_ifs with hk
  · subst hk
    exact find_of_mem (mem_upsert.mpr (.inr rfl))
  · cases hfind : T.find k with
    | none =>
      refine find?_eq_none.mpr fun x hx => ?_
      rcases mem_upsert.mp hx with ⟨hx, -⟩ | rfl
      · exact find?_eq_none.mp hfind x hx
      · simpa using hk
    | some x =>
      obtain ⟨hx, rfl⟩ := find_iff.mp hfind
      exact find_of_mem (mem_upsert.mpr (.inl ⟨hx, Ne.symm hk⟩))

theorem find_upsert_filter {T : Table key} {r : ρ} (h : T.find (key r) = none) (k : κ) :
    ((T.upsert r).filter fun x => key x ≠ key r).find k = T.find k := by
  by_cases hk : key r = k
  · subst hk
    rw [find_filter, find_upsert, if_pos rfl, h]
    simp
  · rw [find_filter_ne _ hk, find_upsert, if_neg hk]

theorem find_upsert_upsert {T : Table key} {r p : ρ} (h : T.find (key r) = some p) (k : κ) :
    ((T.upsert r).upsert p).find k = T.find k := by
  have hkey : key p = key r := key_of_find h
  by_cases hk : key r = k
  · subst hk
    rw [find_upsert, if_pos hkey, h]
  · rw [find_upsert, if_neg (hkey ▸ hk), find_upsert, if_neg hk]

theorem mem_foldl_upsert {l : List ρ} {T : Table key} {r : ρ} (h : r ∈ (l.foldl upsert T).rows) :
    (r ∈ T.rows ∧ key r ∉ l.map key) ∨ r ∈ l := by
  induction l generalizing T with
  | nil => exact .inl ⟨h, not_mem_nil⟩
  | cons x l ih =>
    rcases ih h with ⟨h, hl⟩ | h
    · rcases mem_upsert.mp h with ⟨h, hx⟩ | rfl
      · refine .inl ⟨h, ?_⟩
        rw [map_cons, mem_cons]
        exact not_or.mpr ⟨hx, hl⟩
      · exact .inr mem_cons_self
    · exact .inr (mem_cons_of_mem _ h)

theorem key_mem_foldl_upsert {l : List ρ} {T : Table key} {k : κ} :
    k ∈ (l.foldl upsert T).rows.map key ↔ k ∈ T.rows.map key ∨ k ∈ l.map key := by
  induction l generalizing T with
  | nil => simp
  | cons x l ih =>
    rw [foldl_cons, ih, map_cons, mem_cons, ← or_assoc]
    have hx : k ∈ (T.upsert x).rows.map key ↔ k ∈ T.rows.map key ∨ k = key x := by
      simp only [mem_map, mem_upsert]
      constructor
      · rintro ⟨r, ⟨hr, -⟩ | rfl, rfl⟩
        · exact .inl ⟨r, hr, rfl⟩
        · exact .inr rfl
      · by_cases hk : k = key x
        · exact fun _ => ⟨x, .inr rfl, hk.symm⟩
        · rintro (⟨r, hr, rfl⟩ | h)
          · exact ⟨r, .inl ⟨hr, hk⟩, rfl⟩
          · exact absurd h hk
    rw [hx]

theorem find_foldl_upsert {l : List ρ} (hl : (l.map key).Nodup) {r : ρ} (hr : r ∈ l) :
    (l.foldl upsert (empty : Table key)).find (key r) = some r := by
  have hkey : key r ∈ (l.foldl upsert (empty : Table key)).rows.map key :=
    key_mem_foldl_upsert.mpr (.inr (mem_map_of_mem hr))
  obtain ⟨x, hx, hxr⟩ := mem_map.mp hkey
  have hmem : x ∈ l := (mem_foldl_upsert hx).resolve_left fun h => by cases h.1
  rw [← hxr, find_of_mem hx, inj_on_of_nodup_map hl hmem hr hxr]

theorem find_foldl_upsert_rows {T : Table key} {l : List ρ} (h : l.Perm T.rows) (k : κ) :
    (l.foldl upsert (empty : Table key)).find k = T.find k := by
  have hnodup : (l.map key).Nodup := (h.map key).nodup_iff.mpr T.nodup
  cases hfind : T.find k with
  | some r =>
    rw [← key_of_find hfind]
    exact find_foldl_upsert hnodup (h.mem_iff.mpr (mem_of_find hfind))
  | none =>
    rw [Option.eq_none_iff_forall_not_mem]
    intro r hr
    have hmem : r ∈ l := (mem_foldl_upsert (mem_of_find hr)).resolve_left fun h => by cases h.1
    have hfound := find_of_mem (h.mem_iff.mp hmem)
    rw [key_of_find hr, hfind] at hfound
    cases hfound

theorem length_foldl_upsert (l : List ρ) :
    (l.foldl upsert (empty : Table key)).rows.length = (l.map key).dedup.length := by
  have hperm : ((l.foldl upsert (empty : Table key)).rows.map key).Perm (l.map key).dedup := by
    rw [perm_ext_iff_of_nodup (Table.nodup _) (nodup_dedup _)]
    intro k
    rw [key_mem_foldl_upsert, mem_dedup]
    simp [empty]
  rw [← hperm.length_eq, length_map]

end Table

end Ominull.Lib
