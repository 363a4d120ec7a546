import Ominull.Go.StringMap

/-!
The small files the authority keeps its maps in. `writeDurable` writes a temporary file, renames it over
the old one and syncs the directory; it fails before the rename, or after it with the new file already in
place. Without the sync a power loss may bring the old file back.
-/

namespace Ominull.Auth

open Go Lib

/-- How a write ends: before the rename, after it, or well. -/
inductive Saved where
  | failed
  | renamed
  | done
  deriving DecidableEq

/-- A file as it is read, and as it is after a power loss. -/
structure StateFile where
  disk : Option Str
  synced : Option Str
  deriving DecidableEq

namespace StateFile

def absent : StateFile := ⟨none, none⟩

def write (f : StateFile) (data : Str) : Saved → StateFile
  | .failed => f
  | .renamed => { f with disk := some data }
  | .done => ⟨some data, some data⟩

def reboot (f : StateFile) (lost : Bool) : StateFile := if lost then { f with disk := f.synced } else f

end StateFile

variable {β : Type}

/-- The map in what was read of a file: a missing file is an empty map. `none` stands for a file that
cannot be read or is corrupt. -/
def loadMap (dec : Json → β → Option β) (zero : β) : Option (Option Str) → Option (StringMap β)
  | none => none
  | some none => some .empty
  | some (some raw) => (unmarshalMap dec zero raw).bind id

def StateFile.read (f : StateFile) (readable : Bool) : Option (Option Str) :=
  if readable then some f.disk else none

/-- Both contents of the file are maps with a property. -/
structure StateFile.Holds (dec : Json → β → Option β) (zero : β) (P : StringMap β → Prop) (f : StateFile) : Prop where
  disk : ∃ m, loadMap dec zero (some f.disk) = some m ∧ P m
  synced : ∃ m, loadMap dec zero (some f.synced) = some m ∧ P m

namespace StateFile.Holds

variable {enc : β → Str} {dec : Json → β → Option β} {zero : β} {P Q : StringMap β → Prop} {f : StateFile}

theorem imp (h : f.Holds dec zero P) (hPQ : ∀ m, P m → Q m) : f.Holds dec zero Q :=
  ⟨h.disk.imp fun m hm => hm.imp_right (hPQ m), h.synced.imp fun m hm => hm.imp_right (hPQ m)⟩

theorem absent (hP : P .empty) : StateFile.absent.Holds dec zero P := ⟨⟨_, rfl, hP⟩, ⟨_, rfl, hP⟩⟩

theorem reboot (h : f.Holds dec zero P) (lost : Bool) : (f.reboot lost).Holds dec zero P := by
  unfold StateFile.reboot
  split
  · exact ⟨h.synced, h.synced⟩
  · exact h

theorem load (h : f.Holds dec zero P) (readable : Bool) : ∀ m ∈ loadMap dec zero (f.read readable), P m := by
  intro m hm
  cases readable with
  | false => cases hm
  | true =>
    obtain ⟨m', hm', hP⟩ := h.disk
    obtain rfl : m' = m := Option.some.inj (hm'.symm.trans hm)
    exact hP

/-- A map can be written: its names are texts and its values have a JSON form. -/
structure Writable (enc : β → Str) (dec : Json → β → Option β) (zero : β) (m : StringMap β) : Prop where
  names : ∀ p ∈ m.rows, IsText p.1
  values : ∀ p ∈ m.rows, ∃ j, Spelled enc dec zero j p.2

theorem load_marshalMap {m : StringMap β} (hm : Writable enc dec zero m)
    (hP : ∀ m' : StringMap β, (∀ k, m'.get k = m.get k) → P m') :
    ∃ m', loadMap dec zero (some (some (marshalMap enc m))) = some m' ∧ P m' := by
  obtain ⟨m', hread, hfind⟩ := unmarshal_marshalMap hm.names hm.values
  exact ⟨m', by rw [loadMap, hread]; rfl, hP m' (StringMap.get_congr hfind)⟩

/-- A write of a map with the property keeps it, however it ends. -/
theorem write (h : f.Holds dec zero P) {m : StringMap β} (hm : Writable enc dec zero m)
    (hP : ∀ m' : StringMap β, (∀ k, m'.get k = m.get k) → P m') (o : Saved) :
    (f.write (marshalMap enc m) o).Holds dec zero P := by
  have hnew := load_marshalMap hm hP
  cases o with
  | failed => exact h
  | renamed => exact ⟨hnew, h.synced⟩
  | done => exact ⟨hnew, hnew⟩

theorem saved (f : StateFile) {m : StringMap β} (hm : Writable enc dec zero m)
    (hP : ∀ m' : StringMap β, (∀ k, m'.get k = m.get k) → P m') :
    (f.write (marshalMap enc m) .done).Holds dec zero P :=
  ⟨load_marshalMap hm hP, load_marshalMap hm hP⟩

end StateFile.Holds

end Ominull.Auth
