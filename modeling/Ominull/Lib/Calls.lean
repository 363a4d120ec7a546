import Mathlib.Logic.Basic

/-!
Calls that read and write a state one operation at a time. The outcomes of the writes come from
outside and the last ones are failures, so what holds for all outcomes also holds wherever a call
breaks off.
-/

namespace Ominull.Lib

variable {σ ε α β : Type}

/-- A call over the state and the outcomes of the writes to come. -/
abbrev Call (σ ε α : Type) := ExceptT ε (StateM (σ × List Bool)) α

namespace Call

def read : Call σ ε σ := fun s => (.ok s.1, s)

/-- A write whose failure ends the call. -/
def write (failure : ε) (f : σ → σ) : Call σ ε Unit
  | (s, true :: os) => (.ok (), (f s, os))
  | (s, os) => (.error failure, (s, os.tail))

/-- A write whose failure the call learns of. -/
def attempt (f : σ → σ) : Call σ ε Bool
  | (s, true :: os) => (.ok true, (f s, os))
  | (s, os) => (.ok false, (s, os.tail))

/-- Whether an operation succeeds whose effect is part of a later write. -/
def outcome : Call σ ε Bool
  | (s, true :: os) => (.ok true, (s, os))
  | (s, os) => (.ok false, (s, os.tail))

/-- Ends the call with an error, if there is one. -/
def refuse : Option ε → Call σ ε Unit
  | none => pure ()
  | some e => throw e

/-- What a call returns, and the state it leaves. -/
def exec (c : Call σ ε α) (s : σ) (outcomes : List Bool) : Except ε α × σ :=
  let r := c (s, outcomes)
  (r.1, r.2.1)

/-- The result and the state meet `Q`, or the call failed and the state meets `E`. -/
def Post (Q : α → σ → Prop) (E : σ → Prop) : Except ε α × σ × List Bool → Prop
  | (.ok a, s, _) => Q a s
  | (.error _, s, _) => E s

/-- From a state that meets `P` the call returns with `Q` or fails with `E`. -/
def Triple (P : σ → Prop) (c : Call σ ε α) (Q : α → σ → Prop) (E : σ → Prop) : Prop :=
  ∀ s os, P s → Post Q E (c (s, os))

theorem bind_apply (c : Call σ ε α) (k : α → Call σ ε β) (s : σ × List Bool) :
    (c >>= k) s = ExceptT.bindCont k (c s).1 (c s).2 := rfl

theorem exists_ok {c : Call σ ε α} {s : σ} {os : List Bool} {Q : α → σ → Prop} (hok : (c.exec s os).1.isOk = true)
    (h : ∀ a s', c.exec s os = (.ok a, s') → Q a s') : ∃ a s', c.exec s os = (.ok a, s') ∧ Q a s' := by
  generalize c.exec s os = r at hok h ⊢
  obtain ⟨e | a, s'⟩ := r
  · cases hok
  · exact ⟨a, s', rfl, h a s' rfl⟩

namespace Triple

variable {P : σ → Prop} {Q : α → σ → Prop} {R : β → σ → Prop} {E : σ → Prop} {st : σ}

theorem bind {c : Call σ ε α} {k : α → Call σ ε β} (hc : Triple P c Q E)
    (hk : ∀ a, Triple (Q a) (k a) R E) : Triple P (c >>= k) R E := by
  intro s os hs
  have hpost := hc s os hs
  rw [bind_apply]
  generalize c (s, os) = r at hpost ⊢
  obtain ⟨a | a, s', os'⟩ := r
  · exact hpost
  · exact hk a s' os' hpost

theorem mono {c : Call σ ε α} {Q' : α → σ → Prop} {E' : σ → Prop} (h : Triple P c Q E)
    (hQ : ∀ a s, Q a s → Q' a s) (hE : ∀ s, E s → E' s) : Triple P c Q' E' := by
  intro s os hs
  have hpost := h s os hs
  generalize c (s, os) = r at hpost ⊢
  obtain ⟨a | a, s', os'⟩ := r
  · exact hE s' hpost
  · exact hQ a s' hpost

/-! From a known state every operation has one effect, or none. -/

theorem pure {a : α} (h : Q a st) : Triple (fun s => s = st) (pure a : Call σ ε α) Q E := by
  rintro s os rfl
  exact h

theorem throw {e : ε} (h : E st) : Triple (fun s => s = st) (throw e : Call σ ε α) Q E := by
  rintro s os rfl
  exact h

theorem read {k : σ → Call σ ε β} (h : Triple (fun s => s = st) (k st) R E) :
    Triple (fun s => s = st) (read >>= k) R E := by
  rintro s os rfl
  exact h s os rfl

theorem refuse {o : Option ε} {k : Unit → Call σ ε β} (hE : E st)
    (h : o = none → Triple (fun s => s = st) (k ()) R E) :
    Triple (fun s => s = st) (refuse o >>= k) R E := by
  cases o with
  | none => exact h rfl
  | some e => exact throw hE

theorem write {failure : ε} {f : σ → σ} {k : Unit → Call σ ε β} (hE : E st)
    (h : Triple (fun s => s = f st) (k ()) R E) : Triple (fun s => s = st) (write failure f >>= k) R E := by
  rintro s os rfl
  rcases os with - | ⟨_ | _, os⟩
  · exact hE
  · exact hE
  · exact h (f s) os rfl

theorem lastWrite {failure : ε} {f : σ → σ} {R' : Unit → σ → Prop} (hE : E st) (h : R' () (f st)) :
    Triple (fun s => s = st) (Call.write failure f) R' E := by
  rintro s os rfl
  rcases os with - | ⟨_ | _, os⟩
  · exact hE
  · exact hE
  · exact h

theorem attempt {f : σ → σ} {k : Bool → Call σ ε β} (hs : Triple (fun s => s = st) (k false) R E)
    (hf : Triple (fun s => s = f st) (k true) R E) : Triple (fun s => s = st) (attempt f >>= k) R E := by
  rintro s os rfl
  rcases os with - | ⟨_ | _, os⟩
  · exact hs s _ rfl
  · exact hs s _ rfl
  · exact hf (f s) os rfl

theorem outcome {k : Bool → Call σ ε β} (h : ∀ b, Triple P (k b) R E) : Triple P (outcome >>= k) R E := by
  intro s os hP
  rcases os with - | ⟨_ | _, os⟩
  · exact h false s _ hP
  · exact h false s _ hP
  · exact h true s os hP

theorem of_forall {c : Call σ ε α} (h : ∀ st, P st → Triple (fun s => s = st) c Q E) : Triple P c Q E :=
  fun s os hs => h s hs s os rfl

theorem exec_cases {c : Call σ ε α} {s : σ} (h : Triple P c Q E) (hs : P s) (os : List Bool) :
    (∃ a s', c.exec s os = (.ok a, s') ∧ Q a s') ∨ ∃ e s', c.exec s os = (.error e, s') ∧ E s' := by
  have hpost := h s os hs
  unfold exec
  generalize c (s, os) = r at hpost ⊢
  obtain ⟨e | a, s', os'⟩ := r
  · exact .inr ⟨e, s', rfl, hpost⟩
  · exact .inl ⟨a, s', rfl, hpost⟩

theorem of_exec {c : Call σ ε α} {s s' : σ} {os : List Bool} {a : α} (h : Triple P c Q E) (hs : P s)
    (hc : c.exec s os = (.ok a, s')) : Q a s' := by
  rcases h.exec_cases hs os with ⟨b, t, hexec, hQ⟩ | ⟨e, t, hexec, -⟩
  · rw [hexec] at hc
    cases hc
    exact hQ
  · rw [hexec] at hc
    cases hc

/-- What holds of a state however a call ends. -/
theorem exec_state {c : Call σ ε α} {s : σ} {os : List Bool} (h : Triple P c (fun _ s => E s) E) (hs : P s) :
    E (c.exec s os).2 := by
  rcases h.exec_cases hs os with ⟨a, t, hexec, hE⟩ | ⟨e, t, hexec, hE⟩
  · rw [hexec]
    exact hE
  · rw [hexec]
    exact hE

end Triple

end Call

end Ominull.Lib
