import Ominull.Lib.Text

/-!
Programs that read and write whole files, run against a disk on which every write may fail and
before every write the machine may stop. `wp` is the weakest precondition of such a program for a
postcondition on its result and a condition on the disk a stop leaves behind.
-/

namespace Ominull.Lib

abbrev Disk (φ : Type) := φ → Option Str

/-- How a write ends: it took effect; it had no effect and reported failure; or the new content is
in place and failure was reported all the same. -/
inductive Outcome where
  | done
  | failed
  | unsynced
  deriving DecidableEq

inductive Prog (φ α : Type) where
  | pure (a : α)
  | read (f : φ) (k : Option Str → Prog φ α)
  | write (f : φ) (data : Str) (k : Bool → Prog φ α)
  | remove (f : φ) (k : Bool → Prog φ α)

/-- A run of a program: its result unless the machine stopped, the disk it leaves, and each write
with its outcome, `none` for the one that was never made. -/
structure Execution (φ α : Type) where
  result : Option α
  disk : Disk φ
  log : List (φ × Option Outcome)

namespace Prog

variable {φ α β : Type}

def bind : Prog φ α → (α → Prog φ β) → Prog φ β
  | pure a, g => g a
  | read f k, g => read f fun c => (k c).bind g
  | write f data k, g => write f data fun b => (k b).bind g
  | remove f k, g => remove f fun b => (k b).bind g

instance : Monad (Prog φ) where
  pure := pure
  bind := bind

def readFile (f : φ) : Prog φ (Option Str) := read f pure

def writeFile (f : φ) (data : Str) : Prog φ Bool := write f data pure

def removeFile (f : φ) : Prog φ Bool := remove f pure

section

variable [DecidableEq φ]

/-- The disk after a write of new content, or a removal, with this outcome. -/
def after (d : Disk φ) (f : φ) (c : Option Str) : Outcome → Disk φ
  | .failed => d
  | _ => Function.update d f c

/-- Runs a program on a disk; the outcomes are those of its writes in order, and a write without
one is where the machine stops. -/
def exec : Prog φ α → Disk φ → List Outcome → Execution φ α
  | pure a, d, _ => ⟨some a, d, []⟩
  | read f k, d, os => (k (d f)).exec d os
  | write f _ _, d, [] => ⟨none, d, [(f, none)]⟩
  | write f data k, d, o :: os =>
    let r := (k (o = .done)).exec (after d f (some data) o) os
    { r with log := (f, some o) :: r.log }
  | remove f _, d, [] => ⟨none, d, [(f, none)]⟩
  | remove f k, d, o :: os =>
    let r := (k (o = .done)).exec (after d f none o) os
    { r with log := (f, some o) :: r.log }

/-- Running one program after the other: the second starts on the disk and with the outcomes the
first left. -/
theorem exec_bind (p : Prog φ α) (g : α → Prog φ β) (d : Disk φ) (os : List Outcome) :
    (p >>= g).exec d os =
      match (p.exec d os).result with
      | none => ⟨none, (p.exec d os).disk, (p.exec d os).log⟩
      | some a =>
        let r := (g a).exec (p.exec d os).disk (os.drop (p.exec d os).log.length)
        { r with log := (p.exec d os).log ++ r.log } := by
  change (p.bind g).exec d os = _
  induction p generalizing d os with
  | pure a => simp [bind, exec]
  | read f k ih => exact ih _ _ _
  | write f data k ih | remove f k ih =>
    cases os with
    | nil => rfl
    | cons o os =>
      simp only [bind, exec, ih]
      split <;> rfl

theorem exec_bind_result {p : Prog φ α} {g : α → Prog φ β} {d : Disk φ} {os : List Outcome} {b : β}
    (h : ((p >>= g).exec d os).result = some b) :
    ∃ a, (p.exec d os).result = some a ∧
      ((g a).exec (p.exec d os).disk (os.drop (p.exec d os).log.length)).result = some b := by
  rw [exec_bind] at h
  split at h
  · cases h
  case h_2 a ha => exact ⟨a, ha, h⟩

/-- What the disk must satisfy for every run whose writes end in allowed ways to return a result
with `Q`, or to stop on a disk with `I`. -/
def wp (ok : φ → Option Outcome → Prop) (I : Disk φ → Prop) (Q : α → Disk φ → Prop) :
    Prog φ α → Disk φ → Prop
  | pure a, d => Q a d
  | read f k, d => (k (d f)).wp ok I Q d
  | write f data k, d => (ok f none → I d) ∧
      ∀ o, ok f (some o) → (k (o = .done)).wp ok I Q (after d f (some data) o)
  | remove f k, d => (ok f none → I d) ∧
      ∀ o, ok f (some o) → (k (o = .done)).wp ok I Q (after d f none o)

variable {ok : φ → Option Outcome → Prop} {I : Disk φ → Prop} {Q : α → Disk φ → Prop}

@[simp] theorem wp_pure (a : α) (d : Disk φ) : (Pure.pure a : Prog φ α).wp ok I Q d ↔ Q a d :=
  Iff.rfl

@[simp] theorem wp_bind {R : β → Disk φ → Prop} (p : Prog φ α) (g : α → Prog φ β) (d : Disk φ) :
    (p >>= g).wp ok I R d ↔ p.wp ok I (fun a => (g a).wp ok I R) d := by
  induction p generalizing d with
  | pure a => rfl
  | read f k ih => exact ih (d f) d
  | write f data k ih | remove f k ih =>
    exact and_congr_right fun _ => forall_congr' fun o => imp_congr_right fun _ => ih _ _

@[simp] theorem wp_readFile {Q : Option Str → Disk φ → Prop} (f : φ) (d : Disk φ) :
    (readFile f).wp ok I Q d ↔ Q (d f) d :=
  Iff.rfl

theorem wp_writeFile {Q : Bool → Disk φ → Prop} (f : φ) (data : Str) (d : Disk φ) :
    (writeFile f data).wp ok I Q d ↔ (ok f none → I d) ∧
      ∀ o, ok f (some o) → Q (o = .done) (after d f (some data) o) :=
  Iff.rfl

theorem wp_ite {c : Prop} [Decidable c] {p q : Prog φ α} {d : Disk φ} (hp : c → p.wp ok I Q d)
    (hq : ¬c → q.wp ok I Q d) : (if c then p else q).wp ok I Q d := by
  split
  · exact hp ‹_›
  · exact hq ‹_›

theorem wp_mono {I' : Disk φ → Prop} {Q' : α → Disk φ → Prop} (hI : ∀ d, I d → I' d) (hQ : ∀ a d, Q a d → Q' a d)
    {p : Prog φ α} {d : Disk φ} (h : p.wp ok I Q d) : p.wp ok I' Q' d := by
  induction p generalizing d with
  | pure a => exact hQ a d h
  | read f k ih => exact ih _ h
  | write f data k ih | remove f k ih => exact ⟨fun hs => hI d (h.1 hs), fun o ho => ih _ (h.2 o ho)⟩

theorem wp_seq {R : β → Disk φ → Prop} {p : Prog φ α} {g : α → Prog φ β} {d : Disk φ} (hp : p.wp ok I Q d)
    (hg : ∀ a d, Q a d → (g a).wp ok I R d) : (p >>= g).wp ok I R d :=
  (wp_bind p g d).mpr (wp_mono (fun _ => id) hg hp)

theorem wp_allow {ok' : φ → Option Outcome → Prop} (hok : ∀ f o, ok' f o → ok f o) {p : Prog φ α}
    {d : Disk φ} (h : p.wp ok I Q d) : p.wp ok' I Q d := by
  induction p generalizing d with
  | pure a => exact h
  | read f k ih => exact ih _ h
  | write f data k ih | remove f k ih =>
    exact ⟨fun hs => h.1 (hok f none hs), fun o ho => ih _ (h.2 o (hok f (some o) ho))⟩

theorem wp_and {I' : Disk φ → Prop} {Q' : α → Disk φ → Prop} {p : Prog φ α} {d : Disk φ} (h : p.wp ok I Q d)
    (h' : p.wp ok I' Q' d) : p.wp ok (fun d => I d ∧ I' d) (fun a d => Q a d ∧ Q' a d) d := by
  induction p generalizing d with
  | pure a => exact ⟨h, h'⟩
  | read f k ih => exact ih _ h h'
  | write f data k ih | remove f k ih =>
    exact ⟨fun hs => ⟨h.1 hs, h'.1 hs⟩, fun o ho => ih _ (h.2 o ho) (h'.2 o ho)⟩

theorem wp_sound {p : Prog φ α} {d : Disk φ} (h : p.wp ok I Q d) (os : List Outcome)
    (hok : ∀ e ∈ (p.exec d os).log, ok e.1 e.2) :
    match (p.exec d os).result with
    | some a => Q a (p.exec d os).disk
    | none => I (p.exec d os).disk := by
  induction p generalizing d os with
  | pure a => exact h
  | read f k ih => exact ih _ h os hok
  | write f data k ih | remove f k ih =>
    cases os with
    | nil => exact h.1 (hok (f, none) (by simp [exec]))
    | cons o os =>
      refine ih _ (h.2 o (hok (f, some o) (by simp [exec]))) os fun e he => hok e ?_
      simp [exec, he]

theorem wp_returns {p : Prog φ α} {d : Disk φ} (h : p.wp ok (fun _ => False) Q d) (os : List Outcome)
    (hok : ∀ e ∈ (p.exec d os).log, ok e.1 e.2) : ∃ a, (p.exec d os).result = some a ∧ Q a (p.exec d os).disk := by
  have hsound := wp_sound h os hok
  split at hsound
  · rename_i a ha
    exact ⟨a, ha, hsound⟩
  · exact hsound.elim

theorem wp_always {p : Prog φ α} {d : Disk φ} (h : p.wp ok I (fun _ => I) d) (os : List Outcome)
    (hok : ∀ e ∈ (p.exec d os).log, ok e.1 e.2) : I (p.exec d os).disk := by
  have hsound := wp_sound h os hok
  split at hsound <;> exact hsound

end

/-- The program writes no file outside `files`, and every result it can return, whatever it reads and
however its writes end, has `Q`. -/
def Within (files : φ → Prop) (Q : α → Prop) : Prog φ α → Prop
  | pure a => Q a
  | read _ k => ∀ c, (k c).Within files Q
  | write f _ k => files f ∧ ∀ b, (k b).Within files Q
  | remove f k => files f ∧ ∀ b, (k b).Within files Q

variable {files : φ → Prop}

@[simp] theorem within_pure {Q : α → Prop} (a : α) : (Pure.pure a : Prog φ α).Within files Q ↔ Q a :=
  Iff.rfl

@[simp] theorem within_bind {Q : β → Prop} (p : Prog φ α) (g : α → Prog φ β) :
    (p >>= g).Within files Q ↔ p.Within files fun a => (g a).Within files Q := by
  induction p with
  | pure a => rfl
  | read f k ih => exact forall_congr' ih
  | write f data k ih | remove f k ih => exact and_congr_right fun _ => forall_congr' ih

@[simp] theorem within_readFile {Q : Option Str → Prop} (f : φ) : (readFile f).Within files Q ↔ ∀ c, Q c :=
  Iff.rfl

theorem within_ite {Q : α → Prop} {c : Prop} [Decidable c] {p q : Prog φ α} (hp : c → p.Within files Q)
    (hq : ¬c → q.Within files Q) : (if c then p else q).Within files Q := by
  split
  · exact hp ‹_›
  · exact hq ‹_›

theorem Within.mono {files' : φ → Prop} {Q Q' : α → Prop} (hfiles : ∀ f, files f → files' f)
    (hQ : ∀ a, Q a → Q' a) {p : Prog φ α} (h : p.Within files Q) : p.Within files' Q' := by
  induction p with
  | pure a => exact hQ a h
  | read f k ih => exact fun c => ih c (h c)
  | write f data k ih | remove f k ih => exact ⟨hfiles f h.1, fun b => ih b (h.2 b)⟩

theorem Within.imp {Q Q' : α → Prop} {p : Prog φ α} (h : p.Within files Q) (hQ : ∀ a, Q a → Q' a) :
    p.Within files Q' :=
  h.mono (fun _ => id) hQ

section

variable [DecidableEq φ]

theorem Within.result {Q : α → Prop} {p : Prog φ α} (h : p.Within files Q)
    {d : Disk φ} {os : List Outcome} {a : α} (ha : (p.exec d os).result = some a) : Q a := by
  induction p generalizing d os with
  | pure b =>
    cases ha
    exact h
  | read f k ih => exact ih _ (h _) ha
  | write f data k ih | remove f k ih =>
    cases os with
    | nil => cases ha
    | cons o os => exact ih _ (h.2 _) ha

theorem after_of_ne {d : Disk φ} {f g : φ} (h : g ≠ f) (c : Option Str) (o : Outcome) : after d f c o g = d g := by
  cases o
  · exact Function.update_of_ne h _ _
  · rfl
  · exact Function.update_of_ne h _ _

theorem Within.wp {ok : φ → Option Outcome → Prop} {Q : α → Prop} {R : Disk φ → Prop}
    (hR : ∀ d d', (∀ f, ¬files f → d' f = d f) → R d → R d') {p : Prog φ α}
    (h : p.Within files Q) {d : Disk φ} (hd : R d) : p.wp ok R (fun a d' => Q a ∧ R d') d := by
  have hafter : ∀ f, files f → ∀ c o d, R d → R (after d f c o) := by
    intro f hf c o d hd
    refine hR d _ (fun g hg => after_of_ne ?_ c o) hd
    rintro rfl
    exact hg hf
  induction p generalizing d with
  | pure a => exact ⟨h, hd⟩
  | read f k ih => exact ih _ (h _) hd
  | write f data k ih | remove f k ih => exact ⟨fun _ => hd, fun o _ => ih _ (h.2 _) (hafter f h.1 _ o d hd)⟩

theorem Within.frame {Q : α → Prop} {p : Prog φ α} (h : p.Within files Q) {f : φ} (hf : ¬files f) (d : Disk φ)
    (os : List Outcome) : (p.exec d os).disk f = d f := by
  have hframe : p.wp (fun _ _ => True) (fun d' => d' f = d f) (fun a d' => Q a ∧ d' f = d f) d :=
    h.wp (fun _ _ hother hd => (hother f hf).trans hd) rfl
  exact wp_always (wp_mono (fun _ => id) (fun _ _ h => h.2) hframe) os fun _ _ => trivial

end

end Prog

end Ominull.Lib
