import Mathlib.Logic.Relation

namespace Ominull.Lib

variable {σ α : Type*}

/-- `t` is reached from `s` by finitely many labelled steps. -/
def Run (step : σ → α → σ → Prop) : σ → σ → Prop :=
  Relation.ReflTransGen fun s t => ∃ a, step s a t

/-- The steps of a system whose label meets `ok` in the state it is taken from. -/
def Guarded (ok : σ → α → Prop) (step : σ → α → σ → Prop) (s : σ) (a : α) (t : σ) : Prop :=
  ok s a ∧ step s a t

namespace Run

variable {step : σ → α → σ → Prop} {s t u : σ}

theorem refl (s : σ) : Run step s s := Relation.ReflTransGen.refl

theorem tail {a : α} (h : Run step s t) (hs : step t a u) : Run step s u :=
  Relation.ReflTransGen.tail h ⟨a, hs⟩

theorem tailGuarded {ok : σ → α → Prop} {a : α} (h : Run (Guarded ok step) s t)
    (hs : step t a u) (hok : ok t a) : Run (Guarded ok step) s u :=
  h.tail ⟨hok, hs⟩

theorem trans (h : Run step s t) (h' : Run step t u) : Run step s u :=
  Relation.ReflTransGen.trans h h'

theorem preserves {I : σ → Prop} (hstep : ∀ s a t, I s → step s a t → I t) (h : Run step s t) (hs : I s) : I t := by
  induction h with
  | refl => exact hs
  | tail _ hst ih =>
    obtain ⟨a, ha⟩ := hst
    exact hstep _ a _ ih ha

theorem monotone {I : σ → Prop} {R : σ → σ → Prop} (hrefl : ∀ s, R s s)
    (htrans : ∀ s t u, R s t → R t u → R s u)
    (hinv : ∀ s a t, I s → step s a t → I t) (hstep : ∀ s a t, I s → step s a t → R s t)
    (h : Run step s t) (hs : I s) : R s t := by
  induction h with
  | refl => exact hrefl s
  | @tail t u h hst ih =>
    obtain ⟨a, ha⟩ := hst
    exact htrans _ _ _ ih (hstep _ a _ (preserves hinv h hs) ha)

end Run

section Executable

variable (step : σ → α → Option σ) (ok : σ → α → Prop)

/-- The steps of a system given by a partial function. -/
def StepOf (s : σ) (a : α) (t : σ) : Prop := step s a = some t

/-- The state after a list of steps, if all of them can be taken. -/
def runList : σ → List α → Option σ
  | s, [] => some s
  | s, a :: as => (step s a).bind fun t => runList t as

/-- Every step of the list meets the condition where it is taken. -/
def Meets : σ → List α → Prop
  | _, [] => True
  | s, a :: as => ok s a ∧ (step s a).elim True fun t => Meets t as

instance decidableElim {p : σ → Prop} [∀ t, Decidable (p t)] :
    (o : Option σ) → Decidable (o.elim True p)
  | none => isTrue trivial
  | some t => inferInstanceAs (Decidable (p t))

instance decidableMeets [∀ s a, Decidable (ok s a)] :
    (s : σ) → (as : List α) → Decidable (Meets step ok s as)
  | _, [] => isTrue trivial
  | s, a :: as =>
    have := fun t => decidableMeets t as
    inferInstanceAs (Decidable (ok s a ∧ (step s a).elim True fun t => Meets step ok t as))

variable {step ok}

theorem runList_run {s t : σ} {as : List α} (h : runList step s as = some t) : Run (StepOf step) s t := by
  induction as generalizing s with
  | nil =>
    cases h
    exact Run.refl _
  | cons a as ih =>
    obtain ⟨u, hu, htail⟩ := Option.bind_eq_some_iff.mp h
    exact ((Run.refl s).tail hu).trans (ih htail)

theorem meets_of_forall {s : σ} {as : List α} (h : ∀ a ∈ as, ∀ s, ok s a) : Meets step ok s as := by
  induction as generalizing s with
  | nil => trivial
  | cons a as ih =>
    refine ⟨h a (by simp) s, ?_⟩
    cases step s a with
    | none => trivial
    | some t => exact ih fun b hb => h b (List.mem_cons_of_mem _ hb)

theorem run_of_runList {s t : σ} {as : List α} (h : runList step s as = some t)
    (hok : Meets step ok s as) : Run (Guarded ok (StepOf step)) s t := by
  induction as generalizing s with
  | nil =>
    cases h
    exact Run.refl _
  | cons a as ih =>
    obtain ⟨u, hu, htail⟩ := Option.bind_eq_some_iff.mp h
    obtain ⟨ha, hrest⟩ := hok
    rw [hu] at hrest
    exact ((Run.refl s).tailGuarded hu ha).trans (ih htail hrest)

section Evaluated

variable {s : σ} {q : σ → Prop}

/-- A run that is evaluated: `p` is decided in the state it ends in, and `q` follows. -/
theorem exists_runList {as : List α} (p : σ → Prop) [DecidablePred p]
    (h : (runList step s as).any fun t => decide (p t)) (hq : ∀ t, runList step s as = some t → p t → q t) :
    ∃ t, runList step s as = some t ∧ q t := by
  obtain ⟨t, ht, hp⟩ := (Option.any_eq_true _ _).mp h
  exact ⟨t, ht, hq t ht (of_decide_eq_true hp)⟩

theorem exists_run (as : List α) (p : σ → Prop) [DecidablePred p]
    (h : (runList step s as).any fun t => decide (p t)) (hok : Meets step ok s as)
    (hq : ∀ t, Run (Guarded ok (StepOf step)) s t → p t → q t) :
    ∃ t, Run (Guarded ok (StepOf step)) s t ∧ q t := by
  obtain ⟨t, ht, hp⟩ := exists_runList p h fun t _ hp => hp
  exact ⟨t, run_of_runList ht hok, hq t (run_of_runList ht hok) hp⟩

end Evaluated

end Executable

end Ominull.Lib
