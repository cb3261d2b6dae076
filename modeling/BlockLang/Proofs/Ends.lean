import BlockLang.Step

/-!
# How a step ends

`Ends p s Q E` says how the step `p` ends when it starts from the state `s`: with a
result and a state that satisfy `Q`, or with a reason and a state that satisfy `E`.
With `E` never satisfied, `p` gives a result; with `E` always satisfied, `Q` holds of
the result if there is one.

The rules below follow the ways in which steps are put together, so that what a
step does can be said once, and used wherever the step is a part.
-/

namespace BlockLang.StepM

variable {ε σ α β : Type} {p : StepM ε σ α} {f : α → StepM ε σ β} {s : σ}

/-- Run from `s`, the step ends with a result as `Q` says, or stops as `E` says. -/
def Ends (p : StepM ε σ α) (s : σ) (Q : α → σ → Prop) (E : ε → σ → Prop) : Prop :=
  match runFrom p s with
  | (.ok a, s') => Q a s'
  | (.error e, s') => E e s'

theorem Ends.of_ok {Q : α → σ → Prop} {E : ε → σ → Prop} {a : α} {s' : σ} (h : Ends p s Q E)
    (hr : runFrom p s = (.ok a, s')) : Q a s' := by
  rw [Ends, hr] at h
  exact h

theorem Ends.of_error {Q : α → σ → Prop} {E : ε → σ → Prop} {e : ε} {s' : σ} (h : Ends p s Q E)
    (hr : runFrom p s = (.error e, s')) : E e s' := by
  rw [Ends, hr] at h
  exact h

theorem Ends.exists_ok {Q : α → σ → Prop} (h : Ends p s Q (fun _ _ => False)) :
    ∃ a s', runFrom p s = (.ok a, s') ∧ Q a s' := by
  unfold Ends at h
  rcases hr : runFrom p s with ⟨_ | a, s'⟩
  · rw [hr] at h
    exact h.elim
  · rw [hr] at h
    exact ⟨a, s', rfl, h⟩

theorem Ends.mono {Q Q' : α → σ → Prop} {E E' : ε → σ → Prop} (h : Ends p s Q E)
    (hQ : ∀ a s', Q a s' → Q' a s') (hE : ∀ e s', E e s' → E' e s') : Ends p s Q' E' := by
  unfold Ends at h ⊢
  split at h
  · exact hQ _ _ h
  · exact hE _ _ h

/-- **One step after the other.**  The second starts where the first ended. -/
theorem Ends.bind {Q : α → σ → Prop} {E : ε → σ → Prop} {Q' : β → σ → Prop} {E' : ε → σ → Prop}
    (h : Ends p s Q E) (hQ : ∀ a s', Q a s' → Ends (f a) s' Q' E') (hE : ∀ e s', E e s' → E' e s') :
    Ends (p >>= f) s Q' E' := by
  unfold Ends at h ⊢
  rw [runFrom_bind]
  rcases hr : runFrom p s with ⟨_ | a, s'⟩
  · rw [hr] at h
    exact hE _ _ h
  · rw [hr] at h
    exact hQ a s' h

theorem Ends.andThen {Q : α → σ → Prop} {Q' : β → σ → Prop} {E' : ε → σ → Prop}
    (h : Ends p s Q (fun _ _ => False)) (hQ : ∀ a s', Q a s' → Ends (f a) s' Q' E') :
    Ends (p >>= f) s Q' E' :=
  h.bind hQ (fun _ _ hf => hf.elim)

/-- **Going on after a stop.**  The handler starts where the step stopped. -/
theorem Ends.tryCatch {Q Q' : α → σ → Prop} {E E' : ε → σ → Prop} {h : ε → StepM ε σ α}
    (hp : Ends p s Q E) (hQ : ∀ a s', Q a s' → Q' a s')
    (hE : ∀ e s', E e s' → Ends (h e) s' Q' E') :
    Ends (MonadExcept.tryCatch p h) s Q' E' := by
  unfold Ends at hp ⊢
  rw [runFrom_tryCatch]
  rcases hr : runFrom p s with ⟨e | a, s'⟩
  · rw [hr] at hp
    exact hE e s' hp
  · rw [hr] at hp
    exact hQ a s' hp

@[simp] theorem ends_pure {Q : α → σ → Prop} {E : ε → σ → Prop} {a : α} :
    Ends (pure a : StepM ε σ α) s Q E ↔ Q a s := Iff.rfl

@[simp] theorem ends_throw {Q : α → σ → Prop} {E : ε → σ → Prop} {e : ε} :
    Ends (throw e : StepM ε σ α) s Q E ↔ E e s := Iff.rfl

@[simp] theorem ends_get {Q : σ → σ → Prop} {E : ε → σ → Prop} :
    Ends (get : StepM ε σ σ) s Q E ↔ Q s s := Iff.rfl

@[simp] theorem ends_set {Q : PUnit → σ → Prop} {E : ε → σ → Prop} {s' : σ} :
    Ends (set s' : StepM ε σ PUnit) s Q E ↔ Q ⟨⟩ s' := Iff.rfl

@[simp] theorem ends_modify {Q : PUnit → σ → Prop} {E : ε → σ → Prop} {g : σ → σ} :
    Ends (modify g : StepM ε σ PUnit) s Q E ↔ Q ⟨⟩ (g s) := Iff.rfl

@[simp] theorem ends_modifyGet {Q : α → σ → Prop} {E : ε → σ → Prop} {g : σ → α × σ} :
    Ends (modifyGet g : StepM ε σ α) s Q E ↔ Q (g s).1 (g s).2 := Iff.rfl

theorem ends_bind {Q : β → σ → Prop} {E : ε → σ → Prop} :
    Ends (p >>= f) s Q E ↔ Ends p s (fun a s' => Ends (f a) s' Q E) E := by
  unfold Ends
  rw [runFrom_bind]
  rcases runFrom p s with ⟨_ | a, s'⟩
  · exact Iff.rfl
  · exact Iff.rfl

theorem ends_iff {Q : α → σ → Prop} {E : ε → σ → Prop} :
    Ends p s Q E ↔ (∃ a s', runFrom p s = (.ok a, s') ∧ Q a s')
      ∨ ∃ e s', runFrom p s = (.error e, s') ∧ E e s' := by
  unfold Ends
  rcases runFrom p s with ⟨e | a, s'⟩
  · refine ⟨fun h => .inr ⟨e, s', rfl, h⟩, ?_⟩
    rintro (⟨_, _, hr, -⟩ | ⟨_, _, hr, h⟩)
    · exact absurd hr (by simp)
    · obtain ⟨rfl, rfl⟩ : e = _ ∧ s' = _ := by simpa using hr
      exact h
  · refine ⟨fun h => .inl ⟨a, s', rfl, h⟩, ?_⟩
    rintro (⟨_, _, hr, h⟩ | ⟨_, _, hr, -⟩)
    · obtain ⟨rfl, rfl⟩ : a = _ ∧ s' = _ := by simpa using hr
      exact h
    · exact absurd hr (by simp)

/-- What holds of the state in both cases holds of the state afterwards. -/
theorem ends_snd {P : σ → Prop} :
    Ends p s (fun _ s' => P s') (fun _ s' => P s') ↔ P (runFrom p s).2 := by
  unfold Ends
  rcases runFrom p s with ⟨_ | a, s'⟩
  · exact Iff.rfl
  · exact Iff.rfl

theorem exists_runFrom {r : Except ε α} (h : (runFrom p s).1 = r) :
    ∃ s', runFrom p s = (r, s') :=
  ⟨(runFrom p s).2, Prod.ext h rfl⟩

theorem ends_trivial (p : StepM ε σ α) (s : σ) : Ends p s (fun _ _ => True) (fun _ _ => True) := by
  unfold Ends
  split <;> trivial

theorem Ends.and {Q Q' : α → σ → Prop} {E E' : ε → σ → Prop} (h : Ends p s Q E)
    (h' : Ends p s Q' E') :
    Ends p s (fun a s' => Q a s' ∧ Q' a s') (fun e s' => E e s' ∧ E' e s') := by
  unfold Ends at h h' ⊢
  rcases hr : runFrom p s with ⟨_ | a, s'⟩
  · rw [hr] at h h'
    exact ⟨h, h'⟩
  · rw [hr] at h h'
    exact ⟨h, h'⟩

/-- What holds of the end of a step may be said together with its run. -/
theorem Ends.run {Q : α → σ → Prop} {E : ε → σ → Prop} (h : Ends p s Q E) :
    Ends p s (fun a s' => Q a s' ∧ runFrom p s = (.ok a, s')) E := by
  rcases ends_iff.1 h with ⟨a, s', hr, hQ⟩ | ⟨e, s', hr, hE⟩
  · exact ends_iff.2 (.inl ⟨a, s', hr, hQ, hr⟩)
  · exact ends_iff.2 (.inr ⟨e, s', hr, hE⟩)

-- From here on a step is opened by the rules only, never by running it.
attribute [irreducible] Ends

end BlockLang.StepM
