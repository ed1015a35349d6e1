namespace LiveDoc.Action

variable {ε σ α β : Type}

-- Runs of computations that may fail and keep what they have done to the state also then.
theorem run_bind_of_ok {m : ExceptT ε (StateM σ) α} {f : α → ExceptT ε (StateM σ) β} {s s' : σ}
    {a : α} (h : m.run s = (.ok a, s')) : (m >>= f).run s = (f a).run s' := by
  rw [ExceptT.run_bind]
  simp [bind, StateT.bind, h]

theorem run_bind_of_error {m : ExceptT ε (StateM σ) α} {f : α → ExceptT ε (StateM σ) β} {s s' : σ}
    {e : ε} (h : m.run s = (.error e, s')) : (m >>= f).run s = (.error e, s') := by
  rw [ExceptT.run_bind]
  simp [bind, StateT.bind, h]
  rfl

-- What a run of two steps tells of each of them.
theorem run_bind_eq_ok {m : ExceptT ε (StateM σ) α} {f : α → ExceptT ε (StateM σ) β} {s s' : σ}
    {b : β} (h : (m >>= f).run s = (.ok b, s')) :
    ∃ a middle, m.run s = (.ok a, middle) ∧ (f a).run middle = (.ok b, s') := by
  rcases hm : m.run s with ⟨e | a, middle⟩
  · rw [run_bind_of_error hm] at h
    cases h
  · rw [run_bind_of_ok hm] at h
    exact ⟨a, middle, rfl, h⟩

theorem run_bind_eq_error {m : ExceptT ε (StateM σ) α} {f : α → ExceptT ε (StateM σ) β} {s s' : σ}
    {e : ε} (h : (m >>= f).run s = (.error e, s')) :
    m.run s = (.error e, s') ∨
      ∃ a middle, m.run s = (.ok a, middle) ∧ (f a).run middle = (.error e, s') := by
  rcases hm : m.run s with ⟨e' | a, middle⟩
  · rw [run_bind_of_error hm] at h
    cases h
    exact .inl rfl
  · rw [run_bind_of_ok hm] at h
    exact .inr ⟨a, middle, rfl, h⟩

-- Two steps do the same as two others, if the second ones do where the first ones lead.
theorem run_bind_congr {m m' : ExceptT ε (StateM σ) α} {f g : α → ExceptT ε (StateM σ) β} {s : σ}
    (hm : m.run s = m'.run s)
    (hf : ∀ a middle, m.run s = (.ok a, middle) → (f a).run middle = (g a).run middle) :
    (m >>= f).run s = (m' >>= g).run s := by
  rcases hrun : m.run s with ⟨e | a, middle⟩
  · rw [run_bind_of_error hrun, run_bind_of_error (hm.symm.trans hrun)]
  · rw [run_bind_of_ok hrun, run_bind_of_ok (hm.symm.trans hrun), hf a middle hrun]

@[simp] theorem run_pure (a : α) (s : σ) :
    (pure a : ExceptT ε (StateM σ) α).run s = (.ok a, s) := rfl

@[simp] theorem run_throw (e : ε) (s : σ) :
    (throw e : ExceptT ε (StateM σ) α).run s = (.error e, s) := rfl

@[simp] theorem run_get (s : σ) : (get : ExceptT ε (StateM σ) σ).run s = (.ok s, s) := rfl

@[simp] theorem run_set (s s' : σ) :
    (set s' : ExceptT ε (StateM σ) PUnit).run s = (.ok ⟨⟩, s') := rfl

@[simp] theorem run_modify (f : σ → σ) (s : σ) :
    (modify f : ExceptT ε (StateM σ) PUnit).run s = (.ok ⟨⟩, f s) := rfl

@[simp] theorem run_liftM (r : Except ε α) (s : σ) :
    (liftM r : ExceptT ε (StateM σ) α).run s = (r, s) := by
  cases r <;> rfl

-- Whether there is a result can be computed where the result itself would be too long to write down.
theorem exists_ok_of_isOk {result : Except ε α} (h : result.isOk = true) :
    ∃ a, result = .ok a := by
  cases result with
  | ok a => exact ⟨a, rfl⟩
  | error error => cases h

theorem exists_error_of_isOk {result : Except ε α} (h : result.isOk = false) :
    ∃ error, result = .error error := by
  cases result with
  | ok a => cases h
  | error error => exact ⟨error, rfl⟩

-- What comes of two computations that take the same course: both fail, the second one with the error
-- of the first one moved, or both have results, which are related.
inductive Follows {ε ε' α β : Type} (move : ε → ε') (R : α → β → Prop) :
    Except ε α → Except ε' β → Prop
  | ok {a : α} {b : β} : R a b → Follows move R (.ok a) (.ok b)
  | error (error : ε) : Follows move R (.error error) (.error (move error))

section Follows

variable {ε ε' α β γ δ : Type} {move : ε → ε'} {R : α → β → Prop} {S : γ → δ → Prop}
  {result : Except ε α} {later : Except ε' β}

theorem Follows.bind {next : α → Except ε γ} {nextLater : β → Except ε' δ}
    (h : Follows move R result later)
    (hnext : ∀ a b, R a b → Follows move S (next a) (nextLater b)) :
    Follows move S (result >>= next) (later >>= nextLater) := by
  cases h with
  | ok hab => exact hnext _ _ hab
  | error error => exact .error error

theorem Follows.map {f : α → γ} {g : β → δ} (h : Follows move R result later)
    (hfg : ∀ a b, R a b → S (f a) (g b)) : Follows move S (result.map f) (later.map g) := by
  cases h with
  | ok hab => exact .ok (hfg _ _ hab)
  | error error => exact .error error

-- Two runs over lists take the same course, if their steps do.
theorem follows_foldlM {step : α → γ → Except ε α} {stepLater : β → δ → Except ε' β}
    {moved : γ → δ} {xs : List γ}
    (hstep : ∀ x ∈ xs, ∀ a b, R a b → Follows move R (step a x) (stepLater b (moved x)))
    {a : α} {b : β} (h : R a b) :
    Follows move R (xs.foldlM step a) ((xs.map moved).foldlM stepLater b) := by
  induction xs generalizing a b with
  | nil => exact .ok h
  | cons x rest ih =>
      obtain ⟨hfirst, hmore⟩ := List.forall_mem_cons.mp hstep
      rw [List.map_cons, List.foldlM_cons, List.foldlM_cons]
      exact (hfirst a b h).bind fun _ _ hnext => ih hmore hnext

end Follows

end LiveDoc.Action
