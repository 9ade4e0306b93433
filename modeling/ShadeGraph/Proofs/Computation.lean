/-
  Computations that may fail, and what is known when they do not.
-/
namespace ShadeGraph

/-- A computation in two steps gives a result if both steps do. -/
theorem bind_eq_ok {ε α β : Type} {x : Except ε α} {f : α → Except ε β} {b : β} :
    (x >>= f) = .ok b ↔ ∃ a, x = .ok a ∧ f a = .ok b := by
  cases x with
  | error e => simp [bind, Except.bind]
  | ok a => simp [bind, Except.bind]

/-- A run that ends in a value ended in one before, which was then changed. -/
theorem bind_pure_eq_ok {ε α β : Type} {x : Except ε α} {f : α → β} {b : β} :
    (x >>= fun a => pure (f a)) = .ok b ↔ ∃ a, x = .ok a ∧ f a = b := by
  simp only [bind_eq_ok, pure, Except.pure, Except.ok.injEq]

/-- Steps that agree up to maps of their results make computations that do. -/
theorem map_bind_eq {ε α β γ δ : Type} {x : Except ε α} {φ : α → β} {ψ : γ → δ} {f : α → Except ε γ}
    {g : β → Except ε δ} (h : ∀ a, x = .ok a → g (φ a) = (f a).map ψ) :
    (x.map φ >>= g) = (x >>= f).map ψ := by
  cases x with
  | error e => rfl
  | ok a => exact h a rfl

/-- If each step commutes with a change of states and inputs, so does a run. -/
theorem foldlM_map_eq {ε α β σ τ : Type} {φ : α → β} {ψ : σ → τ} {step : σ → α → Except ε σ}
    {step' : τ → β → Except ε τ} (h : ∀ s a, step' (ψ s) (φ a) = (step s a).map ψ) (as : List α) (s : σ) :
    (as.map φ).foldlM step' (ψ s) = (as.foldlM step s).map ψ := by
  induction as generalizing s with
  | nil => rfl
  | cons a as ih =>
    rw [List.map_cons, List.foldlM_cons, List.foldlM_cons, h s a]
    exact map_bind_eq fun t _ => ih t

/-- Two computations whose results look alike fail with one error, or both give results that look alike. -/
theorem map_eq_map_cases {ε α β : Type} {x x' : Except ε α} {φ : α → β} (h : x.map φ = x'.map φ) :
    (∃ e, x = .error e ∧ x' = .error e) ∨ ∃ a a', x = .ok a ∧ x' = .ok a' ∧ φ a = φ a' := by
  cases x with
  | error e =>
    cases x' with
    | error e' => exact .inl ⟨e, rfl, congrArg Except.error (Except.error.inj h).symm⟩
    | ok a' => cases h
  | ok a =>
    cases x' with
    | error e' => cases h
    | ok a' => exact .inr ⟨a, a', rfl, rfl, Except.ok.inj h⟩

/-- Two computations whose first results look alike, and whose next steps then do, have results that look
alike. -/
theorem map_bind_congr {ε α β γ δ : Type} {x x' : Except ε α} {φ : α → β} {ψ : γ → δ}
    {f f' : α → Except ε γ} (hx : x.map φ = x'.map φ)
    (h : ∀ a a', x = .ok a → x' = .ok a' → φ a = φ a' → (f a).map ψ = (f' a').map ψ) :
    (x >>= f).map ψ = (x' >>= f').map ψ := by
  rcases map_eq_map_cases hx with ⟨e, rfl, rfl⟩ | ⟨a, a', rfl, rfl, ha⟩
  · rfl
  · exact h a a' rfl rfl ha

/-- Two runs over lists that look alike, from states that do. -/
theorem foldlM_map_congr {ε α β σ τ : Type} {φ : α → β} {ψ : σ → τ} {step step' : σ → α → Except ε σ}
    {as as' : List α} (hlist : as.map φ = as'.map φ)
    (h : ∀ a ∈ as, ∀ a' s s', φ a = φ a' → ψ s = ψ s' → (step s a).map ψ = (step' s' a').map ψ) :
    ∀ s s', ψ s = ψ s' → (as.foldlM step s).map ψ = (as'.foldlM step' s').map ψ := by
  induction as generalizing as' with
  | nil =>
    cases as' with
    | nil => exact fun s s' hs => congrArg Except.ok hs
    | cons a' as' => cases hlist
  | cons a as ih =>
    cases as' with
    | nil => cases hlist
    | cons a' as' =>
      intro s s' hs
      obtain ⟨ha, hrest⟩ := List.cons.inj hlist
      obtain ⟨hfirst, hothers⟩ := List.forall_mem_cons.mp h
      rw [List.foldlM_cons, List.foldlM_cons]
      exact map_bind_congr (hfirst a' s s' ha hs) fun t t' _ _ ht => ih hrest hothers t t' ht

/-- Runs whose steps agree on all items agree. -/
theorem foldlM_congr {ε σ α : Type} {f f' : σ → α → Except ε σ} {as : List α}
    (h : ∀ a ∈ as, ∀ s, f s a = f' s a) : ∀ s, as.foldlM f s = as.foldlM f' s := by
  induction as with
  | nil => intro s; rfl
  | cons a as ih =>
    obtain ⟨hfirst, hothers⟩ := List.forall_mem_cons.mp h
    intro s
    rw [List.foldlM_cons, List.foldlM_cons, hfirst s]
    exact congrArg _ (funext fun t => ih hothers t)

/-- What every step keeps, a run keeps. -/
theorem foldlM_invariant {ε α σ : Type} {P : σ → Prop} {step : σ → α → Except ε σ} {as : List α}
    (hstep : ∀ a ∈ as, ∀ s t, P s → step s a = .ok t → P t) {s t : σ} (hs : P s)
    (h : as.foldlM step s = .ok t) : P t := by
  induction as generalizing s with
  | nil => cases h; exact hs
  | cons a as ih =>
    obtain ⟨hfirst, hothers⟩ := List.forall_mem_cons.mp hstep
    rw [List.foldlM_cons] at h
    obtain ⟨u, hu, h⟩ := bind_eq_ok.mp h
    exact ih hothers (hfirst s u hs hu) h

end ShadeGraph
