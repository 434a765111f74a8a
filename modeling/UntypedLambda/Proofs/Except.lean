set_option autoImplicit false

/-! What a computation that may fail comes to: the values on the way when it succeeds, and the first
error when it does not. -/

namespace UntypedLambda.Except

variable {ε α β : Type}

theorem exists_of_bind {x : Except ε α} {f : α → Except ε β} {b : β}
    (returned : x >>= f = .ok b) : ∃ a, x = .ok a ∧ f a = .ok b := by
  cases x with
  | error e => cases returned
  | ok a => exact ⟨a, rfl, returned⟩

/-- Steps that may fail with an error succeed as the same steps without errors do. -/
theorem foldlM_eq_ok_iff {σ : Type} {step : σ → α → Except ε σ} {step? : σ → α → Option σ}
    (agree : ∀ state a next, step state a = .ok next ↔ step? state a = some next) (state next : σ)
    (items : List α) :
    items.foldlM step state = .ok next ↔ items.foldlM step? state = some next := by
  induction items generalizing state with
  | nil =>
      change Except.ok state = .ok next ↔ some state = some next
      simp
  | cons item items ih =>
      rw [List.foldlM_cons, List.foldlM_cons]
      cases taken : step? state item with
      | none =>
          cases same : step state item with
          | error e => simp [bind, Except.bind]
          | ok between =>
              rw [agree, taken] at same
              cases same
      | some between =>
          rw [(agree state item between).mpr taken]
          exact ih between

/-- Steps that end in an error get through the items before one, which gives the error. -/
theorem exists_of_foldlM_eq_error {σ : Type} {step : σ → α → Except ε σ} {state : σ}
    {items : List α} {e : ε} (failed : items.foldlM step state = .error e) :
    ∃ before item after next, items = before ++ item :: after ∧
      before.foldlM step state = .ok next ∧ step next item = .error e := by
  induction items generalizing state with
  | nil => cases failed
  | cons item items ih =>
      rw [List.foldlM_cons] at failed
      cases taken : step state item with
      | error e' =>
          rw [taken] at failed
          cases failed
          exact ⟨[], item, items, state, rfl, rfl, taken⟩
      | ok between =>
          rw [taken] at failed
          obtain ⟨before, last, after, next, split, reads, refused⟩ := ih failed
          refine ⟨item :: before, last, after, next, by rw [split, List.cons_append], ?_, refused⟩
          rw [List.foldlM_cons, taken]
          exact reads

def error? : Except ε α → Option ε
  | .error e => some e
  | .ok _ => none

theorem error?_eq_none_iff (x : Except ε α) : error? x = none ↔ ∃ a, x = .ok a := by
  cases x <;> simp [error?]

theorem error?_bind (x : Except ε α) {f : α → Except ε β} (later : Option ε)
    (same : ∀ a, error? (f a) = later) : error? (x >>= f) = (error? x).or later := by
  cases x with
  | error e => rfl
  | ok a => exact same a

theorem error?_map (x : Except ε α) (f : α → β) :
    error? (x >>= fun a => pure (f a)) = error? x := by
  cases x <;> rfl

theorem mapError_bind {ε' : Type} (g : ε → ε') (x : Except ε α) (f : α → Except ε β) :
    (x >>= f).mapError g = x.mapError g >>= fun a => (f a).mapError g := by
  cases x with
  | error e => rfl
  | ok a => rfl

theorem mapError_eq_ok_iff {ε' : Type} {g : ε → ε'} {x : Except ε α} {a : α} :
    x.mapError g = .ok a ↔ x = .ok a := by
  cases x with
  | error e => exact ⟨nofun, nofun⟩
  | ok value =>
      change (Except.ok value : Except ε' α) = .ok a ↔ (Except.ok value : Except ε α) = .ok a
      rw [Except.ok.injEq, Except.ok.injEq]

/-- Computations with the same value, or with errors that are the same up to `g`. -/
theorem mapError_cases {ε' : Type} {g : ε → ε'} {x x' : Except ε α}
    (same : x.mapError g = x'.mapError g) :
    (∃ a, x = .ok a ∧ x' = .ok a) ∨ ∃ e e', x = .error e ∧ x' = .error e' ∧ g e = g e' := by
  cases x with
  | ok a =>
      cases x' with
      | ok a' =>
          cases same
          exact Or.inl ⟨a, rfl, rfl⟩
      | error e' => cases same
  | error e =>
      cases x' with
      | ok a' => cases same
      | error e' => exact Or.inr ⟨e, e', rfl, rfl, Except.error.inj same⟩

end UntypedLambda.Except
