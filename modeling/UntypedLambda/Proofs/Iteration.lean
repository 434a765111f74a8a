import Mathlib.Logic.Relation

set_option autoImplicit false

/-! Iteration of a partial step function. A view of the states under which the steps look like those
of another function turns runs of the one into runs of the other. When steps of a second kind never
bring back one of the first, a run that prefers the first kind has a phase of each. -/

namespace UntypedLambda.Iteration

variable {σ τ : Type} {next? : σ → Option σ}

def after? (next? : σ → Option σ) : Nat → σ → Option σ
  | 0, state => some state
  | count + 1, state => (next? state).bind (after? next? count)

/-- The states that at most `limit` steps lead to, from the one after the first step on. -/
def trail (next? : σ → Option σ) : Nat → σ → List σ
  | 0, _ => []
  | limit + 1, state =>
      match next? state with
      | none => []
      | some next => next :: trail next? limit next

structure Halts (next? : σ → Option σ) (start : σ) (count : Nat) (final : σ) : Prop where
  reached : after? next? count start = some final
  stuck : next? final = none

/-! ### Steps -/

theorem after?_succ {state next : σ} (step : next? state = some next) (count : Nat) :
    after? next? (count + 1) state = after? next? count next := by
  rw [after?, step, Option.bind_some]

theorem after?_succ_of_none {state : σ} (stuck : next? state = none) (count : Nat) :
    after? next? (count + 1) state = none := by
  rw [after?, stuck, Option.bind_none]

theorem after?_add (first second : Nat) (state : σ) :
    after? next? (first + second) state =
      (after? next? first state).bind (after? next? second) := by
  induction first generalizing state with
  | zero => rw [Nat.zero_add, after?, Option.bind_some]
  | succ first ih =>
      rw [Nat.succ_add]
      cases step : next? state with
      | none => rw [after?_succ_of_none step, after?_succ_of_none step, Option.bind_none]
      | some next => rw [after?_succ step, after?_succ step, ih]

/-- The trail shows the state after every number of steps up to the limit. -/
theorem getElem?_trail (limit index : Nat) (state : σ) :
    (state :: trail next? limit state)[index]? =
      if index ≤ limit then after? next? index state else none := by
  induction limit generalizing index state with
  | zero =>
      cases index with
      | zero => rfl
      | succ index => rfl
  | succ limit ih =>
      cases index with
      | zero => rfl
      | succ index =>
          rw [List.getElem?_cons_succ, trail]
          simp only [Nat.succ_le_succ_iff]
          cases step : next? state with
          | none => rw [after?_succ_of_none step, ite_self, List.getElem?_nil]
          | some next => rw [after?_succ step, ih]

/-- A property that every step keeps holds after any number of steps. -/
theorem after?_keeps {P : σ → Prop}
    (kept : ∀ {state next}, P state → next? state = some next → P next) {count : Nat}
    {start final : σ} (holds : P start) (reached : after? next? count start = some final) :
    P final := by
  induction count generalizing start with
  | zero =>
      cases reached
      exact holds
  | succ count ih =>
      obtain ⟨next, step, rest⟩ := Option.bind_eq_some_iff.mp reached
      exact ih (kept holds step) rest

/-- The states that steps lead to are those after some number of steps. -/
theorem reflTransGen_iff_after? {start final : σ} :
    Relation.ReflTransGen (fun state next => next? state = some next) start final ↔
      ∃ count, after? next? count start = some final := by
  constructor
  · intro steps
    induction steps using Relation.ReflTransGen.head_induction_on with
    | refl => exact ⟨0, rfl⟩
    | head step _ ih =>
        obtain ⟨count, reached⟩ := ih
        exact ⟨count + 1, (after?_succ step count).trans reached⟩
  · rintro ⟨count, reached⟩
    induction count generalizing start with
    | zero =>
        cases reached
        exact .refl
    | succ count ih =>
        obtain ⟨next, step, rest⟩ := Option.bind_eq_some_iff.mp reached
        exact .head step (ih rest)

/-- Steps that another function makes as well lead to the same states under it. -/
theorem after?_of_imp {other? : σ → Option σ}
    (same : ∀ {state next}, next? state = some next → other? state = some next)
    {count : Nat} {start final : σ} (reached : after? next? count start = some final) :
    after? other? count start = some final := by
  induction count generalizing start with
  | zero => exact reached
  | succ count ih =>
      obtain ⟨next, step, rest⟩ := Option.bind_eq_some_iff.mp reached
      rw [after?_succ (same step)]
      exact ih rest

/-- A run of at most `limit` steps stops at the limit or where there is no further step. -/
theorem exists_stop (next? : σ → Option σ) (limit : Nat) (start : σ) :
    ∃ count final, count ≤ limit ∧ after? next? count start = some final ∧
      (count = limit ∨ next? final = none) := by
  induction limit generalizing start with
  | zero => exact ⟨0, start, Nat.le_refl 0, rfl, Or.inl rfl⟩
  | succ limit ih =>
      cases step : next? start with
      | none => exact ⟨0, start, Nat.zero_le _, rfl, Or.inr step⟩
      | some next =>
          obtain ⟨count, final, le, reached, stop⟩ := ih next
          exact ⟨count + 1, final, Nat.succ_le_succ le, (after?_succ step count).trans reached,
            stop.imp_left (congrArg Nat.succ)⟩

/-! ### Runs that end -/

namespace Halts

variable {start next final : σ} {count : Nat}

theorem nothing (stuck : next? start = none) : Halts next? start 0 start :=
  ⟨rfl, stuck⟩

theorem head (step : next? start = some next) (rest : Halts next? next count final) :
    Halts next? start (count + 1) final :=
  ⟨(after?_succ step count).trans rest.reached, rest.stuck⟩

theorem eq_start (halts : Halts next? start 0 final) : start = final ∧ next? start = none := by
  obtain ⟨reached, stuck⟩ := halts
  cases reached
  exact ⟨rfl, stuck⟩

theorem exists_next (halts : Halts next? start (count + 1) final) :
    ∃ next, next? start = some next ∧ Halts next? next count final := by
  obtain ⟨next, step, reached⟩ := Option.bind_eq_some_iff.mp halts.reached
  exact ⟨next, step, reached, halts.stuck⟩

end Halts

/-- Steps that make a size smaller by a fixed amount come to an end, and how much smaller it is at
the end counts them. -/
theorem exists_halts (size : σ → Nat) {amount : Nat} (positive : 0 < amount)
    (drop : ∀ {state next}, next? state = some next → size next + amount = size state) (start : σ) :
    ∃ count final, Halts next? start count final ∧ size final + amount * count = size start := by
  induction measure : size start using Nat.strongRecOn generalizing start with
  | ind _ ih =>
      cases step : next? start with
      | none => exact ⟨0, start, .nothing step, measure⟩
      | some next =>
          have smaller := drop step
          obtain ⟨count, final, halts, total⟩ := ih (size next) (by omega) next rfl
          refine ⟨count + 1, final, .head step halts, ?_⟩
          rw [Nat.mul_succ]
          omega

/-! ### Views of the states -/

/-- Under a view of the states that satisfy `P`, the steps of one function look like the steps of
another. -/
structure Views (P : σ → Prop) (view : σ → τ) (next? : σ → Option σ) (shown? : τ → Option τ) :
    Prop where
  kept : ∀ {state next}, P state → next? state = some next → P next
  same : ∀ {state}, P state → (next? state).map view = shown? (view state)

namespace Views

variable {P : σ → Prop} {view : σ → τ} {shown? : τ → Option τ}

theorem after? (views : Views P view next? shown?) (count : Nat) (start : σ) (holds : P start) :
    (after? next? count start).map view = Iteration.after? shown? count (view start) := by
  induction count generalizing start with
  | zero => rfl
  | succ count ih =>
      have shown := views.same holds
      cases step : next? start with
      | none =>
          rw [step, Option.map_none] at shown
          rw [after?_succ_of_none step, after?_succ_of_none shown.symm, Option.map_none]
      | some next =>
          rw [step, Option.map_some] at shown
          rw [after?_succ step, after?_succ shown.symm, ih next (views.kept holds step)]

theorem halts (views : Views P view next? shown?) {start final : σ} {count : Nat}
    (holds : P start) (halts : Halts next? start count final) :
    Halts shown? (view start) count (view final) where
  reached := by rw [← views.after? count start holds, halts.reached, Option.map_some]
  stuck := by
    rw [← views.same (after?_keeps views.kept holds halts.reached), halts.stuck, Option.map_none]

theorem exists_halts (views : Views P view next? shown?) (start : σ) (holds : P start)
    {shown : τ} {count : Nat} (halts : Halts shown? (view start) count shown) :
    ∃ final, view final = shown ∧ Halts next? start count final := by
  have reached := halts.reached
  rw [← views.after? count start holds, Option.map_eq_some_iff] at reached
  obtain ⟨final, reached, rfl⟩ := reached
  refine ⟨final, rfl, reached, ?_⟩
  rw [← Option.map_eq_none_iff, views.same (after?_keeps views.kept holds reached)]
  exact halts.stuck

end Views

/-! ### Two kinds of steps -/

def prefer (first? second? : σ → Option σ) (state : σ) : Option σ :=
  (first? state).or (second? state)

section Prefer

variable {first? second? : σ → Option σ}

theorem prefer_of_some {state next : σ} (step : first? state = some next) :
    prefer first? second? state = some next := by
  rw [prefer, step, Option.some_or]

theorem prefer_of_none {state : σ} (none : first? state = none) :
    prefer first? second? state = second? state := by
  rw [prefer, none, Option.none_or]

section Phases

variable (kept : ∀ {state next}, first? state = none → second? state = some next →
  first? next = none)

include kept

/-- Where there is no step of the first kind, there is none later either: the steps are those of
the second kind. -/
theorem views_second :
    Views (fun state => first? state = none) id (prefer first? second?) second? where
  kept := fun used step => kept used ((prefer_of_none used).symm.trans step)
  same := fun used => by rw [Option.map_id_apply, prefer_of_none used, id]

theorem halts_prefer_of_none {start final : σ} {count : Nat} (used : first? start = none) :
    Halts (prefer first? second?) start count final ↔ Halts second? start count final := by
  constructor
  · exact (views_second kept).halts used
  · intro second
    obtain ⟨_, rfl, halts⟩ := (views_second kept).exists_halts start used second
    exact halts

/-- A run that prefers the first kind ends exactly when it makes steps of the first kind until there
is none, and then steps of the second kind until there is none. -/
theorem halts_prefer_iff {start final : σ} {count : Nat} :
    Halts (prefer first? second?) start count final ↔
      ∃ before later middle, count = before + later ∧ Halts first? start before middle ∧
        Halts second? middle later final := by
  constructor
  · intro halts
    induction count generalizing start with
    | zero =>
        obtain ⟨rfl, stuck⟩ := halts.eq_start
        obtain ⟨noFirst, noSecond⟩ := Option.or_eq_none_iff.mp stuck
        exact ⟨0, 0, start, rfl, .nothing noFirst, .nothing noSecond⟩
    | succ count ih =>
        cases atStart : first? start with
        | none =>
            exact ⟨0, count + 1, start, (Nat.zero_add _).symm, .nothing atStart,
              (halts_prefer_of_none kept atStart).mp halts⟩
        | some next =>
            obtain ⟨other, step, rest⟩ := halts.exists_next
            rw [prefer_of_some atStart, Option.some.injEq] at step
            obtain ⟨before, later, middle, total, first, second⟩ := ih (step ▸ rest)
            exact ⟨before + 1, later, middle, by omega, .head atStart first, second⟩
  · rintro ⟨before, later, middle, rfl, first, second⟩
    induction before generalizing start with
    | zero =>
        obtain ⟨rfl, used⟩ := first.eq_start
        rw [Nat.zero_add]
        exact (halts_prefer_of_none kept used).mpr second
    | succ before ih =>
        obtain ⟨next, step, rest⟩ := first.exists_next
        rw [Nat.succ_add]
        exact .head (prefer_of_some step) (ih rest)

end Phases

end Prefer

end UntypedLambda.Iteration
