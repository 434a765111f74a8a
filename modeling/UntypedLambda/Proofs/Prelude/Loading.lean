import UntypedLambda.Prelude
import UntypedLambda.Proofs.Resolution.Bare
import UntypedLambda.Proofs.Resolution.Definition
import UntypedLambda.Proofs.Term.Clean

set_option autoImplicit false

/-! What the prelude defines. Every source is the definition of a new name in terms of the names
before it, so the prelude can be loaded with any settings, and each of its names reads as a closed
term that does not depend on them. -/

namespace UntypedLambda

open Surface Term

namespace Prelude

open Nameless

/-! ### The dictionary -/

def identity : Nameless String :=
  .lam (.bound 0)

def selectFirst : Nameless String :=
  abstractions 2 (.bound 1)

def selectSecond : Nameless String :=
  abstractions 2 (.bound 0)

def conditional : Nameless String :=
  abstractions 3 (applications (.bound 2) [.bound 1, .bound 0])

def query (selectors : List (Nameless String)) : Nameless String :=
  abstractions 1 (applications (.bound 0) selectors)

def negation : Nameless String :=
  query [selectSecond, selectFirst]

def conjunction : Nameless String :=
  abstractions 2 (applications (.bound 1) [.bound 0, selectSecond])

def disjunction : Nameless String :=
  abstractions 2 (applications (.bound 1) [selectFirst, .bound 0])

def successor : Nameless String :=
  abstractions 3 (.app (.bound 1) (applications (.bound 2) [.bound 1, .bound 0]))

/-- What the predecessor iterates, where `f` is what a number iterates. A result waits for the
function that it is handed to, so that the first `f` can be left out. -/
def delay (f : Nameless String) : Nameless String :=
  abstractions 2 (.app (.bound 0) (.app (.bound 1) (f.shift 0 2)))

def predecessor : Nameless String :=
  abstractions 3 (applications (.bound 2) [delay (.bound 1), .lam (.bound 1), identity])

def addition : Nameless String :=
  abstractions 4 (applications (.bound 3)
    [.bound 1, applications (.bound 2) [.bound 1, .bound 0]])

def multiplication : Nameless String :=
  abstractions 3 (.app (.bound 2) (.app (.bound 1) (.bound 0)))

def subtraction : Nameless String :=
  abstractions 2 (applications (.bound 0) [predecessor, .bound 1])

def zeroTest : Nameless String :=
  query [.lam selectSecond, selectFirst]

def pairing : Nameless String :=
  abstractions 3 (applications (.bound 0) [.bound 2, .bound 1])

def firstOf : Nameless String :=
  query [selectFirst]

def secondOf : Nameless String :=
  query [selectSecond]

def prepend : Nameless String :=
  abstractions 4 (applications (.bound 1) [.bound 3, .bound 2])

def headOf : Nameless String :=
  query [selectFirst, selectSecond]

def tailOf : Nameless String :=
  query [selectSecond, nil]

def emptyTest : Nameless String :=
  query [abstractions 2 selectSecond, selectFirst]

def selfApplication : Nameless String :=
  .lam (.app (.bound 0) (.bound 0))

def dictionary : List (String × Nameless String) :=
  [("id", identity), ("true", selectFirst), ("false", selectSecond), ("if", conditional),
    ("not", negation), ("and", conjunction), ("or", disjunction), ("succ", successor),
    ("pred", predecessor), ("add", addition), ("mul", multiplication), ("sub", subtraction),
    ("iszero", zeroTest), ("pair", pairing), ("fst", firstOf), ("snd", secondOf), ("nil", nil),
    ("cons", prepend), ("head", headOf), ("tail", tailOf), ("isnil", emptyTest),
    ("turing", knot .turing), ("curry", knot .curry), ("omega", selfApplication)]

/-! ### Sources and entries -/

def states (known : List (String × Nameless String)) (source : String)
    (entry : String × Nameless String) : Bool :=
  match parseProgram source with
  | .ok [.define name body] =>
      name.value == entry.1 && !body.mentions name.value && (known.lookup name.value).isNone &&
        body.occurrences.all (fun occurrence => (known.lookup occurrence.value).isSome) &&
        body.translate (fun name => known.lookup name) [] == entry.2
  | _ => false

def agree (known : List (String × Nameless String)) :
    List String → List (String × Nameless String) → Bool
  | [], [] => true
  | source :: sources, entry :: entries =>
      states known source entry && agree (known ++ [entry]) sources entries
  | _, _ => false

theorem definitions_agree : agree [] definitions dictionary = true := by
  decide +kernel

/-! ### Loading -/

structure Knows (known : List (String × Nameless String)) (context : Context) (supply : Nat) :
    Prop where
  below : context.Below supply
  reading? : ∀ name, context.reading? name = known.lookup name

section Loading

variable {known : List (String × Nameless String)} {context : Context} {supply : Nat}

theorem exists_find? (knows : Knows known context supply) {name : String}
    {meaning : Nameless String} (found : known.lookup name = some meaning) :
    ∃ t, context.find? name = some t ∧ t.namelessByName = meaning := by
  rwa [← knows.reading?, Context.reading?, Option.map_eq_some_iff] at found

theorem contains_eq_false_iff (knows : Knows known context supply) {name : String} :
    context.contains name = false ↔ known.lookup name = none := by
  rw [← knows.reading?, Context.reading?, Option.map_eq_none_iff, Context.contains,
    ← Bool.not_eq_true, Option.not_isSome_iff_eq_none]

theorem isUndefined_eq_false (knows : Knows known context supply) {occurrence : Name}
    (defined : (known.lookup occurrence.value).isSome = true) :
    Resolution.isUndefined context [] occurrence = false := by
  rw [← knows.reading?, Context.reading?, Option.isSome_map] at defined
  simpa [Resolution.isUndefined, Context.contains] using defined

/-- A definition adds its name to those that are known, or gives it a new meaning. -/
theorem Knows.define (knows : Knows known context supply) {t : Term} (below : t.Below supply)
    (name : String) :
    Knows ((name, t.namelessByName) :: known) (context.define name t) supply where
  below := knows.below.define below name
  reading? := by
    intro other
    rw [Context.reading?_define, funext knows.reading?]
    by_cases same : other = name
    · simp [same]
    · have skip : (other == name) = false := beq_eq_false_iff_ne.mpr same
      rw [Function.update_of_ne same, List.lookup_cons, skip]

theorem Knows.mono (knows : Knows known context supply) {later : Nat} (le : supply ≤ later) :
    Knows known context later :=
  ⟨knows.below.mono le, knows.reading?⟩

/-- An expression in known names is resolved, and reads as its translation. -/
theorem exists_resolveTerm (knows : Knows known context supply) (settings : Settings)
    {e plain : Expr} (alike : e.bare = plain)
    (defined : settings.strict = true →
      ∀ occurrence ∈ plain.occurrences, (known.lookup occurrence.value).isSome = true) :
    ∃ t left, resolveTerm context settings e supply = .ok (t, left) ∧ supply ≤ left ∧
      t.Clean left ∧ t.namelessByName = plain.translate (fun name => known.lookup name) [] := by
  obtain rfl := alike
  obtain ⟨t, left, resolved, grown, clean, reads⟩ :=
    Resolution.exists_resolveTerm knows.below settings e.bare fun strict occurrence member =>
      isUndefined_eq_false knows (defined strict occurrence member)
  rw [funext knows.reading?] at reads
  exact ⟨t, left, resolveTerm_bare_eq_ok_iff.mp resolved, grown, clean, reads⟩

theorem lookup_append_singleton (entry : String × Nameless String)
    (new : known.lookup entry.1 = none) (name : String) :
    (known ++ [entry]).lookup name =
      Function.update (fun name => known.lookup name) entry.1 (some entry.2) name := by
  obtain ⟨key, meaning⟩ := entry
  rw [List.lookup_append]
  by_cases same : name = key
  · subst same
    simp [new]
  · have skip : (name == key) = false := by simp [same]
    simp [List.lookup_cons, skip, same]

/-- A source that states an entry adds its definition. -/
theorem exists_definition (knows : Knows known context supply) {source : String}
    {entry : String × Nameless String} (stated : states known source entry = true)
    (settings : Settings) :
    ∃ name body d left, parseProgram source = .ok [.define name body] ∧
      resolveDefinition context settings name.value body supply = .ok (d, left) ∧
      supply ≤ left ∧ Knows (known ++ [entry]) (context.define name.value d) left := by
  unfold states at stated
  split at stated
  case h_2 => cases stated
  rename_i name body parsed
  simp only [Bool.and_eq_true, beq_iff_eq, Bool.not_eq_true', Option.isNone_iff_eq_none,
    List.all_eq_true] at stated
  obtain ⟨⟨⟨⟨named, plain⟩, new⟩, defined⟩, meaning⟩ := stated
  have accepted : ∃ result, resolveDefinition context settings name.value body supply =
      .ok result := by
    rw [resolveDefinition, if_neg (Bool.eq_false_iff.mp plain)]
    exact (Resolution.exists_resolve_iff body [] supply).mpr fun _ occurrence member =>
      isUndefined_eq_false knows (defined occurrence member)
  obtain ⟨⟨d, left⟩, resolved⟩ := accepted
  obtain ⟨grown, minted⟩ := resolveDefinition_minted knows.below resolved
  have below : d.Below left := minted.below fun _ old => Nat.lt_of_lt_of_le old grown
  have reads := resolveDefinition_reads knows.below resolved
  rw [if_neg (Bool.eq_false_iff.mp plain), funext knows.reading?, meaning] at reads
  refine ⟨name, body, d, left, parsed, resolved, grown, (knows.below.mono grown).define below _, ?_⟩
  intro other
  rw [named] at new
  rw [Context.reading?_define, lookup_append_singleton entry new, reads, funext knows.reading?,
    named]

/-- Sources that agree with entries can be added, and their definitions read as the entries. -/
theorem exists_addSources (knows : Knows known context supply) {sources : List String}
    {entries : List (String × Nameless String)} (agreed : agree known sources entries = true)
    (settings : Settings) :
    ∃ context' supply', addSources settings sources context supply = .ok (context', supply') ∧
      supply ≤ supply' ∧ Knows (known ++ entries) context' supply' := by
  induction sources generalizing known context supply entries with
  | nil =>
      cases entries with
      | nil => exact ⟨context, supply, rfl, Nat.le_refl supply, by rwa [List.append_nil]⟩
      | cons entry entries => cases agreed
  | cons source sources ih =>
      cases entries with
      | nil => cases agreed
      | cons entry entries =>
          obtain ⟨here, later⟩ := Bool.and_eq_true_iff.mp agreed
          obtain ⟨name, body, d, left, parsed, resolved, grown, knows'⟩ :=
            exists_definition knows here settings
          obtain ⟨context', supply', added, grown', knows''⟩ := ih knows' later
          refine ⟨context', supply', ?_, Nat.le_trans grown grown', ?_⟩
          · simpa [addSources, parsed, addAll, resolved, bind, Except.bind] using added
          · rwa [List.append_assoc] at knows''

end Loading

/-- The prelude can be loaded with any settings and from any supply, and its names read as the
dictionary says. -/
theorem exists_load (settings : Settings) (start : Nat) :
    ∃ context supply, load settings start = .ok (context, supply) ∧ start ≤ supply ∧
      Knows dictionary context supply := by
  have nothing : Knows [] .empty start :=
    ⟨fun _ member => (List.not_mem_nil member).elim, fun _ => rfl⟩
  exact exists_addSources nothing definitions_agree settings

end Prelude

end UntypedLambda
