import UntypedLambda.Proofs.Resolution.Identities
import UntypedLambda.Proofs.Session.History
import UntypedLambda.Proofs.Term.Clean

set_option autoImplicit false

/-! The identities of whole sessions. Each request takes the binders of what it builds from the
supply that earlier requests have left, so all terms of a session are clean and no two of them share
a binder. -/

namespace UntypedLambda.Session

open Surface Term Relation

structure Unique (session : Session) (built : List Term) : Prop where
  definitions : ∀ entry ∈ session.context.entries, entry.2.Clean session.supply
  terms : ∀ t ∈ built, t.Clean session.supply
  apart : built.Pairwise Apart

namespace Unique

variable {session after : Session} {built : List Term}

theorem known (unique : Unique session built) : session.context.Below session.supply :=
  fun entry member => (unique.definitions entry member).below

theorem initial (settings : Settings) : Unique (initial settings) [] where
  definitions := fun _ none => nomatch none
  terms := fun _ none => nomatch none
  apart := .nil

/-- What one request adds: a term with binders from the supply, which may become a definition. -/
theorem extend (unique : Unique session built) {t : Term} {left : Nat}
    (grown : session.supply ≤ left)
    (minted : Minted (Set.Iio session.supply) (Set.Ico session.supply left) t)
    (le : left ≤ after.supply)
    (source : ∀ entry ∈ after.context.entries, entry.2 = t ∨ entry ∈ session.context.entries) :
    Unique after (built ++ [t]) where
  definitions := by
    intro entry member
    rcases source entry member with same | old
    · rw [same]
      exact (minted.clean grown).mono le
    · exact (unique.definitions entry old).mono (Nat.le_trans grown le)
  terms := by
    intro u member
    rcases List.mem_append.mp member with old | new
    · exact (unique.terms u old).mono (Nat.le_trans grown le)
    · rw [List.mem_singleton.mp new]
      exact (minted.clean grown).mono le
  apart := by
    refine List.pairwise_append.mpr ⟨unique.apart, List.pairwise_singleton _ _, ?_⟩
    intro u old t' new b inOld c inNew
    rw [List.mem_singleton.mp new] at inNew
    have below : b.id < session.supply :=
      (unique.terms u old).below b (mem_vars_of_mem_binders inOld)
    exact Nat.ne_of_lt (Nat.lt_of_lt_of_le below (minted.binders c inNew).1)

theorem request (unique : Unique session built) {new : List Term}
    (request : Request session new after) : Unique after (built ++ new) := by
  cases request with
  | definition resolved =>
      obtain ⟨grown, minted⟩ := resolveDefinition_minted unique.known resolved
      refine unique.extend grown minted (Nat.le_refl _) fun entry member => ?_
      rcases Context.mem_entries_define member with rfl | old
      · exact Or.inl rfl
      · exact Or.inr old
  | lookup found =>
      obtain ⟨definition, atName, copied⟩ := Option.map_eq_some_iff.mp found
      have minted := minted_freshCopy (unique.known.find? atName) (Nat.le_refl session.supply)
      have grown := le_renameFrom [] definition session.supply
      change session.supply ≤ (definition.freshCopy session.supply).2 at grown
      rw [copied] at minted grown
      exact unique.extend grown minted (Nat.le_refl _) fun entry member => Or.inr member
  | evaluation resolved reached =>
      obtain ⟨grown, minted⟩ := resolveTerm_minted unique.known resolved
      have le := supply_le_of_advances reached
      exact unique.extend grown minted le fun entry member => Or.inr member
  | settings =>
      rw [List.append_nil]
      exact ⟨unique.definitions, unique.terms, unique.apart⟩

theorem history {first : List Term} (unique : Unique session first)
    (history : History session built after) : Unique after (first ++ built) := by
  induction history with
  | nothing =>
      rw [List.append_nil]
      exact unique
  | next _ new ih =>
      rw [← List.append_assoc]
      exact ih.request new

end Unique

/-- Binder identities stay unique over whole sessions. From a start with or without the prelude,
after any inputs, and after any definitions, lookups, evaluations and changes of settings that may
follow, all definitions, all terms of the prelude, all terms that the inputs have built and all that
were built since are clean, and no two of those terms share the identity of a binder. A reduction of
any of them, in any mode and by any strategy, passes clean terms and ends in one. -/
theorem binder_identities_stay_unique {settings : Settings} {withPrelude : Bool}
    {start session : Session} {built : List Term}
    (opened : Shell.openSession settings withPrelude = .ok start)
    (answered : Inputs Answers start built session) :
    ∃ loaded, History (Session.initial settings) (loaded ++ built) session ∧
      ∀ requested later, History session requested later →
        Unique later (loaded ++ built ++ requested) ∧
        ∀ t, t ∈ loaded ++ built ++ requested ∨ (∃ name, (name, t) ∈ later.context.entries) →
          ∀ supply, later.supply ≤ supply → ∀ mode strategy limit,
            let run := watched mode strategy limit t supply
            run.1.term.Clean run.1.supply ∧ ∀ u ∈ run.2, u.Clean run.1.supply := by
  obtain ⟨loaded, atStart⟩ := openSession_history opened
  have known := atStart.trans answered.history
  refine ⟨loaded, known, fun requested later continued => ?_⟩
  have unique : Unique later (loaded ++ built ++ requested) :=
    (Unique.initial settings).history (known.trans continued)
  refine ⟨unique, fun t source supply le mode strategy limit => ?_⟩
  have clean : t.Clean later.supply := by
    rcases source with member | ⟨name, member⟩
    · exact unique.terms t member
    · exact unique.definitions (name, t) member
  exact (clean.mono le).watched mode strategy limit

/-- A definition from a line of input is looked up twice. -/
theorem identities_after_two_lookups :
    let double (id : Nat) : Term := .abs ⟨"x", id⟩ (.app (.var ⟨"x", id⟩) (.var ⟨"x", id⟩))
    let session : Session := { initial {} with context := ⟨[("w", double 0)]⟩, supply := 1 }
    Answers (initial {}) [double 0] session ∧
      ∃ loaded, History (initial {}) (loaded ++ [double 0]) session ∧
        Unique { session with supply := 3 } (loaded ++ [double 0] ++ [double 1, double 2]) := by
  intro double session
  have opened : Shell.openSession {} false = .ok (initial {}) := rfl
  have answer : Answers (initial {}) [double 0] session :=
    .line (show (initial {}).respond "w := λx.x x" = .reply _ from rfl)
  have answered : Inputs Answers (initial {}) [double 0] session := .next .nothing answer
  have first : Request session [double 1] { session with supply := 2 } :=
    .lookup (show session.context.lookup? "w" 1 = some (double 1, 2) from rfl)
  have second : Request { session with supply := 2 } [double 2] { session with supply := 3 } :=
    .lookup (show session.context.lookup? "w" 2 = some (double 2, 3) from rfl)
  have lookups := (History.of_request first).trans (History.of_request second)
  obtain ⟨loaded, fromStart, unique⟩ := binder_identities_stay_unique opened answered
  exact ⟨answer, loaded, fromStart, (unique _ _ lookups).1⟩

end UntypedLambda.Session
