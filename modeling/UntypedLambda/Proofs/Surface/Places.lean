import UntypedLambda.Surface.Span

set_option autoImplicit false

/-! Places in a source: the text at a place, and places one after another. -/

namespace UntypedLambda.Surface

namespace Span

def slice (span : Span) (cs : List Char) : List Char :=
  (cs.drop span.start).take (span.stop - span.start)

def textIn (span : Span) (source : String) : String :=
  String.ofList (span.slice source.toList)

theorem slice_append (first text last : List Char) :
    slice ⟨first.length, first.length + text.length⟩ (first ++ (text ++ last)) = text := by
  rw [slice, List.drop_left, Nat.add_sub_cancel_left, List.take_left]

/-- Places from `start` up to `stop` that are not empty, each after the one before it. -/
def InOrder (stop : Nat) : Nat → List Span → Prop
  | start, [] => start ≤ stop
  | start, span :: spans =>
      start ≤ span.start ∧ span.start < span.stop ∧ InOrder stop span.stop spans

namespace InOrder

variable {start stop : Nat} {spans rest : List Span}

theorem le (ordered : InOrder stop start spans) : start ≤ stop := by
  induction spans generalizing start with
  | nil => exact ordered
  | cons span spans ih =>
      obtain ⟨first, some, later⟩ := ordered
      have last := ih later
      omega

theorem widen (ordered : InOrder stop start spans) {start' stop' : Nat} (before : start' ≤ start)
    (after : stop ≤ stop') : InOrder stop' start' spans := by
  induction spans generalizing start start' with
  | nil => exact Nat.le_trans before (Nat.le_trans ordered after)
  | cons span spans ih =>
      obtain ⟨first, some, later⟩ := ordered
      exact ⟨Nat.le_trans before first, some, ih later (Nat.le_refl span.stop)⟩

theorem inside (ordered : InOrder stop start spans) {span : Span} (member : span ∈ spans) :
    start ≤ span.start ∧ span.start < span.stop ∧ span.stop ≤ stop := by
  induction spans generalizing start with
  | nil => cases member
  | cons head spans ih =>
      obtain ⟨first, some, later⟩ := ordered
      rcases List.mem_cons.mp member with rfl | member
      · exact ⟨first, some, later.le⟩
      · obtain ⟨after, rest⟩ := ih later member
        exact ⟨by omega, rest⟩

theorem pairwise (ordered : InOrder stop start spans) :
    spans.Pairwise fun first second => first.stop ≤ second.start := by
  induction spans generalizing start with
  | nil => exact .nil
  | cons span spans ih =>
      obtain ⟨_, _, later⟩ := ordered
      exact .cons (fun _ member => (later.inside member).1) (ih later)

/-- Some of the places are followed by the others. -/
theorem append_iff :
    InOrder stop start (spans ++ rest) ↔
      ∃ middle, InOrder middle start spans ∧ InOrder stop middle rest := by
  induction spans generalizing start with
  | nil =>
      constructor
      · exact fun ordered => ⟨start, Nat.le_refl start, ordered⟩
      · rintro ⟨middle, before, ordered⟩
        exact ordered.widen before (Nat.le_refl stop)
  | cons span spans ih =>
      constructor
      · rintro ⟨first, some, later⟩
        obtain ⟨middle, before, after⟩ := ih.mp later
        exact ⟨middle, ⟨first, some, before⟩, after⟩
      · rintro ⟨middle, ⟨first, some, before⟩, after⟩
        exact ⟨first, some, ih.mpr ⟨middle, before, after⟩⟩

end InOrder

theorem cover_eq {left right : Span} (starts : left.start ≤ right.start)
    (stops : left.stop ≤ right.stop) : left.cover right = ⟨left.start, right.stop⟩ := by
  rw [cover, Nat.min_eq_left starts, Nat.max_eq_right stops]

end Span

end UntypedLambda.Surface
