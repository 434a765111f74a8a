import Mathlib.Logic.Function.Iterate
import UntypedLambda.Proofs.Term.FreeNames

set_option autoImplicit false

/-! The Church encodings of nameless terms. An encoding stands around its parts, whose indices are
raised by the abstractions that it adds, so that it binds nothing in them. -/

namespace UntypedLambda.Nameless

variable {α : Type}

def abstractions (count : Nat) (body : Nameless α) : Nameless α :=
  lam^[count] body

def applications (head : Nameless α) (arguments : List (Nameless α)) : Nameless α :=
  arguments.foldl .app head

def numeral (n : Nat) : Nameless α :=
  abstractions 2 ((app (.bound 1))^[n] (.bound 0))

def tuple (elements : List (Nameless α)) : Nameless α :=
  abstractions 1 (applications (.bound 0) (elements.map (shift 0 1)))

def nil : Nameless α :=
  abstractions 2 (.bound 0)

def cons (head tail : Nameless α) : Nameless α :=
  abstractions 2 (applications (.bound 1) ([head, tail].map (shift 0 2)))

def list (elements : List (Nameless α)) : Nameless α :=
  elements.foldr cons nil

/-! ### Substitution into an encoding -/

theorem instantiate_abstractions (count depth : Nat) (replacement body : Nameless α) :
    (abstractions count body).instantiate depth replacement =
      abstractions count (body.instantiate (depth + count) replacement) := by
  induction count generalizing depth with
  | zero => rfl
  | succ count ih =>
      rw [abstractions, Function.iterate_succ_apply', instantiate, ← abstractions, ih,
        abstractions, abstractions, Function.iterate_succ_apply', Nat.add_right_comm,
        Nat.add_assoc]

theorem instantiate_applications (depth : Nat) (replacement head : Nameless α)
    (arguments : List (Nameless α)) :
    (applications head arguments).instantiate depth replacement =
      applications (head.instantiate depth replacement)
        (arguments.map fun argument => argument.instantiate depth replacement) := by
  induction arguments generalizing head with
  | nil => rfl
  | cons argument arguments ih => exact ih (.app head argument)

/-- The parts of an encoding, below its abstractions, take a substitution as they do outside. -/
theorem instantiate_map_shift (amount depth : Nat) (replacement : Nameless α)
    (parts : List (Nameless α)) :
    ((parts.map (shift 0 amount)).map fun part => part.instantiate (depth + amount) replacement) =
      (parts.map fun part => part.instantiate depth replacement).map (shift 0 amount) := by
  simp only [List.map_map, Function.comp_def, instantiate_shift_zero]

theorem instantiate_bound_of_lt {index depth : Nat} (lt : index < depth)
    (replacement : Nameless α) : (bound index).instantiate depth replacement = .bound index := by
  rw [instantiate, if_pos lt]

theorem instantiate_numeral (n depth : Nat) (replacement : Nameless α) :
    (numeral n).instantiate depth replacement = numeral n := by
  have iterated : ((app (.bound 1))^[n] (.bound 0)).instantiate (depth + 2) replacement =
      (app (.bound 1))^[n] (.bound 0) := by
    induction n with
    | zero => exact instantiate_bound_of_lt (by omega) replacement
    | succ n ih =>
        rw [Function.iterate_succ_apply', instantiate, ih, instantiate_bound_of_lt (by omega)]
  rw [numeral, instantiate_abstractions, iterated]

theorem instantiate_tuple (depth : Nat) (replacement : Nameless α)
    (elements : List (Nameless α)) :
    (tuple elements).instantiate depth replacement =
      tuple (elements.map fun element => element.instantiate depth replacement) := by
  rw [tuple, instantiate_abstractions, instantiate_applications, instantiate_map_shift,
    instantiate_bound_of_lt (by omega), tuple]

theorem instantiate_cons (depth : Nat) (replacement head tail : Nameless α) :
    (cons head tail).instantiate depth replacement =
      cons (head.instantiate depth replacement) (tail.instantiate depth replacement) := by
  rw [cons, instantiate_abstractions, instantiate_applications, instantiate_map_shift,
    instantiate_bound_of_lt (by omega)]
  rfl

theorem instantiate_list (depth : Nat) (replacement : Nameless α)
    (elements : List (Nameless α)) :
    (list elements).instantiate depth replacement =
      list (elements.map fun element => element.instantiate depth replacement) := by
  induction elements with
  | nil =>
      change (abstractions 2 (bound 0)).instantiate depth replacement = _
      rw [instantiate_abstractions, instantiate_bound_of_lt (by omega)]
      rfl
  | cons element elements ih =>
      rw [list, List.foldr_cons, instantiate_cons, ← list, ih]
      rfl

/-! ### The free names of an encoding -/

theorem labels_abstractions (count : Nat) (body : Nameless α) :
    (abstractions count body).labels = body.labels := by
  induction count with
  | zero => rfl
  | succ count ih => rw [abstractions, Function.iterate_succ_apply', labels, ← abstractions, ih]

theorem labels_applications (head : Nameless α) (arguments : List (Nameless α)) :
    (applications head arguments).labels = head.labels ++ arguments.flatMap labels := by
  induction arguments generalizing head with
  | nil => simp [applications]
  | cons argument arguments ih =>
      rw [applications, List.foldl_cons, ← applications, ih, labels, List.flatMap_cons,
        List.append_assoc]

theorem labels_numeral (n : Nat) : (numeral n : Nameless α).labels = [] := by
  rw [numeral, labels_abstractions]
  induction n with
  | zero => rfl
  | succ n ih => rw [Function.iterate_succ_apply', labels, ih, labels, List.append_nil]

theorem labels_tuple (elements : List (Nameless α)) :
    (tuple elements).labels = elements.flatMap labels := by
  simp only [tuple, labels_abstractions, labels_applications, labels, List.nil_append,
    List.flatMap_map, labels_shift]

theorem labels_cons (head tail : Nameless α) :
    (cons head tail).labels = head.labels ++ tail.labels := by
  simp [cons, labels_abstractions, labels_applications, labels, labels_shift]

theorem labels_list (elements : List (Nameless α)) :
    (list elements).labels = elements.flatMap labels := by
  induction elements with
  | nil => rfl
  | cons element elements ih =>
      rw [list, List.foldr_cons, labels_cons, ← list, ih, List.flatMap_cons]

end UntypedLambda.Nameless
