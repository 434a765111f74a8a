import UntypedLambda.Proofs.Encoding.Contraction
import UntypedLambda.Proofs.Encoding.Describe
import UntypedLambda.Proofs.Resolution.Bare
import UntypedLambda.Proofs.Resolution.Translation
import UntypedLambda.Proofs.Surface.Printing
import UntypedLambda.Proofs.Term.Completion

set_option autoImplicit false

/-! Literals: numbers, and lists and tuples of literals. Their encodings have no beta redex, and an
eta redex only where the number one stands. What is left without it is decoded at every level as the
literal was written, but for the empty list, which is zero. -/

namespace UntypedLambda

open Surface

/-- A number that fits into a token, a list of literals, or a tuple of at least two. -/
inductive Literal where
  | number (value : Nat) (small : value < numberBound)
  | list (elements : List Literal)
  | tuple (first second : Literal) (rest : List Literal)

namespace Literal

/-- What holds of numbers, and of lists and tuples when it holds of their elements, holds of all
literals. -/
@[induction_eliminator]
theorem induction {P : Literal → Prop} (number : ∀ value small, P (.number value small))
    (list : ∀ elements, (∀ e ∈ elements, P e) → P (.list elements))
    (tuple : ∀ first second rest, (∀ e ∈ first :: second :: rest, P e) →
      P (.tuple first second rest))
    (l : Literal) : P l := by
  refine @Literal.rec P (fun elements => ∀ e ∈ elements, P e) number list ?_ ?_ ?_ l
  · intro first second rest inFirst inSecond inRest
    exact tuple first second rest
      (List.forall_mem_cons.mpr ⟨inFirst, List.forall_mem_cons.mpr ⟨inSecond, inRest⟩⟩)
  · exact fun _ none => nomatch none
  · exact fun _ _ inHead inTail => List.forall_mem_cons.mpr ⟨inHead, inTail⟩

/-! ### Texts -/

mutual

/-- The text of a literal, where `empty` stands for the empty list. -/
def written (empty : String) : Literal → String
  | .number value _ => toString value
  | .list elements =>
      if elements.isEmpty then empty
      else "[" ++ String.intercalate ", " (writtenAll empty elements) ++ "]"
  | .tuple first second rest =>
      "<" ++ String.intercalate ", "
        (first.written empty :: second.written empty :: writtenAll empty rest) ++ ">"

def writtenAll (empty : String) : List Literal → List String
  | [] => []
  | element :: elements => element.written empty :: writtenAll empty elements

end

def text (l : Literal) : String :=
  l.written "[]"

theorem writtenAll_eq (empty : String) (elements : List Literal) :
    writtenAll empty elements = elements.map (written empty) := by
  induction elements with
  | nil => rfl
  | cons element elements ih => rw [writtenAll, ih, List.map_cons]

theorem written_tuple (empty : String) (first second : Literal) (rest : List Literal) :
    (tuple first second rest).written empty =
      "<" ++ String.intercalate ", " ((first :: second :: rest).map (written empty)) ++ ">" := by
  rw [written, writtenAll_eq, List.map_cons, List.map_cons]

theorem written_cons (empty : String) (head : Literal) (tail : List Literal) :
    (list (head :: tail)).written empty =
      "[" ++ String.intercalate ", " ((head :: tail).map (written empty)) ++ "]" := by
  rw [written, writtenAll_eq, List.isEmpty_cons, if_neg Bool.false_ne_true]

theorem text_list (elements : List Literal) :
    (list elements).text = "[" ++ String.intercalate ", " (elements.map text) ++ "]" := by
  cases elements with
  | nil => rfl
  | cons head tail => exact written_cons "[]" head tail

mutual

def ones : Literal → Nat
  | .number value _ => if value = 1 then 1 else 0
  | .list elements => onesAll elements
  | .tuple first second rest => first.ones + (second.ones + onesAll rest)

def onesAll : List Literal → Nat
  | [] => 0
  | element :: elements => element.ones + onesAll elements

end

mutual

def expr : Literal → Expr
  | .number value _ => .nat default value
  | .list elements => .list default (exprAll elements)
  | .tuple first second rest => .tuple default (first.expr :: second.expr :: exprAll rest)

def exprAll : List Literal → List Expr
  | [] => []
  | element :: elements => element.expr :: exprAll elements

end

theorem exprAll_eq (elements : List Literal) : exprAll elements = elements.map expr := by
  induction elements with
  | nil => rfl
  | cons element elements ih => rw [exprAll, ih, List.map_cons]

theorem expr_list (elements : List Literal) :
    (list elements).expr = .list default (elements.map expr) := by
  rw [expr, exprAll_eq]

theorem expr_tuple (first second : Literal) (rest : List Literal) :
    (tuple first second rest).expr = .tuple default ((first :: second :: rest).map expr) := by
  rw [expr, exprAll_eq, List.map_cons, List.map_cons]

theorem render_expr (l : Literal) : l.expr.render = l.text := by
  have texts (elements : List Literal) (alike : ∀ e ∈ elements, e.expr.render = e.text) :
      (elements.map expr).map Expr.render = elements.map text := by
    rw [List.map_map]
    exact List.map_congr_left alike
  induction l with
  | number value _ => exact Expr.render_nat default value
  | list elements ih => rw [expr_list, Expr.render_list, texts elements ih, text_list]
  | tuple first second rest ih =>
      rw [expr_tuple, Expr.render_tuple, texts _ ih]
      exact (written_tuple "[]" first second rest).symm

theorem isWritable_expr (l : Literal) : l.expr.isWritable = true := by
  induction l with
  | number value small => exact decide_eq_true small
  | list elements ih =>
      rw [expr_list, Expr.isWritable, Expr.allWritable_iff, List.forall_mem_map]
      exact ih
  | tuple first second rest ih =>
      rw [expr_tuple, Expr.isWritable, Bool.and_eq_true, Expr.allWritable_iff, List.forall_mem_map]
      exact ⟨decide_eq_true (by simp), ih⟩

/-! ### Encodings -/

mutual

/-- The encoding of a literal, where `one` stands for the number one. -/
def encoding (one : Nameless String) : Literal → Nameless String
  | .number value _ => if value = 1 then one else .numeral value
  | .list elements => .list (encodings one elements)
  | .tuple first second rest =>
      .tuple (first.encoding one :: second.encoding one :: encodings one rest)

def encodings (one : Nameless String) : List Literal → List (Nameless String)
  | [] => []
  | element :: elements => element.encoding one :: encodings one elements

end

theorem encodings_eq (one : Nameless String) (elements : List Literal) :
    encodings one elements = elements.map (encoding one) := by
  induction elements with
  | nil => rfl
  | cons element elements ih => rw [encodings, ih, List.map_cons]

theorem encoding_list (one : Nameless String) (elements : List Literal) :
    (list elements).encoding one = .list (elements.map (encoding one)) := by
  rw [encoding, encodings_eq]

theorem encoding_tuple (one : Nameless String) (first second : Literal) (rest : List Literal) :
    (tuple first second rest).encoding one =
      .tuple ((first :: second :: rest).map (encoding one)) := by
  rw [encoding, encodings_eq, List.map_cons, List.map_cons]

theorem translate_expr (l : Literal) (definition : String → Option (Nameless String))
    (scope : List String) :
    l.expr.translate definition scope = l.encoding (.numeral 1) := by
  have alike (elements : List Literal)
      (same : ∀ e ∈ elements, e.expr.translate definition scope = e.encoding (.numeral 1)) :
      Expr.translateAll definition scope (elements.map expr) =
        elements.map (encoding (.numeral 1)) := by
    induction elements with
    | nil => rfl
    | cons element elements ih =>
        obtain ⟨here, others⟩ := List.forall_mem_cons.mp same
        rw [List.map_cons, Expr.translateAll, here, ih others, List.map_cons]
  induction l with
  | number value _ =>
      rw [expr, Expr.translate, encoding]
      split
      · rename_i isOne
        rw [isOne]
      · rfl
  | list elements ih => rw [expr_list, Expr.translate, alike elements ih, encoding_list]
  | tuple first second rest ih => rw [expr_tuple, Expr.translate, alike _ ih, encoding_tuple]

/-- A literal mentions no name, so it is resolved without the context. -/
theorem resolve_expr (l : Literal) (context : Context) (strict : Bool) (supply : Nat) :
    Resolution.resolve context strict [] l.expr supply =
      Resolution.resolve .empty false [] l.expr supply := by
  have alike (elements : List Literal)
      (same : ∀ e ∈ elements, ∀ supply, Resolution.resolve context strict [] e.expr supply =
        Resolution.resolve .empty false [] e.expr supply) (supply : Nat) :
      Resolution.resolveAll context strict [] (elements.map expr) supply =
        Resolution.resolveAll .empty false [] (elements.map expr) supply := by
    induction elements generalizing supply with
    | nil => rfl
    | cons element elements ih =>
        obtain ⟨here, others⟩ := List.forall_mem_cons.mp same
        simp only [List.map_cons, Resolution.resolveAll, here, ih others]
  induction l generalizing supply with
  | number value _ => rfl
  | list elements ih => simp only [expr_list, Resolution.resolve, alike elements ih]
  | tuple first second rest ih => simp only [expr_tuple, Resolution.resolve, alike _ ih]

theorem exists_resolveTerm_expr (l : Literal) (context : Context) (settings : Settings)
    (supply : Nat) :
    ∃ t left, resolveTerm context settings l.expr supply = .ok (t, left) ∧ t.Clean left ∧
      t.namelessByName = l.encoding (.numeral 1) := by
  have definitions : Context.empty.Below supply := fun _ none => nomatch none
  obtain ⟨t, left, resolved, _, clean, reads⟩ :=
    Resolution.exists_resolveTerm definitions {} l.expr nofun
  refine ⟨t, left, ?_, clean, reads.trans (l.translate_expr _ _)⟩
  exact (l.resolve_expr context settings.strict supply).trans resolved

/-! ### Redexes -/

section Redexes

variable {one : Nameless String}

theorem isClosed_encoding (closed : one.isClosed 0 = true) (l : Literal) :
    (l.encoding one).isClosed 0 = true := by
  induction l with
  | number value _ =>
      rw [encoding]
      split
      · exact closed
      · exact Nameless.isClosed_numeral value
  | list elements ih =>
      rw [encoding_list]
      exact Nameless.isClosed_list (List.forall_mem_map.mpr ih)
  | tuple first second rest ih =>
      rw [encoding_tuple]
      exact Nameless.isClosed_tuple (List.forall_mem_map.mpr ih)

/-- An encoding has a redex only where a number is one. -/
theorem not_contracts_encoding {root? : Nameless String → Option (Nameless String)}
    (spares : Nameless.SparesSpines root?) (closed : one.isClosed 0 = true)
    (inertOne : ∀ next, ¬ Nameless.Contracts root? one next)
    (inert : ∀ n, n ≠ 1 → ∀ next, ¬ Nameless.Contracts root? (.numeral n) next) (l : Literal) :
    ∀ next, ¬ Nameless.Contracts root? (l.encoding one) next := by
  have whole (elements : List Literal) : ∀ e ∈ elements.map (encoding one), e.isClosed 0 = true :=
    List.forall_mem_map.mpr fun e _ => isClosed_encoding closed e
  induction l with
  | number value _ =>
      rw [encoding]
      split
      · exact inertOne
      · rename_i other
        exact inert value other
  | list elements ih =>
      rw [encoding_list]
      exact Nameless.not_contracts_list spares (whole elements) (List.forall_mem_map.mpr ih)
  | tuple first second rest ih =>
      rw [encoding_tuple]
      exact Nameless.not_contracts_tuple spares (whole _) (List.forall_mem_map.mpr ih)

theorem normal_encoding (l : Literal) : Nameless.Normal (l.encoding (.numeral 1)) := by
  have numerals (n : Nat) : ∀ next, ¬ Nameless.Beta (.numeral n : Nameless String) next :=
    (Nameless.normal_iff _).mp (Nameless.normal_numeral n)
  exact (Nameless.normal_iff _).mpr (l.not_contracts_encoding Nameless.spares_spines_beta
    (Nameless.isClosed_numeral 1) (numerals 1) fun n _ => numerals n)

theorem not_eta_encoding (l : Literal) (next : Nameless String) :
    ¬ Nameless.Eta (l.encoding (.lam (.bound 0))) next := by
  refine l.not_contracts_encoding Nameless.spares_spines_eta rfl ?_ ?_ next
  · exact Nameless.not_contracts_lam Nameless.spares_spines_eta (fun _ shape => nomatch shape)
      fun _ => Nameless.Eta.not_bound
  · exact fun n other _ step => other (Nameless.eta_numeral step).1

theorem oneForIdentity_encoding (l : Literal) :
    Nameless.OneForIdentity (l.encoding (.numeral 1)) (l.encoding (.lam (.bound 0))) := by
  have pairs (elements : List Literal)
      (alike : ∀ e ∈ elements,
        Nameless.OneForIdentity (e.encoding (.numeral 1)) (e.encoding (.lam (.bound 0)))) :
      List.Forall₂ Nameless.OneForIdentity (elements.map (encoding (.numeral 1)))
        (elements.map (encoding (.lam (.bound 0)))) := by
    rw [List.forall₂_map_left_iff, List.forall₂_map_right_iff]
    exact List.forall₂_same.mpr alike
  induction l with
  | number value _ =>
      rw [encoding, encoding]
      split
      · exact .one
      · exact .refl _
  | list elements ih =>
      rw [encoding_list, encoding_list]
      exact .list (pairs elements ih)
  | tuple first second rest ih =>
      rw [encoding_tuple, encoding_tuple]
      exact .tuple (pairs _ ih)

end Redexes

/-! ### Sizes -/

section Sizes

variable {α : Type}

theorem size_applications (head : Nameless α) (arguments : List (Nameless α)) :
    (Nameless.applications head arguments).size =
      head.size + ((arguments.map Nameless.size).sum + arguments.length) := by
  induction arguments generalizing head with
  | nil => rfl
  | cons argument arguments ih =>
      have inner := ih (.app head argument)
      rw [Nameless.size] at inner
      rw [Nameless.applications, List.foldl_cons, ← Nameless.applications, inner, List.map_cons,
        List.sum_cons, List.length_cons]
      omega

theorem size_raised (index amount : Nat) (parts : List (Nameless α)) :
    (Nameless.applications (.bound index) (parts.map (Nameless.shift 0 amount))).size =
      (parts.map Nameless.size).sum + parts.length + 1 := by
  have same : Nameless.size ∘ Nameless.shift 0 amount = (Nameless.size : Nameless α → Nat) :=
    funext (Nameless.size_shift 0 amount)
  rw [size_applications, List.map_map, same, List.length_map, Nameless.size]
  omega

theorem size_tuple (elements : List (Nameless α)) :
    (Nameless.tuple elements).size = (elements.map Nameless.size).sum + elements.length + 2 :=
  congrArg Nat.succ (size_raised 0 1 elements)

theorem size_cons (head tail : Nameless α) :
    (Nameless.cons head tail).size = head.size + tail.size + 5 :=
  congrArg (· + 2) (size_raised 1 2 [head, tail])

theorem size_list (elements : List (Nameless α)) :
    (Nameless.list elements).size =
      (elements.map Nameless.size).sum + 5 * elements.length + 3 := by
  induction elements with
  | nil => rfl
  | cons head tail ih =>
      rw [Nameless.list, List.foldr_cons, ← Nameless.list, size_cons, ih, List.map_cons,
        List.sum_cons, List.length_cons]
      omega

end Sizes

theorem onesAll_eq (elements : List Literal) : onesAll elements = (elements.map ones).sum := by
  induction elements with
  | nil => rfl
  | cons element elements ih => rw [onesAll, ih, List.map_cons, List.sum_cons]

/-- The identity is smaller by three nodes than the number one. -/
theorem size_encoding (l : Literal) :
    (l.encoding (.numeral 1)).size = (l.encoding (.lam (.bound 0))).size + 3 * l.ones := by
  have total (elements : List Literal)
      (each : ∀ e ∈ elements, (e.encoding (.numeral 1)).size =
        (e.encoding (.lam (.bound 0))).size + 3 * e.ones) :
      ((elements.map (encoding (.numeral 1))).map Nameless.size).sum =
        ((elements.map (encoding (.lam (.bound 0)))).map Nameless.size).sum +
          3 * (elements.map ones).sum := by
    induction elements with
    | nil => rfl
    | cons element elements ih =>
        obtain ⟨here, others⟩ := List.forall_mem_cons.mp each
        simp only [List.map_cons, List.sum_cons, here, ih others]
        omega
  induction l with
  | number value _ =>
      rw [encoding, encoding, ones]
      split
      · rfl
      · rfl
  | list elements ih =>
      rw [encoding_list, encoding_list, size_list, size_list, total elements ih, ones, onesAll_eq,
        List.length_map, List.length_map]
      omega
  | tuple first second rest ih =>
      have counted : (tuple first second rest).ones = ((first :: second :: rest).map ones).sum := by
        rw [ones, onesAll_eq, List.map_cons, List.map_cons, List.sum_cons, List.sum_cons]
      rw [encoding_tuple, encoding_tuple, size_tuple, size_tuple, total _ ih, counted,
        List.length_map, List.length_map]
      omega

/-! ### Decoding -/

open Encoding Term

/-- Elements whose readings are encodings are shown as the elements of the literal are written, when
each of them is. -/
theorem describe_elements {one : Nameless String} {elements : List Literal}
    (each : ∀ e ∈ elements, ∀ t : Term, t.Unshadowed → t.namelessByName = e.encoding one →
      describe? t = some (e.written "0"))
    {ts : List Term} (unshadowed : ∀ t ∈ ts, t.Unshadowed)
    (read : ts.map namelessByName = elements.map (encoding one)) :
    ts.map describeElement = elements.map (written "0") := by
  induction elements generalizing ts with
  | nil => rw [List.map_eq_nil_iff.mp read, List.map_nil, List.map_nil]
  | cons element elements ih =>
      obtain ⟨t, others, rfl, here, inOthers⟩ := List.map_eq_cons_iff.mp read
      rw [List.forall_mem_cons] at each unshadowed
      rw [List.map_cons, List.map_cons, ih each.2 unshadowed.2 inOthers, describeElement,
        each.1 t unshadowed.1 here, Option.getD_some]

/-- What reads as the encoding of a literal is shown as the literal is written, with a zero for the
empty list, before and after the eta steps. -/
theorem describe?_encoding {one : Nameless String}
    (isOne : one = .numeral 1 ∨ one = .lam (.bound 0)) (l : Literal) (t : Term)
    (unshadowed : t.Unshadowed) (reads : t.namelessByName = l.encoding one) :
    describe? t = some (l.written "0") := by
  induction l generalizing t with
  | number value _ =>
      refine describe?_of_asNumeral? ((asNumeral?_eq_some_iff unshadowed value).mpr ?_)
      rw [reads, encoding]
      split
      · rename_i same
        rw [same]
        exact isOne.imp_right fun identity => ⟨rfl, identity⟩
      · exact Or.inl rfl
  | list elements ih =>
      cases elements with
      | nil =>
          have isZero : t.namelessByName = Nameless.numeral 0 := reads
          exact describe?_of_asNumeral? ((asNumeral?_eq_some_iff unshadowed 0).mpr (Or.inl isZero))
      | cons head tail =>
          rw [encoding_list, ← asList?_reads unshadowed, Option.map_eq_some_iff] at reads
          obtain ⟨ts, decoded, read⟩ := reads
          have shown := describe_elements ih
            (fun u member => hereditary_unshadowed.of_mem_asList? unshadowed decoded member) read
          obtain ⟨first, others, rfl, _⟩ := List.map_eq_cons_iff.mp read
          rw [describe?_of_asList? decoded, shown, commaSeparated, written_cons]
  | tuple first second rest ih =>
      rw [encoding_tuple] at reads
      obtain ⟨ts, decoded, read⟩ :=
        Option.map_eq_some_iff.mp ((asTuple?_reads t (List.cons_ne_nil _ _)).mpr reads)
      have shown := describe_elements ih
        (fun u member => hereditary_unshadowed.of_mem_asTuple? unshadowed decoded member) read
      rw [describe?_of_asTuple? decoded, shown, commaSeparated, written_tuple]

/-- Literals evaluate to themselves. The text of a literal is read, and it is resolved in every
context. A reduction of the term ends in every mode and under either strategy, without a bound. Its
result is shown as the text with every empty list written as zero. There are no steps unless eta
redexes are contracted, and then as many as the number one is written. -/
theorem literals_evaluate_to_themselves (l : Literal) (context : Context) (settings : Settings)
    (supply : Nat) :
    ∃ e t left, parseTerm l.text = .ok e ∧
      resolveTerm context settings e supply = .ok (t, left) ∧
      ∀ (mode : Mode) (strategy : Strategy) (later : Nat),
        ∃ result, Ends mode strategy t later result ∧
          describe? result.term = some (l.written "0") ∧
          result.steps = if mode = .beta then 0 else l.ones := by
  obtain ⟨e, parsed, alike⟩ := Expr.parseTerm_render l.expr l.isWritable_expr
  rw [render_expr] at parsed
  obtain ⟨t, left, resolved, clean, reads⟩ := l.exists_resolveTerm_expr context settings supply
  rw [← resolveTerm_bare_eq_ok_iff, ← alike, resolveTerm_bare_eq_ok_iff] at resolved
  refine ⟨e, t, left, parsed, resolved, fun mode strategy later => ?_⟩
  have normal : Nameless.Normal t.namelessByName := reads ▸ l.normal_encoding
  obtain ⟨u, count, ends, shown, total⟩ :=
    exists_eta_end_of_reduces strategy (reads ▸ l.oneForIdentity_encoding.reduces)
      l.not_eta_encoding
  have afterEta : describe? u = some (l.written "0") :=
    describe?_encoding (Or.inr rfl) l u ((ends left).clean clean).unshadowed shown
  have counted : count = l.ones := by
    rw [reads, size_encoding] at total
    omega
  cases mode with
  | beta =>
      exact ⟨_, ends_beta_of_normal normal strategy later,
        describe?_encoding (Or.inl rfl) l t clean.unshadowed reads, rfl⟩
  | eta => exact ⟨_, ends later, afterEta, counted⟩
  | both => exact ⟨_, ends_both_of_normal normal (ends later), afterEta, counted⟩

example :
    let l : Literal := .tuple (.number 1 (by decide)) (.list []) [.list [.number 12 (by decide)]]
    l.text = "<1, [], [12]>" ∧ l.written "0" = "<1, 0, [12]>" ∧ l.ones = 1 := by
  decide

end Literal

end UntypedLambda
