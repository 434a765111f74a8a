import UntypedLambda.Proofs.Encoding.Contraction
import UntypedLambda.Proofs.Encoding.Describe
import UntypedLambda.Proofs.Resolution.Translation
import UntypedLambda.Proofs.Term.Completion
import UntypedLambda.Proofs.Term.RoundTrip

set_option autoImplicit false

/-! What is shown of a value is source text for it. The texts of the elements, shown as values or as
terms, are the tokens of expressions between the commas and the brackets, and the expression for the
whole means the value, but that the number one is shown for the identity. -/

namespace UntypedLambda

open Surface Term

/-! ### Texts of terms -/

/-- The text of a term leaves what comes after it as it is. -/
theorem Term.renderOnto_append (naming : Naming) (inHead : Bool) (t : Term)
    (first second : List Char) :
    renderOnto naming inHead t (first ++ second) = renderOnto naming inHead t first ++ second := by
  induction t generalizing inHead first with
  | var v => cases inHead <;> simp [renderOnto]
  | abs binder body ih => cases inHead <;> simp [renderOnto, ih]
  | app function argument ihFunction ihArgument =>
      have onFunction (rest : List Char) :
          functionOnto naming function (rest ++ second) =
            functionOnto naming function rest ++ second := by
        cases function with
        | var v => exact ihFunction false rest
        | abs binder body => exact congrArg ('(' :: ·) (ihFunction false (')' :: rest))
        | app left right => exact ihFunction false rest
      have onArgument : argumentOnto naming argument (first ++ second) =
          argumentOnto naming argument first ++ second := by
        cases argument with
        | var v => exact congrArg (' ' :: ·) (ihArgument false first)
        | abs binder body =>
            exact congrArg (' ' :: '(' :: ·) (ihArgument false (')' :: first))
        | app left right =>
            exact congrArg (' ' :: '(' :: ·) (ihArgument false (')' :: first))
      rw [renderOnto_app, renderOnto_app, onArgument, onFunction]
      cases inHead <;> rfl

theorem Term.toList_render_append (t : Term) (rest : List Char) :
    t.render.toList ++ rest = renderOnto t.naming false t rest := by
  rw [render, String.toList_ofList, ← renderOnto_append, List.nil_append]

namespace Encoding

/-! ### Source texts -/

/-- A text is scanned as the tokens of expressions that mean a term, wherever the tokens stand, but
that they may have the number one where the term has the identity. -/
def SourceOf (context : Context) (text : String) (t : Term) : Prop :=
  ∃ values, Scans true false (text.toList ++ ·) values ∧
    ∀ tokens : List (Located Token), tokens.map Located.value = values →
      ∃ e, Phrase tokens e ∧
        Nameless.OneForIdentity (e.translate context.reading? []) t.namelessByName

section Sources

variable {context : Context} {supply : Nat} {t : Term}

/-- The text of a term is source text for it. -/
theorem sourceOf_render (definitions : context.Below supply)
    (identifiers : ∀ v ∈ t.vars, isIdentifier v.name = true)
    (separate : ∀ b ∈ t.binders, t.occursFree b.id = false)
    (undefined : ∀ name ∈ t.freeNames, context.contains name = false) :
    SourceOf context t.render t := by
  have scans := scans_renderOnto
    (fun v member => isIdentifier_nameOf identifiers member) false
  refine ⟨_, (funext t.toList_render_append).symm ▸ scans, fun tokens values => ?_⟩
  obtain ⟨e, spelled, phrase⟩ := (readable t.naming.nameOf t).phrase tokens values
  have faithful := faithful_naming separate
  have names : ([] : List Var).map Var.name = ([] : List Var).map t.naming.nameOf := rfl
  have resolved := resolve_spelled undefined spelled faithful names supply
  have means := Resolution.resolve_reads definitions e (Resolution.issued_nil supply supply)
    (Nat.le_refl supply) resolved
  have copied : (reissue t.naming.nameOf [] t supply).1.namelessByName = t.namelessByName :=
    readUnder_reissue faithful names List.nodup_nil fun _ none => nomatch none
  refine ⟨e, phrase, ?_⟩
  rw [show e.translate context.reading? [] = t.namelessByName from means.symm.trans copied]
  exact .refl _

theorem sourceOf_number {n : Nat} (small : n < numberBound)
    (reads : t.namelessByName = Nameless.numeral n ∨ n = 1 ∧ t.namelessByName = .lam (.bound 0)) :
    SourceOf context (toString n) t := by
  refine ⟨_, Scans.number small, fun tokens values => ?_⟩
  obtain ⟨⟨_, span⟩, rest, rfl, rfl, atEnd⟩ := List.map_eq_cons_iff.mp values
  rw [List.map_eq_nil_iff.mp atEnd]
  refine ⟨_, .application (.head (.nat n span)), ?_⟩
  rcases reads with same | ⟨rfl, same⟩
  · rw [same]
    exact .refl _
  · rw [same]
    exact .one

/-- The texts of elements with commas between them. -/
theorem exists_elements {ts : List Term} (nonempty : ts ≠ [])
    (sources : ∀ t ∈ ts, SourceOf context (describeElement t) t) :
    ∃ values, Scans true false ((commaSeparated (ts.map describeElement)).toList ++ ·) values ∧
      ∀ tokens : List (Located Token), tokens.map Located.value = values →
        ∃ es, Elements tokens es ∧
          List.Forall₂ Nameless.OneForIdentity (Expr.translateAll context.reading? [] es)
            (ts.map namelessByName) := by
  induction ts with
  | nil => exact absurd rfl nonempty
  | cons t others ih =>
      obtain ⟨⟨values, scans, derives⟩, later⟩ := List.forall_mem_cons.mp sources
      cases others with
      | nil =>
          refine ⟨values, ?_, fun tokens same => ?_⟩
          · rwa [List.map_singleton, commaSeparated, String.intercalate_singleton]
          · obtain ⟨e, phrase, means⟩ := derives tokens same
            exact ⟨[e], .last phrase, .cons means .nil⟩
      | cons other others =>
          obtain ⟨valuesRest, scansRest, derivesRest⟩ := ih (List.cons_ne_nil _ _) later
          have comma := Scans.symbol (by decide : Symbol.ofChar? ',' = some .comma)
          have whole := scans.append (comma.append (Scans.blank.append scansRest).of_relaxed)
          have text : ((commaSeparated ((t :: other :: others).map describeElement)).toList ++ ·) =
              fun rest => (describeElement t).toList ++ ',' :: ' ' ::
                ((commaSeparated ((other :: others).map describeElement)).toList ++ rest) := by
            funext rest
            simp [commaSeparated, String.intercalate_cons_cons]
          refine ⟨_, text ▸ whole, fun tokens same => ?_⟩
          obtain ⟨first, second, rfl, inFirst, inSecond⟩ := List.map_eq_append_iff.mp same
          obtain ⟨⟨_, span⟩, rest, rfl, rfl, inRest⟩ := List.map_eq_cons_iff.mp inSecond
          obtain ⟨e, phrase, means⟩ := derives first inFirst
          obtain ⟨es, derived, meanRest⟩ := derivesRest rest inRest
          exact ⟨e :: es, .next span phrase derived, .cons means meanRest⟩

/-- A text in brackets. -/
theorem scans_bracketed {first last : Char} {opening closing : Symbol}
    (opens : Symbol.ofChar? first = some opening) (closes : Symbol.ofChar? last = some closing)
    {text : String} {values : List Token} (scans : Scans true false (text.toList ++ ·) values) :
    Scans true false ((String.singleton first ++ text ++ String.singleton last).toList ++ ·)
      (.symbol opening :: (values ++ [.symbol closing])) := by
  have whole := (Scans.symbol opens).append (scans.append (Scans.symbol closes))
  have shape : ((String.singleton first ++ text ++ String.singleton last).toList ++ ·) =
      fun rest => first :: (text.toList ++ last :: rest) := by
    funext rest
    simp
  rw [shape]
  exact whole.of_relaxed.unsettled

theorem sourceOf_list {ts : List Term} (nonempty : ts ≠ [])
    (sources : ∀ t ∈ ts, SourceOf context (describeElement t) t)
    (reads : t.namelessByName = Nameless.list (ts.map namelessByName)) :
    SourceOf context ("[" ++ commaSeparated (ts.map describeElement) ++ "]") t := by
  obtain ⟨values, scans, derives⟩ := exists_elements nonempty sources
  have opens : Symbol.ofChar? '[' = some .leftBracket := by decide
  have closes : Symbol.ofChar? ']' = some .rightBracket := by decide
  refine ⟨_, scans_bracketed opens closes scans, fun tokens same => ?_⟩
  obtain ⟨first, middle, last, inside, rfl⟩ := exists_of_bracketed same
  obtain ⟨es, derived, means⟩ := derives middle inside
  refine ⟨_, .application (.head (.list first last derived)), ?_⟩
  rw [Expr.translate, reads]
  exact .list means

theorem sourceOf_tuple {ts : List Term} (several : 2 ≤ ts.length)
    (sources : ∀ t ∈ ts, SourceOf context (describeElement t) t)
    (reads : t.namelessByName = Nameless.tuple (ts.map namelessByName)) :
    SourceOf context ("<" ++ commaSeparated (ts.map describeElement) ++ ">") t := by
  have nonempty : ts ≠ [] := List.ne_nil_of_length_pos (by omega)
  obtain ⟨values, scans, derives⟩ := exists_elements nonempty sources
  have opens : Symbol.ofChar? '<' = some .leftAngle := by decide
  have closes : Symbol.ofChar? '>' = some .rightAngle := by decide
  refine ⟨_, scans_bracketed opens closes scans, fun tokens same => ?_⟩
  obtain ⟨first, middle, last, inside, rfl⟩ := exists_of_bracketed same
  obtain ⟨es, derived, means⟩ := derives middle inside
  have sameLength := means.length_eq
  rw [List.length_map] at sameLength
  match es, sameLength with
  | [], same => simp [Expr.translateAll] at same; omega
  | [_], same => simp [Expr.translateAll] at same; omega
  | element :: other :: others, _ =>
      refine ⟨_, .application (.head (.tuple first last derived)), ?_⟩
      rw [Expr.translate, reads]
      exact .tuple means

end Sources

/-! ### Shown values -/

/-- Showing a term shows another one on the way: itself, or what is shown of an element that it
decodes to. -/
inductive Visits : Term → Term → Prop where
  | start (t : Term) : Visits t t
  | listed {t element u : Term} {elements : List Term} : asList? t = some elements →
      element ∈ elements → Visits element u → Visits t u
  | tupled {t element u : Term} {elements : List Term} : asTuple? t = some elements →
      element ∈ elements → Visits element u → Visits t u

/-- What is visited from one of several terms is among them, when what they decode to is. -/
theorem Visits.mem {visited : List Term}
    (closed : ∀ t ∈ visited, (asList? t).getD [] ++ (asTuple? t).getD [] ⊆ visited) {t u : Term}
    (member : t ∈ visited) (visits : Visits t u) : u ∈ visited := by
  induction visits with
  | start t => exact member
  | listed decoded inside _ ih =>
      refine ih (closed _ member (List.mem_append_left _ ?_))
      rwa [decoded]
  | tupled decoded inside _ ih =>
      refine ih (closed _ member (List.mem_append_right _ ?_))
      rwa [decoded]

/-- A term whose names are identifiers and whose abstractions have pairwise distinct identities that
occur in no other place, when nothing shown on the way is a tuple of a single element or a number of
more than 64 bits. -/
structure Presentable (t : Term) : Prop where
  identifiers : ∀ v ∈ t.vars, isIdentifier v.name = true
  distinct : (t.binders.map Var.id).Nodup
  enclosed : ∀ b ∈ t.binders, t.occursFree b.id = false
  plural : ∀ u element, Visits t u → asTuple? u ≠ some [element]
  small : ∀ u n, Visits t u → asNumeral? u = some n → n < numberBound

namespace Presentable

variable {t element : Term} {elements : List Term} (presentable : Presentable t)

include presentable

theorem exists_clean : ∃ supply, t.Clean supply := by
  obtain ⟨supply, below⟩ := t.exists_below
  exact ⟨supply, presentable.distinct, presentable.enclosed, below⟩

theorem unshadowed : t.Unshadowed := by
  obtain ⟨supply, clean⟩ := presentable.exists_clean
  exact clean.unshadowed

/-- What the elements inherit. -/
theorem of_part (inherits : ∀ P, Hereditary P → P t → P element)
    (visits : ∀ u, Visits element u → Visits t u) : Presentable element := by
  obtain ⟨supply, clean⟩ := presentable.exists_clean
  have cleanElement := inherits _ (hereditary_clean supply) clean
  refine ⟨?_, cleanElement.distinct, cleanElement.enclosed, ?_, ?_⟩
  · exact inherits _ (hereditary_vars fun v => isIdentifier v.name = true) presentable.identifiers
  · exact fun u single visited => presentable.plural u single (visits u visited)
  · exact fun u n visited => presentable.small u n (visits u visited)

theorem of_mem_asList? (decoded : asList? t = some elements) (member : element ∈ elements) :
    Presentable element :=
  presentable.of_part (fun _ hereditary holds => hereditary.of_mem_asList? holds decoded member)
    fun _ visited => .listed decoded member visited

theorem of_mem_asTuple? (decoded : asTuple? t = some elements) (member : element ∈ elements) :
    Presentable element :=
  presentable.of_part (fun _ hereditary holds => hereditary.of_mem_asTuple? holds decoded member)
    fun _ visited => .tupled decoded member visited

end Presentable

/-- The text that is shown of a term, as a value or as a term, is source text for it. -/
theorem sourceOf_describeElement {context : Context} {supply : Nat}
    (definitions : context.Below supply) {t : Term} (presentable : Presentable t)
    (undefined : ∀ name ∈ t.freeNames, context.contains name = false) :
    SourceOf context (describeElement t) t := by
  -- The elements that are shown on the way are smaller.
  induction size : t.size using Nat.strongRecOn generalizing t with
  | ind _ ih =>
      subst size
      have below {elements : List Term} {enclose : List (Nameless String) → Nameless String}
          (reads : t.namelessByName = enclose (elements.map namelessByName))
          (labels : ∀ parts, (enclose parts).labels = parts.flatMap Nameless.labels)
          (each : ∀ e ∈ elements, Presentable e ∧ e.size < t.size) :
          ∀ e ∈ elements, SourceOf context (describeElement e) e := by
        intro e member
        obtain ⟨inherited, smaller⟩ := each e member
        refine ih e.size smaller inherited (fun name free => undefined name ?_) rfl
        rw [mem_freeNames_iff_mem_labels] at free ⊢
        rw [reads, labels]
        exact List.mem_flatMap.mpr ⟨_, List.mem_map_of_mem member, free⟩
      have unshadowed := presentable.unshadowed
      cases shown : describe? t with
      | none =>
          rw [describeElement, shown, Option.getD_none]
          exact sourceOf_render definitions presentable.identifiers presentable.enclosed undefined
      | some s =>
          rw [describeElement, shown, Option.getD_some]
          rcases describe?_cases shown with
            ⟨n, decoded, rfl⟩ | ⟨head, others, decoded, rfl⟩ | ⟨elements, decoded, rfl⟩
          · exact sourceOf_number (presentable.small t n (.start t) decoded)
              ((asNumeral?_eq_some_iff unshadowed n).mp decoded)
          · have reads := (asList?_reads unshadowed _).mp (congrArg (Option.map _) decoded)
            exact sourceOf_list (List.cons_ne_nil _ _) (below reads Nameless.labels_list
              fun e member => ⟨presentable.of_mem_asList? decoded member,
                size_lt_of_mem_asList? decoded member⟩) reads
          · have nonempty := ((asTuple?_eq_some_iff t elements).mp decoded).1
            have several : 2 ≤ elements.length := by
              match elements, nonempty with
              | [], absent => exact absurd rfl absent
              | [element], _ => exact absurd decoded (presentable.plural t element (.start t))
              | _ :: _ :: _, _ => simp
            have some : elements.map namelessByName ≠ [] := mt List.map_eq_nil_iff.mp nonempty
            have reads := (asTuple?_reads t some).mp (congrArg (Option.map _) decoded)
            exact sourceOf_tuple several (below reads Nameless.labels_tuple
              fun e member => ⟨presentable.of_mem_asTuple? decoded member,
                size_lt_of_mem_asTuple? decoded member⟩) reads

/-- What is shown of a value is source text for the value it is shown for. In a context that defines
none of its free names it is read and, with lenient settings, resolved. The result has the number
one at most where the value has the identity, and runs of eta steps from both end in the same term
up to bound variables. -/
theorem shown_value_reads_back {t : Term} {s : String} (presentable : Presentable t)
    (shown : describe? t = some s) {context : Context} {supply : Nat}
    (definitions : context.Below supply)
    (undefined : ∀ name ∈ t.freeNames, context.contains name = false) {settings : Settings}
    (lenient : settings.strict = false) :
    ∃ e u left, parseTerm s = .ok e ∧ resolveTerm context settings e supply = .ok (u, left) ∧
      Nameless.OneForIdentity u.namelessByName t.namelessByName ∧
      ∀ (strategy strategy' : Strategy) (later later' : Nat),
        ∃ result result', Ends .eta strategy u later result ∧ Ends .eta strategy' t later' result' ∧
          result.term.alphaEqual result'.term = true := by
  have source := sourceOf_describeElement definitions presentable undefined
  rw [describeElement, shown, Option.getD_some] at source
  obtain ⟨values, scans, derives⟩ := source
  obtain ⟨tokens, tokenized, same⟩ := scans.tokenize
  rw [List.append_nil, String.ofList_toList] at tokenized
  obtain ⟨e, phrase, means⟩ := derives tokens same
  have parsed : parseTerm s = .ok e := by
    simp only [parseTerm, tokenized, bind, Except.bind]
    exact phrase.readExpr _
  obtain ⟨u, left, resolved, _, _, reads⟩ :=
    Resolution.exists_resolveTerm definitions settings e fun strict => by simp [lenient] at strict
  rw [← reads] at means
  exact ⟨e, u, left, parsed, resolved, means, exists_eta_ends_of_reduces means.reduces⟩

/-- A pair of the identity, shown as the number one, and a list of a term that is no value. Its
binder has the name of the free variable. -/
theorem pair_with_term_reads_back :
    let identity : Term := .abs ⟨"a", 1⟩ (.var ⟨"a", 1⟩)
    let raw : Term :=
      .app (.var ⟨"g", 4⟩) (.abs ⟨"g", 5⟩ (.app (.var ⟨"g", 5⟩) (.var ⟨"g", 5⟩)))
    let single : Term := .abs ⟨"x", 2⟩ (.abs ⟨"y", 3⟩ (.app (.app (.var ⟨"x", 2⟩) raw)
      (.abs ⟨"x", 6⟩ (.abs ⟨"y", 7⟩ (.var ⟨"y", 7⟩)))))
    let t : Term := .abs ⟨"p", 0⟩ (.app (.app (.var ⟨"p", 0⟩) identity) single)
    let text := "<1, [g (λg1.g1 g1)]>"
    Presentable t ∧ describe? t = some text ∧
      ∃ e u left, parseTerm text = .ok e ∧ resolveTerm .empty {} e 0 = .ok (u, left) ∧
        Nameless.OneForIdentity u.namelessByName t.namelessByName ∧
        ∃ result result', Ends .eta .leftmost u left result ∧
          Ends .eta .leftmostOutermost t 8 result' ∧
          result.term.alphaEqual result'.term = true := by
  intro identity raw single t text
  have visited : ∀ u, Visits t u → u ∈ [t, identity, single, raw] :=
    fun u => Visits.mem (by decide) List.mem_cons_self
  have plural : ∀ u ∈ [t, identity, single, raw], (asTuple? u).map List.length ≠ some 1 := by
    decide
  have small : ∀ u ∈ [t, identity, single, raw], ∀ n ∈ asNumeral? u, n < numberBound := by
    decide
  have presentable : Presentable t :=
    ⟨by decide, by decide, by decide,
      fun u element visits single => plural u (visited u visits) (by rw [single]; rfl),
      fun u n visits decoded => small u (visited u visits) n decoded⟩
  have ofRaw : describeElement raw = "g (λg1.g1 g1)" := by
    have unshown : describe? raw = none := describe?_eq raw
    rw [describeElement, unshown, Option.getD_none]
    decide
  have ofSingle : describeElement single = "[g (λg1.g1 g1)]" := by
    have decoded : asList? single = some [raw] := by decide
    rw [describeElement, describe?_of_asList? decoded, List.map_singleton, ofRaw]
    rfl
  have ofIdentity : describeElement identity = "1" := by
    have decoded : asNumeral? identity = some 1 := by decide
    rw [describeElement, describe?_of_asNumeral? decoded]
    rfl
  have shown : describe? t = some text := by
    have decoded : asTuple? t = some [identity, single] := by decide
    rw [describe?_of_asTuple? decoded, List.map_cons, List.map_singleton, ofIdentity, ofSingle]
    rfl
  obtain ⟨e, u, left, parsed, resolved, means, ends⟩ :=
    shown_value_reads_back presentable shown (show Context.empty.Below 0 by decide) (by decide)
      (show ({} : Settings).strict = false from rfl)
  exact ⟨presentable, shown, e, u, left, parsed, resolved, means,
    ends .leftmost .leftmostOutermost left 8⟩

end Encoding

end UntypedLambda
