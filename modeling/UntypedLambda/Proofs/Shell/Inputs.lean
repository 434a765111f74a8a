import Mathlib.Data.List.Basic
import UntypedLambda.Shell.Conversation
import UntypedLambda.Shell.Run

set_option autoImplicit false

/-! The inputs of a conversation. Its lines are cut after each one that does not end in a backslash.
What is answered is the text of the pieces, one after another, and nothing of a piece is left for
the next. -/

namespace UntypedLambda.Shell

/-! ### Lines and pieces -/

/-- The line ends in a backslash, so that its input goes on with the next one. -/
def Continues (line : String) : Prop :=
  line.toList.getLast? = some '\\'

instance (line : String) : Decidable (Continues line) :=
  inferInstanceAs (Decidable (line.toList.getLast? = some '\\'))

/-- What a line adds to its input: a line break in the place of a backslash at its end, and all
else as it is. -/
def contribution (line : String) : String :=
  if Continues line then String.ofList (line.toList.dropLast ++ ['\n']) else line

def joined (lines : List String) : String :=
  String.join (lines.map contribution)

def IsPiece (piece : List String) : Prop :=
  ∃ before last, piece = before ++ [last] ∧ (∀ line ∈ before, Continues line) ∧ ¬Continues last

/-- The lines are cut after each one that does not end in a backslash. The lines after the last cut
are the rest. -/
structure Cut (lines : List String) (pieces : List (List String)) (rest : List String) : Prop where
  whole : pieces.flatten ++ rest = lines
  piece : ∀ piece ∈ pieces, IsPiece piece
  unfinished : ∀ line ∈ rest, Continues line

theorem exists_cut (lines : List String) : ∃ pieces rest, Cut lines pieces rest := by
  induction lines with
  | nil => exact ⟨[], [], rfl, nofun, nofun⟩
  | cons line lines ih =>
      obtain ⟨pieces, rest, whole, arePieces, unfinished⟩ := ih
      by_cases continues : Continues line
      -- The line goes on with the first piece after it, or with the rest if no piece is left.
      · cases pieces with
        | nil =>
            refine ⟨[], line :: rest, by rw [← whole]; rfl, nofun, ?_⟩
            exact List.forall_mem_cons.mpr ⟨continues, unfinished⟩
        | cons first others =>
            obtain ⟨isPiece, areOthers⟩ := List.forall_mem_cons.mp arePieces
            obtain ⟨before, last, rfl, beforeContinue, ends⟩ := isPiece
            refine ⟨((line :: before) ++ [last]) :: others, rest, by rw [← whole]; rfl, ?_,
              unfinished⟩
            refine List.forall_mem_cons.mpr ⟨⟨line :: before, last, rfl, ?_, ends⟩, areOthers⟩
            exact List.forall_mem_cons.mpr ⟨continues, beforeContinue⟩
      · refine ⟨[line] :: pieces, rest, by rw [← whole]; rfl, ?_, unfinished⟩
        exact List.forall_mem_cons.mpr ⟨⟨[], line, rfl, nofun, continues⟩, arePieces⟩

/-! ### Gathering -/

theorem continued?_of_continues {line : String} (continues : Continues line) :
    continued? line = some (String.ofList line.toList.dropLast) := by
  obtain ⟨front, split⟩ := List.getLast?_eq_some_iff.mp continues
  rw [continued?, split, List.reverse_append, List.dropLast_concat]
  exact congrArg (fun cs => some (String.ofList cs)) (List.reverse_reverse front)

theorem continued?_of_ends {line : String} (ends : ¬Continues line) : continued? line = none := by
  rw [continued?]
  split
  · rename_i front reversed
    refine absurd ?_ ends
    rw [Continues, List.getLast?_eq_head?_reverse, reversed, List.head?_cons]
  · rfl

theorem gather_of_continues (waiting : String) {line : String} (continues : Continues line) :
    gather waiting line = .more (waiting ++ contribution line) := by
  rw [gather, continued?_of_continues continues, contribution, if_pos continues,
    String.ofList_append, ← String.append_assoc]

theorem gather_of_ends (waiting : String) {line : String} (ends : ¬Continues line) :
    gather waiting line = .complete (waiting ++ contribution line) := by
  rw [gather, continued?_of_ends ends, contribution, if_neg ends]

theorem joined_nil : joined [] = "" :=
  rfl

theorem joined_cons (line : String) (lines : List String) :
    joined (line :: lines) = contribution line ++ joined lines :=
  String.join_cons

theorem joined_concat (before : List String) (last : String) :
    joined (before ++ [last]) = joined before ++ contribution last := by
  rw [joined, joined, List.map_append, String.join_append, List.map_singleton, String.join_cons,
    String.join_nil, String.append_empty]

/-- Lines that all go on complete no input. -/
theorem inputs_continued {before : List String} (continues : ∀ line ∈ before, Continues line)
    (waiting : String) (lines : List String) :
    inputs waiting (before ++ lines) = inputs (waiting ++ joined before) lines := by
  induction before generalizing waiting with
  | nil => rw [List.nil_append, joined_nil, String.append_empty]
  | cons line before ih =>
      obtain ⟨here, later⟩ := List.forall_mem_cons.mp continues
      rw [List.cons_append, inputs, gather_of_continues waiting here, joined_cons,
        ← String.append_assoc]
      exact ih later _

theorem inputs_piece {piece : List String} (isPiece : IsPiece piece) (lines : List String) :
    inputs "" (piece ++ lines) = joined piece :: inputs "" lines := by
  obtain ⟨before, last, rfl, continues, ends⟩ := isPiece
  rw [List.append_assoc, inputs_continued continues, List.singleton_append, inputs,
    gather_of_ends _ ends, joined_concat, String.empty_append]

theorem Cut.inputs_eq {lines : List String} {pieces : List (List String)} {rest : List String}
    (cut : Cut lines pieces rest) : inputs "" lines = pieces.map joined := by
  obtain ⟨rfl, arePieces, unfinished⟩ := cut
  induction pieces with
  | nil =>
      have nothing := inputs_continued unfinished "" []
      rwa [List.append_nil] at nothing
  | cons piece pieces ih =>
      obtain ⟨isPiece, areOthers⟩ := List.forall_mem_cons.mp arePieces
      rw [List.flatten_cons, List.append_assoc, inputs_piece isPiece, ih areOthers, List.map_cons]

/-! ### The conversation -/

section Answers

variable {m : Type → Type} [Monad m] {σ : Type}

def answerEach (answer : σ → String → m (Option σ)) : List String → σ → m (Option σ)
  | [], state => return some state
  | input :: inputs, state => do
      match ← answer state input with
      | some next => answerEach answer inputs next
      | none => return none

def waitingAfter (waiting : Option String) (before : List String) : Option String :=
  if before = [] then waiting else some (waiting.getD "" ++ joined before)

theorem getD_waitingAfter (waiting : Option String) (before : List String) :
    (waitingAfter waiting before).getD "" = waiting.getD "" ++ joined before := by
  rw [waitingAfter]
  split
  · rename_i none
    rw [none, joined_nil, String.append_empty]
  · rfl

theorem waitingAfter_cons (waiting : Option String) (line : String) (before : List String) :
    waitingAfter (some (waiting.getD "" ++ contribution line)) before =
      waitingAfter waiting (line :: before) := by
  rw [waitingAfter, waitingAfter, if_neg (List.cons_ne_nil line before), joined_cons,
    ← String.append_assoc]
  split
  · rename_i none
    rw [none, joined_nil, String.append_empty]
  · rfl

namespace Conversation

variable [LawfulMonad m] (answer : σ → String → m (Option σ))

theorem run_continued {before : List String} (continues : ∀ line ∈ before, Continues line)
    (waiting : Option String) (state : σ) (events : List Event) :
    run answer (before.map .line ++ events) ⟨waiting, state⟩ =
      run answer events ⟨waitingAfter waiting before, state⟩ := by
  induction before generalizing waiting with
  | nil => rfl
  | cons line before ih =>
      obtain ⟨here, later⟩ := List.forall_mem_cons.mp continues
      rw [List.map_cons, List.cons_append, run, take, gather_of_continues _ here, pure_bind,
        ← waitingAfter_cons]
      exact ih later _

/-- A piece is answered as one input, and nothing of it waits afterwards. -/
theorem run_piece {piece : List String} (isPiece : IsPiece piece) (state : σ)
    (events : List Event) :
    run answer (piece.map .line ++ events) (start state) = do
      match ← answer state (joined piece) with
      | some next => run answer events (start next)
      | none => return none := by
  obtain ⟨before, last, rfl, continues, ends⟩ := isPiece
  rw [List.map_append, List.append_assoc, start, run_continued answer continues, List.map_singleton,
    List.singleton_append, run, take, gather_of_ends _ ends, getD_waitingAfter, Option.getD_none,
    String.empty_append, joined_concat, bind_assoc]
  refine bind_congr fun result => ?_
  cases result with
  | none => rw [pure_bind]
  | some next => rw [pure_bind]

/-- The lines of a conversation are answered piece by piece, and then the rest of them waits. -/
theorem run_cut {lines : List String} {pieces : List (List String)} {rest : List String}
    (cut : Cut lines pieces rest) (state : σ) (events : List Event) :
    run answer (lines.map .line ++ events) (start state) = do
      match ← answerEach answer (pieces.map joined) state with
      | some next => run answer events ⟨waitingAfter none rest, next⟩
      | none => return none := by
  obtain ⟨rfl, arePieces, unfinished⟩ := cut
  induction pieces generalizing state with
  | nil =>
      rw [List.flatten_nil, List.nil_append, start, run_continued answer unfinished, List.map_nil,
        answerEach, pure_bind]
  | cons piece pieces ih =>
      obtain ⟨isPiece, areOthers⟩ := List.forall_mem_cons.mp arePieces
      rw [List.flatten_cons, List.append_assoc, List.map_append, List.append_assoc,
        run_piece answer isPiece, List.map_cons, answerEach, bind_assoc]
      refine bind_congr fun result => ?_
      cases result with
      | none => rw [pure_bind]
      | some next => exact ih next areOthers

/-- At the end of the input the rest of the lines is dropped. -/
theorem run_cut_endOfInput {lines : List String} {pieces : List (List String)}
    {rest : List String} (cut : Cut lines pieces rest) (state : σ) :
    run answer (lines.map .line ++ [.endOfInput]) (start state) = do
      let _ ← answerEach answer (pieces.map joined) state
      return none := by
  rw [run_cut answer cut]
  refine bind_congr fun result => ?_
  cases result with
  | none => rfl
  | some next => exact pure_bind none _

end Conversation

variable [LawfulMonad m] (read : String → m FileText) (write : Transcript → m Unit)

theorem answerEach_farewell (inputs : List String) (session : Session) :
    (do
      let _ ← answerEach (answer read write) inputs session
      write farewell) = answerAll read write inputs session := by
  induction inputs generalizing session with
  | nil => rw [answerAll, answerEach, pure_bind]
  | cons input inputs ih =>
      rw [answerAll, answerEach, bind_assoc]
      refine bind_congr fun result => ?_
      cases result with
      | none => rw [pure_bind]
      | some next => exact ih next

/-- The interpreter answers its lines as they come as it answers the inputs that they make up. -/
theorem run_lines_eq_answerAll (lines : List String) (session : Session) :
    (do
      let _ ← Conversation.run (answer read write) (lines.map .line ++ [.endOfInput])
        (.start session)
      write farewell) = answerAll read write (inputs "" lines) session := by
  obtain ⟨pieces, rest, cut⟩ := exists_cut lines
  rw [Conversation.run_cut_endOfInput _ cut, cut.inputs_eq, ← answerEach_farewell, bind_assoc]
  simp only [pure_bind]

end Answers

/-- The inputs of a conversation are the pieces of its lines, which are cut after each line that
does not end in a backslash. The text of a piece is that of its lines with one line break for a
backslash at the end of a line. Whatever answers is given these texts in order, up to the first
after which the conversation is over. Afterwards the text of the lines after the last cut waits and
nothing else does, and it is not answered when the input ends there. -/
theorem conversation_answers_pieces (lines : List String) :
    (∃ pieces rest, Cut lines pieces rest) ∧
    ∀ pieces rest, Cut lines pieces rest →
      inputs "" lines = pieces.map joined ∧
      ∀ {m : Type → Type} [Monad m] [LawfulMonad m] {σ : Type}
        (answer : σ → String → m (Option σ)) (state : σ),
        (Conversation.run answer (lines.map .line) (.start state) = do
          match ← answerEach answer (pieces.map joined) state with
          | some next => return some ⟨if rest = [] then none else some (joined rest), next⟩
          | none => return none) ∧
        Conversation.run answer (lines.map .line ++ [.endOfInput]) (.start state) = do
          let _ ← answerEach answer (pieces.map joined) state
          return none := by
  refine ⟨exists_cut lines, fun pieces rest cut => ⟨cut.inputs_eq, ?_⟩⟩
  intro m _ _ σ answer state
  constructor
  · have answered := Conversation.run_cut answer cut state []
    rw [List.append_nil] at answered
    rw [answered, waitingAfter, Option.getD_none, String.empty_append]
    rfl
  · exact Conversation.run_cut_endOfInput answer cut state

/-- One line is a lone backslash, one ends in two and one is empty. Two lines come after the input
that ends the conversation. -/
theorem conversation_with_backslashes :
    let lines := ["a \\", "\\", "b\\\\", "", "c", "quit", "d", "e\\"]
    let pieces := [["a \\", "\\", "b\\\\", ""], ["c"], ["quit"], ["d"]]
    let answer (_ : Unit) (input : String) : StateM (List String) (Option Unit) := do
      modify (· ++ [input])
      return if input = "quit" then none else some ()
    Cut lines pieces ["e\\"] ∧
      (Conversation.run answer (lines.map .line) (.start ())).run [] =
        (none, ["a \n\nb\\\n", "c", "quit"]) := by
  intro lines pieces answer
  have cut : Cut lines pieces ["e\\"] := by
    refine ⟨rfl, ?_, by decide⟩
    simp only [pieces, List.forall_mem_cons]
    exact ⟨⟨["a \\", "\\", "b\\\\"], "", rfl, by decide, by decide⟩,
      ⟨[], "c", rfl, by decide, by decide⟩, ⟨[], "quit", rfl, by decide, by decide⟩,
      ⟨[], "d", rfl, by decide, by decide⟩, nofun⟩
  obtain ⟨-, same⟩ := (conversation_answers_pieces lines).2 pieces ["e\\"] cut
  refine ⟨cut, ?_⟩
  rw [(same answer ()).1]
  rfl

end UntypedLambda.Shell
