import CallScript.Proofs.Console
import CallScript.Proofs.Eval.Sequence

/-! # A program typed line by line

A program that is one `do` of several trees ends exactly as these trees do one by one in one scope, up
to the first that fails, and so does a session that is given a line for each of them
(`sequence_is_session`). A session goes on behind a line that fails; what it does then is not compared. -/

namespace CallScript

namespace Console

/-- The line is read as the tree. -/
def Reads (line : String) (e : Expr) : Prop :=
  (Request.ofLine line).read? = some (.ok e)

theorem reads_of_program {line : String} {e : Expr} (request : Request.ofLine line = .program line)
    (parsed : Source.parse line = .ok e) : Reads line e := by
  rw [Reads, request, Request.read?, parsed]

namespace Session

variable {fuel fuel' : Nat} {session last : Session} {request : Request} {line : String}
  {lines output : List String} {answered : Session × List String} {e : Expr} {es : List Expr}
  {v : Value} {result : Except Error Value} {next after : World}

/-- The session answers the lines, shows this result last, and then is in this world. If the result is
an error, the lines from some place on may be left out. -/
def Shows (session : Session) (lines : List String) (result : Except Error Value) (after : World) :
    Prop :=
  ∃ typed rest fuel output, lines = typed ++ rest ∧
    session.answerAll fuel typed = some ({ session with world := after }, output) ∧
    output.getLast? = some (shown result) ∧ (rest = [] ∨ ∃ error, result = .error error)

/-! ## Bounds -/

theorem evaluateRead_mono {read : Except SyntaxError Expr} (larger : fuel ≤ fuel')
    (ends : session.evaluateRead fuel read = some answered) :
    session.evaluateRead fuel' read = some answered := by
  cases read with
  | error e => exact ends
  | ok e =>
    obtain ⟨ended, evaluates, same⟩ := Option.map_eq_some_iff.mp ends
    exact Option.map_eq_some_iff.mpr ⟨ended, World.eval_of_le larger evaluates, same⟩

theorem answer_mono (larger : fuel ≤ fuel') (ends : session.answer fuel request = some answered) :
    session.answer fuel' request = some answered := by
  cases request with
  | program text => exact evaluateRead_mono larger ends
  | json text => exact evaluateRead_mono larger ends
  | nothing | help | listBindings | toggleTree | toggleJson | quit => exact ends

/-- A session that gets through its lines gets through them with a larger bound just so. -/
theorem answerAll_mono (larger : fuel ≤ fuel') (ends : session.answerAll fuel lines = some answered) :
    session.answerAll fuel' lines = some answered := by
  induction lines generalizing session answered with
  | nil => exact ends
  | cons line lines ih =>
    by_cases quits : Quits line
    · rw [answerAll_of_quits quits] at ends ⊢
      exact ends
    · rw [answerAll_of_not_quits quits] at ends ⊢
      obtain ⟨⟨next, told⟩, first, ends⟩ := Option.bind_eq_some_iff.mp ends
      obtain ⟨⟨last, more⟩, others, same⟩ := Option.bind_eq_some_iff.mp ends
      exact Option.bind_eq_some_iff.mpr ⟨_, answer_mono larger first,
        Option.bind_eq_some_iff.mpr ⟨_, ih others, same⟩⟩

/-! ## Lines that are read as trees -/

theorem answer_of_reads (reads : Reads line e) :
    session.answer fuel (.ofLine line) =
      (session.world.eval fuel e session.scope).map fun (result, world) =>
        ({ session with world := world },
          (Answer.evaluated (session.views e) (printedLines session.world.store world.store)
            (shown result)).lines) := by
  rw [answer_eq_consider, consider, reads]
  exact Option.map_map ..

theorem not_quits_of_reads (reads : Reads line e) : ¬ Quits line := by
  intro quits
  rw [Reads, Request.ofLine_eq_quit_iff.mpr quits] at reads
  cases reads

/-- One line: its tree is evaluated, the result is shown, and the session goes on in the world after
that. -/
theorem answerAll_cons_of_evaluates (reads : Reads line e)
    (first : session.world.Evaluates e session.scope result after)
    (others : answerAll fuel { session with world := after } lines = some (last, output)) :
    ∃ fuel told, session.answerAll fuel (line :: lines) =
      some (last, told ++ [shown result] ++ output) := by
  obtain ⟨fuel', evaluates⟩ := first
  -- the larger one of the two bounds serves all lines
  have still := World.eval_of_le (Nat.le_max_right fuel fuel') evaluates
  have rest := answerAll_mono (Nat.le_max_left fuel fuel') others
  let told := (session.views e).map ("→ " ++ ·) ++ printedLines session.world.store after.store
  refine ⟨max fuel fuel', told, ?_⟩
  rw [answerAll_of_not_quits (not_quits_of_reads reads), answer_of_reads reads, still]
  simp only [Option.map_some, Option.bind_some, rest]
  rfl

/-- A result that is shown by the first line is the last one if nothing follows or the tree has failed. -/
theorem shows_of_evaluates (reads : Reads line e)
    (ends : session.world.Evaluates e session.scope result after)
    (complete : lines = [] ∨ ∃ error, result = .error error) :
    session.Shows (line :: lines) result after := by
  have nothing : answerAll 0 { session with world := after } [] =
      some ({ session with world := after }, []) := rfl
  obtain ⟨fuel, told, answered⟩ := answerAll_cons_of_evaluates reads ends nothing
  refine ⟨[line], lines, fuel, _, rfl, answered, ?_, complete⟩
  rw [List.append_nil, List.getLast?_concat]

theorem Shows.cons (others : Shows { session with world := next } lines result after)
    (reads : Reads line e) (first : session.world.Evaluates e session.scope (.ok v) next) :
    session.Shows (line :: lines) result after := by
  obtain ⟨typed, rest, fuel, output, rfl, answered, last, complete⟩ := others
  obtain ⟨fuel, told, answered⟩ := answerAll_cons_of_evaluates reads first answered
  refine ⟨line :: typed, rest, fuel, _, rfl, answered, ?_, complete⟩
  rw [List.getLast?_append, last, Option.some_or]

/-- What trees end with in sequence is what a session shows that is given their lines. -/
theorem shows_of_evaluatesSequence (read : Reads line e) (reads : List.Forall₂ Reads lines es)
    (ends : session.world.EvaluatesSequence v (e :: es) session.scope result after) :
    session.Shows (line :: lines) result after := by
  induction reads generalizing session line e v with
  | nil =>
    rcases World.evaluatesSequence_cons_iff.mp ends with ⟨w, next, first, others⟩ | ⟨error, fails, rfl⟩
    · obtain ⟨rfl, rfl⟩ := World.evaluatesSequence_nil_iff.mp others
      exact shows_of_evaluates read first (.inl rfl)
    · exact shows_of_evaluates read fails (.inr ⟨error, rfl⟩)
  | cons read' _ ih =>
    rcases World.evaluatesSequence_cons_iff.mp ends with ⟨w, next, first, others⟩ | ⟨error, fails, rfl⟩
    · have rest : Shows { session with world := next } _ result after := ih read' others
      exact rest.cons read first
    · exact shows_of_evaluates read fails (.inr ⟨error, rfl⟩)

/-- If a session gets through the lines of trees, the trees end in sequence. -/
theorem exists_evaluatesSequence (reads : List.Forall₂ Reads lines es)
    (ends : session.answerAll fuel lines = some answered) :
    ∃ result after, session.world.EvaluatesSequence v es session.scope result after := by
  induction reads generalizing session v answered with
  | nil => exact ⟨_, _, World.evaluatesSequence_nil_iff.mpr ⟨rfl, rfl⟩⟩
  | cons read _ ih =>
    rw [answerAll_of_not_quits (not_quits_of_reads read), answer_of_reads read] at ends
    obtain ⟨_, told, ends⟩ := Option.bind_eq_some_iff.mp ends
    obtain ⟨⟨result, next⟩, evaluates, rfl⟩ := Option.map_eq_some_iff.mp told
    cases result with
    | error error =>
      exact ⟨_, _, World.evaluatesSequence_cons_iff.mpr (.inr ⟨error, ⟨fuel, evaluates⟩, rfl⟩)⟩
    | ok w =>
      obtain ⟨_, others, -⟩ := Option.bind_eq_some_iff.mp ends
      obtain ⟨result, after, rest⟩ := ih (v := w) others
      exact ⟨result, after,
        World.evaluatesSequence_cons_iff.mpr (.inl ⟨w, next, ⟨fuel, evaluates⟩, rest⟩)⟩

theorem shows_of_oneByOne (reads : List.Forall₂ Reads lines es) (trees : es ≠ [])
    (ends : session.world.OneByOne session.scope es result after) :
    session.Shows lines result after := by
  have sequence := (World.evaluatesSequence_iff_oneByOne (v := .boolean false) trees).mpr ends
  cases reads with
  | nil => exact absurd rfl trees
  | cons read reads => exact shows_of_evaluatesSequence read reads sequence

theorem exists_oneByOne (reads : List.Forall₂ Reads lines es) (trees : es ≠ [])
    (ends : session.answerAll fuel lines = some answered) :
    ∃ result after, session.world.OneByOne session.scope es result after := by
  obtain ⟨result, after, sequence⟩ := exists_evaluatesSequence (v := .boolean false) reads ends
  exact ⟨result, after, (World.evaluatesSequence_iff_oneByOne trees).mp sequence⟩

end Session

end Console

namespace World

/-- A program of one sequence ends exactly as its trees do one by one in a scope of their own: with
the value of the last one, or with the error of the first that fails, and in the very same world, so
the same was printed and every scope is the same. A session in that scope whose lines are read as these
trees shows the same in the same world, and gets through all of its lines only if the program ends. -/
theorem sequence_is_session (world : World) (global : ScopeId) (es : List Expr) (trees : es ≠ [])
    (result : Except Error Value) (after : World) :
    let (scope, inside) := world.newChild global
    (inside.Evaluates (.call (.word "do") es) scope result after ↔
        inside.OneByOne scope es result after) ∧
      (∀ text, Source.parse text = .ok (.call (.word "do") es) →
        ((∃ fuel, world.run fuel text global = some (result, after)) ↔
          inside.OneByOne scope es result after)) ∧
      ∀ (session : Console.Session) lines, session.world = inside → session.scope = scope →
        List.Forall₂ Console.Reads lines es →
        (inside.OneByOne scope es result after → session.Shows lines result after) ∧
          ∀ fuel answered, session.answerAll fuel lines = some answered →
            ∃ result after, inside.OneByOne scope es result after := by
  have same : ∀ (inside : World) scope,
      inside.Evaluates (.call (.word "do") es) scope result after ↔
        inside.OneByOne scope es result after := fun inside scope =>
    evaluates_sequence_iff.trans (evaluatesSequence_iff_oneByOne trees)
  refine ⟨same _ _, ?program, ?session⟩
  case program =>
    intro text parsed
    simp only [run, parsed]
    exact same _ _
  case session =>
    rintro session lines inside scope reads
    rw [← inside, ← scope]
    refine ⟨Console.Session.shows_of_oneByOne reads trees, ?_⟩
    intro fuel answered ends
    exact Console.Session.exists_oneByOne reads trees ends

/-- Of `define(x, true)`, `y` and `z` the second one fails; a program of the three fails just so, and so
does a session that is given three lines. -/
theorem three_trees_stop_at_second :
    ∃ fuel after, (newGlobal {}).2.run fuel "do(define(x, true), y, z)" 0 =
        some (.error (.undefinedBinding "y"), after) ∧
      let (scope, inside) := (newGlobal {}).2.newChild 0
      let trees := [.call (.word "define") [.word "x", .word "true"], .word "y", .word "z"]
      let lines := ["define(x, true)", "y", "z"]
      let session : Console.Session := { world := inside, scope := scope }
      inside.OneByOne scope trees (.error (.undefinedBinding "y")) after ∧
        List.Forall₂ Console.Reads lines trees ∧
        session.Shows lines (.error (.undefinedBinding "y")) after := by
  have parsed : Source.parse "do(define(x, true), y, z)" = .ok (.call (.word "do")
      [.call (.word "define") [.word "x", .word "true"], .word "y", .word "z"]) :=
    Source.parseWith_eq_runProgram.mpr (by cbv)
  have fails : ∃ after, (newGlobal {}).2.run 5 "do(define(x, true), y, z)" 0 =
      some (.error (.undefinedBinding "y"), after) := by
    simp only [run, parsed]
    exact ⟨_, rfl⟩
  obtain ⟨after, ends⟩ := fails
  have reads : List.Forall₂ Console.Reads ["define(x, true)", "y", "z"]
      [.call (.word "define") [.word "x", .word "true"], .word "y", .word "z"] := by
    refine .cons ?_ (.cons ?_ (.cons ?_ .nil))
    all_goals
      apply Console.reads_of_program
      · decide +kernel
      · exact Source.parseWith_eq_runProgram.mpr (by cbv)
  obtain ⟨-, program, session⟩ :=
    sequence_is_session (newGlobal {}).2 0 _ (List.cons_ne_nil _ _) (.error (.undefinedBinding "y")) after
  have oneByOne := (program _ parsed).mp ⟨5, ends⟩
  exact ⟨5, after, ends, oneByOne, reads, (session _ _ rfl rfl reads).1 oneByOne⟩

end World

end CallScript
