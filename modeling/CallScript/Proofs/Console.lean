import CallScript.Console
import CallScript.Proofs.Source.Continuation

/-! # Commands of a session

Commands show something or switch a view on or off, so leaving them out of a session changes nothing
that its programs print, yield or bind (`commands_leave_no_trace`). The lines of output do not tell
by themselves what each of them is, so a session is told again here with a log that does. -/

namespace CallScript.Console

/-! ## What a line is -/

/-- A line without the white space around it. -/
def trimmed (line : String) : String :=
  .ofList (Text.trimBlank line.toList)

/-- The line ends the session. -/
def Quits (line : String) : Prop :=
  trimmed line = ":quit" ∨ trimmed line = ":exit"

/-- The line is blank, or a command that does not end the session. -/
def Idle (line : String) : Prop :=
  trimmed line ∈ ["", ":help", ":env", ":ast", ":json"]

instance (line : String) : Decidable (Quits line) :=
  inferInstanceAs (Decidable (_ ∨ _))

instance (line : String) : Decidable (Idle line) :=
  inferInstanceAs (Decidable (_ ∈ _))

/-- What is read from the line, if it is not a command. -/
def Request.read? : Request → Option (Except SyntaxError Expr)
  | .program text => some (Source.parse text)
  | .json text => some (Expr.ofJsonText text)
  | _ => none

/-- A line quits or is idle, or is read as a program; what it asks for is told by that. -/
theorem Request.ofLine_cases (line : String) :
    (Quits line ∧ Request.ofLine line = .quit) ∨
      (Idle line ∧ Request.ofLine line ∈ [nothing, help, listBindings, toggleTree, toggleJson]) ∨
      (¬ Quits line ∧ ¬ Idle line ∧ (Request.ofLine line).read?.isSome) := by
  rw [Request.ofLine, Quits, Idle, trimmed]
  split
  next same => simp [same]
  next same => simp [same]
  next same => simp [same]
  next same => simp [same]
  next same => simp [same]
  next same => simp [same]
  next same => simp [same]
  next empty help env ast json quit exit =>
    refine .inr (.inr ⟨?_, ?_, ?_⟩)
    · rintro (same | same)
      · exact quit same
      · exact exit same
    · simp only [List.mem_cons, List.not_mem_nil, or_false]
      rintro (same | same | same | same | same)
      · exact empty same
      · exact help same
      · exact env same
      · exact ast same
      · exact json same
    · split <;> rfl

theorem not_quits_of_idle {line : String} (idle : Idle line) : ¬ Quits line := by
  rintro (same | same)
  · simp [Idle, same] at idle
  · simp [Idle, same] at idle

theorem Request.ofLine_eq_quit_iff {line : String} : Request.ofLine line = .quit ↔ Quits line := by
  rcases ofLine_cases line with ⟨quits, same⟩ | ⟨idle, asks⟩ | ⟨goesOn, -, read⟩
  · simp [quits, same]
  · have : Request.ofLine line ≠ .quit := fun same => by simp [same] at asks
    simp [this, not_quits_of_idle idle]
  · have : Request.ofLine line ≠ .quit := fun same => by simp [same, read?] at read
    simp [this, goesOn]

/-- What an idle line asks for is not read as a program. -/
theorem Request.ofLine_of_idle {line : String} (idle : Idle line) :
    Request.ofLine line ∈ [nothing, help, listBindings, toggleTree, toggleJson] := by
  rcases ofLine_cases line with ⟨quits, -⟩ | ⟨-, asks⟩ | ⟨-, busy, -⟩
  · exact absurd quits (not_quits_of_idle idle)
  · exact asks
  · exact absurd idle busy

/-- A line is read as a program unless it quits or is idle. -/
theorem Request.read_of_busy {line : String} (goesOn : ¬ Quits line) (busy : ¬ Idle line) :
    ∃ read, (Request.ofLine line).read? = some read := by
  rcases ofLine_cases line with ⟨quits, -⟩ | ⟨idle, -⟩ | ⟨-, -, read⟩
  · exact absurd quits goesOn
  · exact absurd idle busy
  · exact Option.isSome_iff_exists.mp read

/-- Some idle lines are left out. -/
inductive Thinned : List String → List String → Prop where
  | nil : Thinned [] []
  | keep (line : String) {lines kept : List String} (others : Thinned lines kept) :
      Thinned (line :: lines) (line :: kept)
  | drop {line : String} {lines kept : List String} (idle : Idle line)
      (others : Thinned lines kept) : Thinned (line :: lines) kept

/-! ## The log of a session -/

/-- The parts of the answer to a line. -/
inductive Answer where
  -- A listing or a notice.
  | told (lines : List String)
  -- The views of a tree, the values that it printed, and the line for its value or the error.
  | evaluated (views printed : List String) (shown : String)

namespace Answer

/-- Views start with an arrow. -/
def lines : Answer → List String
  | told lines => lines
  | evaluated views printed shown => views.map ("→ " ++ ·) ++ printed ++ [shown]

/-- What a program printed and the line for its value or the error. -/
def outcome? : Answer → Option (List String × String)
  | told _ => none
  | evaluated _ printed shown => some (printed, shown)

end Answer

namespace Session

variable {fuel : Nat} {session next : Session} {request : Request} {line : String}

/-- The trees that are shown before the evaluation of a tree. -/
def views (session : Session) (e : Expr) : List String :=
  (if session.showTree then [e.tagged] else []) ++ (if session.showJson then [e.toJsonText] else [])

def shown : Except Error Value → String
  | .ok v => v.display
  | .error e => "Error: " ++ e.message

/-- Evaluates what has been read, with the parts of the answer. -/
def reply (fuel : Nat) (session : Session) : Except SyntaxError Expr → Option (Session × Answer)
  | .ok e => (session.world.eval fuel e session.scope).map fun (result, world) =>
      ({ session with world := world },
        .evaluated (session.views e) (printedLines session.world.store world.store) (shown result))
  | .error e => some (session, .evaluated [] [] ("Error: " ++ (Error.ofSyntax e).message))

/-- Does what a line asks for, with the parts of the answer. -/
def consider (fuel : Nat) (session : Session) (request : Request) : Option (Session × Answer) :=
  match request.read? with
  | some read => session.reply fuel read
  | none => (session.answer fuel request).map fun (next, lines) => (next, .told lines)

/-- Answers lines up to one that quits, or all of them, and logs each with its answer. -/
def log (fuel : Nat) (session : Session) : List String → Option (Session × List (String × Answer))
  | [] => some (session, [])
  | line :: rest =>
    match Request.ofLine line with
    | .quit => some (session, [])
    | request =>
      (session.consider fuel request).bind fun (next, answer) =>
        (next.log fuel rest).map fun (last, more) => (last, (line, answer) :: more)

/-- The lines that were read as programs, in order, with what each printed and its last line. -/
def outcomes (entries : List (String × Answer)) : List (String × List String × String) :=
  entries.filterMap fun (line, answer) => answer.outcome?.map (line, ·)

theorem evaluateRead_eq_reply (fuel : Nat) (session : Session) (read : Except SyntaxError Expr) :
    session.evaluateRead fuel read =
      (session.reply fuel read).map fun (next, answer) => (next, answer.lines) := by
  cases read with
  | error e => rfl
  | ok e =>
    rw [evaluateRead, evaluate, reply, Option.map_map]
    congr 1
    funext ended
    obtain ⟨result, world⟩ := ended
    simp only [Function.comp_apply, Answer.lines, views]
    split <;> split <;> cases result <;> rfl

theorem outcomes_cons (line : String) (answer : Answer) (entries : List (String × Answer)) :
    outcomes ((line, answer) :: entries) =
      (answer.outcome?.map (line, ·)).toList ++ outcomes entries := by
  cases answer <;> rfl

/-- A line that cannot be read leaves the session as it is. -/
theorem answer_of_unread {error : SyntaxError} (unread : request.read? = some (.error error)) :
    session.answer fuel request =
      some (session, ["Error: " ++ (Error.ofSyntax error).message]) := by
  cases request with
  | program text => rw [answer, Option.some.inj unread, evaluateRead]
  | json text => rw [answer, Option.some.inj unread, evaluateRead]
  | nothing | help | listBindings | toggleTree | toggleJson | quit => cases unread

/-- The lines of output are those of the answers in the log. -/
theorem answer_eq_consider (fuel : Nat) (session : Session) (request : Request) :
    session.answer fuel request =
      (session.consider fuel request).map fun (next, answer) => (next, answer.lines) := by
  cases request with
  | program text => exact evaluateRead_eq_reply fuel session _
  | json text => exact evaluateRead_eq_reply fuel session _
  | nothing | help | listBindings | toggleTree | toggleJson | quit => rfl

theorem answerAll_of_quits (quits : Quits line) (rest : List String) :
    session.answerAll fuel (line :: rest) = some (session, []) := by
  rw [answerAll, Request.ofLine_eq_quit_iff.mpr quits]

theorem log_of_quits (quits : Quits line) (rest : List String) :
    session.log fuel (line :: rest) = some (session, []) := by
  rw [log, Request.ofLine_eq_quit_iff.mpr quits]

theorem answerAll_of_not_quits (goesOn : ¬ Quits line) (rest : List String) :
    session.answerAll fuel (line :: rest) =
      (session.answer fuel (.ofLine line)).bind fun (next, lines) =>
        (next.answerAll fuel rest).bind fun (last, more) => some (last, lines ++ more) := by
  rw [answerAll]
  split
  next quits => exact absurd (Request.ofLine_eq_quit_iff.mp quits) goesOn
  next => rfl

theorem log_of_not_quits (goesOn : ¬ Quits line) (rest : List String) :
    session.log fuel (line :: rest) =
      (session.consider fuel (.ofLine line)).bind fun (next, answer) =>
        (next.log fuel rest).map fun (last, more) => (last, (line, answer) :: more) := by
  rw [log]
  split
  next quits => exact absurd (Request.ofLine_eq_quit_iff.mp quits) goesOn
  next => rfl

theorem answerAll_eq_log (fuel : Nat) (session : Session) (lines : List String) :
    session.answerAll fuel lines =
      (session.log fuel lines).map fun (last, entries) =>
        (last, entries.flatMap fun entry => entry.2.lines) := by
  induction lines generalizing session with
  | nil => rfl
  | cons line rest ih =>
    by_cases quits : Quits line
    · rw [answerAll_of_quits quits, log_of_quits quits]
      rfl
    · rw [answerAll_of_not_quits quits, log_of_not_quits quits, answer_eq_consider]
      cases session.consider fuel (.ofLine line) with
      | none => rfl
      | some considered =>
        obtain ⟨next, answer⟩ := considered
        simp only [Option.map_some, Option.bind_some, ih]
        cases next.log fuel rest with
        | none => rfl
        | some logged => rfl

/-- The sessions differ at most in what they show of trees. -/
def Alike (a b : Session) : Prop :=
  a.world = b.world ∧ a.scope = b.scope

/-- An idle line has no outcome, and switches views at most. -/
theorem consider_of_idle (idle : Idle line) (session : Session) (fuel : Nat) :
    ∃ next lines, session.consider fuel (.ofLine line) = some (next, .told lines) ∧
      next.Alike session := by
  have request := Request.ofLine_of_idle idle
  simp only [List.mem_cons, List.not_mem_nil, or_false] at request
  rcases request with same | same | same | same | same
  all_goals
    rw [same]
    exact ⟨_, _, rfl, rfl, rfl⟩

/-- What is read from a line has an outcome. -/
theorem outcome_of_reply {read : Except SyntaxError Expr} {answer : Answer}
    (replies : session.reply fuel read = some (next, answer)) : answer.outcome?.isSome := by
  cases read with
  | error e =>
    cases replies
    rfl
  | ok e =>
    obtain ⟨ended, -, same⟩ := Option.map_eq_some_iff.mp replies
    cases same
    rfl

theorem outcome_of_consider (goesOn : ¬ Quits line) {answer : Answer}
    (considered : session.consider fuel (.ofLine line) = some (next, answer)) :
    answer.outcome?.isSome ↔ ¬ Idle line := by
  by_cases idle : Idle line
  · obtain ⟨next, told, told', -⟩ := consider_of_idle idle session fuel
    rw [told'] at considered
    cases considered
    simp [Answer.outcome?, idle]
  · obtain ⟨read, reads⟩ := Request.read_of_busy goesOn idle
    rw [consider, reads] at considered
    simp [outcome_of_reply considered, idle]

/-- The log has all lines up to the first one that quits, and all but the idle ones have an outcome.
-/
theorem log_complete {lines : List String} {last : Session} {entries : List (String × Answer)}
    (ends : session.log fuel lines = some (last, entries)) :
    entries.map (·.1) = lines.takeWhile (fun line => ¬ Quits line) ∧
      ∀ entry ∈ entries, entry.2.outcome?.isSome ↔ ¬ Idle entry.1 := by
  induction lines generalizing session entries with
  | nil =>
    cases ends
    exact ⟨rfl, List.forall_mem_nil _⟩
  | cons line rest ih =>
    by_cases quits : Quits line
    · rw [log_of_quits quits] at ends
      cases ends
      simp [quits]
    · rw [log_of_not_quits quits] at ends
      obtain ⟨⟨next, answer⟩, considered, ends⟩ := Option.bind_eq_some_iff.mp ends
      obtain ⟨⟨last, more⟩, others, same⟩ := Option.map_eq_some_iff.mp ends
      cases same
      obtain ⟨names, each⟩ := ih others
      constructor
      · rw [List.map_cons, names, List.takeWhile_cons_of_pos (by simpa using quits)]
      · exact List.forall_mem_cons.mpr ⟨outcome_of_consider quits considered, each⟩

/-! ## Sessions that differ in their views -/

/-- Answers of sessions that are alike leave such sessions and have the same outcome. -/
def AlikeAnswer (a b : Session × Answer) : Prop :=
  a.1.Alike b.1 ∧ a.2.outcome? = b.2.outcome?

/-- Logs of sessions that are alike: the sessions at the end are, and the programs of the one log
are those of the other, in the same order and with the same outcomes. -/
def AlikeLog (a b : Session × List (String × Answer)) : Prop :=
  a.1.Alike b.1 ∧ outcomes a.2 = outcomes b.2

variable {other : Session}

theorem reply_alike (alike : session.Alike other) (fuel : Nat) (read : Except SyntaxError Expr) :
    Option.Rel AlikeAnswer (session.reply fuel read) (other.reply fuel read) := by
  obtain ⟨world, scope⟩ := alike
  cases read with
  | error e => exact .some ⟨⟨world, scope⟩, rfl⟩
  | ok e =>
    rw [reply, reply, world, scope]
    cases other.world.eval fuel e other.scope with
    | none => exact .none
    | some ended => exact .some ⟨⟨rfl, rfl⟩, rfl⟩

theorem consider_alike (alike : session.Alike other) (fuel : Nat) (request : Request) :
    Option.Rel AlikeAnswer (session.consider fuel request) (other.consider fuel request) := by
  cases request with
  | program text => exact reply_alike alike fuel _
  | json text => exact reply_alike alike fuel _
  | nothing | help | listBindings | toggleTree | toggleJson | quit => exact .some ⟨alike, rfl⟩

/-- Leaving out idle lines keeps sessions alike. -/
theorem log_alike (alike : session.Alike other) (fuel : Nat) {lines kept : List String}
    (thinned : Thinned lines kept) :
    Option.Rel AlikeLog (session.log fuel lines) (other.log fuel kept) := by
  induction thinned generalizing session other with
  | nil => exact .some ⟨alike, rfl⟩
  | @keep line lines kept _ ih =>
    by_cases quits : Quits line
    · rw [log_of_quits quits, log_of_quits quits]
      exact .some ⟨alike, rfl⟩
    · rw [log_of_not_quits quits, log_of_not_quits quits]
      have first := consider_alike alike fuel (.ofLine line)
      generalize session.consider fuel (.ofLine line) = x, other.consider fuel (.ofLine line) = y
        at first
      cases first with
      | none => exact .none
      | @some considered considered' same =>
        obtain ⟨next, answer⟩ := considered
        obtain ⟨next', answer'⟩ := considered'
        obtain ⟨alike, outcome⟩ := same
        simp only [Option.bind_some]
        have rest := ih alike
        generalize next.log fuel lines = x, next'.log fuel kept = y at rest
        cases rest with
        | none => exact .none
        | some same => exact .some ⟨same.1, by rw [outcomes_cons, outcomes_cons, outcome, same.2]⟩
  | @drop line lines kept idle _ ih =>
    obtain ⟨next, told, considered, same⟩ := consider_of_idle idle session fuel
    have after : next.Alike other := ⟨same.1.trans alike.1, same.2.trans alike.2⟩
    rw [log_of_not_quits (not_quits_of_idle idle), considered]
    simp only [Option.bind_some]
    have rest := ih after
    generalize next.log fuel lines = x, other.log fuel kept = y at rest
    cases rest with
    | none => exact .none
    | some same => exact .some same

/-- Nothing is answered from a line that quits on. -/
theorem answerAll_append_of_quits (quits : Quits line) (session : Session)
    (before rest : List String) :
    session.answerAll fuel (before ++ line :: rest) = session.answerAll fuel before := by
  induction before generalizing session with
  | nil => exact answerAll_of_quits quits rest
  | cons first before ih =>
    by_cases stops : Quits first
    · rw [List.cons_append, answerAll_of_quits stops, answerAll_of_quits stops]
    · rw [List.cons_append, answerAll_of_not_quits stops, answerAll_of_not_quits stops]
      simp only [ih]

end Session

/-- Commands do not affect evaluation. A session ends with the first line that quits, whatever
follows. Leaving out blank lines and commands changes neither the worlds that a session ends in, nor
the scope of its lines, nor what the programs print or the last line for each of them; and all that
a session shows besides is what commands tell and views with an arrow. A line that cannot be read
changes nothing. -/
theorem commands_leave_no_trace (fuel : Nat) :
    (∀ before line rest, Quits line →
      runSession fuel (before ++ line :: rest) = runSession fuel before) ∧
    (∀ (session : Session) lines kept, Thinned lines kept →
      Option.Rel Session.AlikeLog (session.log fuel lines) (session.log fuel kept)) ∧
    (∀ (session : Session) lines, session.answerAll fuel lines =
      (session.log fuel lines).map fun (last, entries) =>
        (last, entries.flatMap fun entry => entry.2.lines)) ∧
    (∀ (session : Session) lines last entries, session.log fuel lines = some (last, entries) →
      entries.map (·.1) = lines.takeWhile (fun line => ¬ Quits line) ∧
        ∀ entry ∈ entries, entry.2.outcome?.isSome ↔ ¬ Idle entry.1) ∧
    ∀ (session : Session) line error, (Request.ofLine line).read? = some (.error error) →
      session.answer fuel (.ofLine line) =
        some (session, ["Error: " ++ (Error.ofSyntax error).message]) := by
  refine ⟨?_, ?_, Session.answerAll_eq_log fuel, ?_, ?_⟩
  · intro before line rest quits
    rw [runSession, Session.answerAll_append_of_quits quits, runSession]
  · intro session lines kept thinned
    exact Session.log_alike ⟨rfl, rfl⟩ fuel thinned
  · intro session lines last entries ends
    exact Session.log_complete ends
  · intro session line error unread
    exact Session.answer_of_unread unread

/-- The trees are shown, a word is not bound, and a line that cannot be read comes last. -/
theorem session_of_unbound_word :
    Quits " :quit " ∧ runSession 2 (["x"] ++ " :quit " :: ["y"]) = runSession 2 ["x"] ∧
      Thinned [":ast", "x"] ["x"] ∧
      Option.Rel Session.AlikeLog (Session.start.log 2 [":ast", "x"]) (Session.start.log 2 ["x"]) ∧
      (Session.start.log 2 ["x"]).isSome ∧
      ∃ error, (Request.ofLine ")").read? = some (.error error) ∧
        Session.start.answer 2 (.ofLine ")") =
          some (.start, ["Error: " ++ (Error.ofSyntax error).message]) := by
  have ast : Idle ":ast" := by decide
  have thinned : Thinned [":ast", "x"] ["x"] := .drop ast (.keep "x" .nil)
  have quits : Quits " :quit " := by decide +kernel
  have unread : ∃ error, (Request.ofLine ")").read? = some (.error error) := by
    have read : Source.runProgram {} [')'] = .error ⟨.unexpected, [')']⟩ := by cbv
    exact ⟨_, congrArg some (Source.parseWith_of_runProgram read)⟩
  have parsed : Source.parse "x" = .ok (.word "x") := Source.parseWith_eq_runProgram.mpr (by cbv)
  have ends : (Session.start.log 2 ["x"]).isSome := by
    have request : Request.ofLine "x" = .program "x" := by decide +kernel
    rw [Session.log, request]
    simp only [Session.consider, Request.read?, parsed, Session.reply]
    rfl
  obtain ⟨stops, same, -, -, unchanged⟩ := commands_leave_no_trace 2
  obtain ⟨error, unread⟩ := unread
  exact ⟨quits, stops ["x"] " :quit " ["y"] quits, thinned, same _ _ _ thinned, ends, error, unread,
    unchanged _ _ _ unread⟩

end CallScript.Console
