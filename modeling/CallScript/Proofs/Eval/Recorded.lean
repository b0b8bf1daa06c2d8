import CallScript.Proofs.Eval.Frame
import CallScript.Proofs.Eval.Parts

/-! # Evaluation with the frames of its calls

The outcome of a run does not tell which calls were made on the way. `Recorded.eval` evaluates as
`eval` does and writes down the frame of every call as well. The frames of a run are all scopes that
it has made, in order (`Recorded.records_eval`), so no two of its calls have the same frame. -/

namespace CallScript

variable {operations : Operations} {store : Store} {c : Closure} {args : List Value}

/-- A run that also tells the frames of the calls that it makes, in the order of the calls. A run that
reaches its bound has made calls as well. -/
def Recorded (α : Type) : Type := Store → List ScopeId × Option (Outcome α)

namespace Recorded

variable {α β : Type}

/-- Goes on after a value; the frames of what follows come behind. -/
protected def bind (x : Recorded α) (f : α → Recorded β) : Recorded β :=
  fun store =>
    match x store with
    | (frames, some (.ok a, next)) => (frames ++ (f a next).1, (f a next).2)
    | (frames, some (.error e, next)) => (frames, some (.error e, next))
    | (frames, none) => (frames, none)

/-- A run that makes no calls. -/
def plain (x : Run α) : Recorded α :=
  fun store => ([], x store)

instance : Monad Recorded where
  pure a := plain (pure a)
  bind := Recorded.bind

/-- Makes the frame of a call. -/
def newFrame (captured : ScopeId) : Recorded ScopeId :=
  fun store => ([store.scopes.size], Run.newScope (some captured) store)

/-! ## Evaluation -/

abbrev Evaluator := Expr → ScopeId → Recorded Value

def evalAll (ev : Evaluator) (scope : ScopeId) : List Expr → Recorded (List Value)
  | [] => pure []
  | e :: es => do
    let v ← ev e scope
    let vs ← evalAll ev scope es
    pure (v :: vs)

def call (operations : Operations) (ev : Evaluator) (f : Value) (args : List Value) :
    Recorded Value :=
  match f with
  | .builtin _ operation => plain (.reply (operations.get operation args))
  | .closure c =>
    if c.params.length = args.length then do
      let frame ← newFrame c.scope
      plain (Run.defineAll frame (c.params.zip args))
      ev c.body frame
    else plain (.fail (.wrongArity c.params.length args.length))
  | other => plain (.fail (.notCallable other.display other.type))

def loop (condition body : Recorded Value) : (rounds : Nat) → Recorded Value
  | 0 => plain .outOfFuel
  | rounds + 1 => do
    let v ← condition
    if v.isFalse then pure (.boolean false)
    else do
      let _ ← body
      loop condition body rounds

def evalSequence (ev : Evaluator) (scope : ScopeId) (value : Value) : List Expr → Recorded Value
  | [] => pure value
  | e :: es => do
    let v ← ev e scope
    evalSequence ev scope v es

def rule (ev : Evaluator) (rounds : Nat) (form : SpecialForm) (args : List Expr)
    (scope : ScopeId) : Recorded Value :=
  match form, args with
  | .ifElse, [condition, yes, no] => do
    let v ← ev condition scope
    if v.isFalse then ev no scope else ev yes scope
  | .ifElse, _ => plain (.fail (.malformed "Wrong number of args to if"))
  | .whileLoop, [condition, body] => loop (ev condition scope) (ev body scope) rounds
  | .whileLoop, _ => plain (.fail (.malformed "Wrong number of args to while"))
  | .sequence, args => evalSequence ev scope (.boolean false) args
  | .define, [.word name, e] => do
    let v ← ev e scope
    plain (Run.define scope name v)
    pure v
  | .define, _ => plain (.fail (.malformed "Incorrect use of define"))
  | .set, [.word name, e] => do
    let v ← ev e scope
    plain (Run.set scope name v)
    pure v
  | .set, _ => plain (.fail (.malformed "Set requires two arguments: a word and value"))
  | .function, first :: rest => do
    let params ← plain (Run.ofExcept (paramNames ((first :: rest).dropLast)))
    plain (Run.newClosure params ((first :: rest).getLast (List.cons_ne_nil _ _)) scope)
  | .function, [] => plain (.fail (.malformed "Functions need a body"))

def evalNode (operations : Operations) (ev : Evaluator) (rounds : Nat) : Evaluator
  | .literal l, _ => pure l.toValue
  | .word name, scope => plain (.lookup scope name)
  | .call operator args, scope =>
    match operator.asWord?.bind SpecialForm.find? with
    | some form =>
      if form.arity.accepts args.length then rule ev rounds form args scope
      else plain (.fail (.malformed form.usage))
    | none => do
      let f ← ev operator scope
      let vs ← evalAll ev scope args
      call operations ev f vs

/-- Evaluates a tree and tells the frames of all calls on the way. -/
def eval (operations : Operations) : (fuel : Nat) → Evaluator
  | 0, _, _ => plain .outOfFuel
  | fuel + 1, e, scope => evalNode operations (eval operations fuel) fuel e scope

/-! ## Recording changes nothing -/

/-- A recorded run ends on a store as the run itself does, and its frames are all scopes that the run
has made, in the order in which they were made. -/
structure Tells (store : Store) (recorded : List ScopeId × Option (Outcome α))
    (ended : Option (Outcome α)) : Prop where
  same : recorded.2 = ended
  frames : recorded.1 = List.range' store.scopes.size recorded.1.length
  made : ∀ result after, ended = some (result, after) →
    after.scopes.size = store.scopes.size + recorded.1.length

/-- It tells so on every store. -/
def Records (x : Recorded α) (y : Run α) : Prop :=
  ∀ store, Tells store (x store) (y store)

variable {x : Recorded α} {y : Run α} {f : α → Recorded β} {g : α → Run β} {ev : Evaluator}
  {ev' : CallScript.Evaluator}

/-- A run that makes no scopes. -/
theorem records_plain
    (keeps : ∀ store result after, y store = some (result, after) →
      after.scopes.size = store.scopes.size) : Records (plain y) y := by
  intro store
  exact ⟨rfl, rfl, keeps store⟩

theorem records_ofExcept (result : Except Error α) :
    Records (plain (.ofExcept result)) (.ofExcept result) := by
  apply records_plain
  intro store _ after ends
  cases ends
  rfl

theorem records_pure (a : α) : Records (pure a) (pure a) :=
  records_ofExcept (.ok a)

theorem records_fail (error : Error) : Records (plain (.fail error)) (.fail error : Run α) :=
  records_ofExcept (.error error)

theorem records_outOfFuel : Records (plain .outOfFuel) (.outOfFuel : Run α) := by
  apply records_plain
  intro store result after ends
  cases ends

/-- The frames of the second run start where those of the first one end. -/
theorem records_bind (first : Records x y) (next : ∀ a, Records (f a) (g a)) :
    Records (x >>= f) (y >>= g) := by
  intro store
  obtain ⟨same, frames, made⟩ := first store
  change Tells store (Recorded.bind x f store) (Run.bind y g store)
  rw [Recorded.bind, Run.bind, ← same]
  rw [← same] at made
  clear same first
  generalize x store = recorded at frames made ⊢
  obtain ⟨told, _ | ⟨e | a, mid⟩⟩ := recorded
  · exact ⟨rfl, frames, fun _ _ ends => by cases ends⟩
  · refine ⟨rfl, frames, ?_⟩
    intro result after ends
    cases ends
    exact made _ _ rfl
  · obtain ⟨same, frames', made'⟩ := next a mid
    rw [made _ _ rfl] at frames' made'
    refine ⟨same, ?_, ?_⟩
    · dsimp only at frames ⊢
      rw [List.length_append, ← List.range'_append_1, ← frames, ← frames']
    · intro result after ends
      rw [made' result after ends, List.length_append, Nat.add_assoc]

theorem records_newFrame (captured : ScopeId) :
    Records (newFrame captured) (Run.newScope (some captured)) := by
  intro store
  refine ⟨rfl, rfl, ?_⟩
  intro result after ends
  cases ends
  exact Store.size_newScope

theorem records_update {change : Store → α × Store}
    (keeps : ∀ store, (change store).2.scopes.size = store.scopes.size) :
    Records (plain (Run.update change)) (Run.update change) := by
  apply records_plain
  intro store result after ends
  cases ends
  exact keeps store

theorem records_set (scope : ScopeId) (name : String) (v : Value) :
    Records (plain (Run.set scope name v)) (Run.set scope name v) := by
  apply records_plain
  intro store result after ends
  rw [Run.set] at ends
  split at ends
  next rebinds =>
    cases ends
    obtain ⟨owner, -, rfl⟩ := Store.define_of_set? rebinds
    exact Store.size_define
  next =>
    cases ends
    rfl

theorem records_lookup (scope : ScopeId) (name : String) :
    Records (plain (Run.lookup scope name)) (Run.lookup scope name) := by
  apply records_plain
  intro store result after ends
  rw [Run.lookup] at ends
  split at ends
  all_goals
    cases ends
    rfl

theorem records_reply (r : Reply) : Records (plain (Run.reply r)) (Run.reply r) := by
  apply records_plain
  intro store result after ends
  cases ends
  rfl

/-- One evaluator records what the other one does. -/
def RecordsAll (ev : Evaluator) (ev' : CallScript.Evaluator) : Prop :=
  ∀ e scope, Records (ev e scope) (ev' e scope)

theorem records_evalAll (parts : RecordsAll ev ev') (scope : ScopeId) (es : List Expr) :
    Records (evalAll ev scope es) (CallScript.evalAll ev' scope es) := by
  induction es with
  | nil => exact records_pure []
  | cons e es ih =>
    apply records_bind (parts e scope)
    intro v
    apply records_bind ih
    intro vs
    exact records_pure (v :: vs)

theorem records_call (parts : RecordsAll ev ev') (f : Value) (args : List Value) :
    Records (call operations ev f args) (CallScript.call operations ev' f args) := by
  cases f with
  | builtin name id => exact records_reply _
  | closure c =>
    rw [call, CallScript.call]
    split
    next =>
      apply records_bind (records_newFrame c.scope)
      intro frame
      apply records_bind (records_update fun _ => (Store.defineAll_keeps _).1)
      intro _
      exact parts c.body frame
    next => exact records_fail _
  | number | string | boolean | array => exact records_fail _

theorem records_loop {condition body : Recorded Value} {condition' body' : Run Value}
    (test : Records condition condition') (round : Records body body') (rounds : Nat) :
    Records (loop condition body rounds) (CallScript.loop condition' body' rounds) := by
  induction rounds with
  | zero => exact records_outOfFuel
  | succ rounds ih =>
    rw [loop, loop_succ]
    apply records_bind test
    intro v
    split
    next => exact records_pure _
    next =>
      apply records_bind round
      intro _
      exact ih

theorem records_evalSequence (parts : RecordsAll ev ev') (scope : ScopeId) (v : Value)
    (es : List Expr) :
    Records (evalSequence ev scope v es) (CallScript.evalSequence ev' scope v es) := by
  induction es generalizing v with
  | nil => exact records_pure v
  | cons e es ih =>
    apply records_bind (parts e scope)
    intro w
    exact ih w

theorem records_rule (parts : RecordsAll ev ev') (rounds : Nat) (form : SpecialForm)
    (args : List Expr) (scope : ScopeId) :
    Records (rule ev rounds form args scope) (form.rule ev' rounds args scope) := by
  fun_cases SpecialForm.rule ev' rounds form args scope with
  | case1 condition yes no =>
    apply records_bind (parts condition scope)
    intro v
    split
    next => exact parts no scope
    next => exact parts yes scope
  | case3 condition body => exact records_loop (parts condition scope) (parts body scope) rounds
  | case5 args => exact records_evalSequence parts scope _ args
  | case6 name e =>
    apply records_bind (parts e scope)
    intro v
    apply records_bind (records_update fun _ => Store.size_define)
    intro _
    exact records_pure v
  | case8 name e =>
    apply records_bind (parts e scope)
    intro v
    apply records_bind (records_set scope name v)
    intro _
    exact records_pure v
  | case10 first rest =>
    apply records_bind (records_ofExcept _)
    intro params
    exact records_update fun _ => rfl
  | case11 => exact records_fail _
  -- the shape of the arguments is wrong whatever evaluates them
  | case2 | case4 | case7 | case9 =>
    rw [rule]
    · exact records_fail _
    · assumption

theorem records_evalNode (parts : RecordsAll ev ev') (rounds : Nat) :
    RecordsAll (evalNode operations ev rounds) (CallScript.evalNode operations ev' rounds) := by
  intro e scope
  cases e with
  | literal l => exact records_pure l.toValue
  | word name => exact records_lookup scope name
  | call operator args =>
    rw [evalNode, CallScript.evalNode]
    cases operator.asWord?.bind SpecialForm.find? with
    | some form =>
      dsimp only
      rw [SpecialForm.apply]
      split
      next => exact records_rule parts rounds form args scope
      next => exact records_fail _
    | none =>
      apply records_bind (parts operator scope)
      intro f
      apply records_bind (records_evalAll parts scope args)
      intro vs
      exact records_call parts f vs

/-- Recording changes nothing, and the frames of a run are all different: each is the scope that
comes behind all scopes made before. -/
theorem records_eval (operations : Operations) (fuel : Nat) :
    RecordsAll (eval operations fuel) (CallScript.eval operations fuel) := by
  induction fuel with
  | zero => exact fun _ _ => records_outOfFuel
  | succ fuel ih => exact records_evalNode ih fuel

/-- The frame that is told for a call is the one that its body is evaluated in. -/
theorem frames_call (count : c.params.length = args.length) :
    (call operations ev (.closure c) args store).1 =
      store.scopes.size :: (ev c.body store.scopes.size (store.withFrame c args)).1 := by
  rw [call, if_pos count]
  rfl

end Recorded

end CallScript
