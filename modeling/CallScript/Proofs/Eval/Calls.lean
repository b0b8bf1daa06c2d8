import CallScript.Proofs.Chain
import CallScript.Proofs.Eval.Recorded

/-! # Calls and their frames

A call evaluates the body of a closure in a scope of its own, the frame of the call. What is in the
frame is told by the closure and the arguments (`Store.IsFrame`), so where a call is made from does
not matter, and names of scopes that the closure did not capture are not seen from the frame. That no
two calls have the same frame is about all calls of a run together, which `Recorded.eval` tells. -/

namespace CallScript

variable {operations : Operations} {ev : Evaluator} {fuel : Nat} {store after : Store}
  {scope frame : ScopeId} {c : Closure} {args : List Value} {name : String} {v : Value}

/-! ## Parameters -/

/-- The last parameter of a name is at a position. -/
def LastAt (name : String) (params : List String) (i : Nat) : Prop :=
  params[i]? = some name ∧ ∀ j, i < j → params[j]? ≠ some name

theorem lastAt_zero {param : String} {params : List String} :
    LastAt name (param :: params) 0 ↔ param = name ∧ name ∉ params := by
  rw [LastAt, List.getElem?_cons_zero, Option.some.injEq, List.mem_iff_getElem?]
  refine and_congr_right fun _ => ⟨?_, ?_⟩
  · rintro last ⟨j, found⟩
    exact last (j + 1) (Nat.succ_pos j) found
  · rintro missing (_ | j) later found
    · exact absurd later (Nat.lt_irrefl 0)
    · exact missing ⟨j, found⟩

theorem lastAt_succ {param : String} {params : List String} {i : Nat} :
    LastAt name (param :: params) (i + 1) ↔ LastAt name params i := by
  rw [LastAt, LastAt, List.getElem?_cons_succ]
  refine and_congr_right fun _ => ⟨?_, ?_⟩
  · intro last j later
    exact last (j + 1) (Nat.succ_lt_succ later)
  · rintro last (_ | j) later
    · exact absurd later (Nat.not_lt_zero _)
    · exact last j (Nat.lt_of_succ_lt_succ later)

/-- The argument of the last parameter of a name: that of the first parameter, if it has the name and
no later one has, or else that of a later one. -/
theorem exists_lastAt_cons {param : String} {params : List String} {arg : Value} :
    (∃ i, LastAt name (param :: params) i ∧ (arg :: args)[i]? = some v) ↔
      ((param = name ∧ name ∉ params) ∧ arg = v) ∨
        ∃ i, LastAt name params i ∧ args[i]? = some v := by
  rw [← Nat.or_exists_add_one]
  simp only [lastAt_zero, lastAt_succ, List.getElem?_cons_zero, List.getElem?_cons_succ,
    Option.some.injEq]

theorem exists_lastAt_of_mem {params : List String} (member : name ∈ params) :
    ∃ i < params.length, LastAt name params i := by
  induction params with
  | nil => cases member
  | cons param params ih =>
    by_cases later : name ∈ params
    · obtain ⟨i, there, last⟩ := ih later
      exact ⟨i + 1, Nat.succ_lt_succ there, lastAt_succ.mpr last⟩
    · have first : param = name := by
        rcases List.mem_cons.mp member with same | member
        · exact same.symm
        · exact absurd member later
      exact ⟨0, Nat.succ_pos _, lastAt_zero.mpr ⟨first, later⟩⟩

/-- Parameters that are bound one after the other to arguments: of several with one name the last one
counts, and other names stay bound to what they were. -/
theorem get?_bindings_defineAll (there : scope < store.scopes.size) (params : List String)
    (args : List Value) (count : params.length = args.length) :
    (((params.zip args).foldl (fun next entry => next.define scope entry.1 entry.2) store).bindings
        scope).get? name = some v ↔
      (∃ i, LastAt name params i ∧ args[i]? = some v) ∨
        name ∉ params ∧ (store.bindings scope).get? name = some v := by
  induction params generalizing args store with
  | nil => simp [LastAt]
  | cons param params ih =>
    obtain _ | ⟨arg, args⟩ := args
    · cases count
    have there' : scope < (store.define scope param arg).scopes.size := by
      rwa [Store.size_define]
    rw [List.zip_cons_cons, List.foldl_cons, ih there' args (Nat.succ.inj count),
      Store.bindings_define, if_pos ⟨rfl, there⟩, Bindings.get?_insert, exists_lastAt_cons]
    by_cases same : param = name
    · simp [same, and_comm, or_comm]
    · simp [same, Ne.symm same]

/-! ## The frame of a call -/

/-- A store has got one more scope, the frame of a call: it lies in the scope that the closure
captured, and binds the parameters and nothing else. All scopes that were there are as before, and
nothing has been printed. -/
structure Store.IsFrame (before : Store) (c : Closure) (args : List Value) (frame : ScopeId)
    (after : Store) : Prop where
  new : ∀ s < before.scopes.size, s ≠ frame
  size : after.scopes.size = before.scopes.size + 1
  there : frame < after.scopes.size
  old : ∀ s < before.scopes.size, after.scopes[s]? = before.scopes[s]?
  parent : after.parent? frame = some c.scope
  names : ∀ name, after.owns frame name = true ↔ name ∈ c.params
  values : ∀ name v, (after.bindings frame).get? name = some v ↔
    ∃ i, LastAt name c.params i ∧ args[i]? = some v
  closures : after.closures = before.closures
  printed : after.printed = before.printed

namespace Store

theorem isFrame_withFrame (count : c.params.length = args.length) :
    store.IsFrame c args store.scopes.size (store.withFrame c args) := by
  obtain ⟨size, closures, printed⟩ := @defineAll_keeps (store.newScope (some c.scope)).2
    store.scopes.size (c.params.zip args)
  have size := size.trans size_newScope
  have made : store.scopes.size < (store.newScope (some c.scope)).2.scopes.size := by
    rw [size_newScope]
    exact Nat.lt_succ_self _
  have values : ∀ name v,
      ((store.withFrame c args).bindings store.scopes.size).get? name = some v ↔
        ∃ i, LastAt name c.params i ∧ args[i]? = some v := by
    intro name v
    rw [withFrame, get?_bindings_defineAll made _ _ count, bindings_newScope,
      bindings_of_size_le (Nat.le_refl _)]
    simp [Bindings.get?, Bindings.empty, Bindings.lookup?]
  refine ⟨fun s old => Nat.ne_of_lt old, size, ?_, ?_, ?_, ?_, values, closures, printed⟩
  · rw [withFrame, size]
    exact Nat.lt_succ_self _
  · intro s old
    rw [withFrame, getElem?_defineAll _ (Nat.ne_of_gt old), newScope]
    exact (Array.getElem?_push_lt old).trans (Array.getElem?_eq_getElem old).symm
  · rw [(extends_withFrame c args).parents _ made, parent?_newScope, if_pos rfl]
  · intro name
    constructor
    · intro bound
      obtain ⟨v, found⟩ := Option.isSome_iff_exists.mp bound
      obtain ⟨i, ⟨param, -⟩, -⟩ := (values name v).mp found
      exact List.mem_of_getElem? param
    · intro member
      obtain ⟨i, there, last⟩ := exists_lastAt_of_mem member
      rw [count] at there
      have found := (values name args[i]).mpr ⟨i, last, List.getElem?_eq_getElem there⟩
      exact Option.isSome_iff_exists.mpr ⟨_, found⟩

end Store

/-! ## What is seen from a frame -/

namespace Store

/-- A store that has grown out of another one, names in the scope `frame` aside, has no other names in
the scopes that were there. -/
theorem Extends.owns_eq {s : ScopeId} (grown : store.Extends (· = frame) after)
    (there : s < store.scopes.size) (other : s ≠ frame) : after.owns s name = store.owns s name := by
  rw [Bool.eq_iff_iff, owns, owns, Bindings.contains_iff_mem_names, Bindings.contains_iff_mem_names,
    grown.names s there other]

/-- What no scope on the way up from the captured scope binds is not found from the frame of a call,
as long as the frame does not bind it either. -/
theorem get?_eq_none_of_frame (ordered : store.Ordered) (captured : c.scope < store.scopes.size)
    (unbound : ∀ s ∈ store.chain c.scope, store.owns s name = false)
    (grown : store.Extends (· = store.scopes.size) after)
    (parent : after.parent? store.scopes.size = some c.scope)
    (own : after.owns store.scopes.size name = false) :
    after.get? store.scopes.size name = none := by
  have walk := walk_chain ordered captured
  have up : Walk after store.scopes.size (store.scopes.size :: store.chain c.scope) :=
    .up parent (walk.extends ordered captured grown)
  have enough : (store.scopes.size :: store.chain c.scope).length ≤ after.scopes.size :=
    Nat.lt_of_le_of_lt (length_chain_le store c.scope) (lt_size_of_parent? parent)
  rw [get?, chain, up.chainWithin_eq enough, List.findSome?_eq_none_iff]
  intro s member
  rw [← owns_eq_false_iff]
  rcases List.mem_cons.mp member with rfl | above
  · exact own
  · have there := Nat.lt_of_le_of_lt (walk.le_of_mem ordered s above) captured
    rw [grown.owns_eq there (Nat.ne_of_lt there)]
    exact unbound s above

/-- Names that are bound in none of the captured scopes are not seen in the body of a closure: they
are not found from the frame of its call, and that does not change unless the body defines them. -/
theorem get?_withFrame_eq_none (ordered : store.Ordered) (captured : c.scope < store.scopes.size)
    (count : c.params.length = args.length) (param : name ∉ c.params)
    (unbound : ∀ s ∈ store.chain c.scope, store.owns s name = false) :
    (store.withFrame c args).get? store.scopes.size name = none ∧
      ∀ fuel e result after,
        eval operations fuel e store.scopes.size (store.withFrame c args) = some (result, after) →
          after.owns store.scopes.size name = false →
            after.get? store.scopes.size name = none := by
  have made := @isFrame_withFrame store c args count
  have grown : store.Extends (· = store.scopes.size) (store.withFrame c args) :=
    extends_newScope.trans (extends_withFrame c args)
  refine ⟨?_, ?_⟩
  · apply get?_eq_none_of_frame ordered captured unbound grown made.parent
    rwa [← Bool.not_eq_true, made.names]
  · intro fuel e result after ends own
    have kept := eval_extends ends
    have parent := (kept.parents _ made.there).trans made.parent
    exact get?_eq_none_of_frame ordered captured unbound (grown.trans kept) parent own

end Store

/-! ## Where calls are made -/

/-- The tree applies something to arguments; evaluating both has come to a function, the values of the
arguments and a store. -/
def ComesToCall (operations : Operations) (fuel : Nat) (e : Expr) (scope : ScopeId) (store : Store)
    (f : Value) (args : List Value) (after : Store) : Prop :=
  ∃ operator operands next, e = .call operator operands ∧
    operator.asWord?.bind SpecialForm.find? = none ∧
    eval operations fuel operator scope store = some (.ok f, next) ∧
    evalAll (eval operations fuel) scope operands next = some (.ok args, after)

/-- From where on a call is made there is nothing that tells the scope or the tree of the call. -/
theorem eval_of_comesToCall {e : Expr} {f : Value}
    (comes : ComesToCall operations fuel e scope store f args after) :
    eval operations (fuel + 1) e scope store = call operations (eval operations fuel) f args after := by
  obtain ⟨operator, operands, next, rfl, plain, function, values⟩ := comes
  rw [eval, evalNode, plain]
  change Run.bind (eval operations fuel operator scope) _ store = _
  rw [Run.bind, function]
  change Run.bind (evalAll (eval operations fuel) scope operands) _ next = _
  rw [Run.bind, values]

/-! ## Calls -/

/-- What a call of a closure does. With the wrong number of arguments it fails and does nothing;
otherwise it is the evaluation of the body in the frame of the call. It is the same call from wherever
it is made, what the captured scopes do not bind is not seen from the frame, and of all calls in a run
no two have the same frame. -/
theorem call_frames (operations : Operations) (store : Store) (c : Closure) (args : List Value) :
    (c.params.length ≠ args.length → ∀ ev : Evaluator,
      call operations ev (.closure c) args store =
        some (.error (.wrongArity c.params.length args.length), store)) ∧
    (c.params.length = args.length → ∃ frame inside, store.IsFrame c args frame inside ∧
      (∀ ev : Evaluator, call operations ev (.closure c) args store = ev c.body frame inside) ∧
      (∀ ev : Recorded.Evaluator,
        (Recorded.call operations ev (.closure c) args store).1 =
          frame :: (ev c.body frame inside).1) ∧
      (store.Ordered → c.scope < store.scopes.size → ∀ name, name ∉ c.params →
        (∀ s ∈ store.chain c.scope, store.owns s name = false) →
          inside.get? frame name = none ∧
            ∀ fuel e result after,
              eval operations fuel e frame inside = some (result, after) →
                after.owns frame name = false → after.get? frame name = none)) ∧
    (∀ fuel e scope start, ComesToCall operations fuel e scope start (.closure c) args store →
      eval operations (fuel + 1) e scope start =
        call operations (eval operations fuel) (.closure c) args store) ∧
    (∀ fuel e scope,
      (Recorded.eval operations fuel e scope store).2 = eval operations fuel e scope store ∧
        (Recorded.eval operations fuel e scope store).1.Nodup ∧
          ∀ frame ∈ (Recorded.eval operations fuel e scope store).1,
            store.scopes.size ≤ frame) := by
  refine ⟨?_, ?_, ?_, ?_⟩
  · intro differ ev
    rw [call, if_neg differ]
    rfl
  · intro count
    refine ⟨_, _, Store.isFrame_withFrame count, ?_, ?_, ?_⟩
    · intro ev
      exact call_closure_eq count
    · intro ev
      exact Recorded.frames_call count
    · intro ordered captured name param unbound
      exact Store.get?_withFrame_eq_none ordered captured count param unbound
  · intro fuel e scope start comes
    exact eval_of_comesToCall comes
  · intro fuel e scope
    obtain ⟨same, frames, -⟩ := Recorded.records_eval operations fuel e scope store
    refine ⟨same, ?_, ?_⟩
    · rw [frames]
      exact List.nodup_range'
    · intro frame member
      rw [frames, List.mem_range'_1] at member
      exact member.1

/-- A function of three parameters, two of them with one name. -/
def twiceNamed : Closure where
  serial := 0
  params := ["a", "b", "a"]
  body := .word "mine"
  scope := 0

/-- A scope from which the function can be called, with a name of its own, inside the scope that the
function captured. -/
def callerStore : Store :=
  let root := (({} : Store).newScope none).2
  let child := (root.newScope (some 0)).2
  (child.define 1 "f" (.closure twiceNamed)).define 1 "mine" (.boolean true)

/-- Called from there the function has the last argument for the name, and fails because it does not
see the caller's. -/
theorem last_argument_counts :
    ∃ frame inside,
      callerStore.IsFrame twiceNamed [.string "x", .string "y", .string "z"] frame inside ∧
      (inside.bindings frame).get? "a" = some (.string "z") ∧
      inside.get? frame "mine" = none ∧
      eval #[] 3 (.call (.word "f") [.literal (.string "x"), .literal (.string "y"),
        .literal (.string "z")]) 1 callerStore =
          some (.error (.undefinedBinding "mine"), inside) ∧
      call #[] (eval #[] 2) (.closure twiceNamed) [] callerStore =
        some (.error (.wrongArity 3 0), callerStore) := by
  obtain ⟨-, right, site, -⟩ :=
    call_frames #[] callerStore twiceNamed [.string "x", .string "y", .string "z"]
  obtain ⟨wrong, -⟩ := call_frames #[] callerStore twiceNamed []
  obtain ⟨frame, inside, made, body, -, hidden⟩ := right rfl
  have root : (({} : Store).newScope none).2.Ordered :=
    Store.ordered_newScope (fun _ _ goes => by cases goes) fun _ same => by cases same
  have child := @Store.ordered_newScope _ (some 0) root fun p same => by
    cases same
    exact Nat.zero_lt_one
  have ordered : callerStore.Ordered := Store.ordered_define (Store.ordered_define child)
  have last : LastAt "a" twiceNamed.params 2 := by
    refine ⟨rfl, ?_⟩
    intro j later found
    rw [List.getElem?_eq_none (by exact later)] at found
    cases found
  obtain ⟨unseen, later⟩ := hidden ordered (by decide) "mine" (by decide) (by decide +kernel)
  have fails : eval #[] 2 twiceNamed.body frame inside =
      some (.error (.undefinedBinding "mine"), inside) := by
    change Run.lookup frame "mine" inside = _
    rw [Run.lookup, unseen]
  have own : inside.owns frame "mine" = false := by
    rw [← Bool.not_eq_true, made.names]
    decide
  refine ⟨frame, inside, made, (made.values "a" _).mpr ⟨2, last, rfl⟩,
    later _ _ _ _ fails own, ?_, wrong (by decide) _⟩
  refine (site 2 _ 1 callerStore ?_).trans ((body _).trans fails)
  exact ⟨_, _, _, rfl, by decide +kernel, rfl, rfl⟩

end CallScript
