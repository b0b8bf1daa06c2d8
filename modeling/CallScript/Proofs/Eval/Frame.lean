import CallScript.Proofs.World

/-! # The frame of evaluation

Evaluation gives names to the scope that it works in and to no other scope that was there, and prints
behind what was printed. A tree that never applies `set`, run among closures that do not either,
leaves the values of the other scopes as they are. -/

namespace CallScript

namespace Expr

mutual

/-- Whether a word is applied to arguments somewhere in a tree. -/
def applies (name : String) : Expr → Bool
  | .literal _ => false
  | .word _ => false
  | .call operator args =>
    operator.asWord? == some name || applies name operator || appliesAny name args

/-- Whether a word is applied somewhere in a list of trees. -/
def appliesAny (name : String) : List Expr → Bool
  | [] => false
  | e :: es => applies name e || appliesAny name es

end

variable {name : String} {operator e : Expr} {args es : List Expr}

theorem appliesAny_eq_false_iff :
    appliesAny name es = false ↔ ∀ e ∈ es, applies name e = false := by
  induction es with
  | nil => simp [appliesAny]
  | cons e es ih => rw [appliesAny, Bool.or_eq_false_iff, ih, List.forall_mem_cons]

theorem applies_call_eq_false (h : (call operator args).applies name = false) :
    operator.applies name = false ∧ ∀ e ∈ args, applies name e = false := by
  rw [applies, Bool.or_eq_false_iff, Bool.or_eq_false_iff, appliesAny_eq_false_iff] at h
  exact ⟨h.1.2, h.2⟩

theorem applies_call_word : (call (.word name) args).applies name = true := by
  simp [applies, asWord?]

end Expr

namespace Discipline

/-- No condition at all. -/
def anything : Discipline where
  allows _ _ _ := True
  mono _ _ := trivial
  operator _ := trivial
  args _ _ _ := trivial
  frame _ := trivial

/-- Trees that do not apply a word. -/
def without (name : String) : Discipline where
  allows _ _ e := e.applies name = false
  mono _ h := h
  operator h := (Expr.applies_call_eq_false h).1
  args h := (Expr.applies_call_eq_false h).2
  frame h := h

end Discipline

variable {operations : Operations} {fuel : Nat} {store after : Store} {scope : ScopeId} {e : Expr}
  {result : Except Error Value}

/-! ## Names -/

theorem ready_anything {own : ScopeId → Prop} (fresh : ∀ s, store.scopes.size ≤ s → own s) :
    Ready .anything operations own store :=
  ⟨fun _ _ => trivial, fun _ _ _ _ => .inl trivial, fresh⟩

/-- The scope of an evaluation, and the scopes that are made after its start. -/
def Written (store : Store) (scope s : ScopeId) : Prop :=
  s = scope ∨ store.scopes.size ≤ s

theorem eval_extends (ends : eval operations fuel e scope store = some (result, after)) :
    store.Extends (· = scope) after := by
  -- scopes that are made on the way may be written to, but they were not there before
  have ready : Ready .anything operations (Written store scope) store :=
    ready_anything fun s new => .inr new
  obtain ⟨changes, -⟩ := eval_obeys operations fuel ready (.inl rfl) trivial _ _ ends
  apply changes.extends.weaken
  intro s old written
  rcases written with here | new
  · exact here
  · exact absurd old (Nat.not_lt_of_le new)

theorem call_extends {f : Value} {args : List Value}
    (ends : call operations (eval operations fuel) f args store = some (result, after)) :
    store.Extends (fun _ => False) after := by
  have ready : Ready .anything operations (store.scopes.size ≤ ·) store :=
    ready_anything fun s new => new
  obtain ⟨changes, -⟩ := call_obeys (eval_obeys operations fuel) ready (fun _ _ => trivial)
    (fun _ _ _ _ => trivial) _ _ ends
  apply changes.extends.weaken
  intro s old new
  exact absurd old (Nat.not_lt_of_le new)

/-- The store that the body of a closure is evaluated on: the new scope binds its parameters. -/
def Store.withFrame (store : Store) (c : Closure) (args : List Value) : Store :=
  (c.params.zip args).foldl
    (fun next entry => next.define store.scopes.size entry.1 entry.2)
    (store.newScope (some c.scope)).2

theorem call_closure_eq {ev : Evaluator} {c : Closure} {args : List Value}
    (count : c.params.length = args.length) :
    call operations ev (.closure c) args store =
      ev c.body store.scopes.size (store.withFrame c args) := by
  rw [call, if_pos count]
  rfl

theorem extends_withFrame (c : Closure) (args : List Value) :
    (store.newScope (some c.scope)).2.Extends (· = store.scopes.size) (store.withFrame c args) := by
  have defined : Changes .anything (· = store.scopes.size) (store.newScope (some c.scope)).2
      (store.withFrame c args) :=
    Run.changes_defineAll rfl fun _ _ _ _ => trivial
  exact defined.extends

/-- The frame of a call has the captured scope as its parent, also when the call is over. -/
theorem call_parent {c : Closure} {args : List Value} (count : c.params.length = args.length)
    (ends : call operations (eval operations fuel) (.closure c) args store = some (result, after)) :
    store.scopes.size < after.scopes.size ∧
      after.parent? store.scopes.size = some c.scope := by
  rw [call_closure_eq count] at ends
  have grown := (extends_withFrame c args).trans (eval_extends ends)
  have there : store.scopes.size < (store.newScope (some c.scope)).2.scopes.size := by
    rw [Store.size_newScope]
    exact Nat.lt_succ_self _
  have made : (store.newScope (some c.scope)).2.parent? store.scopes.size = some c.scope := by
    rw [Store.parent?_newScope, if_pos rfl]
  exact ⟨Nat.lt_of_lt_of_le there grown.size, (grown.parents _ there).trans made⟩

/-! ## Values -/

theorem Change.bindings_eq {own : ScopeId → Prop} {s : ScopeId}
    (h : Change (.without SpecialForm.set.name) own store after) (foreign : ¬ own s) :
    after.bindings s = store.bindings s := by
  cases h with
  | newScope => rw [Store.bindings_newScope]
  | define mine => exact Store.bindings_define_of_ne fun same => foreign (same ▸ mine)
  | set allowed =>
    -- the one change that reaches scopes of others is not allowed
    have applied := Expr.applies_call_word.symm.trans allowed
    cases applied
  | newClosure => rfl
  | print => rfl

theorem Changes.bindings_eq {own : ScopeId → Prop} {s : ScopeId}
    (h : Changes (.without SpecialForm.set.name) own store after) (foreign : ¬ own s) :
    after.bindings s = store.bindings s := by
  induction h with
  | refl => rfl
  | tail _ change ih => exact (change.bindings_eq foreign).trans ih

theorem eval_bindings_eq
    (brings : ∀ operation ∈ operations, operation.Brings fun c => c.body.applies "set" = false)
    (tree : e.applies "set" = false) (closures : ∀ c, store.Binds c → c.body.applies "set" = false)
    (ends : eval operations fuel e scope store = some (result, after)) {s : ScopeId}
    (old : s < store.scopes.size) (other : s ≠ scope) : after.bindings s = store.bindings s := by
  have ready : Ready (.without SpecialForm.set.name) operations (Written store scope) store :=
    ⟨closures, Operations.brings_get brings, fun s new => .inr new⟩
  obtain ⟨changes, -⟩ := eval_obeys operations fuel ready (.inl rfl) tree _ _ ends
  apply changes.bindings_eq
  intro written
  rcases written with here | new
  · exact other here
  · exact absurd old (Nat.not_lt_of_le new)

/-! ## Worlds -/

namespace World

variable {world : World}

theorem run_extends {program : String} {global : ScopeId} {result : Except Error Value}
    {after : World} (ends : world.run fuel program global = some (result, after)) :
    world.store.Extends (fun _ => False) after.store := by
  rw [World.run] at ends
  split at ends
  next =>
    cases ends
    exact .refl _ _
  next e _ =>
    obtain ⟨evaluated, -⟩ := runOn_eq_some_iff.mp ends
    have inside : (world.store.newScope (some global)).2.Extends (· = world.store.scopes.size)
        after.store := eval_extends evaluated
    apply (Store.extends_newScope.trans inside).weaken
    intro s old new
    exact absurd old (new ▸ Nat.lt_irrefl s)

/-- What the runs of a world leave of the scopes that were there, whatever they hold: evaluation names
nothing outside its own scope, and a call or a program names nothing at all. Where nothing applies
`set`, closures that the operations bring along included, values stay as well. -/
theorem runs_keep_scopes (world : World) (fuel : Nat) :
    (∀ e scope result after, world.eval fuel e scope = some (result, after) →
      world.store.Extends (· = scope) after.store) ∧
    (∀ f args result after, world.call fuel f args = some (result, after) →
      world.store.Extends (fun _ => False) after.store) ∧
    (∀ program global result after, world.run fuel program global = some (result, after) →
      world.store.Extends (fun _ => False) after.store) ∧
    (∀ e scope result after, world.eval fuel e scope = some (result, after) →
      (∀ operation ∈ world.operations,
        operation.Brings fun c => c.body.applies "set" = false) →
      e.applies "set" = false → (∀ c, world.store.Binds c → c.body.applies "set" = false) →
      ∀ s < world.store.scopes.size, s ≠ scope →
        after.store.bindings s = world.store.bindings s) := by
  refine ⟨?_, ?_, ?_, ?_⟩
  · intro e scope result after ends
    exact eval_extends (runOn_eq_some_iff.mp ends).1
  · intro f args result after ends
    exact call_extends (runOn_eq_some_iff.mp ends).1
  · intro program global result after ends
    exact run_extends ends
  · intro e scope result after ends brings tree closures s old other
    exact eval_bindings_eq brings tree closures (runOn_eq_some_iff.mp ends).1 old other

/-- A scope inside a global one. -/
def childOfGlobal : World :=
  ((newGlobal {}).2.newChild 0).2

/-- A definition in a child of the global scope leaves the values of the global scope. -/
theorem define_keeps_global :
    ∃ result after,
      childOfGlobal.eval 2 (.call (.word "define") [.word "x", .word "true"]) 1 =
          some (result, after) ∧
        after.store.owns 1 "x" = true ∧
        after.store.bindings 0 = childOfGlobal.store.bindings 0 := by
  have computed : (childOfGlobal.eval 2 (.call (.word "define") [.word "x", .word "true"]) 1).any
      (fun ended => ended.2.store.owns 1 "x") = true := by decide +kernel
  rw [Option.any_eq_true] at computed
  obtain ⟨⟨result, after⟩, ends, owns⟩ := computed
  obtain ⟨-, -, -, values⟩ := runs_keep_scopes childOfGlobal 2
  refine ⟨result, after, ends, owns, ?_⟩
  apply values _ _ _ _ ends brings_newGlobal (by decide) _ 0 (by decide +kernel) (by decide)
  intro c bound
  obtain ⟨scope, name, v, found, inside⟩ := bound
  rw [childOfGlobal, newChild, Store.bindings_newScope] at found
  exact @holds_newGlobal (.without "set") c ⟨scope, name, v, found, inside⟩

end World

end CallScript
