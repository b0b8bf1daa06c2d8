import CallScript.Eval.Basic
import CallScript.Proofs.Operation
import Mathlib.Logic.Relation

/-! # What evaluation may do to a store

Evaluation changes a store only by the store's own operations. Which of them it comes to depends on
the tree, the scope, and the closures that it can get hold of. A `Discipline` is a condition on trees
in scopes that every evaluation passes on to the evaluations it starts; `Change` is one operation of
the store as far as a discipline allows it. -/

namespace CallScript

/-- Which trees may be evaluated in which scopes of a store with so many scopes. The condition passes
to the parts of a tree, and from the captured scope of a closure to the frame of its call. -/
structure Discipline where
  allows : (scopes : Nat) → ScopeId → Expr → Prop
  mono {n m : Nat} {scope : ScopeId} {e : Expr} : n ≤ m → allows n scope e → allows m scope e
  operator {n : Nat} {scope : ScopeId} {operator : Expr} {args : List Expr} :
    allows n scope (.call operator args) → allows n scope operator
  args {n : Nat} {scope : ScopeId} {operator : Expr} {args : List Expr} :
    allows n scope (.call operator args) → ∀ e ∈ args, allows n scope e
  frame {n : Nat} {scope : ScopeId} {body : Expr} : allows n scope body → allows (n + 1) n body

namespace Discipline

variable {D : Discipline} {n m : Nat} {v : Value} {c : Closure} {store after : Store}

/-- A closure whose body may be evaluated in the scope that it captured. -/
def Admits (D : Discipline) (n : Nat) (c : Closure) : Prop :=
  D.allows n c.scope c.body

/-- A value with admitted closures only. -/
def Good (D : Discipline) (n : Nat) (v : Value) : Prop :=
  ∀ c, v.Contains c → D.Admits n c

/-- All values that scopes bind are good. -/
def Holds (D : Discipline) (store : Store) : Prop :=
  ∀ c, store.Binds c → D.Admits store.scopes.size c

theorem Good.mono (h : D.Good n v) (more : n ≤ m) : D.Good m v := by
  intro c inside
  exact D.mono more (h c inside)

theorem good_literal (l : Literal) : D.Good n l.toValue := by
  intro c inside
  exact absurd inside (l.not_contains_toValue c)

theorem good_boolean (b : Bool) : D.Good n (.boolean b) := by
  intro c inside
  cases inside

theorem good_closure_iff : D.Good n (.closure c) ↔ D.Admits n c := by
  constructor
  · intro h
    exact h c .closure
  · intro admitted d inside
    rwa [Value.contains_closure_iff.mp inside]

theorem Holds.of_get? {scope : ScopeId} {name : String} (h : D.Holds store)
    (found : store.get? scope name = some v) : D.Good store.scopes.size v := by
  intro c inside
  obtain ⟨owner, bound⟩ := Store.bound_of_get? found
  exact h c ⟨owner, name, v, bound, inside⟩

end Discipline

/-- One operation of the store that a discipline allows; names are bound in scopes that are `own`. -/
inductive Change (D : Discipline) (own : ScopeId → Prop) : Store → Store → Prop where
  | newScope {store : Store} {parent : ScopeId} {body : Expr}
      (allowed : D.allows store.scopes.size parent body) :
      Change D own store (store.newScope (some parent)).2
  | define {store : Store} {scope : ScopeId} {name : String} {v : Value} (mine : own scope)
      (good : D.Good store.scopes.size v) : Change D own store (store.define scope name v)
  | set {store after : Store} {scope : ScopeId} {name : String} {v : Value} {args : List Expr}
      (allowed : D.allows store.scopes.size scope (.call (.word SpecialForm.set.name) args))
      (good : D.Good store.scopes.size v) (rebinds : store.set? scope name v = some after) :
      Change D own store after
  | newClosure {store : Store} {params : List String} {body : Expr} {scope : ScopeId} :
      Change D own store (store.newClosure params body scope).2
  | print {store : Store} {values : List Value}
      (good : ∀ v ∈ values, D.Good store.scopes.size v) :
      Change D own store (store.print values)

/-- Allowed operations one after the other. -/
abbrev Changes (D : Discipline) (own : ScopeId → Prop) : Store → Store → Prop :=
  Relation.ReflTransGen (Change D own)

variable {D : Discipline} {own : ScopeId → Prop} {store after : Store}

theorem Change.extends (h : Change D own store after) : store.Extends own after := by
  cases h with
  | newScope => exact Store.extends_newScope
  | define mine => exact Store.extends_define mine
  | set _ _ rebinds => exact Store.extends_set? rebinds
  | newClosure => exact Store.extends_newClosure
  | print => exact Store.extends_print _

theorem Changes.extends (h : Changes D own store after) : store.Extends own after := by
  induction h with
  | refl => exact .refl own store
  | tail _ change ih => exact ih.trans change.extends

theorem Change.holds (h : Change D own store after) (values : D.Holds store) : D.Holds after := by
  have more := h.extends.size
  -- a closure that is bound afterwards was bound before or lies in the value that is bound now
  have kept : ∀ {c}, store.Binds c → D.Admits after.scopes.size c := fun bound =>
    D.mono more (values _ bound)
  have defined : ∀ {scope name v}, D.Good store.scopes.size v → after = store.define scope name v →
      D.Holds after := by
    intro scope name v good same c bound
    rw [same] at bound
    rcases Store.binds_define bound with old | inside
    · exact kept old
    · exact D.mono more (good c inside)
  cases h with
  | newScope => exact fun c bound => kept (Store.binds_newScope bound)
  | define _ good => exact defined good rfl
  | set _ good rebinds =>
    obtain ⟨owner, -, same⟩ := Store.define_of_set? rebinds
    exact defined good same
  | newClosure => exact fun c bound => kept bound
  | print => exact fun c bound => kept bound

theorem Changes.holds (h : Changes D own store after) (values : D.Holds store) :
    D.Holds after := by
  induction h with
  | refl => exact values
  | tail _ change ih => exact change.holds ih

end CallScript
