import CallScript.Proofs.Store

/-! # The walk up the chain of scopes

Lookups walk from a scope to its parent, to the parent of that, and so on, and nothing in the scopes
themselves says that this ends. It does if parents are older than their children: the bound on the
steps of `chain` is then never reached, and the walk is as long as it would be without a bound. -/

namespace CallScript.Store

variable {store after : Store} {scope : ScopeId} {name : String}

/-- Every parent was made before the scope. -/
def Ordered (store : Store) : Prop :=
  ∀ scope parent, store.parent? scope = some parent → parent < scope

theorem ordered_newScope {parent : Option ScopeId} (ordered : store.Ordered)
    (older : ∀ p, parent = some p → p < store.scopes.size) :
    (store.newScope parent).2.Ordered := by
  intro s p goes
  rw [parent?_newScope] at goes
  split at goes
  next new => rw [new]; exact older p goes
  next => exact ordered s p goes

theorem ordered_define {v : Value} (ordered : store.Ordered) :
    (store.define scope name v).Ordered := by
  intro s p goes
  rw [parent?_define] at goes
  exact ordered s p goes

/-- The whole way from a scope to a scope without a parent. -/
inductive Walk (store : Store) : ScopeId → List ScopeId → Prop where
  | root {scope : ScopeId} (ends : store.parent? scope = none) : Walk store scope [scope]
  | up {scope parent : ScopeId} {rest : List ScopeId} (goes : store.parent? scope = some parent)
      (walk : Walk store parent rest) : Walk store scope (scope :: rest)

/-- There is one way only. -/
theorem Walk.unique {first second : List ScopeId} (h : Walk store scope first)
    (h' : Walk store scope second) : first = second := by
  induction h generalizing second with
  | root ends =>
    cases h' with
    | root => rfl
    | up goes => rw [ends] at goes; cases goes
  | up goes _ ih =>
    cases h' with
    | root ends => rw [ends] at goes; cases goes
    | up goes' walk' =>
      obtain rfl : _ = _ := Option.some.inj (goes.symm.trans goes')
      rw [ih walk']

theorem length_chainWithin_le (store : Store) (steps : Nat) (scope : ScopeId) :
    (store.chainWithin steps scope).length ≤ steps := by
  induction steps generalizing scope with
  | zero => exact Nat.le_refl 0
  | succ steps ih =>
    rw [chainWithin, List.length_cons]
    apply Nat.succ_le_succ
    split
    next parent _ => exact ih parent
    next => exact Nat.zero_le steps

/-- The bound is not reached if it exceeds the scope that the walk starts from. -/
theorem walk_chainWithin (ordered : store.Ordered) {steps : Nat} (enough : scope < steps) :
    Walk store scope (store.chainWithin steps scope) := by
  induction steps generalizing scope with
  | zero => exact absurd enough (Nat.not_lt_zero scope)
  | succ steps ih =>
    rw [chainWithin]
    cases goes : store.parent? scope with
    | none => exact .root goes
    | some parent =>
      -- a step up takes one from the bound and at least one from the scope
      have older := ordered scope parent goes
      exact .up goes (ih (Nat.lt_of_lt_of_le older (Nat.le_of_lt_succ enough)))

theorem walk_chain (ordered : store.Ordered) (there : scope < store.scopes.size) :
    Walk store scope (store.chain scope) :=
  walk_chainWithin ordered there

theorem length_chain_le (store : Store) (scope : ScopeId) :
    (store.chain scope).length ≤ store.scopes.size :=
  length_chainWithin_le store store.scopes.size scope

/-- A walk that is not longer than the bound is what the bounded walk finds. -/
theorem Walk.chainWithin_eq {path : List ScopeId} (walk : Walk store scope path) {steps : Nat}
    (enough : path.length ≤ steps) : store.chainWithin steps scope = path := by
  induction walk generalizing steps with
  | root ends =>
    obtain ⟨steps, rfl⟩ := Nat.exists_eq_add_one.mpr enough
    rw [chainWithin, ends]
  | up goes _ ih =>
    rw [List.length_cons] at enough
    obtain ⟨steps, rfl⟩ := Nat.exists_eq_add_one.mpr (Nat.zero_lt_of_lt enough)
    rw [chainWithin, goes]
    exact congrArg _ (ih (Nat.le_of_succ_le_succ enough))

theorem Walk.le_of_mem {path : List ScopeId} (walk : Walk store scope path)
    (ordered : store.Ordered) : ∀ s ∈ path, s ≤ scope := by
  induction walk with
  | root =>
    intro s member
    exact Nat.le_of_eq (List.mem_singleton.mp member)
  | @up scope parent _ goes _ ih =>
    intro s member
    rcases List.mem_cons.mp member with rfl | above
    · exact Nat.le_refl _
    · exact Nat.le_trans (ih s above) (Nat.le_of_lt (ordered scope parent goes))

/-- In a store that has grown out of another one the ways up are as before. -/
theorem Walk.extends {path : List ScopeId} {own : ScopeId → Prop} (walk : Walk store scope path)
    (ordered : store.Ordered) (there : scope < store.scopes.size)
    (grown : store.Extends own after) : Walk after scope path := by
  induction walk with
  | root ends => exact .root ((grown.parents _ there).trans ends)
  | @up scope parent _ goes _ ih =>
    have older := ordered scope parent goes
    exact .up ((grown.parents _ there).trans goes) (ih (Nat.lt_trans older there))

/-! ## The walk as a loop -/

theorem chain_eq (ordered : store.Ordered) (there : scope < store.scopes.size) :
    store.chain scope =
      scope :: match store.parent? scope with
        | some parent => store.chain parent
        | none => [] := by
  have whole := walk_chain ordered there
  cases goes : store.parent? scope with
  | none => exact whole.unique (.root goes)
  | some parent =>
    have older := ordered scope parent goes
    exact whole.unique (.up goes (walk_chain ordered (Nat.lt_trans older there)))

/-- A name is looked up in the scope, or else in its parent. -/
theorem get?_eq (ordered : store.Ordered) (there : scope < store.scopes.size) :
    store.get? scope name =
      match (store.bindings scope).get? name with
      | some v => some v
      | none => (store.parent? scope).bind fun parent => store.get? parent name := by
  rw [get?, chain_eq ordered there, List.findSome?_cons]
  cases (store.bindings scope).get? name with
  | some v => rfl
  | none => cases store.parent? scope <;> rfl

/-- A name is rebound in the scope if that binds it, or else from its parent on. -/
theorem set?_eq (ordered : store.Ordered) (there : scope < store.scopes.size) (v : Value) :
    store.set? scope name v =
      if store.owns scope name then some (store.define scope name v)
      else (store.parent? scope).bind fun parent => store.set? parent name v := by
  rw [set?, chain_eq ordered there, List.find?_cons]
  cases store.owns scope name with
  | true => rfl
  | false => cases store.parent? scope <;> rfl

/-- The names that are visible are those of the parent and, in front of them, those of the scope. -/
theorem visible_eq (ordered : store.Ordered) (there : scope < store.scopes.size) :
    store.visible scope =
      (match store.parent? scope with
        | some parent => store.visible parent
        | none => .empty).union (store.bindings scope) := by
  rw [visible, chain_eq ordered there, List.foldr_cons]
  cases store.parent? scope <;> rfl

/-- What is looked up, rebound and listed from a scope: each goes up a chain that ends, in no more
steps than there are scopes, and does what a loop without any bound does. -/
structure LookupsEnd (store : Store) (scope : ScopeId) : Prop where
  walk : store.Walk scope (store.chain scope)
  steps : (store.chain scope).length ≤ store.scopes.size
  get? : ∀ name, store.get? scope name =
    match (store.bindings scope).get? name with
    | some v => some v
    | none => (store.parent? scope).bind fun parent => store.get? parent name
  set? : ∀ name v, store.set? scope name v =
    if store.owns scope name then some (store.define scope name v)
    else (store.parent? scope).bind fun parent => store.set? parent name v
  visible : store.visible scope =
    (match store.parent? scope with
      | some parent => store.visible parent
      | none => .empty).union (store.bindings scope)

theorem lookupsEnd (ordered : store.Ordered) (there : scope < store.scopes.size) :
    store.LookupsEnd scope where
  walk := walk_chain ordered there
  steps := length_chain_le store scope
  get? _ := get?_eq ordered there
  set? _ v := set?_eq ordered there v
  visible := visible_eq ordered there

end CallScript.Store
