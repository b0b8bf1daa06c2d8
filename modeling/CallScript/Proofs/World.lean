import CallScript.Proofs.Eval.Obeys

/-! # What a host does to a store

Registering operations binds builtins, which have no closures, so it is a series of allowed changes;
so is installing the prelude. -/

namespace CallScript.World

variable {D : Discipline} {own : ScopeId → Prop} {known : Closure → Prop} {world after : World}
  {scope : ScopeId} {name : String} {operation : Operation}

theorem runOn_eq_some_iff {α : Type} {run : Run α} {result : Except Error α} :
    world.runOn run = some (result, after) ↔
      run world.store = some (result, after.store) ∧ after.operations = world.operations := by
  rw [runOn, Option.map_eq_some_iff]
  constructor
  · rintro ⟨⟨r, store⟩, ends, same⟩
    cases same
    exact ⟨ends, rfl⟩
  · intro ⟨ends, same⟩
    refine ⟨_, ends, ?_⟩
    cases after
    cases same
    rfl

/-! ## Registering -/

theorem changes_register (mine : own scope) :
    Changes D own world.store (world.register scope name operation).store := by
  apply Relation.ReflTransGen.single
  apply Change.define mine
  intro c inside
  cases inside

theorem changes_registerAll (mine : own scope) (operations : List (String × Operation)) :
    Changes D own world.store (world.registerAll scope operations).store := by
  induction operations generalizing world with
  | nil => exact .refl
  | cons entry operations ih => exact (changes_register mine).trans ih

theorem forall_register {P : Operation → Prop} (old : ∀ op ∈ world.operations, P op)
    (new : P operation) : ∀ op ∈ (world.register scope name operation).operations, P op := by
  intro op member
  rcases Array.mem_push.mp member with there | rfl
  · exact old op there
  · exact new

theorem forall_registerAll {P : Operation → Prop} {operations : List (String × Operation)}
    (old : ∀ op ∈ world.operations, P op) (new : ∀ entry ∈ operations, P entry.2) :
    ∀ op ∈ (world.registerAll scope operations).operations, P op := by
  induction operations generalizing world with
  | nil => exact old
  | cons entry operations ih =>
    obtain ⟨first, others⟩ := List.forall_mem_cons.mp new
    exact ih (forall_register old first) others

/-! ## The prelude -/

theorem change_define_boolean {store : Store} (mine : own scope) (name : String) (b : Bool) :
    Change D own store (store.define scope name (.boolean b)) :=
  .define mine (Discipline.good_boolean b)

theorem changes_installPrelude (mine : own scope) :
    Changes D own world.store (world.installPrelude scope).store := by
  let first := world.define scope "true" (.boolean true)
  let second := first.define scope "false" (.boolean false)
  have truth : Change D own world.store first.store := change_define_boolean mine "true" true
  have falsehood : Change D own first.store second.store :=
    change_define_boolean mine "false" false
  have builtins : Changes D own second.store (second.registerAll scope Prelude.operations).store :=
    changes_registerAll mine Prelude.operations
  exact .head truth (.head falsehood builtins)

theorem brings_installPrelude (old : ∀ op ∈ world.operations, op.Brings known) :
    ∀ op ∈ (world.installPrelude scope).operations, op.Brings known :=
  forall_registerAll old Prelude.forwards_prelude

/-- In a new global scope there is no closure. -/
theorem holds_newGlobal : D.Holds (newGlobal {}).2.store := by
  have empty : D.Holds (newRoot {}).2.store := by
    intro c bound
    obtain ⟨scope, name, v, found, -⟩ := bound
    rw [newRoot, Store.bindings_newScope, Store.bindings_of_size_le (Nat.zero_le _)] at found
    cases found
  have installed : Changes D (fun _ => True) (newRoot {}).2.store (newGlobal {}).2.store :=
    changes_installPrelude trivial
  exact installed.holds empty

theorem not_binds_newGlobal (c : Closure) : ¬ (newGlobal {}).2.store.Binds c := by
  -- a discipline that allows nothing admits no closure, and the new scope obeys it as well
  let nothing : Discipline :=
    { allows := fun _ _ _ => False
      mono := fun _ h => h
      operator := fun h => h
      args := fun h _ _ => h
      frame := fun h => h }
  exact @holds_newGlobal nothing c

/-- A new world has no operations but those of the prelude. -/
theorem forall_newGlobal {P : Operation → Prop} (prelude : ∀ entry ∈ Prelude.operations, P entry.2) :
    ∀ op ∈ (newGlobal {}).2.operations, P op := by
  apply forall_registerAll _ prelude
  intro op member
  cases Array.mem_toList_iff.mpr member

theorem brings_newGlobal : ∀ op ∈ (newGlobal {}).2.operations, op.Brings known :=
  forall_newGlobal Prelude.forwards_prelude

end CallScript.World
