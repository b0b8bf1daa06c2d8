import CallScript.Proofs.World

/-! # Builtins of a world

A builtin stands for the operation of its number, and calling it comes to the reply of that operation,
in whatever world the number was given out. In a new global scope every name of the prelude is bound to
a builtin for its operation (`newGlobal_offers`). -/

namespace CallScript

theorem Prelude.distinct_names : (Prelude.operations.map Prod.fst).Nodup := by
  decide

namespace World

variable {world : World} {v f : Value} {operation other : Operation} {scope : ScopeId} {name : String}
  {args : List Value} {operations : List (String × Operation)}

/-- The value is a builtin of the world, and stands for the operation. -/
def Offers (world : World) (v : Value) (operation : Operation) : Prop :=
  ∃ name id, v = .builtin name id ∧ world.operations[id]? = some operation

/-- The world once some values have been printed. -/
def printing (world : World) (values : List Value) : World :=
  { world with store := world.store.print values }

@[simp] theorem printing_nil (world : World) : world.printing [] = world := by
  simp [printing, Store.print]

theorem Offers.call_eq (offers : world.Offers v operation) (fuel : Nat) (args : List Value) :
    world.call fuel v args =
      some ((operation args).result, world.printing (operation args).printed) := by
  obtain ⟨name, id, rfl, registered⟩ := offers
  have same : world.operations.get id = operation := by
    rw [Operations.get, Array.getD_eq_getD_getElem?, registered, Option.getD_some]
  simp only [call, runOn, CallScript.call, Run.reply, same, Option.map_some, printing]

/-- What a name is bound to when an operation is registered under it. -/
theorem offers_register (world : World) (scope : ScopeId) (name : String) (operation : Operation) :
    (world.register scope name operation).Offers (.builtin name world.operations.size) operation :=
  ⟨name, world.operations.size, rfl, by simp [register]⟩

/-- Builtins stay when others are registered. -/
theorem Offers.register (offers : world.Offers v operation) (scope : ScopeId) (name : String)
    (other : Operation) : (world.register scope name other).Offers v operation := by
  obtain ⟨own, id, rfl, registered⟩ := offers
  refine ⟨own, id, rfl, ?_⟩
  obtain ⟨inside, -⟩ := Array.getElem?_eq_some_iff.mp registered
  simp only [World.register, Array.getElem?_push]
  rw [if_neg (by omega), registered]

theorem Offers.registerAll (offers : world.Offers v operation) (scope : ScopeId)
    (operations : List (String × Operation)) :
    (world.registerAll scope operations).Offers v operation := by
  induction operations generalizing world with
  | nil => exact offers
  | cons entry operations ih => exact ih (offers.register scope entry.1 entry.2)

/-! ## Calls that leave the world as it is -/

/-- Calls of the value with these arguments end with this result, and leave the world as it is. -/
def Answers (world : World) (f : Value) (args : List Value) (result : Except Error Value) : Prop :=
  ∀ fuel, world.call fuel f args = some (result, world)

theorem Offers.answers {result : Except Error Value} (offers : world.Offers f operation)
    (reply : operation args = { result }) : world.Answers f args result := by
  intro fuel
  rw [offers.call_eq, reply, printing_nil]

/-- A call has only one result. -/
theorem Answers.unique {result other : Except Error Value} (h : world.Answers f args result)
    (h' : world.Answers f args other) : result = other := by
  have same := (h 0).symm.trans (h' 0)
  cases same
  rfl

/-! ## The prelude -/

theorem get?_bindings_register (there : scope < world.store.scopes.size) :
    ((world.register scope name operation).store.bindings scope).get? name =
      some (.builtin name world.operations.size) := by
  change ((world.store.define scope name _).bindings scope).get? name = _
  rw [Store.bindings_define, if_pos ⟨rfl, there⟩, Bindings.get?_insert, if_pos rfl]

theorem get?_registerAll_of_notMem (unused : name ∉ operations.map Prod.fst) :
    ((world.registerAll scope operations).store.bindings scope).get? name =
      (world.store.bindings scope).get? name := by
  induction operations generalizing world with
  | nil => rfl
  | cons entry operations ih =>
    rw [List.map_cons, List.mem_cons, not_or] at unused
    exact (ih unused.2).trans (Store.get?_bindings_define_of_ne (Ne.symm unused.1))

/-- Under names that are all different every operation can be called by its name. -/
theorem registerAll_offers (there : scope < world.store.scopes.size)
    (distinct : (operations.map Prod.fst).Nodup) (member : (name, operation) ∈ operations) :
    ∃ f, ((world.registerAll scope operations).store.bindings scope).get? name = some f ∧
      (world.registerAll scope operations).Offers f operation := by
  induction operations generalizing world with
  | nil => cases member
  | cons entry operations ih =>
    obtain ⟨unused, distinct⟩ := List.nodup_cons.mp distinct
    rcases List.mem_cons.mp member with rfl | later
    · -- the operations that are registered later have other names
      refine ⟨.builtin name world.operations.size, ?_,
        (world.offers_register scope name operation).registerAll scope operations⟩
      refine (get?_registerAll_of_notMem unused).trans ?_
      exact get?_bindings_register there
    · exact ih (Store.size_define.symm ▸ there) distinct later

/-- The value is a builtin of the world, and stands for what the prelude has under the name. -/
def OffersPrelude (world : World) (name : String) (f : Value) : Prop :=
  ∃ operation, (name, operation) ∈ Prelude.operations ∧ world.Offers f operation

/-- In a new global scope every name of the prelude is bound to a builtin for its operation. -/
theorem newGlobal_offers (world : World) (name : String)
    (known : name ∈ Prelude.operations.map Prod.fst) :
    ∃ f, world.newGlobal.2.store.get? world.newGlobal.1 name = some f ∧
      world.newGlobal.2.OffersPrelude name f := by
  obtain ⟨⟨_, operation⟩, member, rfl⟩ := List.mem_map.mp known
  have there : world.newRoot.1 < world.newRoot.2.store.scopes.size := by
    simp [newRoot, Store.newScope]
  let truth := world.newRoot.2.define world.newRoot.1 "true" (.boolean true)
  let both := truth.define world.newRoot.1 "false" (.boolean false)
  have still : world.newRoot.1 < both.store.scopes.size := by
    simpa [both, truth, define] using there
  obtain ⟨f, bound, offers⟩ := registerAll_offers still Prelude.distinct_names member
  exact ⟨f, Store.get?_of_bound bound, operation, member, offers⟩

theorem OffersPrelude.offers (h : world.OffersPrelude name f)
    (member : (name, operation) ∈ Prelude.operations) : world.Offers f operation := by
  obtain ⟨other, member', offers⟩ := h
  have same := List.inj_on_of_nodup_map Prelude.distinct_names member member' rfl
  cases same
  exact offers

/-- A test of any two values prints nothing. -/
theorem Offers.answers_test {test : Value → Value → Except Error Bool}
    (offers : world.Offers f (.binary .any .any test)) (a b : Value) :
    world.Answers f [a, b] ((test a b).map Value.boolean) := by
  have reply : (toReply (test a b) : Reply) = { result := (test a b).map Value.boolean } := by
    cases test a b <;> rfl
  exact offers.answers reply

end World

end CallScript
