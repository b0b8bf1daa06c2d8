import CallScript.Eval.Run
import CallScript.Proofs.Chain
import CallScript.Proofs.Text.ByteOrder

/-! # What is seen from a scope

Many scopes share the scopes around them, so what is written to one scope is seen from others and
hidden from others still. `Sees` tells which: from a scope another one is seen for a name if no scope
on the way up to it binds the name. Defining a name changes its lookup for those who see the scope,
and setting it for those who have the same nearest owner (`define_and_set_rebind`). The listing of a
scope, which is collected from the outermost scope inwards, has just what is looked up from the scope
outwards (`visible_lists_lookups`). -/

namespace CallScript.Store

/-- On the way up from a scope, `target` is reached before any other scope that binds the name. -/
inductive Sees (store : Store) (name : String) (target : ScopeId) : ScopeId → Prop where
  | here : Sees store name target target
  | up {scope parent : ScopeId} (free : store.owns scope name = false)
      (goes : store.parent? scope = some parent) (above : Sees store name target parent) :
      Sees store name target scope

/-- The first scope on the way up from `scope` that binds the name is `owner`. -/
def IsNearest (store : Store) (name : String) (owner scope : ScopeId) : Prop :=
  store.owns owner name = true ∧ store.Sees name owner scope

/-- The name is looked up to the value from the scopes that `seen` tells. From other scopes, and for
other names, every lookup is as before. -/
structure Rebinds (before after : Store) (name : String) (v : Value) (seen : ScopeId → Prop) :
    Prop where
  new : ∀ s, seen s → after.get? s name = some v
  old : ∀ s, ¬ seen s → after.get? s name = before.get? s name
  others : ∀ s key, key ≠ name → after.get? s key = before.get? s key

variable {store : Store} {scope other target owner parent : ScopeId} {name : String} {v : Value}

/-! ## Lookups on the way up -/

/-- Nothing is looked up from a scope that does not exist. -/
theorem get?_of_size_le (missing : store.scopes.size ≤ scope) : store.get? scope name = none := by
  rw [get?, List.findSome?_eq_none_iff]
  intro s member
  -- the way up from a missing scope goes nowhere
  obtain rfl : s = scope := by
    rw [chain] at member
    cases steps : store.scopes.size with
    | zero =>
      rw [steps] at member
      cases member
    | succ n =>
      rw [steps, chainWithin, parent?_of_size_le missing] at member
      exact List.mem_singleton.mp member
  rw [bindings_of_size_le missing]
  rfl

theorem get?_of_owns (ordered : store.Ordered) (bound : store.owns scope name = true) :
    store.get? scope name = (store.bindings scope).get? name := by
  obtain ⟨w, found⟩ := Option.isSome_iff_exists.mp bound
  rw [get?_eq ordered (lt_size_of_owns bound), found]

theorem get?_of_up (ordered : store.Ordered) (free : store.owns scope name = false)
    (goes : store.parent? scope = some parent) : store.get? scope name = store.get? parent name := by
  rw [get?_eq ordered (lt_size_of_parent? goes), owns_eq_false_iff.mp free, goes]
  rfl

/-- From a scope that is seen the name is looked up alike. -/
theorem get?_of_sees (ordered : store.Ordered) (sees : store.Sees name target scope) :
    store.get? scope name = store.get? target name := by
  induction sees with
  | here => rfl
  | up free goes _ ih => rw [get?_of_up ordered free goes, ih]

/-! ## Defining a name -/

theorem get?_define_self (ordered : store.Ordered) (there : scope < store.scopes.size) :
    (store.define scope name v).get? scope name = some v := by
  have found : ((store.define scope name v).bindings scope).get? name = some v := by
    rw [bindings_define, if_pos ⟨rfl, there⟩, Bindings.get?_insert, if_pos rfl]
  have bound : (store.define scope name v).owns scope name = true :=
    Option.isSome_iff_exists.mpr ⟨v, found⟩
  rw [get?_of_owns (ordered_define ordered) bound, found]

/-- A scope is still seen when the name is bound there. -/
theorem Sees.define (sees : store.Sees name target scope) :
    (store.define target name v).Sees name target scope := by
  induction sees with
  | here => exact .here
  | @up scope parent free goes _ ih =>
    by_cases same : target = scope
    · rw [same]
      exact .here
    · refine .up ?_ (parent?_define.trans goes) ih
      rw [owns, bindings_define_of_ne same]
      exact free

theorem get?_define_of_sees (ordered : store.Ordered) (there : scope < store.scopes.size)
    (sees : store.Sees name scope other) : (store.define scope name v).get? other name = some v := by
  rw [get?_of_sees (ordered_define ordered) sees.define, get?_define_self ordered there]

theorem get?_define_of_not_sees (ordered : store.Ordered) (hidden : ¬ store.Sees name scope other) :
    (store.define scope name v).get? other name = store.get? other name := by
  -- the induction follows the way up, on which parents are older than children
  induction other using Nat.strongRecOn with
  | ind other ih =>
    have different : scope ≠ other := by
      rintro rfl
      exact hidden .here
    by_cases there : other < store.scopes.size
    · have there' : other < (store.define scope name v).scopes.size := by rwa [size_define]
      rw [get?_eq (ordered_define ordered) there', get?_eq ordered there,
        bindings_define_of_ne different, parent?_define]
      cases found : (store.bindings other).get? name with
      | some w => rfl
      | none =>
        have free : store.owns other name = false := owns_eq_false_iff.mpr found
        cases goes : store.parent? other with
        | none => rfl
        | some parent =>
          exact ih parent (ordered other parent goes) fun above => hidden (.up free goes above)
    · have missing := Nat.le_of_not_lt there
      rw [get?_of_size_le missing, get?_of_size_le (size_define.symm ▸ missing)]

theorem rebinds_define (ordered : store.Ordered) (there : scope < store.scopes.size)
    (name : String) (v : Value) :
    store.Rebinds (store.define scope name v) name v (store.Sees name scope) where
  new _ sees := get?_define_of_sees ordered there sees
  old _ hidden := get?_define_of_not_sees ordered hidden
  others _ _ different := get?_define_of_ne different.symm

/-! ## Setting a name -/

/-- Either some scope on the way up binds the name, or it is neither looked up nor rebound. -/
theorem exists_isNearest_or_free (ordered : store.Ordered) (scope : ScopeId)
    (there : scope < store.scopes.size) (name : String) :
    (∃ owner, store.IsNearest name owner scope) ∨
      store.get? scope name = none ∧ ∀ v, store.set? scope name v = none := by
  induction scope using Nat.strongRecOn with
  | ind scope ih =>
    cases bound : store.owns scope name with
    | true => exact .inl ⟨scope, bound, .here⟩
    | false =>
      cases goes : store.parent? scope with
      | none =>
        refine .inr ⟨?_, fun v => ?_⟩
        · rw [get?_eq ordered there, owns_eq_false_iff.mp bound, goes]
          rfl
        · rw [set?_eq ordered there, bound, goes]
          rfl
      | some parent =>
        have older := ordered scope parent goes
        rcases ih parent older (Nat.lt_trans older there) with ⟨owner, binds, sees⟩ | ⟨free, fixed⟩
        · exact .inl ⟨owner, binds, .up bound goes sees⟩
        · refine .inr ⟨(get?_of_up ordered bound goes).trans free, fun v => ?_⟩
          rw [set?_eq ordered there, bound, goes]
          exact fixed v

theorem set?_of_isNearest (ordered : store.Ordered) (nearest : store.IsNearest name owner scope) :
    store.set? scope name v = some (store.define owner name v) := by
  obtain ⟨bound, sees⟩ := nearest
  induction sees with
  | here => rw [set?_eq ordered (lt_size_of_owns bound), if_pos bound]
  | up free goes _ ih =>
    rw [set?_eq ordered (lt_size_of_parent? goes), free, goes]
    exact ih

theorem exists_get?_of_isNearest (ordered : store.Ordered)
    (nearest : store.IsNearest name owner scope) : ∃ w, store.get? scope name = some w := by
  obtain ⟨bound, sees⟩ := nearest
  rw [get?_of_sees ordered sees, get?_of_owns ordered bound]
  exact Option.isSome_iff_exists.mp bound

theorem IsNearest.unique {owner' : ScopeId} (nearest : store.IsNearest name owner scope)
    (nearest' : store.IsNearest name owner' scope) : owner = owner' := by
  obtain ⟨bound, sees⟩ := nearest
  obtain ⟨bound', sees'⟩ := nearest'
  induction sees with
  | here =>
    cases sees' with
    | here => rfl
    | up free => rw [free] at bound; cases bound
  | up free goes _ ih =>
    cases sees' with
    | here => rw [free] at bound'; cases bound'
    | up _ goes' above =>
      cases goes.symm.trans goes'
      exact ih above

/-- The owner of the name is rebound for all scopes of which it is the nearest owner. -/
theorem rebinds_define_owner (ordered : store.Ordered) (bound : store.owns owner name = true)
    (v : Value) :
    store.Rebinds (store.define owner name v) name v (store.IsNearest name owner) where
  new _ nearest := get?_define_of_sees ordered (lt_size_of_owns bound) nearest.2
  old _ other := get?_define_of_not_sees ordered fun sees => other ⟨bound, sees⟩
  others _ _ different := get?_define_of_ne different.symm

/-! ## Both -/

/-- Defining a name in a scope changes what the name is looked up to from the scopes that see this
one, and no other lookup. Setting it succeeds if and only if it is looked up to something; then it
changes the lookup from the scopes that have the same nearest owner, and no other lookup, and every
scope binds the names that it has bound before. Setting a name that has no binding is an error that
tells the name and leaves the store as it is. -/
theorem define_and_set_rebind (ordered : store.Ordered) (there : scope < store.scopes.size)
    (name : String) (v : Value) :
    store.Rebinds (store.define scope name v) name v (store.Sees name scope) ∧
    ((∃ after, Run.set scope name v store = some (.ok (), after)) ↔
      ∃ w, store.get? scope name = some w) ∧
    (∀ after, Run.set scope name v store = some (.ok (), after) →
      ∃ owner, store.IsNearest name owner scope ∧
        store.Rebinds after name v (store.IsNearest name owner) ∧
        ∀ s, (after.bindings s).names = (store.bindings s).names) ∧
    (store.get? scope name = none →
      Run.set scope name v store = some (.error (.undefinedBinding name), store)) := by
  refine ⟨rebinds_define ordered there name v, ?_⟩
  rcases exists_isNearest_or_free ordered scope there name with ⟨owner, nearest⟩ | ⟨free, fixed⟩
  · have runs : Run.set scope name v store = some (.ok (), store.define owner name v) := by
      rw [Run.set, set?_of_isNearest ordered nearest]
    obtain ⟨w, found⟩ := exists_get?_of_isNearest ordered nearest
    refine ⟨⟨fun _ => ⟨w, found⟩, fun _ => ⟨_, runs⟩⟩, ?_, ?_⟩
    · intro after ends
      rw [runs] at ends
      cases ends
      exact ⟨owner, nearest, rebinds_define_owner ordered nearest.1 v,
        fun _ => names_define_of_owns nearest.1⟩
    · intro none
      rw [found] at none
      cases none
  · have fails : Run.set scope name v store = some (.error (.undefinedBinding name), store) := by
      rw [Run.set, fixed v]
    refine ⟨⟨?_, ?_⟩, ?_, fun _ => fails⟩
    · rintro ⟨after, ends⟩
      rw [fails] at ends
      cases ends
    · rintro ⟨w, found⟩
      rw [free] at found
      cases found
    · intro after ends
      rw [fails] at ends
      cases ends

/-- A scope with `x` and, inside it, a scope with two scopes in it, one of which has an `x` of its
own. -/
def shadowed : Store :=
  let outer := (({} : Store).newScope none).2.define 0 "x" (.boolean true)
  let inner := ((outer.newScope (some 0)).2.newScope (some 1)).2
  (inner.newScope (some 1)).2.define 3 "x" (.string "own")

theorem ordered_shadowed : shadowed.Ordered := by
  have outer : (({} : Store).newScope none).2.Ordered := by
    apply ordered_newScope
    · intro s p goes
      cases goes
    · intro p impossible
      cases impossible
  apply ordered_define
  refine ordered_newScope (ordered_newScope (ordered_newScope (ordered_define outer) ?_) ?_) ?_ <;>
    · intro p same
      cases same
      decide

/-- The scope between them is written to: one of the two sees that, the other has its own `x`. What is
set from the first one changes the outer `x`, which the other does not see, either. -/
theorem write_is_seen_unless_shadowed :
    shadowed.Ordered ∧ 2 < shadowed.scopes.size ∧
      (shadowed.define 1 "x" (.boolean false)).get? 2 "x" = some (.boolean false) ∧
      (shadowed.define 1 "x" (.boolean false)).get? 3 "x" = some (.string "own") ∧
      ∃ after, Run.set 2 "x" (.boolean false) shadowed = some (.ok (), after) ∧
        after.get? 1 "x" = some (.boolean false) ∧ after.get? 3 "x" = some (.string "own") := by
  have two : 2 < shadowed.scopes.size := by decide
  have defined := (define_and_set_rebind ordered_shadowed (Nat.lt_trans Nat.one_lt_two two) "x"
    (.boolean false)).1
  obtain ⟨-, succeeds, set, -⟩ := define_and_set_rebind ordered_shadowed two "x" (.boolean false)
  have own : shadowed.get? 3 "x" = some (.string "own") := rfl
  -- no scope but the third one itself is seen from there
  have hidden : ∀ target, target ≠ 3 → ¬ shadowed.Sees "x" target 3 := by
    intro target other sees
    cases sees with
    | here => exact other rfl
    | up free => exact absurd free (by decide)
  obtain ⟨after, ends⟩ := succeeds.mpr ⟨.boolean true, rfl⟩
  have outermost : ∀ s, shadowed.Sees "x" 0 s → shadowed.IsNearest "x" 0 s :=
    fun _ sees => ⟨by decide, sees⟩
  have up : shadowed.Sees "x" 0 1 := .up (by decide) (by decide) .here
  obtain ⟨owner, nearest, rebinds, -⟩ := set after ends
  obtain rfl := nearest.unique (outermost 2 (.up (by decide) (by decide) up))
  refine ⟨ordered_shadowed, two, ?_, ?_, after, ends, ?_, ?_⟩
  · exact defined.new 2 (.up (by decide) (by decide) .here)
  · exact (defined.old 3 (hidden 1 (by decide))).trans own
  · exact rebinds.new 1 (outermost 1 up)
  · exact (rebinds.old 3 fun nearest => hidden 0 (by decide) nearest.2).trans own

/-! ## The listing -/

theorem get?_visible : (store.visible scope).get? name = store.get? scope name := by
  rw [visible, get?]
  induction store.chain scope with
  | nil => rfl
  | cons s outer ih =>
    rw [List.foldr_cons, Bindings.get?_union, ih, List.findSome?_cons]
    cases (store.bindings s).get? name <;> rfl

/-- The names that are visible from a scope are listed with their values in the strict order of their
bytes, so that each name is listed once, and exactly those names are listed that can be looked up, with
the value that they are looked up to. -/
theorem visible_lists_lookups (store : Store) (scope : ScopeId) :
    (store.visible scope).entries.Pairwise (fun a b => Text.utf8 a.1 < Text.utf8 b.1) ∧
      ∀ name v, (name, v) ∈ (store.visible scope).entries ↔ store.get? scope name = some v := by
  have sorted := (store.visible scope).sorted
  constructor
  · exact sorted.imp Text.utf8_lt_utf8_iff.mpr
  · intro name v
    rw [← get?_visible, Bindings.get?, Bindings.lookup?_eq_some_iff sorted]

end CallScript.Store
