import CallScript.Proofs.Bindings
import CallScript.Store

/-! # What the store's operations change

Each operation of the store in terms of three views of it: how many scopes there are, the parent of
a scope, and the names that a scope binds. Setting a name is defining it in a scope that binds it. -/

namespace CallScript

/-- A closure is found in a value. -/
inductive Value.Contains (c : Closure) : Value → Prop where
  | closure : Contains c (.closure c)
  | item {items : List Value} {v : Value} (member : v ∈ items) (inside : Contains c v) :
      Contains c (.array items)

theorem Value.contains_closure_iff {c d : Closure} : (Value.closure d).Contains c ↔ c = d := by
  constructor
  · intro h
    cases h
    rfl
  · rintro rfl
    exact .closure

theorem Value.contains_array_iff {c : Closure} {items : List Value} :
    (Value.array items).Contains c ↔ ∃ v ∈ items, v.Contains c := by
  constructor
  · intro h
    cases h with
    | item member inside => exact ⟨_, member, inside⟩
  · rintro ⟨v, member, inside⟩
    exact .item member inside

theorem Literal.not_contains_toValue (l : Literal) (c : Closure) : ¬ l.toValue.Contains c := by
  intro h
  cases l <;> cases h

namespace Store

/-- A closure is found in a value that a scope binds. -/
def Binds (store : Store) (c : Closure) : Prop :=
  ∃ scope name v, (store.bindings scope).get? name = some v ∧ v.Contains c

variable {store after : Store} {scope other : ScopeId} {parent : Option ScopeId} {name : String}
  {v : Value}

/-! ## Making a scope -/

@[simp] theorem size_newScope :
    (store.newScope parent).2.scopes.size = store.scopes.size + 1 := by
  simp [newScope]

theorem parent?_newScope :
    (store.newScope parent).2.parent? other =
      if other = store.scopes.size then parent else store.parent? other := by
  simp only [parent?, newScope, Array.getElem?_push]
  split <;> rfl

theorem bindings_of_size_le (missing : store.scopes.size ≤ scope) :
    store.bindings scope = .empty := by
  rw [bindings, Array.getElem?_eq_none missing]

theorem parent?_of_size_le (missing : store.scopes.size ≤ scope) : store.parent? scope = none := by
  rw [parent?, Array.getElem?_eq_none missing, Option.bind_none]

theorem lt_size_of_parent? {p : ScopeId} (goes : store.parent? scope = some p) :
    scope < store.scopes.size := by
  by_contra missing
  rw [parent?_of_size_le (Nat.le_of_not_lt missing)] at goes
  cases goes

theorem lt_size_of_owns (bound : store.owns scope name = true) : scope < store.scopes.size := by
  by_contra missing
  rw [owns, bindings_of_size_le (Nat.le_of_not_lt missing)] at bound
  cases bound

theorem owns_eq_false_iff :
    store.owns scope name = false ↔ (store.bindings scope).get? name = none :=
  Option.isSome_eq_false_iff.trans Option.isNone_iff_eq_none

@[simp] theorem bindings_newScope :
    (store.newScope parent).2.bindings other = store.bindings other := by
  by_cases new : other = store.scopes.size
  · rw [new, bindings_of_size_le (Nat.le_refl _)]
    simp [bindings, newScope]
  · simp only [bindings, newScope, Array.getElem?_push, if_neg new]

/-! ## Binding a name -/

@[simp] theorem size_define : (store.define scope name v).scopes.size = store.scopes.size := by
  simp [define]

@[simp] theorem closures_define :
    (store.define scope name v).closures = store.closures := rfl

@[simp] theorem parent?_define :
    (store.define scope name v).parent? other = store.parent? other := by
  simp only [parent?, define, Array.getElem?_modify]
  split
  next => cases store.scopes[other]? <;> rfl
  next => rfl

theorem bindings_define :
    (store.define scope name v).bindings other =
      if scope = other ∧ other < store.scopes.size then (store.bindings other).insert name v
      else store.bindings other := by
  simp only [bindings, define, Array.getElem?_modify]
  by_cases same : scope = other
  · by_cases exist : other < store.scopes.size
    · rw [if_pos same, if_pos ⟨same, exist⟩, Array.getElem?_eq_getElem exist]
      rfl
    · have missing := Array.getElem?_eq_none (Nat.le_of_not_lt exist)
      rw [if_pos same, if_neg (fun both => exist both.2), missing]
      rfl
  · rw [if_neg same, if_neg (fun both => same both.1)]

theorem bindings_define_of_ne (different : scope ≠ other) :
    (store.define scope name v).bindings other = store.bindings other := by
  rw [bindings_define, if_neg (fun both => different both.1)]

/-- A name that was bound before keeps a value. -/
theorem owns_define {key : String} (bound : store.owns other key = true) :
    (store.define scope name v).owns other key = true := by
  rw [owns, bindings_define]
  split
  next => rw [Bindings.contains_insert, Bool.or_eq_true]; exact .inr bound
  next => exact bound

/-- Rebinding a name leaves all scopes with the names they have. -/
theorem names_define_of_owns (bound : store.owns scope name = true) :
    ((store.define scope name v).bindings other).names = (store.bindings other).names := by
  rw [bindings_define]
  split
  next here =>
    rw [← here.1]
    exact Bindings.names_insert_of_contains bound
  next => rfl

theorem get?_bindings_define {key : String} {w : Value}
    (found : ((store.define scope name v).bindings other).get? key = some w) :
    w = v ∨ (store.bindings other).get? key = some w := by
  rw [bindings_define] at found
  split at found
  next =>
    rw [Bindings.get?_insert] at found
    split at found
    next => cases found; exact .inl rfl
    next => exact .inr found
  next => exact .inr found

theorem getElem?_defineAll (entries : List (String × Value)) {s : ScopeId} (different : scope ≠ s) :
    (entries.foldl (fun next entry => next.define scope entry.1 entry.2) store).scopes[s]? =
      store.scopes[s]? := by
  induction entries generalizing store with
  | nil => rfl
  | cons entry entries ih =>
    rw [List.foldl_cons, ih, define]
    simp only [Array.getElem?_modify, if_neg different]

theorem defineAll_keeps (entries : List (String × Value)) :
    let next := entries.foldl (fun next entry => next.define scope entry.1 entry.2) store
    next.scopes.size = store.scopes.size ∧ next.closures = store.closures ∧
      next.printed = store.printed := by
  induction entries generalizing store with
  | nil => exact ⟨rfl, rfl, rfl⟩
  | cons entry entries ih =>
    obtain ⟨size, closures, printed⟩ := @ih (store.define scope entry.1 entry.2)
    exact ⟨size.trans size_define, closures, printed⟩

theorem define_of_set? (set : store.set? scope name v = some after) :
    ∃ owner, store.owns owner name = true ∧ after = store.define owner name v := by
  obtain ⟨owner, found, rfl⟩ := Option.map_eq_some_iff.mp set
  have bound := List.find?_some found
  exact ⟨owner, bound, rfl⟩

/-- Closures that are bound after a definition were bound before, or lie in the value. -/
theorem binds_define {c : Closure} (bound : (store.define scope name v).Binds c) :
    store.Binds c ∨ v.Contains c := by
  obtain ⟨owner, key, w, found, inside⟩ := bound
  rcases get?_bindings_define found with rfl | old
  · exact .inr inside
  · exact .inl ⟨owner, key, w, old, inside⟩

theorem binds_newScope {c : Closure} (bound : (store.newScope parent).2.Binds c) :
    store.Binds c := by
  obtain ⟨owner, key, w, found, inside⟩ := bound
  rw [bindings_newScope] at found
  exact ⟨owner, key, w, found, inside⟩

/-! ## Binding two names -/

section

variable {key : String} {w : Value}

theorem chainWithin_define (steps : Nat) :
    (store.define scope name v).chainWithin steps other = store.chainWithin steps other := by
  induction steps generalizing other with
  | zero => rfl
  | succ steps ih =>
    rw [chainWithin, chainWithin, parent?_define]
    cases store.parent? other with
    | some parent => simp only [ih]
    | none => rfl

@[simp] theorem chain_define : (store.define scope name v).chain other = store.chain other := by
  rw [chain, size_define, chainWithin_define, chain]

/-- Binding a name does not touch what other names are bound to. -/
theorem get?_bindings_define_of_ne (different : name ≠ key) :
    ((store.define scope name v).bindings other).get? key = (store.bindings other).get? key := by
  rw [bindings_define]
  split
  next => exact Bindings.get?_insert_of_ne _ different
  next => rfl

theorem get?_define_of_ne (different : name ≠ key) :
    (store.define scope name v).get? other key = store.get? other key := by
  simp only [get?, chain_define, get?_bindings_define_of_ne different]

theorem owns_define_of_ne (different : name ≠ key) :
    (store.define scope name v).owns other key = store.owns other key := by
  rw [owns, owns, Bindings.contains, Bindings.contains, get?_bindings_define_of_ne different]

/-- Different names may be bound in either order. -/
theorem define_comm (different : name ≠ key) :
    (store.define scope name v).define other key w =
      (store.define other key w).define scope name v := by
  rw [define, define, define, define]
  dsimp only
  congr 1
  apply Array.ext_getElem?
  intro i
  simp only [Array.getElem?_modify]
  by_cases here : scope = i <;> by_cases there : other = i
  · rw [if_pos here, if_pos there, if_pos here, if_pos there, Option.map_map, Option.map_map]
    congr 1
    funext s
    simp only [Function.comp, Bindings.insert_comm s.bindings different v w]
  · rw [if_neg there, if_pos here, if_pos here, if_neg there]
  · rw [if_pos there, if_neg here, if_neg here, if_pos there]
  · rw [if_neg there, if_neg here, if_neg here, if_neg there]

theorem set?_define_of_ne (different : name ≠ key) :
    (store.define scope name v).set? other key w =
      (store.set? other key w).map (·.define scope name v) := by
  simp only [set?, chain_define, owns_define_of_ne different, Option.map_map]
  congr 1
  funext owner
  exact define_comm different

/-- A new scope may be made before or after a name is bound in another one. -/
theorem newScope_define (there : scope < store.scopes.size) :
    ((store.define scope name v).newScope parent).2 =
      (store.newScope parent).2.define scope name v := by
  rw [newScope, newScope, define, define]
  dsimp only
  congr 1
  apply Array.ext_getElem?
  intro i
  simp only [Array.getElem?_modify, Array.getElem?_push, Array.size_modify]
  by_cases here : scope = i
  · have old : i ≠ store.scopes.size := here ▸ Nat.ne_of_lt there
    simp only [if_pos here, if_neg old]
  · simp only [if_neg here]

end

/-! ## Stores that grow out of each other -/

/-- One store has grown out of another: its scopes are still there, with their parents and names, and
what was printed still comes first. Scopes that are not `own` have not got a name. -/
structure Extends (own : ScopeId → Prop) (before after : Store) : Prop where
  size : before.scopes.size ≤ after.scopes.size
  parents : ∀ s < before.scopes.size, after.parent? s = before.parent? s
  bound : ∀ s < before.scopes.size, ∀ key, before.owns s key = true → after.owns s key = true
  names : ∀ s < before.scopes.size, ¬ own s → (after.bindings s).names = (before.bindings s).names
  printed : before.printed.toList <+: after.printed.toList

variable {own own' : ScopeId → Prop} {before : Store}

theorem Extends.refl (own : ScopeId → Prop) (store : Store) : Extends own store store :=
  ⟨Nat.le_refl _, fun _ _ => rfl, fun _ _ _ bound => bound, fun _ _ _ => rfl, List.prefix_rfl⟩

theorem Extends.trans (first : Extends own before store) (second : Extends own store after) :
    Extends own before after where
  size := Nat.le_trans first.size second.size
  parents s hs := (second.parents s (Nat.lt_of_lt_of_le hs first.size)).trans (first.parents s hs)
  bound s hs key bound :=
    second.bound s (Nat.lt_of_lt_of_le hs first.size) key (first.bound s hs key bound)
  names s hs foreign :=
    (second.names s (Nat.lt_of_lt_of_le hs first.size) foreign).trans (first.names s hs foreign)
  printed := first.printed.trans second.printed

/-- Only scopes that were there are asked about. -/
theorem Extends.weaken (h : Extends own before after)
    (fewer : ∀ s < before.scopes.size, own s → own' s) : Extends own' before after where
  size := h.size
  parents := h.parents
  bound := h.bound
  names s hs foreign := h.names s hs (fun mine => foreign (fewer s hs mine))
  printed := h.printed

theorem extends_newScope : Extends own store (store.newScope parent).2 where
  size := by
    rw [size_newScope]
    exact Nat.le_succ _
  parents s hs := by rw [parent?_newScope, if_neg (Nat.ne_of_lt hs)]
  bound s _ key bound := by rwa [owns, bindings_newScope]
  names s _ _ := by rw [bindings_newScope]
  printed := List.prefix_rfl

theorem extends_define (mine : own scope) : Extends own store (store.define scope name v) where
  size := Nat.le_of_eq size_define.symm
  parents _ _ := parent?_define
  bound _ _ _ := owns_define
  names s _ foreign := by
    have different : scope ≠ s := fun same => foreign (same ▸ mine)
    rw [bindings_define_of_ne different]
  printed := List.prefix_rfl

theorem extends_set? (set : store.set? scope name v = some after) : Extends own store after := by
  obtain ⟨owner, bound, rfl⟩ := define_of_set? set
  exact
    { size := Nat.le_of_eq size_define.symm
      parents := fun _ _ => parent?_define
      bound := fun _ _ _ => owns_define
      names := fun _ _ _ => names_define_of_owns bound
      printed := List.prefix_rfl }

theorem extends_newClosure {params : List String} {body : Expr} :
    Extends own store (store.newClosure params body scope).2 :=
  ⟨Nat.le_refl _, fun _ _ => rfl, fun _ _ _ bound => bound, fun _ _ _ => rfl, List.prefix_rfl⟩

theorem toList_printed_print (values : List Value) :
    (store.print values).printed.toList = store.printed.toList ++ values := by
  simp [print]

theorem extends_print (values : List Value) : Extends own store (store.print values) where
  size := Nat.le_refl _
  parents _ _ := rfl
  bound _ _ _ bound := bound
  names _ _ _ := rfl
  printed := by
    rw [toList_printed_print]
    exact List.prefix_append _ _

/-- What a name is looked up to is bound in some scope. -/
theorem bound_of_get? (found : store.get? scope name = some v) :
    ∃ owner, (store.bindings owner).get? name = some v := by
  obtain ⟨owner, -, bound⟩ := List.exists_of_findSome?_eq_some found
  exact ⟨owner, bound⟩

/-- A scope's own names are looked up in it. -/
theorem get?_of_bound (bound : (store.bindings scope).get? name = some v) :
    store.get? scope name = some v := by
  have owned : store.owns scope name = true := by
    rw [owns, Bindings.contains, bound]
    rfl
  obtain ⟨n, size⟩ := Nat.exists_eq_add_of_lt (Nat.zero_lt_of_lt (lt_size_of_owns owned))
  rw [get?, chain, size, chainWithin, List.findSome?_cons, bound]

end Store

end CallScript
