import CallScript.Proofs.Uniform
import CallScript.Proofs.Eval.Simulation
import Mathlib.Data.List.Find

/-! # Evaluation is local to what it can reach

A scope is within reach if it can be got at through parents and through the scopes that closures have
captured. Evaluation changes no other scope, and it cannot tell two stores apart that agree on the
scopes within reach. The closures that are made on the way may be numbered differently in the two
runs, so the outcomes are the same up to these numbers. -/

namespace CallScript

/-! ## Reach -/

namespace Store

/-- A closure is found in a value that a certain scope binds. -/
def BindsAt (store : Store) (s : ScopeId) (c : Closure) : Prop :=
  ∃ name v, (store.bindings s).get? name = some v ∧ v.Contains c

/-- The scopes within reach of some scopes. -/
inductive Reach (store : Store) (roots : ScopeId → Prop) : ScopeId → Prop where
  | root {s : ScopeId} (start : roots s) : Reach store roots s
  | parent {s p : ScopeId} (inside : Reach store roots s) (goes : store.parent? s = some p) :
      Reach store roots p
  | captured {s : ScopeId} {c : Closure} (inside : Reach store roots s) (bound : store.BindsAt s c) :
      Reach store roots c.scope

/-- The scopes within reach, and the scopes that are yet to be made. -/
def Region (store : Store) (roots : ScopeId → Prop) (s : ScopeId) : Prop :=
  store.Reach roots s ∨ store.scopes.size ≤ s

end Store

/-! ## Two runs -/

/-- A closure of this number was made before either of two runs, one of which began after `n` closures
had been made and the other one after `m`. Where these are equally many it need not have been. -/
abbrev Predates (n m serial : Nat) : Prop :=
  n = m ∨ serial < n ∧ serial < m

/-- A closure of one run and what takes its place in the other: if it was made before the two runs, a
closure of the same number, and otherwise the one that was made at the same point of the other run. -/
structure Closure.Counterpart (P : ScopeId → Prop) (n m : Nat) (c d : Closure) : Prop where
  params : c.params = d.params
  body : c.body = d.body
  scope : c.scope = d.scope
  within : P c.scope
  serials : c.serial = d.serial ∧ Predates n m c.serial ∨
    ∃ i, c.serial = n + i ∧ d.serial = m + i

/-- Values of two runs that began with the stores `first` and `second`, the same up to closures. -/
abbrev Value.Matches (P : ScopeId → Prop) (first second : Store) : Value → Value → Prop :=
  Value.Alike (Closure.Counterpart P first.closures second.closures)

/-- Two runs that began with the stores `first` and `second` have come to the stores `store` and
`store'`, and have kept to the scopes in `P`: these are the same in both, and all others are still as
they were. -/
structure Confined (P : ScopeId → Prop) (first second store store' : Store) : Prop where
  grown : first.scopes.size ≤ store.scopes.size
  size : store.scopes.size = store'.scopes.size
  parents : ∀ s, P s → store.parent? s = store'.parent? s
  closed : ∀ s p, P s → store.parent? s = some p → P p
  bindings : ∀ s, P s → ∀ name,
    Option.Rel (Value.Matches P first second) ((store.bindings s).get? name)
      ((store'.bindings s).get? name)
  outside : ∀ s, ¬ P s →
    store.scopes[s]? = first.scopes[s]? ∧ store'.scopes[s]? = second.scopes[s]?
  closures : ∃ k, store.closures = first.closures + k ∧ store'.closures = second.closures + k
  printed : ∃ vs ws, store.printed.toList = first.printed.toList ++ vs ∧
    store'.printed.toList = second.printed.toList ++ ws ∧
    List.Forall₂ (Value.Matches P first second) vs ws

/-- Two runs end the same way, and have kept to the scopes in `P`. -/
structure SameRun (P : ScopeId → Prop) (first second : Store) (a b : Outcome Value) : Prop where
  result : Agree (Value.Matches P first second) a.1 b.1
  confined : Confined P first second a.2 b.2

/-- Two stores have the same scopes, with the same parents and bindings within `P`. The closures there
were made before either run begins, as all closures in a store were when it is evaluated on. -/
structure Store.AgreeOn (P : ScopeId → Prop) (first second : Store) : Prop where
  size : first.scopes.size = second.scopes.size
  parents : ∀ s, P s → first.parent? s = second.parent? s
  bindings : ∀ s, P s → first.bindings s = second.bindings s
  older : ∀ s, P s → ∀ c, first.BindsAt s c → Predates first.closures second.closures c.serial

/-- A run that starts with some values in its hands is local to what some scopes reach: it leaves the
scopes out of reach as they are, and takes the same course on stores that agree within reach. -/
structure Run.LocalTo (roots : ScopeId → Prop) (held : List Value) (x : Run Value) : Prop where
  unchanged : ∀ store result after, x store = some (result, after) →
    ∀ s < store.scopes.size, ¬ store.Reach roots s → after.scopes[s]? = store.scopes[s]?
  same : ∀ first second, Store.AgreeOn (first.Reach roots) first second →
    (∀ v ∈ held, ∀ c, v.Contains c → Predates first.closures second.closures c.serial) →
    Option.Rel (SameRun (first.Region roots) first second) (x first) (x second)

variable {P : ScopeId → Prop} {n m : Nat} {first second store store' : Store} {s t : ScopeId}
  {name : String} {v w : Value} {a b : Outcome Value}

theorem renumbering_counterpart : Renumbering (Closure.Counterpart P n m) where
  params h := h.params
  body h := h.body
  scope h := h.scope
  one_to_one {c d c' d'} h h' := by
    rcases h.serials with ⟨same, old⟩ | ⟨i, made⟩ <;>
      rcases h'.serials with ⟨same', old'⟩ | ⟨j, made'⟩ <;> omega

/-- If equally many closures had been made, the counterpart of a closure is itself. -/
theorem eq_of_counterpart {c d : Closure} (h : Closure.Counterpart P n n c d) : c = d := by
  have serials : c.serial = d.serial := by
    rcases h.serials with ⟨same, -⟩ | ⟨i, made⟩ <;> omega
  cases c
  cases d
  cases h.params
  cases h.body
  cases h.scope
  cases serials
  rfl

/-- After equally many closures two runs end with the very same result and bindings. -/
theorem SameRun.eq (h : SameRun P first second a b) (equally : first.closures = second.closures) :
    a.1 = b.1 ∧ ∀ s, P s → a.2.bindings s = b.2.bindings s := by
  have same : ∀ c d, Closure.Counterpart P first.closures second.closures c d → c = d := by
    rw [equally]
    exact fun c d => eq_of_counterpart
  constructor
  · rcases h.result.split with ⟨e, fails, fails'⟩ | ⟨v, w, yields, yields', alike⟩
    · rw [fails, fails']
    · rw [yields, yields', alike.eq_of_closures same]
  · intro s inside
    apply Bindings.ext_get?
    intro name
    rcases split_rel (h.confined.bindings s inside name) with
      ⟨none, none'⟩ | ⟨v, w, bound, bound', alike⟩
    · rw [none, none']
    · rw [bound, bound', alike.eq_of_closures same]

namespace Confined

/-- The chain of a scope in the region is the same in both stores, and stays in the region. -/
theorem chainWithin (h : Confined P first second store store') (steps : Nat) (here : P s) :
    store.chainWithin steps s = store'.chainWithin steps s ∧
      ∀ t ∈ store.chainWithin steps s, P t := by
  induction steps generalizing s with
  | zero => exact ⟨rfl, List.forall_mem_nil _⟩
  | succ steps ih =>
    rw [Store.chainWithin, Store.chainWithin, ← h.parents s here]
    cases goes : store.parent? s with
    | none => exact ⟨rfl, List.forall_mem_singleton.mpr here⟩
    | some p =>
      obtain ⟨same, inside⟩ := ih (h.closed s p here goes)
      exact ⟨congrArg _ same, List.forall_mem_cons.mpr ⟨here, inside⟩⟩

theorem chain (h : Confined P first second store store') (here : P s) :
    store.chain s = store'.chain s ∧ ∀ t ∈ store.chain s, P t := by
  rw [Store.chain, Store.chain, ← h.size]
  exact h.chainWithin store.scopes.size here

theorem owns (h : Confined P first second store store') (here : P s) :
    store.owns s name = store'.owns s name := by
  rw [Store.owns, Store.owns, Bindings.contains, Bindings.contains]
  rcases split_rel (h.bindings s here name) with ⟨none, none'⟩ | ⟨v, w, bound, bound', -⟩
  · rw [none, none']
  · rw [bound, bound']
    rfl

theorem findSome? (h : Confined P first second store store') {scopes : List ScopeId}
    (inside : ∀ t ∈ scopes, P t) :
    Option.Rel (Value.Matches P first second)
      (scopes.findSome? fun t => (store.bindings t).get? name)
      (scopes.findSome? fun t => (store'.bindings t).get? name) := by
  induction scopes with
  | nil => exact .none
  | cons t scopes ih =>
    obtain ⟨here, inside⟩ := List.forall_mem_cons.mp inside
    rw [List.findSome?_cons, List.findSome?_cons]
    rcases split_rel (h.bindings t here name) with ⟨none, none'⟩ | ⟨v, w, bound, bound', alike⟩
    · rw [none, none']
      exact ih inside
    · rw [bound, bound']
      exact .some alike

theorem lookup (h : Confined P first second store store') (here : P s) (name : String) :
    Option.Rel (Value.Matches P first second)
      (store.get? s name) (store'.get? s name) := by
  obtain ⟨same, inside⟩ := h.chain here
  rw [Store.get?, Store.get?, ← same]
  exact h.findSome? inside

theorem define (h : Confined P first second store store') (here : P s) (name : String)
    (alike : Value.Matches P first second v w) :
    Confined P first second (store.define s name v) (store'.define s name w) where
  grown := by simpa using h.grown
  size := by simpa using h.size
  parents t inside := by simpa using h.parents t inside
  closed t p inside goes := h.closed t p inside (by simpa using goes)
  bindings t inside key := by
    rw [Store.bindings_define, Store.bindings_define, ← h.size]
    by_cases bound : s = t ∧ t < store.scopes.size
    · rw [if_pos bound, if_pos bound, Bindings.get?_insert, Bindings.get?_insert]
      by_cases same : name = key
      · rw [if_pos same, if_pos same]
        exact .some alike
      · rw [if_neg same, if_neg same]
        exact h.bindings t inside key
    · rw [if_neg bound, if_neg bound]
      exact h.bindings t inside key
  outside t outside := by
    have other : s ≠ t := fun same => outside (same ▸ here)
    simpa [Store.define, Array.getElem?_modify, other] using h.outside t outside
  closures := h.closures
  printed := h.printed

theorem set (h : Confined P first second store store') (here : P s) (name : String)
    (alike : Value.Matches P first second v w) :
    Option.Rel (Confined P first second) (store.set? s name v) (store'.set? s name w) := by
  obtain ⟨same, inside⟩ := h.chain here
  have owners : ∀ t ∈ store.chain s, store.owns t name = store'.owns t name :=
    fun t member => h.owns (inside t member)
  rw [Store.set?, Store.set?, ← same, List.find?_congr owners]
  cases found : (store.chain s).find? fun t => store'.owns t name with
  | none => exact .none
  | some owner => exact .some (h.define (inside owner (List.mem_of_find?_eq_some found)) name alike)

theorem newScope (h : Confined P first second store store') (new : ∀ s, first.scopes.size ≤ s → P s)
    (here : P s) :
    Confined P first second (store.newScope (some s)).2 (store'.newScope (some s)).2 where
  grown := by simpa using Nat.le_succ_of_le h.grown
  size := by simpa using h.size
  parents t inside := by
    rw [Store.parent?_newScope, Store.parent?_newScope, h.size, h.parents t inside]
  closed t p inside goes := by
    rw [Store.parent?_newScope] at goes
    split at goes
    next =>
      cases goes
      exact here
    next => exact h.closed t p inside goes
  bindings t inside key := by simpa using h.bindings t inside key
  outside t outside := by
    have old : t < first.scopes.size := Nat.lt_of_not_le fun later => outside (new t later)
    have other : t ≠ store.scopes.size := Nat.ne_of_lt (Nat.lt_of_lt_of_le old h.grown)
    have other' : t ≠ store'.scopes.size := h.size ▸ other
    simpa [Store.newScope, Array.getElem?_push, other, other'] using h.outside t outside
  closures := h.closures
  printed := h.printed

theorem defineAll (h : Confined P first second store store') (here : P s)
    {bindings bindings' : List (String × Value)}
    (alikes : List.Forall₂ (fun a b : String × Value => a.1 = b.1 ∧
      Value.Matches P first second a.2 b.2)
      bindings bindings') :
    Confined P first second
      (bindings.foldl (fun next entry => next.define s entry.1 entry.2) store)
      (bindings'.foldl (fun next entry => next.define s entry.1 entry.2) store') := by
  refine List.rel_foldl (P := Confined P first second) ?_ h alikes
  intro next next' both entry entry' pair
  dsimp only
  rw [← pair.1]
  exact both.define here entry.1 pair.2

theorem print (h : Confined P first second store store') {vs ws : List Value}
    (alikes : List.Forall₂ (Value.Matches P first second) vs ws) :
    Confined P first second (store.print vs) (store'.print ws) where
  grown := h.grown
  size := h.size
  parents := h.parents
  closed := h.closed
  bindings := h.bindings
  outside := h.outside
  closures := h.closures
  printed := by
    obtain ⟨us, us', before, before', pairs⟩ := h.printed
    refine ⟨us ++ vs, us' ++ ws, ?_, ?_, List.rel_append pairs alikes⟩
    · rw [Store.toList_printed_print, before, List.append_assoc]
    · rw [Store.toList_printed_print, before', List.append_assoc]

end Confined

/-! ## The simulation -/

theorem forall₂_zip {R : Value → Value → Prop} {params : List String} {args args' : List Value}
    (alikes : List.Forall₂ R args args') :
    List.Forall₂ (fun a b : String × Value => a.1 = b.1 ∧ R a.2 b.2) (params.zip args)
      (params.zip args') := by
  induction alikes generalizing params with
  | nil =>
    rw [List.zip_nil_right]
    exact .nil
  | cons first _ ih =>
    cases params with
    | nil => exact .nil
    | cons param params => exact .cons ⟨rfl, first⟩ ih

/-- The evaluations on two stores that are the same in a region. -/
def confined (operations : Operations) (P : ScopeId → Prop) (first second : Store)
    (uniform : ∀ operation ∈ operations, operation.Uniform)
    (new : ∀ s, first.scopes.size ≤ s → P s) : Simulation Unit operations where
  trees _ s e e' := e = e' ∧ P s
  closures _ := Closure.Counterpart P first.closures second.closures
  stores _ := Confined P first second
  trees_mono _ h := h
  closures_mono _ h := h
  replies _ id := Operations.uniform_get uniform id _ renumbering_counterpart
  of_literal h := h.1.symm
  of_word {_ _ x _} h := ⟨x, h.1.symm⟩
  of_call {_ _ f _ as} h := ⟨f, as, h.1.symm, rfl, rfl⟩
  operator h _ := by
    cases h.1
    exact ⟨rfl, h.2⟩
  args h _ := by
    cases h.1
    exact List.forall₂_same.mpr fun e _ => ⟨rfl, h.2⟩
  size h := h.size
  lookup := by
    rintro _ t x _ store store' stores ⟨⟨⟩, here⟩
    exact ⟨stores.lookup here x, fun _ => rfl⟩
  define := by
    rintro _ t x _ v v' store store' stores ⟨⟨⟩, here⟩ alike
    exact stores.define here x alike
  set := by
    rintro _ t x _ v v' store store' stores ⟨⟨⟩, here⟩ alike
    exact ⟨stores.set here x alike, fun _ => rfl⟩
  print h alikes := h.print alikes
  function := by
    rintro _ t f _ a _ as _ store store' ⟨⟨⟩, here⟩ _ stores
    obtain ⟨k, made, made'⟩ := stores.closures
    cases paramNames (a :: as).dropLast with
    | error e => exact .error e
    | ok params =>
      refine .ok ⟨(), le_rfl, ⟨rfl, rfl, rfl, here, .inr ⟨k, made, made'⟩⟩, ?_⟩
      exact { stores with closures := ⟨k + 1, congrArg (· + 1) made, congrArg (· + 1) made'⟩ }
  params h := by rw [h.params]
  frame := by
    intro _ c d args args' store store' stores related _ alikes
    have here : P store.scopes.size := new _ stores.grown
    refine ⟨(), le_rfl, ⟨related.body, here⟩, ?_⟩
    rw [Store.withFrame, Store.withFrame, ← related.scope, ← related.params, ← stores.size]
    exact (stores.newScope new related.within).defineAll here (forall₂_zip alikes)

/-! ## Runs from the scopes within reach -/

variable {roots : ScopeId → Prop} {held : List Value} {operations : Operations} {x : Run Value}

theorem Store.AgreeOn.refl (P : ScopeId → Prop) (store : Store) : store.AgreeOn P store :=
  ⟨rfl, fun _ _ => rfl, fun _ _ => rfl, fun _ _ _ _ => .inl rfl⟩

/-- A binding in a scope out of reach makes no difference within reach. -/
theorem Store.agreeOn_define (unreached : ¬ store.Reach roots t) (name : String) (v : Value) :
    store.AgreeOn (store.Reach roots) (store.define t name v) where
  size := size_define.symm
  parents _ _ := parent?_define.symm
  bindings s reached := by
    have other : t ≠ s := by
      rintro rfl
      exact unreached reached
    rw [bindings_define_of_ne other]
  older _ _ _ _ := .inl rfl

/-- Stores that agree on the scopes within reach have come nowhere yet, and are confined. -/
theorem Store.AgreeOn.confined (agree : Store.AgreeOn (first.Reach roots) first second) :
    Confined (first.Region roots) first second first second where
  grown := Nat.le_refl _
  size := agree.size
  parents s inside := by
    rcases inside with reached | new
    · exact agree.parents s reached
    · rw [Store.parent?_of_size_le new, Store.parent?_of_size_le (agree.size ▸ new)]
  closed s p inside goes := by
    rcases inside with reached | new
    · exact .inl (.parent reached goes)
    · rw [Store.parent?_of_size_le new] at goes
      cases goes
  bindings s inside name := by
    rcases inside with reached | new
    · rw [← agree.bindings s reached]
      cases found : (first.bindings s).get? name with
      | none => exact .none
      | some v =>
        apply Option.Rel.some
        apply Value.alike_self
        intro c inside
        have bound : first.BindsAt s c := ⟨name, v, found, inside⟩
        have older := agree.older s reached c bound
        exact ⟨rfl, rfl, rfl, .inl (.captured reached bound), .inl ⟨rfl, older⟩⟩
    · rw [Store.bindings_of_size_le new, Store.bindings_of_size_le (agree.size ▸ new)]
      exact .none
  outside _ _ := ⟨rfl, rfl⟩
  closures := ⟨0, rfl, rfl⟩
  printed := ⟨[], [], by simp, by simp, .nil⟩

/-- The simulation of two runs on stores that agree on the scopes within reach. -/
def fromReach (uniform : ∀ operation ∈ operations, operation.Uniform) (roots : ScopeId → Prop)
    (first second : Store) : Simulation Unit operations :=
  confined operations (first.Region roots) first second uniform fun _ new => .inr new

/-- A run is local if it goes in step with itself on stores that agree on the scopes within reach. -/
theorem Run.localTo_of_inStep (uniform : ∀ operation ∈ operations, operation.Uniform)
    (inStep : ∀ first second, Confined (first.Region roots) first second first second →
      (∀ v ∈ held, ∀ c, v.Contains c → Predates first.closures second.closures c.serial) →
      (fromReach uniform roots first second).InStep
        (fromReach uniform roots first second).values () first second x x) :
    x.LocalTo roots held := by
  have same : ∀ first second, Store.AgreeOn (first.Reach roots) first second →
      (∀ v ∈ held, ∀ c, v.Contains c → Predates first.closures second.closures c.serial) →
      Option.Rel (SameRun (first.Region roots) first second) (x first) (x second) := by
    intro first second agree older
    rcases split_rel (inStep first second agree.confined older) with
      ⟨stuck, stuck'⟩ | ⟨a, b, ended, ended', _, _, result, confined⟩
    · rw [stuck, stuck']
      exact .none
    · rw [ended, ended']
      exact .some ⟨result, confined⟩
  refine ⟨?_, same⟩
  intro store result after ends s old unreached
  -- a run goes in step with itself, and keeps to the region there as well
  have itself := same store store (.refl _ store) fun _ _ _ _ => .inl rfl
  rw [ends] at itself
  cases itself with
  | some both =>
    have outside : ¬ store.Region roots s := by
      rintro (reached | new)
      · exact unreached reached
      · exact absurd old (Nat.not_lt_of_le new)
    exact (both.confined.outside s outside).1

/-- A scope that a closure in one of the values has captured. -/
def CapturedBy (values : List Value) (s : ScopeId) : Prop :=
  ∃ v ∈ values, ∃ c, v.Contains c ∧ c.scope = s

/-- Evaluation is local to the scopes that its scope reaches, and a call is local to those that are
reached from the scopes captured in the function and its arguments, if operations take closures as they
are. No other scope is changed, whether the run succeeds or fails, and on two stores that agree within
reach both runs reach their bound or both end, with the same error or the same value, the same output,
the same contents of the scopes within reach and the same new scopes. -/
theorem evaluation_is_local (uniform : ∀ operation ∈ operations, operation.Uniform) (fuel : Nat) :
    (∀ e scope, (eval operations fuel e scope).LocalTo (· = scope) []) ∧
    (∀ f args, (call operations (eval operations fuel) f args).LocalTo (CapturedBy (f :: args))
      (f :: args)) := by
  constructor
  · intro e scope
    apply Run.localTo_of_inStep uniform
    intro first second confined _
    exact eval_inStep _ fuel ⟨rfl, .inl (.root rfl)⟩ confined
  · intro f args
    apply Run.localTo_of_inStep uniform
    intro first second confined older
    let S := fromReach uniform (CapturedBy (f :: args)) first second
    have alikes : List.Forall₂ (S.values ()) (f :: args) (f :: args) := by
      apply Value.alike_self_all
      intro v member c inside
      have captured : CapturedBy (f :: args) c.scope := ⟨v, member, c, inside, rfl⟩
      exact ⟨rfl, rfl, rfl, .inl (.root captured), .inl ⟨rfl, older v member c inside⟩⟩
    cases alikes with
    | cons function args => exact Simulation.inStep_call (eval_inStep S fuel) function args confined

/-- Two scopes inside a global one. -/
def twoChildren : Store :=
  (((World.newGlobal {}).2.store.newScope (some 0)).2.newScope (some 0)).2

theorem not_binds_twoChildren (c : Closure) : ¬ twoChildren.Binds c := by
  intro bound
  exact World.not_binds_newGlobal c (Store.binds_newScope (Store.binds_newScope bound))

/-- From the first of the two only this one and the global one are within reach. -/
theorem reach_twoChildren (reached : twoChildren.Reach (· = 1) s) : s = 0 ∨ s = 1 := by
  induction reached with
  | root start => exact .inr start
  | parent _ goes ih =>
    have up : twoChildren.parent? 0 = none ∧ twoChildren.parent? 1 = some 0 := by decide +kernel
    rcases ih with rfl | rfl
    · rw [up.1] at goes
      cases goes
    · rw [up.2] at goes
      exact .inl (Option.some.inj goes).symm
  | captured _ bound => exact absurd ⟨_, bound⟩ (not_binds_twoChildren _)

/-- The definition of a name. -/
def defineX : Expr :=
  .call (.word "define") [.word "x", .word "true"]

/-- What the second scope binds makes no difference to a definition in the first one, which leaves the
second one as it is. -/
theorem definition_stays_within_reach :
    ∃ a b, eval (World.newGlobal {}).2.operations 2 defineX 1 twoChildren = some a ∧
        eval (World.newGlobal {}).2.operations 2 defineX 1
          (twoChildren.define 2 "x" (.string "other")) = some b ∧
        a.1 = b.1 ∧ a.2.bindings 1 = b.2.bindings 1 ∧ a.2.scopes[2]? = twoChildren.scopes[2]? := by
  have uniform : ∀ operation ∈ (World.newGlobal {}).2.operations, operation.Uniform :=
    World.forall_newGlobal Prelude.uniform_prelude
  have run := (evaluation_is_local uniform 2).1 defineX 1
  have unreached : ¬ twoChildren.Reach (· = 1) 2 := by
    intro reached
    rcases reach_twoChildren reached with same | same <;> cases same
  have agree := Store.agreeOn_define unreached "x" (.string "other")
  have same := run.same _ _ agree fun _ impossible => nomatch impossible
  have ends : (eval (World.newGlobal {}).2.operations 2 defineX 1 twoChildren).isSome = true := by
    decide +kernel
  obtain ⟨a, first⟩ := Option.isSome_iff_exists.mp ends
  have unchanged := run.unchanged twoChildren a.1 a.2 first 2 (by decide +kernel) unreached
  rcases split_rel same with ⟨stuck, -⟩ | ⟨a', b, ended, second, both⟩
  · rw [first] at stuck
    cases stuck
  · obtain rfl : a' = a := Option.some.inj (ended.symm.trans first)
    obtain ⟨result, bindings⟩ := both.eq Store.closures_define.symm
    exact ⟨a', b, first, second, result, bindings 1 (.inl (.root rfl)), unchanged⟩

end CallScript
