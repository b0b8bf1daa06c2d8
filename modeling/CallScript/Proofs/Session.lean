import CallScript.Proofs.Chain
import CallScript.Proofs.Eval.Frame

/-! # Sessions

A host works with a world step by step, in any order, and hands in whatever values it has got hold
of. Every session keeps parents before children and captured scopes in the store
(`session_wellFormed`), so every walk up the chain of scopes ends. -/

namespace CallScript

/-! ## The invariant of the store -/

/-- Trees may be evaluated in scopes that exist. -/
def Discipline.existing : Discipline where
  allows n scope _ := scope < n
  mono more there := Nat.lt_of_lt_of_le there more
  operator there := there
  args there _ _ := there
  frame _ := Nat.lt_succ_self _

/-- All closures in the value capture one of the first `n` scopes. -/
def Value.Captures (n : Nat) (v : Value) : Prop :=
  ∀ c, v.Contains c → c.scope < n

/-- Parents come before children, and every closure that is bound or printed captures a scope. -/
structure Store.WellFormed (store : Store) : Prop where
  ordered : store.Ordered
  bound : ∀ c, store.Binds c → c.scope < store.scopes.size
  printed : ∀ v ∈ store.printed, v.Captures store.scopes.size

namespace Store

variable {store after : Store} {parent : Option ScopeId} {own : ScopeId → Prop}

theorem ordered_of_change (ordered : store.Ordered) (change : Change .existing own store after) :
    after.Ordered := by
  cases change with
  | newScope allowed =>
    apply ordered_newScope ordered
    intro p same
    cases same
    exact allowed
  | define => exact ordered_define ordered
  | set _ _ rebinds =>
    obtain ⟨owner, -, rfl⟩ := define_of_set? rebinds
    exact ordered_define ordered
  | newClosure => exact ordered
  | print => exact ordered

theorem captures_of_change (printed : ∀ v ∈ store.printed, v.Captures store.scopes.size)
    (change : Change .existing own store after) :
    ∀ v ∈ after.printed, v.Captures after.scopes.size := by
  have more := change.extends.size
  have old : ∀ v ∈ store.printed, v.Captures after.scopes.size := fun v member c inside =>
    Nat.lt_of_lt_of_le (printed v member c inside) more
  cases change with
  | newScope => exact old
  | define => exact old
  | set _ _ rebinds =>
    obtain ⟨owner, -, rfl⟩ := define_of_set? rebinds
    exact old
  | newClosure => exact old
  | print good =>
    intro v member
    rw [← Array.mem_toList_iff, toList_printed_print, List.mem_append] at member
    rcases member with before | now
    · exact old v (Array.mem_toList_iff.mp before)
    · exact good v now

theorem WellFormed.of_changes (wellFormed : store.WellFormed)
    (changes : Changes .existing own store after) : after.WellFormed := by
  induction changes with
  | refl => exact wellFormed
  | tail _ change ih =>
    exact ⟨ordered_of_change ih.ordered change, change.holds ih.bound,
      captures_of_change ih.printed change⟩

theorem WellFormed.newScope (wellFormed : store.WellFormed)
    (older : ∀ p, parent = some p → p < store.scopes.size) :
    (store.newScope parent).2.WellFormed where
  ordered := ordered_newScope wellFormed.ordered older
  bound c bound := by
    rw [size_newScope]
    exact Nat.lt_succ_of_lt (wellFormed.bound c (binds_newScope bound))
  printed v member c inside := by
    rw [size_newScope]
    exact Nat.lt_succ_of_lt (wellFormed.printed v member c inside)

end Store

/-! ## Sessions -/

/-- A world, the values that runs have yielded to the host, and the scopes that were made for it, each
with the parent that it was made with. -/
structure Session where
  world : World := {}
  saved : List Value := []
  made : List (ScopeId × Option ScopeId) := []

namespace Session

/-- How many scopes there are. -/
abbrev size (session : Session) : Nat :=
  session.world.store.scopes.size

/-- The values at hand: what was yielded, is bound or was printed, what the host makes of that and of
its own data, and closures that it makes over scopes that exist. -/
inductive AtHand (session : Session) : Value → Prop where
  | saved {v : Value} (member : v ∈ session.saved) : AtHand session v
  | bound {scope : ScopeId} {name : String} {v : Value}
      (found : (session.world.store.bindings scope).get? name = some v) : AtHand session v
  | printed {v : Value} (member : v ∈ session.world.store.printed) : AtHand session v
  | number (x : Float) : AtHand session (.number x)
  | string (s : String) : AtHand session (.string s)
  | boolean (b : Bool) : AtHand session (.boolean b)
  | builtin (name : String) (id : OperationId) : AtHand session (.builtin name id)
  | closure {c : Closure} (there : c.scope < session.size) : AtHand session (.closure c)
  | array {items : List Value} (each : ∀ v ∈ items, AtHand session v) :
      AtHand session (.array items)
  | item {items : List Value} {v : Value} (array : AtHand session (.array items))
      (member : v ∈ items) : AtHand session v

/-- The session after a run. -/
def ended (session : Session) (result : Except Error Value) (world : World)
    (made : List (ScopeId × Option ScopeId)) : Session where
  world := world
  saved := session.saved ++ result.toOption.toList
  made := session.made ++ made

/-- The scope that a program is evaluated in. -/
def programScope (session : Session) (program : String) (global : ScopeId) :
    List (ScopeId × Option ScopeId) :=
  match Source.parse program with
  | .ok _ => [(session.size, some global)]
  | .error _ => []

/-- The frame that a call makes. -/
def callFrame (session : Session) (f : Value) (args : List Value) :
    List (ScopeId × Option ScopeId) :=
  match f with
  | .closure c => if c.params.length = args.length then [(session.size, some c.scope)] else []
  | _ => []

/-- One thing that a host does. Handles are to scopes that exist. An operation brings no closures but
those it is called with and those that could be made when it was registered. -/
inductive Step : Session → Session → Prop where
  | newRoot {session : Session} :
      Step session
        { session with
          world := session.world.newRoot.2
          made := session.made ++ [(session.world.newRoot.1, none)] }
  | newGlobal {session : Session} :
      Step session
        { session with
          world := session.world.newGlobal.2
          made := session.made ++ [(session.world.newGlobal.1, none)] }
  | newChild {session : Session} {parent : ScopeId} (there : parent < session.size) :
      Step session
        { session with
          world := (session.world.newChild parent).2
          made := session.made ++ [((session.world.newChild parent).1, some parent)] }
  | define {session : Session} {scope : ScopeId} {name : String} {v : Value}
      (there : scope < session.size) (value : session.AtHand v) :
      Step session { session with world := session.world.define scope name v }
  | set {session : Session} {scope : ScopeId} {name : String} {v : Value} {world : World}
      (there : scope < session.size) (value : session.AtHand v)
      (rebinds : session.world.set scope name v = .ok world) :
      Step session { session with world := world }
  | setFails {session : Session} {scope : ScopeId} {name : String} {v : Value} {error : Error}
      (there : scope < session.size) (value : session.AtHand v)
      (fails : session.world.set scope name v = .error error) : Step session session
  | register {session : Session} {scope : ScopeId} {name : String} {operation : Operation}
      (there : scope < session.size) (brings : operation.Brings fun c => c.scope < session.size) :
      Step session { session with world := session.world.register scope name operation }
  | run {session : Session} {fuel : Nat} {program : String} {global : ScopeId}
      {result : Except Error Value} {world : World} (there : global < session.size)
      (ends : session.world.run fuel program global = some (result, world)) :
      Step session (session.ended result world (session.programScope program global))
  | eval {session : Session} {fuel : Nat} {e : Expr} {scope : ScopeId}
      {result : Except Error Value} {world : World} (there : scope < session.size)
      (ends : session.world.eval fuel e scope = some (result, world)) :
      Step session (session.ended result world [])
  | applyRule {session : Session} {fuel : Nat} {form : SpecialForm} {args : List Expr}
      {scope : ScopeId} {result : Except Error Value} {world : World}
      (there : scope < session.size)
      (ends : session.world.applyRule fuel form args scope = some (result, world)) :
      Step session (session.ended result world [])
  | call {session : Session} {fuel : Nat} {f : Value} {args : List Value}
      {result : Except Error Value} {world : World} (function : session.AtHand f)
      (values : ∀ v ∈ args, session.AtHand v)
      (ends : session.world.call fuel f args = some (result, world)) :
      Step session (session.ended result world (session.callFrame f args))

/-- Any number of steps. -/
abbrev Reaches : Session → Session → Prop :=
  Relation.ReflTransGen Step

/-- The invariant of sessions. -/
structure WellFormed (session : Session) : Prop where
  store : session.world.store.WellFormed
  saved : ∀ v ∈ session.saved, v.Captures session.size
  operations : ∀ operation ∈ session.world.operations,
    operation.Brings fun c => c.scope < session.size
  made : ∀ entry ∈ session.made,
    entry.1 < session.size ∧ session.world.store.parent? entry.1 = entry.2

/-! ## The invariant holds in every session -/

variable {session next later : Session} {world : World} {v : Value}

theorem captures_of_atHand (wellFormed : session.WellFormed) (atHand : session.AtHand v) :
    v.Captures session.size := by
  induction atHand with
  | saved member => exact wellFormed.saved _ member
  | bound found =>
    intro c inside
    exact wellFormed.store.bound c ⟨_, _, _, found, inside⟩
  | printed member => exact wellFormed.store.printed _ member
  | number | string | boolean | builtin =>
    intro c inside
    cases inside
  | closure there =>
    intro c inside
    rwa [Value.contains_closure_iff.mp inside]
  | array _ each =>
    intro c inside
    obtain ⟨v, member, inside⟩ := Value.contains_array_iff.mp inside
    exact each v member c inside
  | item _ member ih =>
    intro c inside
    exact ih c (.item member inside)

theorem WellFormed.ready (wellFormed : session.WellFormed) :
    Ready .existing session.world.operations (fun _ => True) session.world.store where
  values := wellFormed.store.bound
  replies := Operations.brings_get wellFormed.operations
  fresh _ _ := trivial

/-- What a step has to keep up: the store and the operations stay in order, and what it adds to the
session is in order as well. -/
theorem WellFormed.extended (wellFormed : session.WellFormed)
    (store : world.store.WellFormed)
    (grown : session.world.store.Extends (fun _ => True) world.store)
    (operations : ∀ operation ∈ world.operations,
      operation.Brings fun c => c.scope < world.store.scopes.size)
    {saved : List Value} (captures : ∀ v ∈ saved, v.Captures world.store.scopes.size)
    {made : List (ScopeId × Option ScopeId)}
    (parents : ∀ entry ∈ made,
      entry.1 < world.store.scopes.size ∧ world.store.parent? entry.1 = entry.2) :
    WellFormed ⟨world, session.saved ++ saved, session.made ++ made⟩ where
  store := store
  saved v member := by
    rcases List.mem_append.mp member with old | new
    · intro c inside
      exact Nat.lt_of_lt_of_le (wellFormed.saved v old c inside) grown.size
    · exact captures v new
  operations := operations
  made entry member := by
    rcases List.mem_append.mp member with old | new
    · obtain ⟨there, parent⟩ := wellFormed.made entry old
      exact ⟨Nat.lt_of_lt_of_le there grown.size, (grown.parents _ there).trans parent⟩
    · exact parents entry new

/-- Operations bring no other closures when there are more scopes. -/
theorem WellFormed.brings (wellFormed : session.WellFormed) {n : Nat} (more : session.size ≤ n) :
    ∀ operation ∈ session.world.operations, operation.Brings fun c => c.scope < n := by
  intro operation member
  exact (wellFormed.operations operation member).mono fun _ there => Nat.lt_of_lt_of_le there more

/-- What the session becomes is in order, and no scope has got another parent. -/
def Keeps (session next : Session) : Prop :=
  next.WellFormed ∧ session.world.store.Extends (fun _ => True) next.world.store

theorem keeps_newScope (wellFormed : session.WellFormed) {parent : Option ScopeId}
    (older : ∀ p, parent = some p → p < session.size) :
    session.Keeps
      { session with
        world := { session.world with store := (session.world.store.newScope parent).2 }
        made := session.made ++ [(session.size, parent)] } := by
  have grown : session.world.store.Extends (fun _ => True)
      (session.world.store.newScope parent).2 := Store.extends_newScope
  have parents : ∀ entry ∈ [(session.size, parent)],
      entry.1 < (session.world.store.newScope parent).2.scopes.size ∧
        (session.world.store.newScope parent).2.parent? entry.1 = entry.2 := by
    intro entry member
    rw [List.mem_singleton.mp member, Store.parent?_newScope, if_pos rfl, Store.size_newScope]
    exact ⟨Nat.lt_succ_self _, rfl⟩
  have kept := @WellFormed.extended session
    { session.world with store := (session.world.store.newScope parent).2 } wellFormed
    (wellFormed.store.newScope older) grown (wellFormed.brings grown.size) []
    (List.forall_mem_nil _) _ parents
  rw [List.append_nil] at kept
  exact ⟨kept, grown⟩

/-- Allowed changes by the host itself. -/
theorem keeps_changes (wellFormed : session.WellFormed)
    (changes : Changes .existing (fun _ => True) session.world.store world.store)
    (operations : ∀ operation ∈ world.operations,
      operation.Brings fun c => c.scope < session.size) :
    session.Keeps { session with world := world } := by
  have grown := changes.extends
  have brings : ∀ operation ∈ world.operations,
      operation.Brings fun c => c.scope < world.store.scopes.size := fun operation member =>
    (operations operation member).mono fun _ there => Nat.lt_of_lt_of_le there grown.size
  have kept := @WellFormed.extended session world wellFormed (wellFormed.store.of_changes changes)
    grown brings [] (List.forall_mem_nil _) [] (List.forall_mem_nil _)
  rw [List.append_nil, List.append_nil] at kept
  exact ⟨kept, grown⟩

/-- A run that obeys. -/
theorem keeps_run (wellFormed : session.WellFormed) {run : Run Value}
    {result : Except Error Value} {made : List (ScopeId × Option ScopeId)}
    (obeys : run.Obeys .existing (fun _ => True) (Discipline.Good .existing) session.world.store)
    (ends : session.world.runOn run = some (result, world))
    (parents : ∀ entry ∈ made,
      entry.1 < world.store.scopes.size ∧ world.store.parent? entry.1 = entry.2) :
    session.Keeps (session.ended result world made) := by
  obtain ⟨ends, same⟩ := World.runOn_eq_some_iff.mp ends
  obtain ⟨changes, good⟩ := obeys _ _ ends
  have grown := changes.extends
  have brings := wellFormed.brings grown.size
  rw [← same] at brings
  refine ⟨?_, grown⟩
  apply wellFormed.extended (wellFormed.store.of_changes changes) grown brings _ parents
  intro v member
  cases result with
  | ok w =>
    rw [List.mem_singleton.mp member]
    exact good w rfl
  | error => cases member

theorem keeps_eval (wellFormed : session.WellFormed) {fuel : Nat} {e : Expr} {scope : ScopeId}
    {result : Except Error Value} (there : scope < session.size)
    (ends : session.world.eval fuel e scope = some (result, world)) :
    session.Keeps (session.ended result world []) :=
  keeps_run wellFormed (eval_obeys _ fuel wellFormed.ready trivial there) ends
    (List.forall_mem_nil _)

theorem keeps_call (wellFormed : session.WellFormed) {fuel : Nat} {f : Value} {args : List Value}
    {result : Except Error Value} (function : session.AtHand f)
    (values : ∀ v ∈ args, session.AtHand v)
    (ends : session.world.call fuel f args = some (result, world)) :
    session.Keeps (session.ended result world (session.callFrame f args)) := by
  have obeys := call_obeys (eval_obeys session.world.operations fuel) wellFormed.ready
    (captures_of_atHand wellFormed function)
    fun v member => captures_of_atHand wellFormed (values v member)
  apply keeps_run wellFormed obeys ends
  obtain ⟨ends, -⟩ := World.runOn_eq_some_iff.mp ends
  intro entry member
  cases f with
  | closure c =>
    by_cases count : c.params.length = args.length
    · rw [callFrame, if_pos count] at member
      rw [List.mem_singleton.mp member]
      exact call_parent count ends
    · rw [callFrame, if_neg count] at member
      cases member
  | number | string | boolean | array | builtin => cases member

/-- A program makes its scope and is evaluated there. -/
theorem keeps_program (wellFormed : session.WellFormed) {fuel : Nat} {program : String}
    {global : ScopeId} {result : Except Error Value} (there : global < session.size)
    (ends : session.world.run fuel program global = some (result, world)) :
    session.Keeps (session.ended result world (session.programScope program global)) := by
  rw [World.run] at ends
  rw [programScope]
  split at ends
  next error parsed =>
    cases ends
    rw [parsed]
    have same := keeps_changes wellFormed .refl wellFormed.operations
    simpa [ended, Except.toOption] using same
  next e parsed =>
    have older : ∀ p, some global = some p → p < session.size := by
      intro p same
      cases same
      exact there
    obtain ⟨inside, made⟩ := keeps_newScope wellFormed older
    have new : session.size < (session.world.store.newScope (some global)).2.scopes.size := by
      rw [Store.size_newScope]
      exact Nat.lt_succ_self _
    obtain ⟨ended, grown⟩ := keeps_eval inside new ends
    rw [parsed]
    rw [Session.ended, List.append_nil] at ended
    exact ⟨ended, made.trans grown⟩

theorem keeps_newRoot (wellFormed : session.WellFormed) :
    session.Keeps
      { session with
        world := session.world.newRoot.2
        made := session.made ++ [(session.world.newRoot.1, none)] } := by
  have older : ∀ p, (none : Option ScopeId) = some p → p < session.size := by
    intro p impossible
    cases impossible
  exact keeps_newScope wellFormed older

/-- A global scope is made and then filled. -/
theorem keeps_newGlobal (wellFormed : session.WellFormed) :
    session.Keeps
      { session with
        world := session.world.newGlobal.2
        made := session.made ++ [(session.world.newGlobal.1, none)] } := by
  obtain ⟨inside, made⟩ := keeps_newRoot wellFormed
  have installs : Changes .existing (fun _ => True) session.world.newRoot.2.store
      session.world.newGlobal.2.store := World.changes_installPrelude trivial
  have brings : ∀ operation ∈ session.world.newGlobal.2.operations,
      operation.Brings fun c => c.scope < session.world.newRoot.2.store.scopes.size :=
    World.brings_installPrelude inside.operations
  obtain ⟨installed, grown⟩ := keeps_changes inside installs brings
  exact ⟨installed, made.trans grown⟩

theorem Step.keeps (step : Step session next) (wellFormed : session.WellFormed) :
    session.Keeps next := by
  cases step with
  | newRoot => exact keeps_newRoot wellFormed
  | newGlobal => exact keeps_newGlobal wellFormed
  | newChild there =>
    apply keeps_newScope wellFormed
    intro p same
    cases same
    exact there
  | @define scope name v there value =>
    have binds : Change .existing (fun _ => True) session.world.store
        (session.world.define scope name v).store :=
      .define trivial (captures_of_atHand wellFormed value)
    exact keeps_changes wellFormed (.single binds) wellFormed.operations
  | @set scope name v world there value rebinds =>
    rw [World.set] at rebinds
    split at rebinds
    next store found =>
      cases rebinds
      have change : Change .existing (fun _ => True) session.world.store store :=
        @Change.set .existing _ _ _ _ _ _ [] there (captures_of_atHand wellFormed value) found
      exact keeps_changes wellFormed (.single change) wellFormed.operations
    next => cases rebinds
  | setFails => exact ⟨wellFormed, .refl _ _⟩
  | register there brings =>
    exact keeps_changes wellFormed (World.changes_register trivial)
      (World.forall_register wellFormed.operations brings)
  | run there ends => exact keeps_program wellFormed there ends
  | eval there ends => exact keeps_eval wellFormed there ends
  | applyRule there ends =>
    exact keeps_run wellFormed (rule_obeys (eval_obeys _ _) trivial wellFormed.ready there) ends
      (List.forall_mem_nil _)
  | call function values ends => exact keeps_call wellFormed function values ends

theorem start_wellFormed : WellFormed {} where
  store :=
    { ordered := fun _ _ goes => by cases goes
      bound := fun c bound => by
        obtain ⟨scope, name, v, found, -⟩ := bound
        rw [Store.bindings_of_size_le (Nat.zero_le _)] at found
        cases found
      printed := fun v member => by cases Array.mem_toList_iff.mpr member }
  saved := List.forall_mem_nil _
  operations := fun operation member => by cases Array.mem_toList_iff.mpr member
  made := List.forall_mem_nil _

theorem Reaches.keeps (reached : Reaches session next) (wellFormed : session.WellFormed) :
    session.Keeps next := by
  induction reached with
  | refl => exact ⟨wellFormed, .refl _ _⟩
  | tail _ step ih =>
    -- a step keeps parents only in a session in order, so both are carried along together
    obtain ⟨ordered, grown⟩ := ih
    obtain ⟨kept, more⟩ := step.keeps ordered
    exact ⟨kept, grown.trans more⟩

/-- Whatever a host does and in whatever order: scopes have the parents that they were made with, all
of them older, closures capture scopes that exist, and lookups end, after at most as many steps as
there are scopes. For the frames that calls make in the middle of an evaluation the parents are stated
for runs from any store. -/
theorem session_wellFormed {session : Session} (reached : Reaches {} session) :
    session.WellFormed ∧ (∀ v, session.AtHand v → v.Captures session.size) ∧
      (∀ later, Reaches session later → ∀ s < session.size,
        later.world.store.parent? s = session.world.store.parent? s) ∧
      (∀ operations fuel e scope store result after,
        eval operations fuel e scope store = some (result, after) →
          ∀ s < store.scopes.size, after.parent? s = store.parent? s) ∧
      (∀ operations fuel c args store result after, c.params.length = args.length →
        call operations (eval operations fuel) (.closure c) args store = some (result, after) →
          after.parent? store.scopes.size = some c.scope) ∧
      ∀ s < session.size, session.world.store.LookupsEnd s := by
  have wellFormed := (Reaches.keeps reached start_wellFormed).1
  refine ⟨wellFormed, ?_, ?_, ?_, ?_, ?_⟩
  · intro v atHand
    exact captures_of_atHand wellFormed atHand
  · intro later further
    exact (Reaches.keeps further wellFormed).2.parents
  · intro operations fuel e scope store result after ends
    exact (eval_extends ends).parents
  · intro operations fuel c args store result after count ends
    exact (call_parent count ends).2
  · intro s there
    exact Store.lookupsEnd wellFormed.store.ordered there

/-- A host makes a global scope and evaluates a function there. -/
theorem function_session :
    ∃ session, Reaches {} session ∧ session.saved.length = 1 ∧ session.WellFormed := by
  have computed : ((World.newGlobal {}).2.eval 2 (.call (.word "fun") [.word "x"]) 0).any
      (fun ended => ended.1.toOption.toList.length == 1) = true := by decide +kernel
  rw [Option.any_eq_true] at computed
  obtain ⟨⟨result, world⟩, ends, yields⟩ := computed
  have global : Reaches {} ⟨(World.newGlobal {}).2, [], [(0, none)]⟩ := .single .newGlobal
  have there : 0 < (World.newGlobal {}).2.store.scopes.size := by decide +kernel
  have reached := global.tail (.eval there ends)
  exact ⟨_, reached, beq_iff_eq.mp yields, (session_wellFormed reached).1⟩

end Session

end CallScript
