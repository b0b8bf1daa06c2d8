import CallScript.Proofs.Eval.Simulation

/-! # Closures and their serials

Every closure that evaluation makes gets the number of those made before it. A `Log` holds all closures
made so far in the order of their making, and the serial of a closure is its place there. Evaluation
extends the log and gets hold of no closure that is not in it, so among the closures that a host can get
hold of, in any history of its dealings with a world, the serial tells one from another
(`History.eq_of_serial`). -/

namespace CallScript

/-! ## Logs -/

/-- The closures made so far, in the order of their making. -/
structure Log where
  made : List Closure

namespace Log

instance : Preorder Log where
  le earlier later := earlier.made <+: later.made
  le_refl _ := List.prefix_rfl
  le_trans _ _ _ := List.IsPrefix.trans

/-- The closure has been made, and its serial tells when. -/
def Knows (log : Log) (c : Closure) : Prop :=
  log.made[c.serial]? = some c

variable {log later : Log} {c d : Closure}

theorem Knows.eq_of_serial (hc : log.Knows c) (hd : log.Knows d) (same : c.serial = d.serial) :
    c = d := by
  rw [Knows, same] at hc
  exact Option.some.inj (hc.symm.trans hd)

theorem Knows.serial_lt (h : log.Knows c) : c.serial < log.made.length :=
  (List.getElem?_eq_some_iff.mp h).1

theorem Knows.mono (more : log ≤ later) (h : log.Knows c) : later.Knows c := by
  obtain ⟨rest, same⟩ := more
  rw [Knows, ← same, List.getElem?_append_left h.serial_lt]
  exact h

/-- The log once a closure has been made. -/
def push (log : Log) (c : Closure) : Log :=
  ⟨log.made ++ [c]⟩

theorem le_push (log : Log) (c : Closure) : log ≤ log.push c :=
  List.prefix_append _ _

theorem knows_push (new : c.serial = log.made.length) : (log.push c).Knows c := by
  rw [Knows, push, new, List.getElem?_concat_length]

end Log

/-- A log of all closures that the store has counted, among them those that it binds or has printed. -/
structure Store.Logged (store : Store) (log : Log) : Prop where
  count : store.closures = log.made.length
  bound : ∀ c, store.Binds c → log.Knows c
  printed : ∀ v ∈ store.printed.toList, ∀ c, v.Contains c → log.Knows c

namespace Store.Logged

variable {store : Store} {log : Log} {scope : ScopeId} {name : String} {v : Value}

theorem newScope (h : store.Logged log) (parent : Option ScopeId) :
    (store.newScope parent).2.Logged log where
  count := h.count
  bound c bound := h.bound c (Store.binds_newScope bound)
  printed := h.printed

theorem define (h : store.Logged log) (known : ∀ c, v.Contains c → log.Knows c) :
    (store.define scope name v).Logged log where
  count := h.count
  bound c bound := by
    rcases Store.binds_define bound with old | inside
    · exact h.bound c old
    · exact known c inside
  printed := h.printed

theorem defineAll (h : store.Logged log) {entries : List (String × Value)}
    (known : ∀ entry ∈ entries, ∀ c, entry.2.Contains c → log.Knows c) :
    (entries.foldl (fun next entry => next.define scope entry.1 entry.2) store).Logged log := by
  induction entries generalizing store with
  | nil => exact h
  | cons entry entries ih =>
    obtain ⟨first, others⟩ := List.forall_mem_cons.mp known
    exact ih (h.define first) others

theorem withFrame (h : store.Logged log) {c : Closure} {args : List Value}
    (known : ∀ a ∈ args, ∀ c, a.Contains c → log.Knows c) :
    (store.withFrame c args).Logged log := by
  rw [Store.withFrame]
  apply (h.newScope (some c.scope)).defineAll
  intro entry member
  exact known _ (List.of_mem_zip member).2

theorem print (h : store.Logged log) {values : List Value}
    (known : ∀ v ∈ values, ∀ c, v.Contains c → log.Knows c) : (store.print values).Logged log where
  count := h.count
  bound := h.bound
  printed v member := by
    rw [Store.toList_printed_print, List.mem_append] at member
    rcases member with before | now
    · exact h.printed v before
    · exact known v now

/-- The closure that is made next gets a place at the end of the log. -/
theorem newClosure (h : store.Logged log) (c : Closure) :
    { store with closures := store.closures + 1 }.Logged (log.push c) where
  count := by simp [Log.push, h.count]
  bound d bound := (h.bound d bound).mono (log.le_push c)
  printed v member d inside := (h.printed v member d inside).mono (log.le_push c)

end Store.Logged

/-! ## Evaluation -/

/-- Values whose closures are in the log are related to themselves, and only they are. -/
theorem alike_self_iff {log : Log} {vs : List Value} :
    List.Forall₂ (Value.Alike fun c d => c = d ∧ log.Knows c) vs vs ↔
      ∀ v ∈ vs, ∀ c, v.Contains c → log.Knows c := by
  constructor
  · intro alikes v member
    exact (List.forall₂_same.mp alikes v member).closures fun _ _ known => known.2
  · intro known
    exact Value.alike_self_all fun v member c inside => ⟨rfl, known v member c inside⟩

/-- The evaluations of a tree on a store, next to themselves, with the log that they extend. -/
def logging (operations : Operations)
    (brings : ∀ operation ∈ operations, operation.Brings fun _ => False) :
    Simulation Log operations where
  trees _ _ e e' := e = e'
  closures log c d := c = d ∧ log.Knows c
  stores log store store' := store = store' ∧ store.Logged log
  trees_mono _ h := h
  closures_mono more h := ⟨h.1, h.2.mono more⟩
  replies log id := by
    have known := (Operations.brings_get brings id).mono fun c (impossible : False) =>
      (impossible.elim : log.Knows c)
    exact known.respects
  of_literal h := h.symm
  of_word {_ _ x _} h := ⟨x, h.symm⟩
  of_call {_ _ f _ as} h := ⟨f, as, h.symm, rfl, rfl⟩
  operator h _ := by
    cases h
    rfl
  args h _ := by
    cases h
    exact List.forall₂_same.mpr fun _ _ => rfl
  size h := by rw [h.1]
  lookup := by
    rintro log s x _ store _ ⟨rfl, logged⟩ ⟨⟩
    refine ⟨?_, fun _ => rfl⟩
    cases found : store.get? s x with
    | none => exact .none
    | some v =>
      apply Option.Rel.some
      apply Value.alike_self
      intro c inside
      obtain ⟨owner, bound⟩ := Store.bound_of_get? found
      exact ⟨rfl, logged.bound c ⟨owner, x, v, bound, inside⟩⟩
  define := by
    rintro log s x _ v _ store _ ⟨rfl, logged⟩ ⟨⟩ alike
    cases alike.eq_of_closures fun _ _ known => known.1
    exact ⟨rfl, logged.define (alike.closures fun _ _ known => known.2)⟩
  set := by
    rintro log s x _ v _ store _ ⟨rfl, logged⟩ ⟨⟩ alike
    cases alike.eq_of_closures fun _ _ known => known.1
    refine ⟨?_, fun _ => rfl⟩
    cases rebinds : store.set? s x v with
    | none => exact .none
    | some next =>
      obtain ⟨owner, -, rfl⟩ := Store.define_of_set? rebinds
      exact .some ⟨rfl, logged.define (alike.closures fun _ _ known => known.2)⟩
  print := by
    rintro log vs ws store _ ⟨rfl, logged⟩ alikes
    obtain rfl := Value.Alike.eq_all_of_closures (fun _ _ known => known.1) alikes
    exact ⟨rfl, logged.print (alike_self_iff.mp alikes)⟩
  function := by
    rintro log s f _ a _ as _ store _ ⟨⟩ _ ⟨rfl, logged⟩
    cases paramNames (a :: as).dropLast with
    | error e => exact .error e
    | ok params =>
      let made : Closure :=
        ⟨store.closures, params, (a :: as).getLast (List.cons_ne_nil _ _), s⟩
      have new : made.serial = log.made.length := logged.count
      exact .ok ⟨log.push made, log.le_push made, ⟨rfl, log.knows_push new⟩, rfl,
        logged.newClosure made⟩
  params h := by rw [h.1]
  frame := by
    rintro log c _ args args' store _ ⟨rfl, logged⟩ ⟨rfl, -⟩ _ alikes
    obtain rfl := Value.Alike.eq_all_of_closures (fun _ _ known => known.1) alikes
    exact ⟨log, le_rfl, rfl, rfl, logged.withFrame (alike_self_iff.mp alikes)⟩

/-! ## Histories -/

namespace World

variable {world after : World} {values : List Value} {log : Log} {c d : Closure} {scope : ScopeId}
  {result : Except Error Value}

/-- The closure is found in what the host has been given, in what is bound or in what was printed. -/
def Has (world : World) (values : List Value) (c : Closure) : Prop :=
  (∃ v ∈ values, v.Contains c) ∨ world.store.Binds c ∨ ∃ v ∈ world.store.printed, v.Contains c

/-- What has become of a new world, and the values that its runs have yielded. The host hands in any
values, but no closures that it does not have, and its operations bring none. -/
inductive History : World → List Value → Prop where
  | new : History {} []
  | newRoot {world : World} {values : List Value} (before : History world values) :
      History world.newRoot.2 values
  | newGlobal {world : World} {values : List Value} (before : History world values) :
      History world.newGlobal.2 values
  | newChild {world : World} {values : List Value} (before : History world values)
      (parent : ScopeId) : History (world.newChild parent).2 values
  | define {world : World} {values : List Value} (before : History world values) (scope : ScopeId)
      (name : String) {v : Value} (has : ∀ c, v.Contains c → world.Has values c) :
      History (world.define scope name v) values
  | set {world after : World} {values : List Value} {scope : ScopeId} {name : String} {v : Value}
      (before : History world values) (has : ∀ c, v.Contains c → world.Has values c)
      (rebinds : world.set scope name v = .ok after) : History after values
  | register {world : World} {values : List Value} (before : History world values)
      (scope : ScopeId) (name : String) {operation : Operation}
      (brings : operation.Brings fun _ => False) :
      History (world.register scope name operation) values
  | eval {world after : World} {values : List Value} {fuel : Nat} {e : Expr} {scope : ScopeId}
      {result : Except Error Value} (before : History world values)
      (ends : world.eval fuel e scope = some (result, after)) :
      History after (values ++ result.toOption.toList)
  | applyRule {world after : World} {values : List Value} {fuel : Nat} {form : SpecialForm}
      {args : List Expr} {scope : ScopeId} {result : Except Error Value}
      (before : History world values)
      (ends : world.applyRule fuel form args scope = some (result, after)) :
      History after (values ++ result.toOption.toList)
  | call {world after : World} {values : List Value} {fuel : Nat} {f : Value} {args : List Value}
      {result : Except Error Value} (before : History world values)
      (has : ∀ v ∈ f :: args, ∀ c, v.Contains c → world.Has values c)
      (ends : world.call fuel f args = some (result, after)) :
      History after (values ++ result.toOption.toList)

/-- Setting a name is defining it in some scope. -/
theorem exists_define_of_set {name : String} {v : Value}
    (rebinds : world.set scope name v = .ok after) :
    ∃ owner, after = world.define owner name v := by
  rw [set] at rebinds
  split at rebinds
  next store set =>
    cases rebinds
    obtain ⟨owner, -, rfl⟩ := Store.define_of_set? set
    exact ⟨owner, rfl⟩
  next => cases rebinds

/-- All closures that the host has are in the log, and the operations bring none. -/
structure Logged (world : World) (values : List Value) (log : Log) : Prop where
  store : world.store.Logged log
  values : ∀ v ∈ values, ∀ c, v.Contains c → log.Knows c
  operations : ∀ operation ∈ world.operations, operation.Brings fun _ => False

namespace Logged

theorem knows (h : world.Logged values log) (has : world.Has values c) : log.Knows c := by
  rcases has with ⟨v, member, inside⟩ | bound | ⟨v, member, inside⟩
  · exact h.values v member c inside
  · exact h.store.bound c bound
  · exact h.store.printed v (Array.mem_toList_iff.mpr member) c inside

theorem newScope (h : world.Logged values log) (parent : Option ScopeId) :
    { world with store := (world.store.newScope parent).2 }.Logged values log where
  store := h.store.newScope parent
  values := h.values
  operations := h.operations

theorem define (h : world.Logged values log) (scope : ScopeId) (name : String) {v : Value}
    (known : ∀ c, v.Contains c → log.Knows c) : (world.define scope name v).Logged values log where
  store := h.store.define known
  values := h.values
  operations := h.operations

theorem register (h : world.Logged values log) (scope : ScopeId) (name : String)
    {operation : Operation} (brings : operation.Brings fun _ => False) :
    (world.register scope name operation).Logged values log where
  store := h.store.define fun c inside => by cases inside
  values := h.values
  operations := forall_register h.operations brings

theorem registerAll (h : world.Logged values log) (scope : ScopeId)
    {operations : List (String × Operation)}
    (brings : ∀ entry ∈ operations, entry.2.Brings fun _ => False) :
    (world.registerAll scope operations).Logged values log := by
  induction operations generalizing world with
  | nil => exact h
  | cons entry operations ih =>
    obtain ⟨first, others⟩ := List.forall_mem_cons.mp brings
    exact ih (h.register scope entry.1 first) others

theorem installPrelude (h : world.Logged values log) (scope : ScopeId) :
    (world.installPrelude scope).Logged values log := by
  have truth := h.define scope "true" (v := .boolean true) fun c inside => by cases inside
  have both := truth.define scope "false" (v := .boolean false) fun c inside => by cases inside
  exact both.registerAll scope Prelude.forwards_prelude

/-- A run that goes in step with itself extends the log. -/
theorem run (h : world.Logged values log) {x : Run Value}
    (inStep : (logging world.operations h.operations).InStep
      (logging world.operations h.operations).values log world.store world.store x x)
    (ends : world.runOn x = some (result, after)) :
    ∃ later, after.Logged (values ++ result.toOption.toList) later := by
  obtain ⟨ends, operations⟩ := runOn_eq_some_iff.mp ends
  rw [Simulation.InStep, ends] at inStep
  cases inStep with
  | some both =>
    obtain ⟨later, more, agree, -, logged⟩ := both
    refine ⟨later, logged, ?_, by rw [operations]; exact h.operations⟩
    intro v member
    rcases List.mem_append.mp member with old | new
    · intro c inside
      exact (h.values v old c inside).mono more
    · cases agree with
      | ok alike =>
        rw [List.mem_singleton.mp new]
        exact alike.closures fun _ _ known => known.2
      | error => cases new

end Logged

/-- The rule of a special form goes in step with itself. -/
theorem inStep_rule_logging {operations : Operations}
    {brings : ∀ operation ∈ operations, operation.Brings fun _ => False} (fuel : Nat)
    (form : SpecialForm) (args : List Expr) {store : Store} (logged : store.Logged log) :
    (logging operations brings).InStep (logging operations brings).values log store store
      (form.rule (CallScript.eval operations fuel) fuel args scope)
      (form.rule (CallScript.eval operations fuel) fuel args scope) := by
  let S := logging operations brings
  have stores : S.stores log store store := ⟨rfl, logged⟩
  by_cases made : form = .function
  · subst made
    let called : Expr := .call (.word SpecialForm.function.name) args
    have trees : S.trees log scope called called := rfl
    exact Simulation.inStep_function trees rfl rfl stores
  · exact Simulation.inStep_rule (S := S) (eval_inStep S fuel) made
      (List.forall₂_same.mpr fun _ _ => rfl) stores

theorem History.exists_log (history : History world values) : ∃ log, world.Logged values log := by
  induction history with
  | new =>
    have nothing : ∀ c, ({} : Store).Binds c → Log.Knows ⟨[]⟩ c := by
      intro c bound
      obtain ⟨scope, name, v, found, -⟩ := bound
      rw [Store.bindings_of_size_le (Nat.zero_le _)] at found
      cases found
    refine ⟨⟨[]⟩, ⟨rfl, nothing, List.forall_mem_nil _⟩, List.forall_mem_nil _, ?_⟩
    intro operation member
    cases Array.mem_toList_iff.mpr member
  | newRoot before ih =>
    obtain ⟨log, logged⟩ := ih
    exact ⟨log, logged.newScope none⟩
  | newGlobal before ih =>
    obtain ⟨log, logged⟩ := ih
    exact ⟨log, (logged.newScope none).installPrelude _⟩
  | newChild before parent ih =>
    obtain ⟨log, logged⟩ := ih
    exact ⟨log, logged.newScope (some parent)⟩
  | define before scope name has ih =>
    obtain ⟨log, logged⟩ := ih
    exact ⟨log, logged.define scope name fun c inside => logged.knows (has c inside)⟩
  | set before has rebinds ih =>
    obtain ⟨log, logged⟩ := ih
    obtain ⟨owner, rfl⟩ := exists_define_of_set rebinds
    exact ⟨log, logged.define owner _ fun c inside => logged.knows (has c inside)⟩
  | register before scope name brings ih =>
    obtain ⟨log, logged⟩ := ih
    exact ⟨log, logged.register scope name brings⟩
  | eval before ends ih =>
    obtain ⟨log, logged⟩ := ih
    exact logged.run (eval_inStep _ _ rfl ⟨rfl, logged.store⟩) ends
  | applyRule before ends ih =>
    obtain ⟨log, logged⟩ := ih
    exact logged.run (inStep_rule_logging _ _ _ logged.store) ends
  | call before has ends ih =>
    obtain ⟨log, logged⟩ := ih
    have alikes := alike_self_iff.mpr fun v member c inside => logged.knows (has v member c inside)
    cases alikes with
    | cons function args =>
      exact logged.run (Simulation.inStep_call (eval_inStep _ _) function args ⟨rfl, logged.store⟩)
        ends

/-- Of the closures that a host has, no two have the same serial. -/
theorem History.eq_of_serial (history : History world values) (hc : world.Has values c)
    (hd : world.Has values d) (same : c.serial = d.serial) : c = d := by
  obtain ⟨log, logged⟩ := history.exists_log
  exact (logged.knows hc).eq_of_serial (logged.knows hd) same

/-- The closure that is made next is another one than those that the host has. -/
theorem History.serial_lt (history : History world values) (has : world.Has values c) :
    c.serial < world.store.closures := by
  obtain ⟨log, logged⟩ := history.exists_log
  rw [logged.store.count]
  exact (logged.knows has).serial_lt

end World

end CallScript
