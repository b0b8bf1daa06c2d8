import CallScript.Proofs.Eval.Change

/-! # Evaluation obeys every discipline

Whatever is allowed to be evaluated changes the store by allowed operations only, and its value is
good, whether it ends with a value or an error (`eval_obeys`). Each rule of evaluation has one lemma,
and the evaluator that it hands the parts of a tree to is only known to be `Obedient`. -/

namespace CallScript

variable {D : Discipline} {own : ScopeId → Prop} {store : Store} {scope : ScopeId}
  {operations : Operations} {ev : Evaluator}

/-! ## Runs -/

/-- A run that starts on a store makes allowed changes, and what it yields is good. -/
def Run.Obeys {α : Type} (D : Discipline) (own : ScopeId → Prop) (good : Nat → α → Prop)
    (store : Store) (x : Run α) : Prop :=
  ∀ result after, x store = some (result, after) →
    Changes D own store after ∧ ∀ a, result = .ok a → good after.scopes.size a

/-- Runs that yield nothing of interest. -/
def Any {α : Type} (_scopes : Nat) (_ : α) : Prop := True

namespace Run

variable {α β : Type} {good : Nat → α → Prop} {good' : Nat → β → Prop} {x : Run α} {f : α → Run β}

theorem obeys_pure {a : α} (h : good store.scopes.size a) : Obeys D own good store (pure a) := by
  intro result after ends
  cases ends
  refine ⟨.refl, ?_⟩
  intro b same
  cases same
  exact h

theorem obeys_fail (error : Error) : Obeys D own good store (.fail error) := by
  intro result after ends
  cases ends
  refine ⟨.refl, ?_⟩
  intro a impossible
  cases impossible

theorem obeys_ofExcept (result : Except Error α) : Obeys D own Any store (.ofExcept result) := by
  intro result after ends
  cases ends
  exact ⟨.refl, fun _ _ => trivial⟩

theorem obeys_bind (first : Obeys D own good store x)
    (next : ∀ a after, Changes D own store after → good after.scopes.size a →
      Obeys D own good' after (f a)) : Obeys D own good' store (x >>= f) := by
  intro result last ends
  change Run.bind x f store = some (result, last) at ends
  rw [Run.bind] at ends
  split at ends
  next a after found =>
    obtain ⟨before, value⟩ := first _ _ found
    obtain ⟨behind, values⟩ := next a after before (value a rfl) _ _ ends
    exact ⟨before.trans behind, values⟩
  next e after found =>
    cases ends
    refine ⟨(first _ _ found).1, ?_⟩
    intro a impossible
    cases impossible
  next => cases ends

/-- A run that changes the store once and yields a good value. -/
theorem obeys_update {g : Store → α × Store} (change : Change D own store (g store).2)
    (value : good (g store).2.scopes.size (g store).1) : Obeys D own good store (.update g) := by
  intro result after ends
  cases ends
  refine ⟨.single change, ?_⟩
  intro a same
  cases same
  exact value

theorem obeys_lookup (values : D.Holds store) (name : String) :
    Obeys D own D.Good store (.lookup scope name) := by
  intro result after ends
  rw [lookup] at ends
  split at ends
  next v found =>
    cases ends
    refine ⟨.refl, ?_⟩
    intro w same
    cases same
    exact values.of_get? found
  next => exact obeys_fail _ result after ends

theorem obeys_set {name : String} {v : Value} {args : List Expr}
    (allowed : D.allows store.scopes.size scope (.call (.word SpecialForm.set.name) args))
    (good : D.Good store.scopes.size v) : Obeys D own Any store (.set scope name v) := by
  intro result after ends
  rw [set] at ends
  split at ends
  next next rebinds =>
    cases ends
    exact ⟨.single (.set allowed good rebinds), fun _ _ => trivial⟩
  next => exact obeys_fail _ result after ends

theorem changes_defineAll {bindings : List (String × Value)} (mine : own scope)
    (good : ∀ entry ∈ bindings, D.Good store.scopes.size entry.2) :
    Changes D own store
      (bindings.foldl (fun store entry => store.define scope entry.1 entry.2) store) := by
  induction bindings generalizing store with
  | nil => exact .refl
  | cons entry bindings ih =>
    have first : Change D own store (store.define scope entry.1 entry.2) :=
      .define mine (good entry List.mem_cons_self)
    refine .head first (ih ?_)
    intro other later
    rw [Store.size_define]
    exact good other (List.mem_cons_of_mem _ later)

theorem obeys_defineAll {bindings : List (String × Value)} (mine : own scope)
    (good : ∀ entry ∈ bindings, D.Good store.scopes.size entry.2) :
    Obeys D own Any store (.defineAll scope bindings) := by
  intro result after ends
  cases ends
  exact ⟨changes_defineAll mine good, fun _ _ => trivial⟩

theorem obeys_reply {r : Reply} (h : ∀ c, r.Contains c → D.Admits store.scopes.size c) :
    Obeys D own D.Good store (.reply r) := by
  intro result after ends
  cases ends
  refine ⟨.single (.print fun v member c inside => h c (.inl ⟨v, member, inside⟩)), ?_⟩
  intro v same c inside
  exact h c (.inr ⟨v, same, inside⟩)

end Run

/-! ## What an evaluator is given -/

/-- The store and the operations have no closures but admitted ones, and scopes yet to be made may be
written to. -/
structure Ready (D : Discipline) (operations : Operations) (own : ScopeId → Prop) (store : Store) :
    Prop where
  values : D.Holds store
  replies : ∀ id, (operations.get id).Brings (D.Admits store.scopes.size)
  fresh : ∀ s, store.scopes.size ≤ s → own s

theorem Ready.after {after : Store} (ready : Ready D operations own store)
    (changes : Changes D own store after) : Ready D operations own after where
  values := changes.holds ready.values
  replies id := (ready.replies id).mono fun _ => D.mono changes.extends.size
  fresh s hs := ready.fresh s (Nat.le_trans changes.extends.size hs)

/-- An evaluator that obeys wherever it is allowed to evaluate. -/
def Obedient (D : Discipline) (operations : Operations) (ev : Evaluator) : Prop :=
  ∀ {own store scope e}, Ready D operations own store → own scope →
    D.allows store.scopes.size scope e → (ev e scope).Obeys D own D.Good store

/-! ## Calls -/

theorem evalAll_obeys (obedient : Obedient D operations ev) (mine : own scope) {es : List Expr}
    (ready : Ready D operations own store)
    (allowed : ∀ e ∈ es, D.allows store.scopes.size scope e) :
    (evalAll ev scope es).Obeys D own (fun n vs => ∀ v ∈ vs, D.Good n v) store := by
  induction es generalizing store with
  | nil => exact Run.obeys_pure (List.forall_mem_nil _)
  | cons e es ih =>
    have first := obedient ready mine (allowed e List.mem_cons_self)
    apply Run.obeys_bind first
    intro v after changes good
    have more := changes.extends.size
    have others := ih (ready.after changes) fun e later =>
      D.mono more (allowed e (List.mem_cons_of_mem _ later))
    apply Run.obeys_bind others
    intro vs last changes' goods
    apply Run.obeys_pure
    exact List.forall_mem_cons.mpr ⟨good.mono changes'.extends.size, goods⟩

theorem call_obeys (obedient : Obedient D operations ev) {f : Value} {args : List Value}
    (ready : Ready D operations own store) (function : D.Good store.scopes.size f)
    (good : ∀ v ∈ args, D.Good store.scopes.size v) :
    (call operations ev f args).Obeys D own D.Good store := by
  cases f with
  | builtin name id =>
    apply Run.obeys_reply
    intro c found
    rcases ready.replies id args c found with made | ⟨v, member, inside⟩
    · exact made
    · exact good v member c inside
  | closure c =>
    have admitted := Discipline.good_closure_iff.mp function
    rw [call]
    split
    next =>
      have make : (Run.newScope (some c.scope)).Obeys D own
          (fun n frame => frame = store.scopes.size ∧ n = frame + 1) store :=
        Run.obeys_update (.newScope admitted) ⟨rfl, Store.size_newScope⟩
      apply Run.obeys_bind make
      intro frame made changes ⟨frameNew, size⟩
      -- the frame is new, so its names may be bound although it is not the scope of the caller
      have mine : own frame := ready.fresh frame (Nat.le_of_eq frameNew.symm)
      have params : ∀ entry ∈ c.params.zip args, D.Good made.scopes.size entry.2 := by
        intro entry member
        exact (good _ (List.of_mem_zip member).2).mono changes.extends.size
      apply Run.obeys_bind (Run.obeys_defineAll mine params)
      intro _ bound changes' _
      have body : D.allows made.scopes.size frame c.body := by
        rw [size, frameNew]
        exact D.frame admitted
      exact obedient ((ready.after changes).after changes') mine
        (D.mono changes'.extends.size body)
    next => exact Run.obeys_fail _
  | number | string | boolean | array => exact Run.obeys_fail _

/-! ## Special forms -/

/-- A loop obeys if its condition and its body do, whatever the rounds before have changed. -/
theorem loop_obeys {condition body : Run Value}
    (parts : ∀ after, Changes D own store after →
      condition.Obeys D own D.Good after ∧ body.Obeys D own D.Good after) (rounds : Nat) :
    (loop condition body rounds).Obeys D own D.Good store := by
  -- the rounds start from ever later stores, so what the parts do is known of all of them
  induction rounds generalizing store with
  | zero =>
    intro result after ends
    cases ends
  | succ rounds ih =>
    intro result last ends
    obtain ⟨test, -⟩ := parts store .refl
    rw [loop] at ends
    dsimp only at ends
    split at ends
    next => cases ends
    next e next found =>
      cases ends
      exact ⟨(test _ _ found).1, fun _ impossible => by cases impossible⟩
    next v next found =>
      obtain ⟨tested, -⟩ := test _ _ found
      split at ends
      next =>
        cases ends
        refine ⟨tested, ?_⟩
        intro w same
        cases same
        exact Discipline.good_boolean false
      next =>
        obtain ⟨-, round⟩ := parts next tested
        split at ends
        next => cases ends
        next e last found =>
          cases ends
          exact ⟨tested.trans (round _ _ found).1, fun _ impossible => by cases impossible⟩
        next w last found =>
          have turned := tested.trans (round _ _ found).1
          have again := ih fun after changes => parts after (turned.trans changes)
          obtain ⟨changes, good⟩ := again _ _ ends
          exact ⟨turned.trans changes, good⟩

theorem evalSequence_obeys (obedient : Obedient D operations ev) (mine : own scope)
    {es : List Expr} {value : Value} (ready : Ready D operations own store)
    (good : D.Good store.scopes.size value)
    (allowed : ∀ e ∈ es, D.allows store.scopes.size scope e) :
    (evalSequence ev scope value es).Obeys D own D.Good store := by
  induction es generalizing store value with
  | nil => exact Run.obeys_pure good
  | cons e es ih =>
    apply Run.obeys_bind (obedient ready mine (allowed e List.mem_cons_self))
    intro v after changes good
    apply ih (ready.after changes) good
    intro e later
    exact D.mono changes.extends.size (allowed e (List.mem_cons_of_mem _ later))

theorem rule_obeys (obedient : Obedient D operations ev) (mine : own scope) {rounds : Nat}
    {form : SpecialForm} {args : List Expr} (ready : Ready D operations own store)
    (allowed : D.allows store.scopes.size scope (.call (.word form.name) args)) :
    (form.rule ev rounds args scope).Obeys D own D.Good store := by
  have parts := D.args allowed
  fun_cases SpecialForm.rule ev rounds form args scope with
  | case1 condition yes no =>
    apply Run.obeys_bind (obedient ready mine (parts condition (by simp)))
    intro v after changes _
    have more := changes.extends.size
    split
    next => exact obedient (ready.after changes) mine (D.mono more (parts no (by simp)))
    next => exact obedient (ready.after changes) mine (D.mono more (parts yes (by simp)))
  | case3 condition body =>
    apply loop_obeys
    intro after changes
    have more := changes.extends.size
    exact ⟨obedient (ready.after changes) mine (D.mono more (parts condition (by simp))),
      obedient (ready.after changes) mine (D.mono more (parts body (by simp)))⟩
  | case5 args => exact evalSequence_obeys obedient mine ready (Discipline.good_boolean false) parts
  | case6 name e =>
    apply Run.obeys_bind (obedient ready mine (parts e (by simp)))
    intro v after changes good
    have binds : (Run.define scope name v).Obeys D own Any after :=
      Run.obeys_update (.define mine good) trivial
    apply Run.obeys_bind binds
    intro _ last changes' _
    exact Run.obeys_pure (good.mono changes'.extends.size)
  | case8 name e =>
    apply Run.obeys_bind (obedient ready mine (parts e (by simp)))
    intro v after changes good
    apply Run.obeys_bind (Run.obeys_set (D.mono changes.extends.size allowed) good)
    intro _ last changes' _
    exact Run.obeys_pure (good.mono changes'.extends.size)
  | case10 first rest =>
    apply Run.obeys_bind (Run.obeys_ofExcept _)
    intro params after changes _
    have body := parts _ (List.getLast_mem (List.cons_ne_nil first rest))
    refine Run.obeys_update .newClosure (Discipline.good_closure_iff.mpr ?_)
    exact D.mono changes.extends.size body
  | case2 | case4 | case7 | case9 | case11 => exact Run.obeys_fail _

/-! ## Trees -/

theorem find?_eq_some {word : String} {form : SpecialForm}
    (found : SpecialForm.find? word = some form) : form.name = word := by
  have named := List.find?_some found
  exact beq_iff_eq.mp named

theorem evalNode_obeys (obedient : Obedient D operations ev) (rounds : Nat) :
    Obedient D operations (evalNode operations ev rounds) := by
  intro own store scope e ready mine allowed
  cases e with
  | literal l => exact Run.obeys_pure (Discipline.good_literal l)
  | word name => exact Run.obeys_lookup ready.values name
  | call operator args =>
    rw [evalNode]
    split
    next form found =>
      -- a special form is only ever reached through the word that names it
      obtain ⟨word, called, special⟩ := Option.bind_eq_some_iff.mp found
      obtain rfl : operator = .word form.name := by
        cases operator with
        | word name =>
          cases called
          rw [find?_eq_some special]
        | literal | call => cases called
      rw [SpecialForm.apply]
      split
      next => exact rule_obeys obedient mine ready allowed
      next => exact Run.obeys_fail _
    next =>
      apply Run.obeys_bind (obedient ready mine (D.operator allowed))
      intro f after changes function
      have ready' := ready.after changes
      have more := changes.extends.size
      apply Run.obeys_bind (evalAll_obeys obedient mine ready' fun e member =>
        D.mono more (D.args allowed e member))
      intro vs last changes' good
      exact call_obeys obedient (ready'.after changes') (function.mono changes'.extends.size) good

/-- Evaluation obeys every discipline that allows it. -/
theorem eval_obeys (operations : Operations) (fuel : Nat) :
    Obedient D operations (eval operations fuel) := by
  induction fuel with
  | zero =>
    -- an evaluation that is out of fuel has no outcome to speak of
    intro own store scope e _ _ _ result after ends
    cases ends
  | succ fuel ih => exact evalNode_obeys ih fuel

end CallScript
