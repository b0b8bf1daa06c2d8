import CallScript.Proofs.Alike
import CallScript.Proofs.Eval.Frame
import CallScript.Proofs.Eval.Parts
import Mathlib

/-! # Two evaluations in step

A `Simulation` relates what two evaluations work with: their trees, their closures and their stores.
Related trees that are evaluated on related stores both reach their bound, or both end, with the same
error or with values that are alike, and with related stores again (`eval_inStep`). The relations may
depend on a world, which grows on the way, so that they can speak of scopes that are yet to be made. -/

namespace CallScript

/-- The special form that an operator names. -/
abbrev Expr.form? (operator : Expr) : Option SpecialForm :=
  operator.asWord?.bind SpecialForm.find?

/-- Relations that evaluation keeps between two runs with the same operations. -/
structure Simulation (W : Type) [Preorder W] (operations : Operations) where
  /-- Trees that are evaluated in a scope. -/
  trees : W → ScopeId → Expr → Expr → Prop
  closures : W → Closure → Closure → Prop
  stores : W → Store → Store → Prop
  trees_mono {w u : W} {s : ScopeId} {e e' : Expr} : w ≤ u → trees w s e e' → trees u s e e'
  closures_mono {w u : W} {c d : Closure} : w ≤ u → closures w c d → closures u c d
  replies (w : W) (id : OperationId) : (operations.get id).Respects (closures w)
  -- The two trees have the same shape at the top, and are related further down.
  of_literal {w : W} {s : ScopeId} {l : Literal} {e' : Expr} :
    trees w s (.literal l) e' → e' = .literal l
  of_word {w : W} {s : ScopeId} {x : String} {e' : Expr} :
    trees w s (.word x) e' → ∃ y, e' = .word y
  of_call {w : W} {s : ScopeId} {f e' : Expr} {as : List Expr} :
    trees w s (.call f as) e' →
      ∃ g bs, e' = .call g bs ∧ f.form? = g.form? ∧ as.length = bs.length
  operator {w : W} {s : ScopeId} {f g : Expr} {as bs : List Expr} :
    trees w s (.call f as) (.call g bs) → f.form? = none → trees w s f g
  args {w : W} {s : ScopeId} {f g : Expr} {as bs : List Expr} :
    trees w s (.call f as) (.call g bs) → f.form? ≠ some .function →
      List.Forall₂ (trees w s) as bs
  -- Names are looked up and bound alike; a name without a binding is reported.
  size {w : W} {store store' : Store} :
    stores w store store' → store.scopes.size = store'.scopes.size
  lookup {w : W} {s : ScopeId} {x y : String} {store store' : Store} :
    stores w store store' → trees w s (.word x) (.word y) →
      Option.Rel (Value.Alike (closures w)) (store.get? s x) (store'.get? s y) ∧
        (store.get? s x = none → x = y)
  define {w : W} {s : ScopeId} {x y : String} {v v' : Value} {store store' : Store} :
    stores w store store' → trees w s (.word x) (.word y) → Value.Alike (closures w) v v' →
      stores w (store.define s x v) (store'.define s y v')
  set {w : W} {s : ScopeId} {x y : String} {v v' : Value} {store store' : Store} :
    stores w store store' → trees w s (.word x) (.word y) → Value.Alike (closures w) v v' →
      Option.Rel (stores w) (store.set? s x v) (store'.set? s y v') ∧
        (store.set? s x v = none → x = y)
  print {w : W} {vs vs' : List Value} {store store' : Store} :
    stores w store store' → List.Forall₂ (Value.Alike (closures w)) vs vs' →
      stores w (store.print vs) (store'.print vs')
  -- Closures are made and called alike.
  function {w : W} {s : ScopeId} {f g a b : Expr} {as bs : List Expr} {store store' : Store} :
    trees w s (.call f (a :: as)) (.call g (b :: bs)) → f.form? = some .function →
      stores w store store' →
      Agree (fun params params' => ∃ u, w ≤ u ∧
          closures u ⟨store.closures, params, (a :: as).getLast (List.cons_ne_nil _ _), s⟩
            ⟨store'.closures, params', (b :: bs).getLast (List.cons_ne_nil _ _), s⟩ ∧
          stores u { store with closures := store.closures + 1 }
            { store' with closures := store'.closures + 1 })
        (paramNames (a :: as).dropLast) (paramNames (b :: bs).dropLast)
  params {w : W} {c d : Closure} : closures w c d → c.params.length = d.params.length
  frame {w : W} {c d : Closure} {args args' : List Value} {store store' : Store} :
    stores w store store' → closures w c d → c.params.length = args.length →
      List.Forall₂ (Value.Alike (closures w)) args args' →
      ∃ u, w ≤ u ∧ trees u store.scopes.size c.body d.body ∧
        stores u (store.withFrame c args) (store'.withFrame d args')

namespace Simulation

variable {W : Type} [Preorder W] {operations : Operations} {S : Simulation W operations}
  {w u : W} {scope : ScopeId} {e e' : Expr} {store store' : Store} {ev : Evaluator}

/-- Values that are alike in a world. -/
abbrev values (S : Simulation W operations) (w : W) : Value → Value → Prop :=
  Value.Alike (S.closures w)

/-- Two runs that end: in a later world their results agree and their stores are related. -/
def Ends {α β : Type} (S : Simulation W operations) (R : W → α → β → Prop) (w : W)
    (a : Outcome α) (b : Outcome β) : Prop :=
  ∃ u, w ≤ u ∧ Agree (R u) a.1 b.1 ∧ S.stores u a.2 b.2

/-- Two runs go in step: both reach their bound, or both end. -/
def InStep {α β : Type} (S : Simulation W operations) (R : W → α → β → Prop) (w : W)
    (store store' : Store) (x : Run α) (y : Run β) : Prop :=
  Option.Rel (S.Ends R w) (x store) (y store')

/-! ## Runs -/

section

variable {α β α' β' : Type} {R : W → α → β → Prop} {R' : W → α' → β' → Prop}

theorem InStep.earlier {x : Run α} {y : Run β} (more : w ≤ u)
    (h : S.InStep R u store store' x y) : S.InStep R w store store' x y := by
  rw [InStep]
  rcases split_rel h with ⟨stuck, stuck'⟩ | ⟨a, b, ended, ended', last, later, agree, stores⟩
  · rw [stuck, stuck']
    exact .none
  · rw [ended, ended']
    exact .some ⟨last, more.trans later, agree, stores⟩

theorem inStep_pure {a : α} {b : β} (related : R w a b) (stores : S.stores w store store') :
    S.InStep R w store store' (pure a) (pure b) :=
  .some ⟨w, le_rfl, .ok related, stores⟩

theorem inStep_fail (error : Error) (stores : S.stores w store store') :
    S.InStep R w store store' (.fail error) (.fail error) :=
  .some ⟨w, le_rfl, .error error, stores⟩

theorem inStep_bind {x : Run α} {y : Run β} {f : α → Run α'} {g : β → Run β'}
    (first : S.InStep R w store store' x y)
    (next : ∀ u, w ≤ u → ∀ a b after after', R u a b → S.stores u after after' →
      S.InStep R' u after after' (f a) (g b)) :
    S.InStep R' w store store' (x >>= f) (y >>= g) := by
  change Option.Rel _ (Run.bind x f store) (Run.bind y g store')
  rw [Run.bind, Run.bind]
  rcases split_rel first with
    ⟨stuck, stuck'⟩ | ⟨⟨_, after⟩, ⟨_, after'⟩, ended, ended', u, more, agree, stores⟩
  · rw [stuck, stuck']
    exact .none
  · rw [ended, ended']
    cases agree with
    | ok related => exact (next u more _ _ _ _ related stores).earlier more
    | error e => exact .some ⟨u, more, .error e, stores⟩

end

/-- An evaluator that keeps in step wherever it is given related trees. -/
def Keeps (S : Simulation W operations) (ev : Evaluator) : Prop :=
  ∀ {w scope e e' store store'}, S.trees w scope e e' → S.stores w store store' →
    S.InStep S.values w store store' (ev e scope) (ev e' scope)

/-- Two runs of which nothing is said but that they end. -/
abbrev Any {α β : Type} (_ : W) (_ : α) (_ : β) : Prop := True

theorem inStep_lookup {x y : String} (names : S.trees w scope (.word x) (.word y))
    (stores : S.stores w store store') :
    S.InStep S.values w store store' (.lookup scope x) (.lookup scope y) := by
  obtain ⟨found, missing⟩ := S.lookup stores names
  rw [InStep, Run.lookup, Run.lookup]
  rcases split_rel found with ⟨none, none'⟩ | ⟨v, v', bound, bound', alike⟩
  · rw [none, none', missing none]
    exact inStep_fail _ stores
  · rw [bound, bound']
    exact inStep_pure alike stores

theorem inStep_set {x y : String} {v v' : Value} (names : S.trees w scope (.word x) (.word y))
    (alike : S.values w v v') (stores : S.stores w store store') :
    S.InStep Any w store store' (.set scope x v) (.set scope y v') := by
  obtain ⟨rebinds, missing⟩ := S.set stores names alike
  rw [InStep, Run.set, Run.set]
  rcases split_rel rebinds with ⟨none, none'⟩ | ⟨next, next', set, set', related⟩
  · rw [none, none', missing none]
    exact inStep_fail _ stores
  · rw [set, set']
    exact .some ⟨w, le_rfl, .ok trivial, related⟩

theorem inStep_define {x y : String} {v v' : Value} (names : S.trees w scope (.word x) (.word y))
    (alike : S.values w v v') (stores : S.stores w store store') :
    S.InStep Any w store store' (.define scope x v) (.define scope y v') :=
  .some ⟨w, le_rfl, .ok trivial, S.define stores names alike⟩

theorem inStep_reply {r r' : Reply} (alike : Reply.Alike (S.closures w) r r')
    (stores : S.stores w store store') :
    S.InStep S.values w store store' (.reply r) (.reply r') :=
  .some ⟨w, le_rfl, alike.result, S.print stores alike.printed⟩

/-! ## Calls -/

theorem inStep_evalAll (keeps : S.Keeps ev) {es es' : List Expr}
    (trees : List.Forall₂ (S.trees w scope) es es') (stores : S.stores w store store') :
    S.InStep (fun u => List.Forall₂ (S.values u)) w store store' (evalAll ev scope es)
      (evalAll ev scope es') := by
  induction es generalizing w es' store store' with
  | nil =>
    cases trees
    exact inStep_pure .nil stores
  | cons e es ih =>
    cases trees with
    | cons first others =>
      apply inStep_bind (keeps first stores)
      intro u more v v' after after' alike stores
      apply inStep_bind (ih (others.imp fun _ _ => S.trees_mono more) stores)
      intro t later vs vs' last last' alikes stores
      apply inStep_pure _ stores
      exact .cons (alike.mono fun _ _ => S.closures_mono later) alikes

theorem inStep_call (keeps : S.Keeps ev) {f f' : Value} {args args' : List Value}
    (functions : S.values w f f') (alikes : List.Forall₂ (S.values w) args args')
    (stores : S.stores w store store') :
    S.InStep S.values w store store' (call operations ev f args) (call operations ev f' args') := by
  have counts := alikes.length_eq
  cases functions with
  | builtin name id => exact inStep_reply (S.replies w id args args' alikes) stores
  | @closure c d related =>
    have params := S.params related
    by_cases count : c.params.length = args.length
    · rw [InStep, call_closure_eq count, call_closure_eq (by omega), ← S.size stores]
      obtain ⟨u, more, bodies, framed⟩ := S.frame stores related count alikes
      exact (keeps bodies framed).earlier more
    · rw [call, call, if_neg count, if_neg (by omega), params, counts]
      exact inStep_fail _ stores
  | @array vs ws items =>
    have texts := (Value.Alike.array items).display_eq
    change S.InStep S.values w store store' (.fail (.notCallable (Value.array vs).display .array))
      (.fail (.notCallable (Value.array ws).display .array))
    rw [texts]
    exact inStep_fail _ stores
  | number | string | boolean => exact inStep_fail _ stores

/-! ## Special forms -/

/-- Loops go in step if their conditions and their bodies do, whatever the rounds before have done. -/
theorem inStep_loop {condition condition' body body' : Run Value}
    (conditions : ∀ u, w ≤ u → ∀ store store', S.stores u store store' →
      S.InStep S.values u store store' condition condition')
    (bodies : ∀ u, w ≤ u → ∀ store store', S.stores u store store' →
      S.InStep S.values u store store' body body')
    (rounds : Nat) (stores : S.stores w store store') :
    S.InStep S.values w store store' (loop condition body rounds)
      (loop condition' body' rounds) := by
  -- the rounds start in ever later worlds, so what the parts do is known of all of them
  induction rounds generalizing w store store' with
  | zero => exact .none
  | succ rounds ih =>
    rw [loop_succ, loop_succ]
    apply inStep_bind (conditions w le_rfl _ _ stores)
    intro u more v v' after after' alike stores
    rw [← alike.isFalse_eq]
    split
    next => exact inStep_pure (.boolean false) stores
    next =>
      apply inStep_bind (bodies u more _ _ stores)
      intro t later _ _ last last' _ stores
      have onward : w ≤ t := more.trans later
      exact ih (fun u again => conditions u (onward.trans again))
        (fun u again => bodies u (onward.trans again)) stores

theorem inStep_evalSequence (keeps : S.Keeps ev) {es es' : List Expr} {v v' : Value}
    (trees : List.Forall₂ (S.trees w scope) es es') (alike : S.values w v v')
    (stores : S.stores w store store') :
    S.InStep S.values w store store' (evalSequence ev scope v es)
      (evalSequence ev scope v' es') := by
  induction es generalizing w es' v v' store store' with
  | nil =>
    cases trees
    exact inStep_pure alike stores
  | cons e es ih =>
    cases trees with
    | cons first others =>
      apply inStep_bind (keeps first stores)
      intro u more v v' after after' alike stores
      exact ih (others.imp fun _ _ => S.trees_mono more) alike stores

theorem word_of_word {y : String} (trees : S.trees w scope e (.word y)) : ∃ x, e = .word x := by
  cases e with
  | word x => exact ⟨x, rfl⟩
  | literal l => cases S.of_literal trees
  | call f as =>
    obtain ⟨g, bs, impossible, -⟩ := S.of_call trees
    cases impossible

theorem inStep_rule (keeps : S.Keeps ev) {rounds : Nat} {form : SpecialForm}
    {args args' : List Expr} (other : form ≠ .function)
    (trees : List.Forall₂ (S.trees w scope) args args') (stores : S.stores w store store') :
    S.InStep S.values w store store' (form.rule ev rounds args scope)
      (form.rule ev rounds args' scope) := by
  fun_cases SpecialForm.rule ev rounds form args scope with
  | case1 condition yes no =>
    rcases trees with _ | ⟨conditions, _ | ⟨thens, _ | ⟨elses, ⟨⟩⟩⟩⟩
    rw [SpecialForm.rule]
    apply inStep_bind (keeps conditions stores)
    intro u more v v' after after' alike stores
    rw [← alike.isFalse_eq]
    split
    next => exact keeps (S.trees_mono more elses) stores
    next => exact keeps (S.trees_mono more thens) stores
  | case3 condition body =>
    rcases trees with _ | ⟨conditions, _ | ⟨bodies, ⟨⟩⟩⟩
    rw [SpecialForm.rule]
    apply inStep_loop _ _ _ stores
    · intro u more _ _ stores
      exact keeps (S.trees_mono more conditions) stores
    · intro u more _ _ stores
      exact keeps (S.trees_mono more bodies) stores
  | case5 args => exact inStep_evalSequence keeps trees (.boolean false) stores
  | case6 name e =>
    rcases trees with _ | ⟨names, _ | ⟨values, ⟨⟩⟩⟩
    obtain ⟨name', rfl⟩ := S.of_word names
    rw [SpecialForm.rule]
    apply inStep_bind (keeps values stores)
    intro u more v v' after after' alike stores
    apply inStep_bind (inStep_define (S.trees_mono more names) alike stores)
    intro t later _ _ last last' _ stores
    exact inStep_pure (alike.mono fun _ _ => S.closures_mono later) stores
  | case8 name e =>
    rcases trees with _ | ⟨names, _ | ⟨values, ⟨⟩⟩⟩
    obtain ⟨name', rfl⟩ := S.of_word names
    rw [SpecialForm.rule]
    apply inStep_bind (keeps values stores)
    intro u more v v' after after' alike stores
    apply inStep_bind (inStep_set (S.trees_mono more names) alike stores)
    intro t later _ _ last last' _ stores
    exact inStep_pure (alike.mono fun _ _ => S.closures_mono later) stores
  | case10 | case11 => exact absurd rfl other
  -- where one list of arguments has not the shape that the form asks for, the other has not, either
  | case2 args misshapen =>
    rw [SpecialForm.rule]
    · exact inStep_fail _ stores
    · rintro _ _ _ rfl
      rcases trees with _ | ⟨_, _ | ⟨_, _ | ⟨_, ⟨⟩⟩⟩⟩
      exact misshapen _ _ _ rfl
  | case4 args misshapen =>
    rw [SpecialForm.rule]
    · exact inStep_fail _ stores
    · rintro _ _ rfl
      rcases trees with _ | ⟨_, _ | ⟨_, ⟨⟩⟩⟩
      exact misshapen _ _ rfl
  | case7 args misshapen | case9 args misshapen =>
    rw [SpecialForm.rule]
    · exact inStep_fail _ stores
    · rintro _ _ rfl
      rcases trees with _ | ⟨names, _ | ⟨_, ⟨⟩⟩⟩
      obtain ⟨x, rfl⟩ := word_of_word names
      exact misshapen _ _ rfl

theorem inStep_function {rounds : Nat} {f g : Expr} {as bs : List Expr}
    (trees : S.trees w scope (.call f as) (.call g bs)) (form : f.form? = some .function)
    (counts : as.length = bs.length) (stores : S.stores w store store') :
    S.InStep S.values w store store' (SpecialForm.function.rule ev rounds as scope)
      (SpecialForm.function.rule ev rounds bs scope) := by
  match as, bs with
  | [], [] => exact inStep_fail _ stores
  | a :: as, b :: bs =>
    rw [SpecialForm.rule, SpecialForm.rule]
    have made := S.function trees form stores
    change S.InStep _ _ _ _ (Run.ofExcept (paramNames (a :: as).dropLast) >>= _)
      (Run.ofExcept (paramNames (b :: bs).dropLast) >>= _)
    rcases made.split with ⟨e, fails, fails'⟩ | ⟨_, _, params, params', u, more, closures, stores⟩
    · rw [fails, fails']
      exact inStep_fail e ‹_›
    · rw [params, params']
      exact .some ⟨u, more, .ok (.closure closures), stores⟩

/-! ## Trees -/

theorem evalNode_call (ev : Evaluator) (rounds : Nat) (f : Expr) (as : List Expr) :
    evalNode operations ev rounds (.call f as) scope =
      match f.form? with
      | some form => form.apply ev rounds as scope
      | none => ev f scope >>= fun v => evalAll ev scope as >>= call operations ev v :=
  rfl

theorem inStep_evalNode (keeps : S.Keeps ev) (rounds : Nat) :
    S.Keeps (evalNode operations ev rounds) := by
  intro w scope e e' store store' trees stores
  cases e with
  | literal l =>
    obtain rfl := S.of_literal trees
    exact inStep_pure (Value.alike_literal l) stores
  | word x =>
    obtain ⟨y, rfl⟩ := S.of_word trees
    exact inStep_lookup trees stores
  | call f as =>
    obtain ⟨g, bs, rfl, forms, counts⟩ := S.of_call trees
    rw [evalNode_call, evalNode_call, ← forms]
    cases head : f.form? with
    | some form =>
      dsimp only
      rw [SpecialForm.apply, SpecialForm.apply, counts]
      split
      next =>
        by_cases made : form = .function
        · subst made
          exact inStep_function trees head counts stores
        · have other : f.form? ≠ some .function := by
            rw [head]
            exact fun same => made (Option.some.inj same)
          exact inStep_rule keeps made (S.args trees other) stores
      next => exact inStep_fail _ stores
    | none =>
      have other : f.form? ≠ some .function := by
        rw [head]
        exact Option.some_ne_none _ ∘ Eq.symm
      dsimp only
      apply inStep_bind (keeps (S.operator trees head) stores)
      intro u more v v' after after' functions stores
      have args := (S.args trees other).imp fun _ _ => S.trees_mono more
      apply inStep_bind (inStep_evalAll keeps args stores)
      intro t later vs vs' last last' alikes stores
      exact inStep_call keeps (functions.mono fun _ _ => S.closures_mono later) alikes stores

end Simulation

/-- Related trees on related stores are evaluated in step. -/
theorem eval_inStep {W : Type} [Preorder W] {operations : Operations}
    (S : Simulation W operations) (fuel : Nat) : S.Keeps (eval operations fuel) := by
  induction fuel with
  | zero =>
    intro w scope e e' store store' _ _
    exact .none
  | succ fuel ih => exact Simulation.inStep_evalNode ih fuel

end CallScript
