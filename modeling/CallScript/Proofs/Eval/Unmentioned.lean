import CallScript.Proofs.Eval.Simulation

/-! # Names that are not mentioned

A binding of a name that neither a tree nor any closure at hand mentions has no influence on the
evaluation of the tree, and the evaluation leaves it alone. The word by which a special form is called
is never looked up, so it does not count as a mention. -/

namespace CallScript

namespace Expr

mutual

/-- Whether a name occurs as a word in a tree, other than as the word that calls a special form. -/
def mentions (name : String) : Expr → Bool
  | .literal _ => false
  | .word key => key == name
  | .call operator args =>
    operator.form?.isNone && mentions name operator || mentionsAny name args

def mentionsAny (name : String) : List Expr → Bool
  | [] => false
  | e :: es => mentions name e || mentionsAny name es

end

variable {name : String} {operator e : Expr} {args es : List Expr}

theorem mentionsAny_eq_false_iff :
    mentionsAny name es = false ↔ ∀ e ∈ es, mentions name e = false := by
  induction es with
  | nil => simp [mentionsAny]
  | cons e es ih => rw [mentionsAny, Bool.or_eq_false_iff, ih, List.forall_mem_cons]

theorem mentions_args (h : (call operator args).mentions name = false) :
    ∀ e ∈ args, e.mentions name = false := by
  rw [mentions, Bool.or_eq_false_iff, mentionsAny_eq_false_iff] at h
  exact h.2

theorem mentions_operator (h : (call operator args).mentions name = false)
    (plain : operator.form? = none) : operator.mentions name = false := by
  rw [mentions, plain, Bool.or_eq_false_iff] at h
  exact h.1

theorem ne_of_mentions_word {key : String} (h : (Expr.word key).mentions name = false) :
    name ≠ key := by
  rintro rfl
  simp [mentions] at h

end Expr

/-- A closure that mentions a name neither as a parameter nor in its body. -/
def Closure.Avoids (name : String) (c : Closure) : Prop :=
  name ∉ c.params ∧ c.body.mentions name = false

variable {name : String}

/-- Parameters are the words of the trees that they come from. -/
theorem eq_words_of_paramNames {es : List Expr} {params : List String}
    (names : paramNames es = .ok params) : es = params.map .word := by
  induction es generalizing params with
  | nil =>
    cases names
    rfl
  | cons e es ih =>
    cases e with
    | word key =>
      rw [paramNames] at names
      cases rest : paramNames es with
      | ok params =>
        rw [rest] at names
        cases names
        rw [ih rest, List.map_cons]
      | error =>
        rw [rest] at names
        cases names
    | literal | call => cases names

theorem paramNames_avoids {es : List Expr} {params : List String}
    (mentions : ∀ e ∈ es, e.mentions name = false) (names : paramNames es = .ok params) :
    name ∉ params := by
  intro member
  have word : Expr.word name ∈ es := by
    rw [eq_words_of_paramNames names]
    exact List.mem_map_of_mem member
  exact Expr.ne_of_mentions_word (mentions _ word) rfl

/-! ## Stores with one more binding -/

/-- One store is another with a name bound in a scope, and no closure in the other mentions the
name. -/
structure Overlaid (name : String) (s : ScopeId) (v : Value) (store store' : Store) : Prop where
  eq_define : store' = store.define s name v
  there : s < store.scopes.size
  avoids : ∀ c, store.Binds c → c.Avoids name

namespace Overlaid

variable {s t : ScopeId} {v w : Value} {key : String} {store store' : Store}

theorem lookup (h : Overlaid name s v store store') (other : name ≠ key) :
    store'.get? t key = store.get? t key := by
  rw [h.eq_define, Store.get?_define_of_ne other]

theorem define (h : Overlaid name s v store store') (other : name ≠ key)
    (closures : ∀ c, w.Contains c → c.Avoids name) :
    Overlaid name s v (store.define t key w) (store'.define t key w) where
  eq_define := by rw [h.eq_define, Store.define_comm other]
  there := by simpa using h.there
  avoids c bound := by
    rcases Store.binds_define bound with old | inside
    · exact h.avoids c old
    · exact closures c inside

theorem set (h : Overlaid name s v store store') (other : name ≠ key)
    (closures : ∀ c, w.Contains c → c.Avoids name) :
    Option.Rel (Overlaid name s v) (store.set? t key w) (store'.set? t key w) := by
  rw [h.eq_define, Store.set?_define_of_ne other]
  cases rebinds : store.set? t key w with
  | none => exact .none
  | some next =>
    obtain ⟨owner, -, rfl⟩ := Store.define_of_set? rebinds
    have both := h.define (t := owner) other closures
    rw [h.eq_define, Store.define_comm other] at both
    exact .some both

theorem defineAll (h : Overlaid name s v store store') {entries : List (String × Value)}
    (others : ∀ entry ∈ entries, name ≠ entry.1 ∧ ∀ c, entry.2.Contains c → c.Avoids name) :
    Overlaid name s v
      (entries.foldl (fun next entry => next.define t entry.1 entry.2) store)
      (entries.foldl (fun next entry => next.define t entry.1 entry.2) store') := by
  induction entries generalizing store store' with
  | nil => exact h
  | cons entry entries ih =>
    obtain ⟨first, others⟩ := List.forall_mem_cons.mp others
    exact ih (h.define first.1 first.2) others

theorem newScope (h : Overlaid name s v store store') (parent : Option ScopeId) :
    Overlaid name s v (store.newScope parent).2 (store'.newScope parent).2 where
  eq_define := by rw [h.eq_define, Store.newScope_define h.there]
  there := by simpa using Nat.lt_succ_of_lt h.there
  avoids c bound := h.avoids c (Store.binds_newScope bound)

theorem withFrame (h : Overlaid name s v store store') {c : Closure} {args : List Value}
    (avoids : name ∉ c.params) (closures : ∀ a ∈ args, ∀ c, a.Contains c → c.Avoids name) :
    Overlaid name s v (store.withFrame c args) (store'.withFrame c args) := by
  have size : store'.scopes.size = store.scopes.size := by simp [h.eq_define]
  rw [Store.withFrame, Store.withFrame, size]
  apply (h.newScope (some c.scope)).defineAll
  intro entry member
  obtain ⟨param, arg⟩ := List.of_mem_zip member
  exact ⟨fun same => avoids (same ▸ param), closures _ arg⟩

end Overlaid

/-! ## The simulation -/

section

variable {v w w' : Value} {vs vs' : List Value}

/-- Closures that are the same and avoid a name. -/
def Spared (name : String) (c d : Closure) : Prop :=
  c = d ∧ c.Avoids name

theorem eq_of_spared (alike : Value.Alike (Spared name) w w') : w = w' :=
  alike.eq_of_closures fun _ _ spared => spared.1

theorem avoids_of_spared (alike : Value.Alike (Spared name) w w') :
    ∀ c, w.Contains c → c.Avoids name :=
  alike.closures fun _ _ spared => spared.2

theorem eq_of_spared_all (alikes : List.Forall₂ (Value.Alike (Spared name)) vs vs') : vs = vs' :=
  Value.Alike.eq_all_of_closures (fun _ _ spared => spared.1) alikes

end

/-- The evaluations on two stores of which one has an additional binding of a name. -/
def unmentioned (operations : Operations) (name : String) (s : ScopeId) (v : Value)
    (brings : ∀ operation ∈ operations, operation.Brings (Closure.Avoids name)) :
    Simulation Unit operations where
  trees _ _ e e' := e = e' ∧ e.mentions name = false
  closures _ := Spared name
  stores _ := Overlaid name s v
  trees_mono _ h := h
  closures_mono _ h := h
  replies _ id := (Operations.brings_get brings id).respects
  of_literal h := h.1.symm
  of_word {_ _ x _} h := ⟨x, h.1.symm⟩
  of_call {_ _ f _ as} h := ⟨f, as, h.1.symm, rfl, rfl⟩
  operator h plain := by
    cases h.1
    exact ⟨rfl, Expr.mentions_operator h.2 plain⟩
  args h _ := by
    cases h.1
    exact List.forall₂_same.mpr fun e member => ⟨rfl, Expr.mentions_args h.2 e member⟩
  size h := by simp [h.eq_define]
  lookup := by
    rintro _ t x _ store store' stores ⟨⟨⟩, mentions⟩
    rw [stores.lookup (Expr.ne_of_mentions_word mentions)]
    refine ⟨?_, fun _ => rfl⟩
    cases found : store.get? t x with
    | none => exact .none
    | some w =>
      apply Option.Rel.some
      apply Value.alike_self
      intro c inside
      obtain ⟨owner, bound⟩ := Store.bound_of_get? found
      exact ⟨rfl, stores.avoids c ⟨owner, x, w, bound, inside⟩⟩
  define := by
    rintro _ t x _ w _ store store' stores ⟨⟨⟩, mentions⟩ alike
    cases eq_of_spared alike
    exact stores.define (Expr.ne_of_mentions_word mentions) (avoids_of_spared alike)
  set := by
    rintro _ t x _ w _ store store' stores ⟨⟨⟩, mentions⟩ alike
    cases eq_of_spared alike
    exact ⟨stores.set (Expr.ne_of_mentions_word mentions) (avoids_of_spared alike), fun _ => rfl⟩
  print h alikes := by
    cases eq_of_spared_all alikes
    exact ⟨by rw [h.eq_define]; rfl, h.there, h.avoids⟩
  function := by
    rintro _ t f _ a _ as _ store store' ⟨⟨⟩, mentions⟩ _ stores
    have parts := Expr.mentions_args mentions
    have body := parts _ (List.getLast_mem (List.cons_ne_nil a as))
    cases names : paramNames (a :: as).dropLast with
    | error e => exact .error e
    | ok params =>
      have avoids := paramNames_avoids
        (fun e member => parts e (List.dropLast_subset _ member)) names
      refine .ok ⟨(), le_rfl, ⟨?_, avoids, body⟩, ?_⟩
      · rw [stores.eq_define]
        rfl
      · exact ⟨by rw [stores.eq_define]; rfl, stores.there, stores.avoids⟩
  params h := by rw [h.1]
  frame := by
    rintro _ c _ args args' store store' stores ⟨rfl, avoids⟩ _ alikes
    cases eq_of_spared_all alikes
    refine ⟨(), le_rfl, ⟨rfl, avoids.2⟩, stores.withFrame avoids.1 ?_⟩
    intro a member
    exact avoids_of_spared (List.forall₂_same.mp alikes a member)

variable {operations : Operations} {fuel : Nat} {store : Store} {scope s : ScopeId} {e : Expr}
  {v : Value}

/-- A binding of a name that is mentioned neither in a tree nor in a closure at hand changes nothing
about the evaluation of the tree, wherever it is made and whatever is bound: the evaluation reaches its
bound with it if it does without it, or else ends with the same result and the same store, but for this
binding. The word that calls a special form may be the name, as it is not looked up. -/
theorem eval_define_of_unmentioned
    (brings : ∀ operation ∈ operations, operation.Brings (Closure.Avoids name))
    (there : s < store.scopes.size) (closures : ∀ c, store.Binds c → c.Avoids name)
    (tree : e.mentions name = false) (fuel : Nat) (scope : ScopeId) (v : Value) :
    eval operations fuel e scope (store.define s name v) =
      (eval operations fuel e scope store).map fun (result, after) =>
        (result, after.define s name v) := by
  let S := unmentioned operations name s v brings
  have inStep : S.InStep S.values () store (store.define s name v) (eval operations fuel e scope)
      (eval operations fuel e scope) :=
    eval_inStep S fuel ⟨rfl, tree⟩ ⟨rfl, there, closures⟩
  rcases split_rel inStep with
    ⟨stuck, stuck'⟩ | ⟨⟨result, after⟩, ⟨result', after'⟩, ended, ended', _, _, agree, stores⟩
  · rw [stuck, stuck']
    rfl
  · have results : result = result' := by
      cases agree with
      | ok alike => rw [eq_of_spared alike]
      | error => rfl
    have afters : after' = after.define s name v := stores.eq_define
    rw [ended, ended', afters, results]
    rfl

/-- `if` stays the special form when the global scope binds it to something else. -/
theorem if_is_not_shadowed :
    eval (World.newGlobal {}).2.operations 2
        (.call (.word "if") [.word "true", .literal (.string "yes"), .literal (.string "no")]) 0
        ((World.newGlobal {}).2.store.define 0 "if" (.string "shadow")) =
      some (.ok (.string "yes"),
        (World.newGlobal {}).2.store.define 0 "if" (.string "shadow")) := by
  have ends : eval (World.newGlobal {}).2.operations 2
      (.call (.word "if") [.word "true", .literal (.string "yes"), .literal (.string "no")]) 0
      (World.newGlobal {}).2.store = some (.ok (.string "yes"), (World.newGlobal {}).2.store) := rfl
  rw [eval_define_of_unmentioned World.brings_newGlobal (by decide +kernel) _ (by decide), ends]
  · rfl
  · intro c bound
    exact absurd bound (World.not_binds_newGlobal c)

end CallScript
