import CallScript.Proofs.Eval.Rename
import CallScript.Proofs.Session
import CallScript.Proofs.Uniform

/-! # Parameters can be renamed

A program does the same with a parameter of a function under another name (`eval_renamed`). The
scopes of a run are made as it goes on, so which of them bind the parameter under its new name is
not told by the tree: these are the frames of renamed functions and the frames that descend from
them, except those of functions that have a parameter of the old name themselves, which hide it from
all that descends from them. A scope that binds the parameter differently from its parent therefore
owns it. -/

namespace CallScript

/-! ## Which scopes have the new name -/

/-- The scopes of two runs: how many there are, and in which of them the new name is used. -/
structure Marking where
  size : ScopeId
  marked : ScopeId → Bool

namespace Marking

instance : Preorder Marking where
  le w u := w.size ≤ u.size ∧ ∀ s < w.size, u.marked s = w.marked s
  le_refl w := ⟨le_rfl, fun _ _ => rfl⟩
  le_trans w u t first second :=
    ⟨first.1.trans second.1, fun s there =>
      (second.2 s (Nat.lt_of_lt_of_le there first.1)).trans (first.2 s there)⟩

/-- One more scope. -/
def push (w : Marking) (inside : Bool) : Marking where
  size := w.size + 1
  marked s := if s = w.size then inside else w.marked s

variable {w : Marking} {inside : Bool}

@[simp] theorem marked_push_new : (w.push inside).marked w.size = inside :=
  if_pos rfl

theorem marked_push_of_lt {s : ScopeId} (old : s < w.size) :
    (w.push inside).marked s = w.marked s :=
  if_neg (Nat.ne_of_lt old)

theorem le_push : w ≤ w.push inside :=
  ⟨Nat.le_succ _, fun _ old => marked_push_of_lt old⟩

end Marking

/-! ## Two runs -/

/-- A closure and what it becomes: its parameters and its body are renamed throughout, or else only
in some of the functions inside its body. -/
structure Closure.Renames (p q : String) (inside : Bool) (c d : Closure) : Prop where
  serial : c.serial = d.serial
  scope : c.scope = d.scope
  params : d.params = c.params.map (called p q inside)
  body : c.body.Follows p q inside d.body

/-- A closure of two runs. What it is called in differs from what its scope has only if the closure
has the parameter itself. -/
structure Closure.Placed (p q : String) (w : Marking) (inside : Bool) (c : Closure) : Prop where
  there : c.scope < w.size
  avoids : c.Avoids q
  differs : inside = w.marked c.scope ∨ p ∈ c.params

/-- Closures in the values of two runs. -/
def Closure.Twin (p q : String) (w : Marking) (c d : Closure) : Prop :=
  ∃ inside, c.Renames p q inside d ∧ c.Placed p q w inside

/-- Two stores with the same scopes, in which names are called as they are marked. Both have grown
out of one that had `before` printed. -/
structure Aligned (p q : String) (before : List Value) (w : Marking) (store store' : Store) :
    Prop where
  size : store.scopes.size = w.size
  size' : store'.scopes.size = w.size
  parents : ∀ s, store'.parent? s = store.parent? s
  ordered : store.Ordered
  bindings : ∀ s, ∀ name ≠ q,
    Option.Rel (Value.Alike (Closure.Twin p q w)) ((store.bindings s).get? name)
      ((store'.bindings s).get? (called p q (w.marked s) name))
  closures : store.closures = store'.closures
  printed : ∃ vs vs', store.printed.toList = before ++ vs ∧
    store'.printed.toList = before ++ vs' ∧ List.Forall₂ (Value.Alike (Closure.Twin p q w)) vs vs'

/-- A scope that is marked differently from its parent owns the parameter. -/
def Hidden (p : String) (w : Marking) (store : Store) : Prop :=
  ∀ s < w.size, store.owns s p = true ∨ w.marked s = (store.parent? s).any w.marked

variable {p q name : String} {before : List Value} {w u : Marking} {s : ScopeId} {c d : Closure}
  {inside : Bool} {store store' : Store} {v v' : Value}

theorem Closure.Placed.mono (more : w ≤ u) (h : c.Placed p q w inside) : c.Placed p q u inside where
  there := Nat.lt_of_lt_of_le h.there more.1
  avoids := h.avoids
  differs := by
    rw [more.2 _ h.there]
    exact h.differs

theorem Closure.Twin.mono (more : w ≤ u) (h : c.Twin p q w d) : c.Twin p q u d := by
  obtain ⟨inside, renames, placed⟩ := h
  exact ⟨inside, renames, placed.mono more⟩

theorem alike_mono (more : w ≤ u) (h : Value.Alike (Closure.Twin p q w) v v') :
    Value.Alike (Closure.Twin p q u) v v' :=
  h.mono fun _ _ => Closure.Twin.mono more

theorem oneToOne_twin : OneToOne (Closure.Twin p q w) := by
  intro c d c' d' ⟨_, renames, _⟩ ⟨_, renames', _⟩
  rw [renames.serial, renames'.serial]

namespace Aligned

theorem owns_eq (h : Aligned p q before w store store') (new : name ≠ q) :
    store'.owns s (called p q (w.marked s) name) = store.owns s name := by
  rw [Store.owns, Store.owns, Bindings.contains, Bindings.contains]
  rcases split_rel (h.bindings s name new) with ⟨none, none'⟩ | ⟨v, v', bound, bound', -⟩
  · rw [none, none']
  · rw [bound, bound']
    rfl

theorem ordered' (h : Aligned p q before w store store') : store'.Ordered := by
  intro s parent goes
  exact h.ordered s parent ((h.parents s).symm.trans goes)

theorem define (h : Aligned p q before w store store') (new : name ≠ q)
    (alike : Value.Alike (Closure.Twin p q w) v v') :
    Aligned p q before w (store.define s name v)
      (store'.define s (called p q (w.marked s) name) v') where
  size := by simpa using h.size
  size' := by simpa using h.size'
  parents t := by simpa using h.parents t
  ordered t parent goes := h.ordered t parent (by simpa using goes)
  bindings t key new' := by
    rw [Store.bindings_define, Store.bindings_define, h.size, h.size']
    by_cases here : s = t ∧ t < w.size
    · rw [if_pos here, if_pos here, here.1, Bindings.get?_insert, Bindings.get?_insert]
      by_cases same : name = key
      · rw [if_pos same, if_pos (congrArg _ same)]
        exact .some alike
      · rw [if_neg same, if_neg (fun both => same ((called_eq_called_iff new new').mp both))]
        exact h.bindings t key new'
    · rw [if_neg here, if_neg here]
      exact h.bindings t key new'
  closures := h.closures
  printed := h.printed

/-- The scope that a name is looked up in next calls it the same, if the scope itself does not own
it. -/
theorem called_parent {parent : ScopeId} (hidden : Hidden p w store) (there : s < w.size)
    (missing : store.owns s name = false) (goes : store.parent? s = some parent) :
    called p q (w.marked s) name = called p q (w.marked parent) name := by
  by_cases same : name = p
  · subst same
    rcases hidden s there with owned | inherited
    · rw [missing] at owned
      cases owned
    · rw [inherited, goes]
      rfl
  · rw [called_of_ne same, called_of_ne same]

theorem called_root (hidden : Hidden p w store) (there : s < w.size)
    (missing : store.owns s name = false) (ends : store.parent? s = none) :
    called p q (w.marked s) name = name := by
  by_cases same : name = p
  · subst same
    rcases hidden s there with owned | inherited
    · rw [missing] at owned
      cases owned
    · rw [inherited, ends]
      exact called_false
  · exact called_of_ne same

/-- A name is looked up to values that are alike under what the scope calls it. -/
theorem lookup (h : Aligned p q before w store store') (hidden : Hidden p w store) (new : name ≠ q)
    (there : s < w.size) :
    Option.Rel (Value.Alike (Closure.Twin p q w)) (store.get? s name)
        (store'.get? s (called p q (w.marked s) name)) ∧
      (store.get? s name = none → name = called p q (w.marked s) name) := by
  -- the walk goes up, and a scope that does not own the name calls it as the next one does
  induction s using Nat.strongRecOn with
  | ind s ih =>
    rw [Store.get?_eq h.ordered (h.size ▸ there), Store.get?_eq h.ordered' (h.size' ▸ there),
      h.parents]
    rcases split_rel (h.bindings s name new) with ⟨none, none'⟩ | ⟨v, v', bound, bound', alike⟩
    · have missing : store.owns s name = false := Store.owns_eq_false_iff.mpr none
      rw [none, none']
      cases goes : store.parent? s with
      | none => exact ⟨.none, fun _ => (called_root hidden there missing goes).symm⟩
      | some parent =>
        have older := h.ordered s parent goes
        rw [called_parent hidden there missing goes]
        exact ih parent older (Nat.lt_trans older there)
    · rw [bound, bound']
      refine ⟨.some alike, ?_⟩
      intro missing
      cases missing

end Aligned

theorem Hidden.define (h : Hidden p w store) : Hidden p w (store.define s name v) := by
  intro t there
  rw [Store.parent?_define]
  exact (h t there).imp_left Store.owns_define

/-- Two stores in which names are called as they are marked, and each scope hides what it has to. -/
structure Twins (p q : String) (before : List Value) (w : Marking) (store store' : Store) :
    Prop where
  aligned : Aligned p q before w store store'
  hidden : Hidden p w store

namespace Twins

theorem define (h : Twins p q before w store store') (new : name ≠ q)
    (alike : Value.Alike (Closure.Twin p q w) v v') :
    Twins p q before w (store.define s name v)
      (store'.define s (called p q (w.marked s) name) v') :=
  ⟨h.aligned.define new alike, h.hidden.define⟩

/-- A name is rebound by twins in the same scope. -/
theorem set (h : Twins p q before w store store') (new : name ≠ q) (there : s < w.size)
    (alike : Value.Alike (Closure.Twin p q w) v v') :
    Option.Rel (Twins p q before w) (store.set? s name v)
        (store'.set? s (called p q (w.marked s) name) v') ∧
      (store.set? s name v = none → name = called p q (w.marked s) name) := by
  obtain ⟨aligned, hidden⟩ := h
  induction s using Nat.strongRecOn with
  | ind s ih =>
    rw [Store.set?_eq aligned.ordered (aligned.size ▸ there),
      Store.set?_eq aligned.ordered' (aligned.size' ▸ there), aligned.parents, aligned.owns_eq new]
    cases owned : store.owns s name with
    | true =>
      refine ⟨.some ⟨aligned.define new alike, hidden.define⟩, ?_⟩
      intro missing
      cases missing
    | false =>
      cases goes : store.parent? s with
      | none => exact ⟨.none, fun _ => (Aligned.called_root hidden there owned goes).symm⟩
      | some parent =>
        have older := aligned.ordered s parent goes
        rw [Aligned.called_parent hidden there owned goes]
        exact ih parent older (Nat.lt_trans older there)

theorem print (h : Twins p q before w store store') {vs vs' : List Value}
    (alikes : List.Forall₂ (Value.Alike (Closure.Twin p q w)) vs vs') :
    Twins p q before w (store.print vs) (store'.print vs') where
  aligned :=
    { h.aligned with
      printed := by
        obtain ⟨us, us', old, old', pairs⟩ := h.aligned.printed
        refine ⟨us ++ vs, us' ++ vs', ?_, ?_, List.rel_append pairs alikes⟩
        · rw [Store.toList_printed_print, old, List.append_assoc]
        · rw [Store.toList_printed_print, old', List.append_assoc] }
  hidden := h.hidden

theorem newClosure (h : Twins p q before w store store') :
    Twins p q before w { store with closures := store.closures + 1 }
      { store' with closures := store'.closures + 1 } where
  aligned := { h.aligned with closures := congrArg (· + 1) h.aligned.closures }
  hidden := h.hidden

end Twins

/-! ## Frames -/

namespace Aligned

theorem newScope (h : Aligned p q before w store store') {parent : ScopeId}
    (there : parent < w.size) (inside : Bool) :
    Aligned p q before (w.push inside) (store.newScope (some parent)).2
      (store'.newScope (some parent)).2 where
  size := by rw [Store.size_newScope, h.size, Marking.push]
  size' := by rw [Store.size_newScope, h.size', Marking.push]
  parents t := by rw [Store.parent?_newScope, Store.parent?_newScope, h.size, h.size', h.parents]
  ordered := by
    apply Store.ordered_newScope h.ordered
    intro t same
    cases same
    rw [h.size]
    exact there
  bindings t key new := by
    rw [Store.bindings_newScope, Store.bindings_newScope]
    by_cases old : t < w.size
    · rw [Marking.marked_push_of_lt old]
      rcases split_rel (h.bindings t key new) with ⟨none, none'⟩ | ⟨v, v', bound, bound', alike⟩
      · rw [none, none']
        exact .none
      · rw [bound, bound']
        exact .some (alike_mono Marking.le_push alike)
    · rw [Store.bindings_of_size_le (h.size ▸ Nat.le_of_not_lt old),
        Store.bindings_of_size_le (h.size' ▸ Nat.le_of_not_lt old)]
      exact .none
  closures := h.closures
  printed := by
    obtain ⟨vs, vs', old, old', pairs⟩ := h.printed
    exact ⟨vs, vs', old, old', pairs.imp fun _ _ => alike_mono Marking.le_push⟩

theorem defineAll (h : Aligned p q before w store store') {params : List String}
    (new : q ∉ params) {args args' : List Value}
    (alikes : List.Forall₂ (Value.Alike (Closure.Twin p q w)) args args') :
    Aligned p q before w
      ((params.zip args).foldl (fun next entry => next.define s entry.1 entry.2) store)
      (((params.map (called p q (w.marked s))).zip args').foldl
        (fun next entry => next.define s entry.1 entry.2) store') := by
  induction alikes generalizing params store store' with
  | nil => simpa using h
  | cons first _ ih =>
    cases params with
    | nil => exact h
    | cons param params =>
      obtain ⟨other, new⟩ := List.ne_and_not_mem_of_not_mem_cons new
      exact ih (h.define other.symm first) new

end Aligned

theorem Store.owns_defineAll {entries : List (String × Value)} (there : s < store.scopes.size)
    (h : store.owns s name = true ∨ name ∈ entries.map (·.1)) :
    (entries.foldl (fun next entry => next.define s entry.1 entry.2) store).owns s name = true := by
  induction entries generalizing store with
  | nil => simpa using h
  | cons entry entries ih =>
    apply ih (by rwa [size_define])
    rcases h with owned | member
    · exact .inl (owns_define owned)
    · rcases List.mem_cons.mp member with same | later
      · left
        rw [owns, bindings_define, if_pos ⟨rfl, there⟩, Bindings.contains_insert, same]
        simp
      · exact .inr later

/-- A frame owns the parameters of its function. -/
theorem Store.owns_withFrame {args : List Value} (param : name ∈ c.params)
    (count : c.params.length = args.length) :
    (store.withFrame c args).owns store.scopes.size name = true := by
  apply owns_defineAll
  · rw [size_newScope]
    exact Nat.lt_succ_self _
  · rw [List.map_fst_zip (Nat.le_of_eq count)]
    exact .inr param

/-- If the parent of a frame calls the parameter by the other name, the closure has a parameter of
that name, so the frame owns it. -/
theorem Hidden.withFrame (h : Hidden p w store) (ordered : store.Ordered)
    (size : store.scopes.size = w.size) (placed : c.Placed p q w inside) {args : List Value}
    (count : c.params.length = args.length) :
    Hidden p (w.push inside) (store.withFrame c args) := by
  have grown : (store.newScope (some c.scope)).2.Extends (· = store.scopes.size)
      (store.withFrame c args) := extends_withFrame c args
  intro t there
  have made : t < (store.newScope (some c.scope)).2.scopes.size := by
    rw [Store.size_newScope, size]
    exact there
  rw [grown.parents t made, Store.parent?_newScope, size]
  by_cases old : t < w.size
  · rw [if_neg (Nat.ne_of_lt old), Marking.marked_push_of_lt old]
    rcases h t old with owned | inherited
    · left
      apply grown.bound t made
      rwa [Store.owns, Store.bindings_newScope]
    · right
      rw [inherited]
      cases goes : store.parent? t with
      | none => rfl
      | some parent =>
        have older := Nat.lt_trans (ordered t parent goes) old
        exact (Marking.marked_push_of_lt older).symm
  · obtain rfl : t = w.size := Nat.le_antisymm (Nat.le_of_lt_succ there) (Nat.le_of_not_lt old)
    rw [if_pos rfl, Marking.marked_push_new]
    rcases placed.differs with same | param
    · right
      rw [same]
      exact (Marking.marked_push_of_lt placed.there).symm
    · left
      rw [← size]
      exact Store.owns_withFrame param count

/-- The frame of a closure calls names as the closure does. -/
theorem Twins.withFrame (h : Twins p q before w store store') (twins : c.Twin p q w d)
    {args args' : List Value} (count : c.params.length = args.length)
    (alikes : List.Forall₂ (Value.Alike (Closure.Twin p q w)) args args') :
    ∃ u, w ≤ u ∧
      (store.scopes.size < u.size ∧ c.body.mentions q = false ∧
        c.body.Follows p q (u.marked store.scopes.size) d.body) ∧
      Twins p q before u (store.withFrame c args) (store'.withFrame d args') := by
  obtain ⟨inside, renames, placed⟩ := twins
  obtain ⟨aligned, hidden⟩ := h
  have framed := (aligned.newScope placed.there inside).defineAll (s := w.size) placed.avoids.1
    (alikes.imp fun _ _ => alike_mono Marking.le_push)
  rw [Marking.marked_push_new, ← renames.params] at framed
  refine ⟨w.push inside, Marking.le_push, ⟨?_, placed.avoids.2, ?_⟩, ?_, ?_⟩
  · rw [aligned.size]
    exact Nat.lt_succ_self _
  · rw [aligned.size, Marking.marked_push_new]
    exact renames.body
  · rw [Store.withFrame, Store.withFrame, aligned.size, aligned.size', ← renames.scope]
    exact framed
  · exact hidden.withFrame aligned.ordered aligned.size placed count

/-! ## The simulation -/

theorem ne_of_word (h : (Expr.word name).mentions q = false) : name ≠ q :=
  (Expr.ne_of_mentions_word h).symm

/-- The closures that a tree of `fun` and what it becomes make are twins. -/
theorem agree_function {f g a b : Expr} {as bs : List Expr}
    (h : Twins p q before w store store') (there : s < w.size)
    (fresh : (Expr.call f (a :: as)).mentions q = false)
    (tree : (Expr.call f (a :: as)).Follows p q (w.marked s) (.call g (b :: bs))) :
    Agree (fun params params' => ∃ u, w ≤ u ∧
        Closure.Twin p q u ⟨store.closures, params, (a :: as).getLast (List.cons_ne_nil _ _), s⟩
          ⟨store'.closures, params', (b :: bs).getLast (List.cons_ne_nil _ _), s⟩ ∧
        Twins p q before u { store with closures := store.closures + 1 }
          { store' with closures := store'.closures + 1 })
      (paramNames (a :: as).dropLast) (paramNames (b :: bs).dropLast) := by
  obtain ⟨inside, names, bodies, differs⟩ :=
    Expr.function_of_follows (List.cons_ne_nil a as) (List.cons_ne_nil b bs) tree
  have parts := Expr.mentions_args fresh
  rw [names]
  cases params : paramNames (a :: as).dropLast with
  | error e => exact .error e
  | ok params =>
    refine .ok ⟨w, le_rfl, ⟨inside, ⟨h.aligned.closures, rfl, rfl, bodies⟩, there, ⟨?_, ?_⟩, ?_⟩,
      h.newClosure⟩
    · exact paramNames_avoids (fun e member => parts e (List.dropLast_subset _ member)) params
    · exact parts _ (List.getLast_mem _)
    · exact differs.imp_right fun listed => Expr.mem_params_of_lists listed params

/-- The evaluations of a tree and of what it becomes, in which `p` is renamed to `q`. -/
def renamedParam (operations : Operations) (p q : String) (before : List Value)
    (blind : ∀ operation ∈ operations, operation.Blind) (plain : SpecialForm.find? p = none)
    (plain' : SpecialForm.find? q = none) : Simulation Marking operations where
  trees w s e e' := s < w.size ∧ e.mentions q = false ∧ e.Follows p q (w.marked s) e'
  closures := Closure.Twin p q
  stores := Twins p q before
  trees_mono {w u s e e'} more h := by
    rw [more.2 s h.1]
    exact ⟨Nat.lt_of_lt_of_le h.1 more.1, h.2⟩
  closures_mono := Closure.Twin.mono
  replies w id := Operations.blind_get blind id _ oneToOne_twin
  of_literal h := Expr.literal_of_follows h.2.2
  of_word h := ⟨_, Expr.word_of_follows h.2.2⟩
  of_call h := Expr.call_of_follows plain plain' h.2.2
  operator := by
    intro w s f g as bs ⟨there, fresh, tree⟩ form
    have other : f.form? ≠ some .function := by simp [form]
    exact ⟨there, Expr.mentions_operator fresh form, (Expr.parts_of_follows other tree).1⟩
  args := by
    intro w s f g as bs ⟨there, fresh, tree⟩ other
    have parts := (Expr.parts_of_follows other tree).2
    have avoid := Expr.mentions_args fresh
    exact (List.forall₂_and_left as bs).mpr ⟨avoid, parts⟩ |>.imp fun _ _ both => ⟨there, both⟩
  size h := h.aligned.size.trans h.aligned.size'.symm
  lookup := by
    intro w s x y store store' stores ⟨there, fresh, tree⟩
    cases Expr.word_of_follows tree
    exact stores.aligned.lookup stores.hidden (ne_of_word fresh) there
  define := by
    intro w s x y v v' store store' stores ⟨there, fresh, tree⟩ alike
    cases Expr.word_of_follows tree
    exact stores.define (ne_of_word fresh) alike
  set := by
    intro w s x y v v' store store' stores ⟨there, fresh, tree⟩ alike
    cases Expr.word_of_follows tree
    exact stores.set (ne_of_word fresh) there alike
  print h alikes := h.print alikes
  function := by
    intro w s f g a b as bs store store' ⟨there, fresh, tree⟩ _ stores
    exact agree_function stores there fresh tree
  params := by
    intro w c d ⟨inside, renames, _⟩
    rw [renames.params, List.length_map]
  frame stores twins count alikes := stores.withFrame twins count alikes

/-! ## Programs -/

/-- Two values are the same, but for a parameter that is renamed in closures, and have the same
text. -/
def Value.SameRenamed (p q : String) (v w : Value) : Prop :=
  Value.Alike (fun c d => ∃ inside, c.Renames p q inside d) v w ∧ v.display = w.display

theorem sameRenamed_of_twin {w : Value} {u : Marking} (h : Value.Alike (Closure.Twin p q u) v w) :
    v.SameRenamed p q w :=
  ⟨h.mono fun _ _ ⟨inside, renames, _⟩ => ⟨inside, renames⟩, h.display_eq⟩

/-- Two runs on a store end with the same error or with the same value, after the same output, but
for a parameter that is renamed in closures. -/
structure SameButParam (p q : String) (store : Store) (a b : Outcome Value) : Prop where
  result : Agree (Value.SameRenamed p q) a.1 b.1
  printed : ∃ vs ws, a.2.printed.toList = store.printed.toList ++ vs ∧
    b.2.printed.toList = store.printed.toList ++ ws ∧ List.Forall₂ (Value.SameRenamed p q) vs ws

variable {operations : Operations} {e e' : Expr} {scope : ScopeId}

/-- At the start no scope has the new name. -/
theorem twins_self (wellFormed : store.WellFormed)
    (closures : ∀ c, store.Binds c → c.Avoids q) :
    Twins p q store.printed.toList ⟨store.scopes.size, fun _ => false⟩ store store where
  aligned :=
    { size := rfl
      size' := rfl
      parents := fun _ => rfl
      ordered := wellFormed.ordered
      bindings := by
        intro s key _
        rw [called_false]
        cases found : (store.bindings s).get? key with
        | none => exact .none
        | some v =>
          apply Option.Rel.some
          apply Value.alike_self
          intro c inside
          have bound : store.Binds c := ⟨s, key, v, found, inside⟩
          exact ⟨false, ⟨rfl, rfl, (map_called_false c.params).symm, Expr.renamed_self c.body⟩,
            wellFormed.bound c bound, closures c bound, .inl rfl⟩
      closures := rfl
      printed := ⟨[], [], by simp, by simp, .nil⟩ }
  hidden s _ := by
    cases store.parent? s <;> simp

/-- Parameters can be renamed. Let `q` be a name that neither a tree nor a closure at hand mentions,
and let a parameter `p` be renamed to `q` in some functions of the tree. Then the two trees do the
same in every scope: both evaluations reach their bound, or both end, with the same error or values
that are the same but for this renaming in closures, and with the same output. -/
theorem eval_renamed (blind : ∀ operation ∈ operations, operation.Blind)
    (plain : SpecialForm.find? p = none) (plain' : SpecialForm.find? q = none)
    (wellFormed : store.WellFormed) (closures : ∀ c, store.Binds c → c.Avoids q)
    (fresh : e.mentions q = false) (renamed : Expr.Renamed p q e e')
    (there : scope < store.scopes.size) (fuel : Nat) :
    Option.Rel (SameButParam p q store) (eval operations fuel e scope store)
      (eval operations fuel e' scope store) := by
  let S := renamedParam operations p q store.printed.toList blind plain plain'
  let start : Marking := ⟨store.scopes.size, fun _ => false⟩
  have inStep : S.InStep S.values start store store (eval operations fuel e scope)
      (eval operations fuel e' scope) :=
    eval_inStep S fuel ⟨there, fresh, renamed⟩ (twins_self wellFormed closures)
  rcases split_rel inStep with ⟨stuck, stuck'⟩ | ⟨a, b, ended, ended', u, _, agree, twins⟩
  · rw [stuck, stuck']
    exact .none
  · rw [ended, ended']
    obtain ⟨vs, ws, printed, printed', alikes⟩ := twins.aligned.printed
    exact .some ⟨agree.mono fun _ _ => sameRenamed_of_twin,
      vs, ws, printed, printed', alikes.imp fun _ _ => sameRenamed_of_twin⟩

/-- Prints a parameter and yields a function that has a parameter `a` of its own. -/
def echo (name : String) : Expr :=
  .call (.word "fun") [.word name, .call (.word "do")
    [.call (.word "print") [.word name], .call (.word "fun") [.word "a", .word "a"]]]

/-- With its parameter renamed to `b` it prints the same, and yields the same function. -/
theorem echo_renamed :
    ∃ a b, eval (World.newGlobal {}).2.operations 5 (.call (echo "a") [.word "true"]) 0
        (World.newGlobal {}).2.store = some a ∧
      eval (World.newGlobal {}).2.operations 5 (.call (echo "b") [.word "true"]) 0
        (World.newGlobal {}).2.store = some b ∧
      SameButParam "a" "b" (World.newGlobal {}).2.store a b := by
  have renamed : Expr.Renamed "a" "b" (echo "a") (echo "b") := .function (by decide)
  have wellFormed : (World.newGlobal {}).2.store.WellFormed :=
    (Session.Reaches.keeps (.single .newGlobal) Session.start_wellFormed).1.store
  have there : 0 < (World.newGlobal {}).2.store.scopes.size := by decide +kernel
  have same := eval_renamed (World.forall_newGlobal Prelude.blind_prelude) (by decide) (by decide)
    wellFormed (fun c bound => absurd bound (World.not_binds_newGlobal c))
    (by decide) (.call renamed (Expr.renamed_self_all [.word "true"])) there 5
  have ends : (eval (World.newGlobal {}).2.operations 5 (.call (echo "a") [.word "true"]) 0
      (World.newGlobal {}).2.store).isSome := by decide +kernel
  rcases split_rel same with ⟨stuck, -⟩ | ⟨a, b, ended, ended', both⟩
  · rw [stuck] at ends
    cases ends
  · exact ⟨a, b, ended, ended', both⟩

end CallScript
