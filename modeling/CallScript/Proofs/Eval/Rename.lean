import CallScript.Proofs.Eval.Unmentioned

/-! # Renaming a parameter in trees

A parameter of a function is renamed in the list of parameters and throughout the body, but not in
functions inside the body that have a parameter of that name themselves. What is evaluated in the
frame of a renamed function is renamed throughout, and what is evaluated elsewhere is renamed in
some of its functions only. -/

namespace CallScript

/-- What a name is called where `p` is called `q`, and where it is not. -/
def called (p q : String) (inside : Bool) (name : String) : String :=
  if inside ∧ name = p then q else name

variable {p q name key : String} {inside : Bool}

@[simp] theorem called_false : called p q false name = name := by
  simp [called]

theorem called_of_ne (other : name ≠ p) : called p q inside name = name := by
  simp [called, other]

@[simp] theorem map_called_false (names : List String) : names.map (called p q false) = names := by
  exact (List.map_congr_left fun _ _ => called_false).trans (List.map_id names)

/-- Different names stay different, unless one of them is the new name. -/
theorem called_eq_called_iff (new : name ≠ q) (new' : key ≠ q) :
    called p q inside name = called p q inside key ↔ name = key := by
  simp only [called]
  grind

namespace Expr

/-- Whether a call is one of `fun` with the name among its parameters. -/
def lists (name : String) (operator : Expr) (args : List Expr) : Bool :=
  operator.form? == some .function && args.dropLast.any fun e => e.asWord? == some name

mutual

/-- A tree with `q` for `p` in every word that is not inside a function with a parameter `p`. -/
def rename (p q : String) : Expr → Expr
  | .literal l => .literal l
  | .word name => .word (called p q true name)
  | .call operator args =>
    if lists p operator args then .call operator args
    else .call (rename p q operator) (renameAll p q args)

def renameAll (p q : String) : List Expr → List Expr
  | [] => []
  | e :: es => rename p q e :: renameAll p q es

end

/-- In some functions with a parameter `p` this parameter is renamed to `q`. -/
inductive Renamed (p q : String) : Expr → Expr → Prop where
  | literal (l : Literal) : Renamed p q (.literal l) (.literal l)
  | word (name : String) : Renamed p q (.word name) (.word name)
  | call {f g : Expr} {as bs : List Expr} (operators : Renamed p q f g)
      (args : List.Forall₂ (Renamed p q) as bs) : Renamed p q (.call f as) (.call g bs)
  | function {f : Expr} {as : List Expr} (listed : lists p f as = true) :
      Renamed p q (.call f as) (.call f (as.map (rename p q)))

/-- What a tree becomes in the frame of a renamed function, and in other scopes. -/
def Follows (p q : String) : (inside : Bool) → Expr → Expr → Prop
  | true, e, e' => e' = e.rename p q
  | false, e, e' => Renamed p q e e'

variable {e e' f g : Expr} {es es' as bs : List Expr}

/-! ## Trees that are renamed throughout -/

theorem renameAll_eq_map (es : List Expr) : renameAll p q es = es.map (rename p q) := by
  induction es with
  | nil => rfl
  | cons e es ih => rw [renameAll, ih, List.map_cons]

theorem rename_call_of_lists (listed : lists p f as = true) :
    (call f as).rename p q = call f as := by
  rw [rename, if_pos listed]

theorem rename_call (unlisted : lists p f as = false) :
    (call f as).rename p q = call (f.rename p q) (as.map (rename p q)) := by
  rw [rename, unlisted, renameAll_eq_map]
  rfl

/-- The words that call special forms are not renamed, and no other word becomes one. -/
theorem form?_rename (plain : SpecialForm.find? p = none) (plain' : SpecialForm.find? q = none)
    (e : Expr) : (e.rename p q).form? = e.form? := by
  cases e with
  | literal => rfl
  | word name =>
    by_cases here : name = p
    · simp [rename, called, here, form?, asWord?, plain, plain']
    · rw [rename, called_of_ne here]
  | call operator args =>
    rw [rename]
    split <;> rfl

theorem paramNames_rename (es : List Expr) :
    paramNames (es.map (rename p q)) = (paramNames es).map (List.map (called p q true)) := by
  induction es with
  | nil => rfl
  | cons e es ih =>
    cases e with
    | word name =>
      rw [List.map_cons, rename, paramNames, paramNames, ih]
      cases paramNames es <;> rfl
    | literal => rfl
    | call operator args =>
      rw [List.map_cons, rename]
      split <;> rfl

/-! ## Trees with renamed functions -/

mutual

theorem renamed_self (e : Expr) : Renamed p q e e := by
  match e with
  | .literal l => exact .literal l
  | .word name => exact .word name
  | .call f as => exact .call (renamed_self f) (renamed_self_all as)

theorem renamed_self_all (es : List Expr) : List.Forall₂ (Renamed p q) es es := by
  match es with
  | [] => exact .nil
  | e :: es => exact .cons (renamed_self e) (renamed_self_all es)

end

theorem paramNames_renamed (h : List.Forall₂ (Renamed p q) es es') :
    paramNames es' = paramNames es := by
  induction h with
  | nil => rfl
  | cons first _ ih =>
    cases first with
    | word name => rw [paramNames, paramNames, ih]
    | literal | call | function => rfl

theorem Renamed.form?_eq (h : Renamed p q e e') : e'.form? = e.form? := by
  cases h <;> rfl

/-! ## What trees become -/

theorem literal_of_follows {l : Literal} (h : (literal l).Follows p q inside e') :
    e' = literal l := by
  cases inside with
  | true => exact h
  | false =>
    cases h
    rfl

theorem word_of_follows (h : (word name).Follows p q inside e') :
    e' = word (called p q inside name) := by
  cases inside with
  | true => exact h
  | false =>
    cases h
    rw [called_false]

section

variable (plain : SpecialForm.find? p = none) (plain' : SpecialForm.find? q = none)

include plain plain' in
theorem call_of_follows (h : (call f as).Follows p q inside e') :
    ∃ g bs, e' = call g bs ∧ f.form? = g.form? ∧ as.length = bs.length := by
  cases inside with
  | true =>
    cases listed : lists p f as with
    | true => exact ⟨f, as, h.trans (rename_call_of_lists listed), rfl, rfl⟩
    | false =>
      refine ⟨_, _, h.trans (rename_call listed), ?_, ?_⟩
      · rw [form?_rename plain plain']
      · rw [List.length_map]
  | false =>
    cases h with
    | call operators args => exact ⟨_, _, rfl, operators.form?_eq.symm, args.length_eq⟩
    | function => exact ⟨_, _, rfl, rfl, (List.length_map _).symm⟩

end

/-- Outside the special form `fun` the parts of a call become what they are by themselves. -/
theorem parts_of_follows (other : f.form? ≠ some .function)
    (h : (call f as).Follows p q inside (call g bs)) :
    f.Follows p q inside g ∧ List.Forall₂ (Follows p q inside) as bs := by
  have unlisted : lists p f as = false := by
    simp [lists, other]
  cases inside with
  | true =>
    cases h.trans (rename_call unlisted)
    exact ⟨rfl, List.forall₂_map_right_iff.mpr (List.forall₂_same.mpr fun _ _ => rfl)⟩
  | false =>
    cases h with
    | call operators args => exact ⟨operators, args⟩
    | function listed =>
      rw [unlisted] at listed
      cases listed

/-- A word that a function lists is one of its parameters. -/
theorem mem_params_of_lists (listed : lists p f as = true) {params : List String}
    (names : paramNames as.dropLast = .ok params) : p ∈ params := by
  rw [lists, Bool.and_eq_true, eq_words_of_paramNames names, List.any_map, List.any_eq_true]
    at listed
  obtain ⟨-, name, member, same⟩ := listed
  cases beq_iff_eq.mp same
  exact member

/-- A function becomes one whose parameters and body are called alike: as its scope has it, unless
the function has the parameter itself. -/
theorem function_of_follows (some : as ≠ []) (some' : bs ≠ [])
    (h : (call f as).Follows p q inside (call g bs)) :
    ∃ within, paramNames bs.dropLast =
        (paramNames as.dropLast).map (List.map (called p q within)) ∧
      (as.getLast some).Follows p q within (bs.getLast some') ∧
      (within = inside ∨ lists p f as = true) := by
  have renamed : ∀ {cs : List Expr} (some : as ≠ []) (some' : cs ≠ []), cs = as.map (rename p q) →
      paramNames cs.dropLast = (paramNames as.dropLast).map (List.map (called p q true)) ∧
        (as.getLast some).Follows p q true (cs.getLast some') := by
    rintro cs some some' rfl
    rw [← List.map_dropLast, List.getLast_map, paramNames_rename]
    exact ⟨rfl, rfl⟩
  have same : ∀ {names : Except Error (List String)},
      names = names.map (List.map (called p q false)) := by
    intro names
    cases names <;> simp [Except.map]
  cases inside with
  | true =>
    cases listed : lists p f as with
    | true =>
      cases h.trans (rename_call_of_lists listed)
      exact ⟨false, same, renamed_self _, .inr rfl⟩
    | false =>
      cases h.trans (rename_call listed)
      obtain ⟨names, bodies⟩ := renamed some some' rfl
      exact ⟨true, names, bodies, .inl rfl⟩
  | false =>
    cases h with
    | call operators args =>
      refine ⟨false, ?_, ?_, .inl rfl⟩
      · rw [← same]
        rw [List.dropLast_eq_take, List.dropLast_eq_take, args.length_eq]
        exact paramNames_renamed (List.forall₂_take _ args)
      · rw [List.getLast_eq_getElem, List.getLast_eq_getElem]
        simp only [args.length_eq]
        exact args.get _ _
    | function listed =>
      obtain ⟨names, bodies⟩ := renamed some some' rfl
      exact ⟨true, names, bodies, .inr listed⟩

end Expr

end CallScript
