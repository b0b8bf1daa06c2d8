import CallScript.Proofs.Alike

/-! # Operations that take closures as they are

Closures are told apart by a number, which is not the program's business. An operation is uniform if
it gives replies that are alike when every closure in its arguments is replaced by another one that
differs in its number only, one for one, and blind if the closures may differ in any other way, too.
The operations of the prelude are blind (`blind_prelude`), and so they are uniform. -/

namespace CallScript

/-- Closures are replaced one for one. -/
def OneToOne (C : Closure → Closure → Prop) : Prop :=
  ∀ {c d c' d'}, C c d → C c' d' → (c.serial = c'.serial ↔ d.serial = d'.serial)

/-- Related closures differ in their numbers only, and are replaced one for one. -/
structure Renumbering (C : Closure → Closure → Prop) : Prop where
  params {c d : Closure} : C c d → c.params = d.params
  body {c d : Closure} : C c d → c.body = d.body
  scope {c d : Closure} : C c d → c.scope = d.scope
  one_to_one {c d c' d' : Closure} : C c d → C c' d' → (c.serial = c'.serial ↔ d.serial = d'.serial)

/-- An operation that takes no notice of how closures are numbered. -/
def Operation.Uniform (operation : Operation) : Prop :=
  ∀ C, Renumbering C → operation.Respects C

/-- An operation that takes no notice of anything in closures, but may tell whether two are the
same. -/
def Operation.Blind (operation : Operation) : Prop :=
  ∀ C, OneToOne C → operation.Respects C

theorem Operation.Blind.uniform {operation : Operation} (blind : operation.Blind) :
    operation.Uniform :=
  fun C renumbering => blind C renumbering.one_to_one

theorem Operations.blind_get {operations : Operations}
    (h : ∀ operation ∈ operations, operation.Blind) (id : OperationId) :
    (operations.get id).Blind := by
  apply forall_get h
  intro fault C _ args args' _
  exact Reply.alike_fail _

theorem Operations.uniform_get {operations : Operations}
    (h : ∀ operation ∈ operations, operation.Uniform) (id : OperationId) :
    (operations.get id).Uniform := by
  apply forall_get h
  intro fault C _ args args' _
  exact Reply.alike_fail _

variable {C : Closure → Closure → Prop} {v w v' w' : Value}

/-! ## Equality -/

theorem Value.sameAll_eq {vs ws vs' ws' : List Value}
    (h : List.Forall₂
      (fun v w => Alike C v w ∧ ∀ v' w', Alike C v' w' → same v v' = same w w') vs ws)
    (h' : List.Forall₂ (Alike C) vs' ws') : sameAll vs vs' = sameAll ws ws' := by
  induction h generalizing vs' ws' with
  | nil => cases h' <;> rfl
  | cons first _ ih =>
    cases h' with
    | nil => rfl
    | cons first' others' => rw [sameAll, sameAll, first.2 _ _ first', ih others']

/-- Replacing closures one for one keeps equality. -/
theorem Value.Alike.same_eq (oneToOne : OneToOne C) (h : Alike C v w) (h' : Alike C v' w') :
    same v v' = same w w' := by
  revert v' w'
  refine pairs (motive := fun v w => ∀ {v' w'}, Alike C v' w' → same v v' = same w w') ?_ ?_ ?_ h
  · intro v simple v' w' h'
    cases h' <;> cases v <;> first | rfl | cases simple
  · intro vs ws items v' w' h'
    cases h' with
    | array items' => exact sameAll_eq items items'
    | _ => rfl
  · intro c d related v' w' h'
    cases h' with
    | closure related' =>
      rw [same, same, Bool.eq_iff_iff, beq_iff_eq, beq_iff_eq]
      exact oneToOne related related'
    | _ => rfl

/-! ## Adapters -/

namespace Param

/-- What a parameter receives of values that are alike. -/
def ArgAlike (C : Closure → Closure → Prop) : (p : Param) → p.Arg → p.Arg → Prop
  | .number => (· = ·)
  | .boolean => (· = ·)
  | .string => (· = ·)
  | .any => Value.Alike C
  | .items => List.Forall₂ (Value.Alike C)

theorem agree_convert (p : Param) (h : Value.Alike C v w) :
    Agree (p.ArgAlike C) (p.convert v) (p.convert w) := by
  cases p with
  | any => exact .ok h
  | number =>
    cases h with
    | number => exact .ok rfl
    | _ => exact .error _
  | boolean =>
    cases h with
    | boolean => exact .ok rfl
    | _ => exact .error _
  | string =>
    cases h with
    | string => exact .ok rfl
    | _ => exact .error _
  | items =>
    cases h with
    | array items => exact .ok items
    | _ => exact .error _

end Param

namespace Operation

variable {α : Type} [ToReply α]

theorem respects_unary {p : Param} {f : p.Arg → α}
    (h : ∀ a b, p.ArgAlike C a b → Reply.Alike C (toReply (f a)) (toReply (f b))) :
    (unary p f).Respects C := by
  intro args args' alikes
  match args, args', alikes with
  | [], [], .nil => exact Reply.alike_fail _
  | [v], [w], .cons first .nil =>
    rcases (p.agree_convert first).split with ⟨e, fails, fails'⟩ | ⟨a, b, known, known', related⟩
    · rw [unary, unary, fails, fails']
      exact Reply.alike_fail e
    · rw [unary, unary, known, known']
      exact h a b related
  | v :: v' :: vs, w :: w' :: ws, .cons _ (.cons _ others) =>
    show Reply.Alike C (.fail (.wrongArity 1 (vs.length + 2)))
      (.fail (.wrongArity 1 (ws.length + 2)))
    rw [others.length_eq]
    exact Reply.alike_fail _

theorem respects_binary {p q : Param} {f : p.Arg → q.Arg → α}
    (h : ∀ a b x y, p.ArgAlike C a b → q.ArgAlike C x y →
      Reply.Alike C (toReply (f a x)) (toReply (f b y))) :
    (binary p q f).Respects C := by
  intro args args' alikes
  match args, args', alikes with
  | [], [], .nil => exact Reply.alike_fail _
  | [v], [w], .cons _ .nil => exact Reply.alike_fail _
  | [v, v'], [w, w'], .cons first (.cons second .nil) =>
    rw [binary, binary]
    rcases (p.agree_convert first).split with ⟨e, fails, fails'⟩ | ⟨a, b, known, known', related⟩
    · rw [fails, fails']
      exact Reply.alike_fail e
    · rw [known, known']
      rcases (q.agree_convert second).split with ⟨e, fails, fails'⟩ | ⟨x, y, given, given', other⟩
      · rw [fails, fails']
        exact Reply.alike_fail e
      · rw [given, given']
        exact h a b x y related other
  | v :: v' :: v'' :: vs, w :: w' :: w'' :: ws, .cons _ (.cons _ (.cons _ others)) =>
    show Reply.Alike C (.fail (.wrongArity 2 (vs.length + 3)))
      (.fail (.wrongArity 2 (ws.length + 3)))
    rw [others.length_eq]
    exact Reply.alike_fail _

/-- A function whose replies have no closures has to reply the same. -/
theorem respects_binary_plain {p q : Param} {f : p.Arg → q.Arg → α}
    (same : ∀ a b x y, p.ArgAlike C a b → q.ArgAlike C x y → f a x = f b y)
    (plain : ∀ a x c, ¬ (toReply (f a x)).Contains c) : (binary p q f).Respects C := by
  apply respects_binary
  intro a b x y first second
  rw [same a b x y first second]
  exact Reply.alike_self fun c inside => absurd inside (plain b y c)

theorem respects_variadic {arity : Arity} {f : List Value → α}
    (h : ∀ vs ws, List.Forall₂ (Value.Alike C) vs ws →
      Reply.Alike C (toReply (f vs)) (toReply (f ws))) :
    (variadic arity f).Respects C := by
  intro args args' alikes
  rw [variadic, variadic, alikes.length_eq]
  split
  next => exact h _ _ alikes
  next => exact Reply.alike_fail _

end Operation

/-! ## The prelude -/

namespace Prelude

theorem add_eq (h : Value.Alike C v w) (h' : Value.Alike C v' w') : add v v' = add w w' := by
  cases h <;> cases h' <;> rfl

theorem less_eq (h : Value.Alike C v w) (h' : Value.Alike C v' w') : less v v' = less w w' := by
  cases h <;> cases h' <;> rfl

theorem greater_eq (h : Value.Alike C v w) (h' : Value.Alike C v' w') :
    greater v v' = greater w w' := by
  cases h <;> cases h' <;> rfl

theorem equal_eq (oneToOne : OneToOne C) (h : Value.Alike C v w) (h' : Value.Alike C v' w') :
    equal v v' = equal w w' := by
  have same : (v == v') = (w == w') := h.same_eq oneToOne h'
  rw [equal, equal, cannotCombine, cannotCombine, h.type_eq, h'.type_eq, same]

theorem rel_getElem? {vs ws : List Value} (items : List.Forall₂ (Value.Alike C) vs ws) (n : Nat) :
    Option.Rel (Value.Alike C) vs[n]? ws[n]? := by
  induction items generalizing n with
  | nil => exact .none
  | cons first _ ih =>
    cases n with
    | zero => exact .some first
    | succ n => exact ih n

theorem alike_element {vs ws : List Value} (items : List.Forall₂ (Value.Alike C) vs ws)
    (x : Float) :
    Reply.Alike C (toReply (element vs x)) (toReply (element ws x)) := by
  rw [element, element]
  cases Number.toNat? x with
  | none => exact Reply.alike_fail _
  | some n =>
    dsimp only
    rw [items.length_eq]
    rcases split_rel (rel_getElem? items n) with ⟨none, none'⟩ | ⟨v, w, found, found', alike⟩
    · rw [none, none']
      exact Reply.alike_fail _
    · rw [found, found']
      exact ⟨.nil, .ok alike⟩

/-- The operations of the prelude take closures as they are. -/
theorem blind_prelude (entry : String × Operation) (member : entry ∈ Prelude.operations) :
    entry.2.Blind := by
  intro C oneToOne
  -- the first seven yield no closures at all, the others only those of their arguments
  simp only [Prelude.operations, List.mem_cons, List.not_mem_nil, or_false] at member
  rcases member with rfl | rfl | rfl | rfl | rfl | rfl | rfl | rfl | rfl | rfl | rfl <;> dsimp only
  · exact Operation.respects_binary_plain (fun _ _ _ _ => add_eq) not_contains_add
  · exact Operation.respects_binary_plain (fun _ _ _ _ => congrArg₂ _)
      fun a b => Reply.not_contains_toReply_float (a - b)
  · exact Operation.respects_binary_plain (fun _ _ _ _ => congrArg₂ _)
      fun a b => Reply.not_contains_toReply_float (a * b)
  · exact Operation.respects_binary_plain (fun _ _ _ _ => congrArg₂ _)
      fun a b => Reply.not_contains_toReply_float (a / b)
  · exact Operation.respects_binary_plain (fun _ _ _ _ => less_eq) fun a b =>
      Reply.not_contains_toReply_except Reply.not_contains_toReply_bool (less a b)
  · exact Operation.respects_binary_plain (fun _ _ _ _ => greater_eq) fun a b =>
      Reply.not_contains_toReply_except Reply.not_contains_toReply_bool (greater a b)
  · exact Operation.respects_binary_plain (fun _ _ _ _ => equal_eq oneToOne) fun a b =>
      Reply.not_contains_toReply_except Reply.not_contains_toReply_bool (equal a b)
  · apply Operation.respects_unary
    intro v w alike
    exact ⟨.cons alike .nil, .ok alike⟩
  · apply Operation.respects_variadic
    intro vs ws items
    exact ⟨.nil, .ok (.array items)⟩
  · apply Operation.respects_unary
    intro vs ws items
    have counts : vs.length = ws.length := List.Forall₂.length_eq items
    rw [counts]
    exact ⟨.nil, .ok (.number _)⟩
  · apply Operation.respects_binary
    intro vs ws x y items same
    cases same
    exact alike_element items x

theorem uniform_prelude (entry : String × Operation) (member : entry ∈ Prelude.operations) :
    entry.2.Uniform :=
  (blind_prelude entry member).uniform

end Prelude

end CallScript
