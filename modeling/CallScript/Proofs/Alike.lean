import CallScript.Proofs.Operation
import Mathlib.Data.List.Forall2

/-! # Values that are alike but for their closures

Two runs that do the same need not make the same closures. Their values are alike if one is the other
with every closure replaced by a related one. What a program can see of a value, its type, its truth
and its text, is the same for values that are alike. -/

namespace CallScript

/-- Two values are the same, but for the closures in them, which are related. -/
inductive Value.Alike (C : Closure → Closure → Prop) : Value → Value → Prop where
  | number (x : Float) : Alike C (.number x) (.number x)
  | string (s : String) : Alike C (.string s) (.string s)
  | boolean (b : Bool) : Alike C (.boolean b) (.boolean b)
  | array {vs ws : List Value} (items : List.Forall₂ (Alike C) vs ws) :
      Alike C (.array vs) (.array ws)
  | builtin (name : String) (id : OperationId) : Alike C (.builtin name id) (.builtin name id)
  | closure {c d : Closure} (related : C c d) : Alike C (.closure c) (.closure d)

variable {C C' : Closure → Closure → Prop}

namespace Value

variable {v w : Value} {vs ws : List Value}

mutual

/-- A value is alike to itself if its closures are related to themselves. -/
theorem alike_self {v : Value} (closures : ∀ c, v.Contains c → C c c) : Alike C v v := by
  match v with
  | .number x => exact .number x
  | .string s => exact .string s
  | .boolean b => exact .boolean b
  | .array vs =>
    apply Alike.array
    apply alike_self_all
    intro v member c inside
    exact closures c (.item member inside)
  | .builtin name id => exact .builtin name id
  | .closure c => exact .closure (closures c .closure)

theorem alike_self_all {vs : List Value} (closures : ∀ v ∈ vs, ∀ c, v.Contains c → C c c) :
    List.Forall₂ (Alike C) vs vs := by
  match vs with
  | [] => exact .nil
  | v :: vs =>
    obtain ⟨first, others⟩ := List.forall_mem_cons.mp closures
    exact .cons (alike_self first) (alike_self_all others)

end

/-- Neither an array nor a closure. -/
def Simple : Value → Prop
  | .array _ => False
  | .closure _ => False
  | _ => True

theorem Simple.not_contains (simple : v.Simple) (c : Closure) : ¬ v.Contains c := by
  intro inside
  cases inside <;> exact simple

theorem alike_literal (l : Literal) : Alike C l.toValue l.toValue :=
  alike_self fun c inside => absurd inside (l.not_contains_toValue c)

namespace Alike

theorem isFalse_eq (h : Alike C v w) : v.isFalse = w.isFalse := by
  cases h <;> rfl

theorem type_eq (h : Alike C v w) : v.type = w.type := by
  cases h <;> rfl

/-- What holds of simple values and of related closures, and of arrays if it holds of their items in
pairs, holds of values that are alike. -/
theorem pairs {motive : Value → Value → Prop} (simple : ∀ v, v.Simple → motive v v)
    (array : ∀ vs ws, List.Forall₂ (fun v w => Alike C v w ∧ motive v w) vs ws →
      motive (.array vs) (.array ws))
    (closure : ∀ c d, C c d → motive (.closure c) (.closure d)) (h : Alike C v w) :
    motive v w := by
  refine @Alike.rec C (fun v w _ => motive v w)
    (fun vs ws _ => List.Forall₂ (fun v w => Alike C v w ∧ motive v w) vs ws)
    ?number ?string ?boolean ?array ?builtin ?closure ?nil ?cons v w h
  case number => exact fun x => simple (.number x) trivial
  case string => exact fun s => simple (.string s) trivial
  case boolean => exact fun b => simple (.boolean b) trivial
  case builtin => exact fun name id => simple (.builtin name id) trivial
  case array => exact fun _ items => array _ _ items
  case closure => exact fun related => closure _ _ related
  case nil => exact .nil
  case cons => exact fun alike _ holds others => .cons ⟨alike, holds⟩ others

theorem mono (more : ∀ c d, C c d → C' c d) (h : Alike C v w) : Alike C' v w := by
  refine pairs ?_ ?_ ?_ h
  · intro v simple
    exact alike_self fun c inside => absurd inside (simple.not_contains c)
  · intro vs ws items
    exact .array (items.imp fun _ _ both => both.2)
  · intro c d related
    exact .closure (more c d related)

/-- Values are equal if only equal closures are related. -/
theorem eq_of_closures (same : ∀ c d, C c d → c = d) (h : Alike C v w) : v = w := by
  refine pairs ?_ ?_ ?_ h
  · intro v _
    rfl
  · intro vs ws items
    have equal : List.Forall₂ (· = ·) vs ws := items.imp fun _ _ both => both.2
    rw [List.forall₂_eq_eq_eq] at equal
    rw [equal]
  · intro c d related
    rw [same c d related]

theorem eq_all_of_closures (same : ∀ c d, C c d → c = d) (h : List.Forall₂ (Alike C) vs ws) :
    vs = ws := by
  have equal : List.Forall₂ (· = ·) vs ws := h.imp fun _ _ alike => alike.eq_of_closures same
  rwa [List.forall₂_eq_eq_eq] at equal

/-- What holds of every closure that is related to another holds of the closures in the value. -/
theorem closures {P : Closure → Prop} (known : ∀ c d, C c d → P c) (h : Alike C v w) :
    ∀ c, v.Contains c → P c := by
  refine pairs (motive := fun v _ => ∀ c, v.Contains c → P c) ?_ ?_ ?_ h
  · intro v simple c inside
    exact absurd inside (simple.not_contains c)
  · intro vs ws items c inside
    obtain ⟨v, member, inside⟩ := contains_array_iff.mp inside
    have parts := ((List.forall₂_and_left vs ws).mp (items.imp fun _ _ both => both.symm)).1
    exact parts v member c inside
  · intro c d related e inside
    rw [contains_closure_iff.mp inside]
    exact known c d related

theorem displayItems_eq (h : List.Forall₂ (fun v w => Alike C v w ∧ v.display = w.display) vs ws) :
    displayItems vs = displayItems ws := by
  induction h with
  | nil => rfl
  | cons first _ ih =>
    obtain ⟨alike, texts⟩ := first
    cases alike <;> simp [displayItems, ih, texts]

theorem display_eq (h : Alike C v w) : v.display = w.display := by
  refine pairs (motive := fun v w => v.display = w.display) ?_ ?_ ?_ h
  · intro v _
    rfl
  · intro vs ws items
    rw [display, display, displayItems_eq items]
  · intro c d _
    rfl

end Alike

end Value

/-! ## Results and replies -/

/-- Two results are the same error, or values that are related. -/
inductive Agree {α β : Type} (R : α → β → Prop) : Except Error α → Except Error β → Prop where
  | ok {a : α} {b : β} (related : R a b) : Agree R (.ok a) (.ok b)
  | error (e : Error) : Agree R (.error e) (.error e)

/-- Two results that agree, taken apart. -/
theorem Agree.split {α β : Type} {R : α → β → Prop} {x : Except Error α} {y : Except Error β}
    (h : Agree R x y) :
    (∃ e, x = .error e ∧ y = .error e) ∨ ∃ a b, x = .ok a ∧ y = .ok b ∧ R a b := by
  cases h with
  | ok related => exact .inr ⟨_, _, rfl, rfl, related⟩
  | error e => exact .inl ⟨e, rfl, rfl⟩

theorem Agree.mono {α β : Type} {R S : α → β → Prop} {x : Except Error α} {y : Except Error β}
    (more : ∀ a b, R a b → S a b) (h : Agree R x y) : Agree S x y := by
  cases h with
  | ok related => exact .ok (more _ _ related)
  | error e => exact .error e

/-- Two optional values that are related, taken apart. -/
theorem split_rel {α β : Type} {R : α → β → Prop} {x : Option α} {y : Option β}
    (h : Option.Rel R x y) :
    (x = none ∧ y = none) ∨ ∃ a b, x = some a ∧ y = some b ∧ R a b := by
  cases h with
  | none => exact .inl ⟨rfl, rfl⟩
  | some related => exact .inr ⟨_, _, rfl, rfl, related⟩

/-- Two replies print values that are alike, and agree in their results. -/
structure Reply.Alike (C : Closure → Closure → Prop) (r s : Reply) : Prop where
  printed : List.Forall₂ (Value.Alike C) r.printed s.printed
  result : Agree (Value.Alike C) r.result s.result

theorem Reply.alike_fail (error : Error) : Reply.Alike C (.fail error) (.fail error) :=
  ⟨.nil, .error error⟩

theorem Reply.alike_self {r : Reply} (closures : ∀ c, r.Contains c → C c c) :
    Reply.Alike C r r where
  printed := Value.alike_self_all fun v member c inside => closures c (.inl ⟨v, member, inside⟩)
  result := by
    obtain ⟨printed, result⟩ := r
    cases result with
    | ok v => exact .ok (Value.alike_self fun c inside => closures c (.inr ⟨v, rfl, inside⟩))
    | error e => exact .error e

/-- On arguments that are alike an operation gives replies that are alike. -/
def Operation.Respects (C : Closure → Closure → Prop) (operation : Operation) : Prop :=
  ∀ args args', List.Forall₂ (Value.Alike C) args args' →
    Reply.Alike C (operation args) (operation args')

/-- An operation that brings known closures only respects a relation that leaves these unchanged. -/
theorem Operation.Brings.respects {known : Closure → Prop} {operation : Operation}
    (brings : operation.Brings known) :
    operation.Respects fun c d => c = d ∧ known c := by
  intro args args' alike
  obtain rfl := Value.Alike.eq_all_of_closures (fun _ _ related => related.1) alike
  apply Reply.alike_self
  intro c found
  refine ⟨rfl, ?_⟩
  rcases brings args c found with made | ⟨v, member, inside⟩
  · exact made
  · exact (List.forall₂_same.mp alike v member).closures (fun c d related => related.2) c inside

end CallScript
