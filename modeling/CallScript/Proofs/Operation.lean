import CallScript.Prelude
import CallScript.Proofs.Store

/-! # The closures in a reply

An operation has no closures but those it is called with and those it was made with. The operations
of the prelude were made with none (`forwards_prelude`). -/

namespace CallScript

/-- A closure is found in what a reply prints or in its result. -/
def Reply.Contains (r : Reply) (c : Closure) : Prop :=
  (∃ v ∈ r.printed, v.Contains c) ∨ ∃ v, r.result = .ok v ∧ v.Contains c

/-- The closures of every reply are found in the arguments, or are `known` to the operation. -/
def Operation.Brings (known : Closure → Prop) (operation : Operation) : Prop :=
  ∀ args c, (operation args).Contains c → known c ∨ ∃ a ∈ args, a.Contains c

theorem Reply.not_contains_fail (error : Error) (c : Closure) :
    ¬ (Reply.fail error).Contains c := by
  intro h
  rcases h with ⟨v, member, -⟩ | ⟨v, result, -⟩
  · cases member
  · cases result

variable {known known' : Closure → Prop} {operation : Operation} {operations : Operations}

theorem Operation.Brings.mono (more : ∀ c, known c → known' c) (h : operation.Brings known) :
    operation.Brings known' := by
  intro args c found
  exact (h args c found).imp_left (more c)

/-- What holds of all operations and of failing holds of the operation of every number. -/
theorem Operations.forall_get {P : Operation → Prop} (h : ∀ operation ∈ operations, P operation)
    (failing : ∀ fault, P fun _ => .fail (.runError fault)) (id : OperationId) :
    P (operations.get id) := by
  rw [Operations.get, Array.getD_eq_getD_getElem?]
  cases found : operations[id]? with
  | some operation => exact h operation (Array.mem_of_getElem? found)
  | none => exact failing _

theorem Operations.brings_get (h : ∀ operation ∈ operations, operation.Brings known)
    (id : OperationId) : (operations.get id).Brings known := by
  apply forall_get h
  intro fault args c contained
  exact absurd contained (Reply.not_contains_fail _ c)

/-! ## Adapters -/

namespace Operation

variable {α : Type} [ToReply α]

theorem brings_unary {p : Param} {f : p.Arg → α}
    (h : ∀ v a, p.convert v = .ok a → ∀ c, (toReply (f a)).Contains c → known c ∨ v.Contains c) :
    (unary p f).Brings known := by
  intro args c found
  revert found
  fun_cases unary p f args with
  | case1 v a converted =>
    intro found
    exact (h v a converted c found).imp_right fun inside => ⟨v, List.mem_cons_self, inside⟩
  | case2 | case3 =>
    intro found
    exact absurd found (Reply.not_contains_fail _ c)

theorem brings_binary {p q : Param} {f : p.Arg → q.Arg → α}
    (h : ∀ v w a b, p.convert v = .ok a → q.convert w = .ok b →
      ∀ c, (toReply (f a b)).Contains c → known c ∨ v.Contains c ∨ w.Contains c) :
    (binary p q f).Brings known := by
  intro args c found
  revert found
  fun_cases binary p q f args with
  | case3 v w a first b second =>
    intro found
    rcases h v w a b first second c found with made | inside | inside
    · exact .inl made
    · exact .inr ⟨v, by simp, inside⟩
    · exact .inr ⟨w, by simp, inside⟩
  | case1 | case2 | case4 =>
    intro found
    exact absurd found (Reply.not_contains_fail _ c)

/-- A function whose replies have no closures brings none. -/
theorem brings_binary_plain {p q : Param} {f : p.Arg → q.Arg → α}
    (h : ∀ a b c, ¬ (toReply (f a b)).Contains c) : (binary p q f).Brings known := by
  apply brings_binary
  intro v w a b _ _ c found
  exact absurd found (h a b c)

theorem brings_variadic {arity : Arity} {f : List Value → α}
    (h : ∀ args c, (toReply (f args)).Contains c → known c ∨ ∃ a ∈ args, a.Contains c) :
    (variadic arity f).Brings known := by
  intro args c found
  rw [variadic] at found
  split at found
  next => exact h args c found
  next => exact absurd found (Reply.not_contains_fail _ c)

end Operation

/-! ## Replies without closures -/

namespace Reply

theorem contains_toReply_value {v : Value} {c : Closure} :
    (toReply v : Reply).Contains c ↔ v.Contains c := by
  constructor
  · intro found
    rcases found with ⟨w, member, -⟩ | ⟨w, result, inside⟩
    · cases member
    · cases result
      exact inside
  · intro inside
    exact .inr ⟨v, rfl, inside⟩

theorem not_contains_toReply_except {α : Type} [ToReply α]
    (h : ∀ (a : α) c, ¬ (toReply a : Reply).Contains c) (x : Except Error α) (c : Closure) :
    ¬ (toReply x : Reply).Contains c := by
  cases x with
  | ok a => exact h a c
  | error e => exact not_contains_fail e c

theorem not_contains_toReply_float (x : Float) (c : Closure) :
    ¬ (toReply x : Reply).Contains c := by
  intro found
  have inside : (Value.number x).Contains c := contains_toReply_value.mp found
  cases inside

theorem not_contains_toReply_bool (b : Bool) (c : Closure) :
    ¬ (toReply b : Reply).Contains c := by
  intro found
  have inside : (Value.boolean b).Contains c := contains_toReply_value.mp found
  cases inside

theorem not_contains_toReply_nat (n : Nat) (c : Closure) : ¬ (toReply n : Reply).Contains c := by
  intro found
  have inside : (Value.number (Number.ofNat n)).Contains c := contains_toReply_value.mp found
  cases inside

end Reply

/-! ## The prelude -/

namespace Prelude

open Reply

theorem not_contains_add (a b : Value) (c : Closure) :
    ¬ (toReply (add a b) : Reply).Contains c := by
  fun_cases add a b with
  | case1 x y => exact not_contains_toReply_float (x + y) c
  | case2 s t =>
    intro found
    have inside : (Value.string (s ++ t)).Contains c := contains_toReply_value.mp found
    cases inside
  | case3 => exact not_contains_fail _ c

theorem contains_of_element {v : Value} {items : List Value} {index : Float} {c : Closure}
    (array : Param.items.convert v = .ok items)
    (found : (toReply (element items index) : Reply).Contains c) : v.Contains c := by
  revert found
  fun_cases element items index with
  | case1 | case3 =>
    intro found
    exact absurd found (not_contains_fail _ c)
  | case2 n known item there =>
    intro found
    have inside : item.Contains c := contains_toReply_value.mp found
    cases v with
    | array values =>
      cases array
      exact .item (List.mem_of_getElem? there) inside
    | number | string | boolean | builtin | closure => cases array

theorem contains_of_print {v : Value} {c : Closure} (found : (print v).Contains c) :
    v.Contains c := by
  rcases found with ⟨w, member, inside⟩ | ⟨w, result, inside⟩
  · rwa [List.mem_singleton.mp member] at inside
  · cases result
    exact inside

/-- The operations of the prelude have no closures but those of their arguments. -/
theorem forwards_prelude (entry : String × Operation) (member : entry ∈ Prelude.operations) :
    entry.2.Brings known := by
  -- the first seven yield no closures at all, the others only those of their arguments
  simp only [Prelude.operations, List.mem_cons, List.not_mem_nil, or_false] at member
  rcases member with rfl | rfl | rfl | rfl | rfl | rfl | rfl | rfl | rfl | rfl | rfl
  · exact Operation.brings_binary_plain not_contains_add
  · exact Operation.brings_binary_plain fun a b => not_contains_toReply_float (a - b)
  · exact Operation.brings_binary_plain fun a b => not_contains_toReply_float (a * b)
  · exact Operation.brings_binary_plain fun a b => not_contains_toReply_float (a / b)
  · exact Operation.brings_binary_plain fun a b =>
      not_contains_toReply_except not_contains_toReply_bool (less a b)
  · exact Operation.brings_binary_plain fun a b =>
      not_contains_toReply_except not_contains_toReply_bool (greater a b)
  · exact Operation.brings_binary_plain fun a b =>
      not_contains_toReply_except not_contains_toReply_bool (equal a b)
  · apply Operation.brings_unary
    intro v a converted c found
    cases converted
    exact .inr (contains_of_print found)
  · apply Operation.brings_variadic
    intro args c found
    exact .inr (Value.contains_array_iff.mp (contains_toReply_value.mp found))
  · apply Operation.brings_unary
    intro v items _ c found
    exact absurd found (not_contains_toReply_nat items.length c)
  · apply Operation.brings_binary
    intro v w items index array _ c found
    exact .inr (.inl (contains_of_element array found))

end Prelude

end CallScript
