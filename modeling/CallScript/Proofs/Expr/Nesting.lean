import CallScript.Expr.Basic

/-! # The nesting of argument lists

How deep argument lists nest in a tree when those of a chain count from the left: the arguments of
the `i`-th list of a chain lie `i` levels below the chain. -/

namespace CallScript.Expr

/-- The number of argument lists in the chain that a tree is. -/
def links : Expr → Nat
  | .literal _ => 0
  | .word _ => 0
  | .call operator _ => links operator + 1

mutual

/-- The depth of argument lists in a tree. -/
def nesting : Expr → Nat
  | .literal _ => 0
  | .word _ => 0
  | .call operator args => max (nesting operator) (links operator + 1 + nestingAll args)

/-- The largest depth of argument lists in a list of trees. -/
def nestingAll : List Expr → Nat
  | [] => 0
  | e :: es => max (nesting e) (nestingAll es)

end

/-- The depth that argument lists reach which follow each other in a chain, `depth` lists being
before them. -/
def chainNesting : (depth : Nat) → List (List Expr) → Nat
  | _, [] => 0
  | depth, args :: lists => max (depth + 1 + nestingAll args) (chainNesting (depth + 1) lists)

@[simp] theorem callAll_nil (e : Expr) : e.callAll [] = e := rfl

theorem callAll_cons (e : Expr) (args : List Expr) (lists : List (List Expr)) :
    e.callAll (args :: lists) = (Expr.call e args).callAll lists := rfl

theorem callAll_append (e : Expr) (first second : List (List Expr)) :
    e.callAll (first ++ second) = (e.callAll first).callAll second :=
  List.foldl_append

theorem links_callAll (e : Expr) (lists : List (List Expr)) :
    (e.callAll lists).links = e.links + lists.length := by
  induction lists generalizing e with
  | nil => rfl
  | cons args lists ih =>
    rw [callAll_cons, ih, links, List.length_cons]
    omega

theorem nesting_callAll (e : Expr) (lists : List (List Expr)) :
    (e.callAll lists).nesting = max e.nesting (chainNesting e.links lists) := by
  induction lists generalizing e with
  | nil => simp [chainNesting]
  | cons args lists ih =>
    rw [callAll_cons, ih, nesting, links, chainNesting, Nat.max_assoc]

/-- A chain that starts `depth` levels down reaches down from there. -/
theorem add_chainNesting_le_iff {depth links limit : Nat} {lists : List (List Expr)} :
    depth + chainNesting links lists ≤ limit ↔
      depth ≤ limit ∧ chainNesting (depth + links) lists ≤ limit := by
  induction lists generalizing links with
  | nil => simp [chainNesting]
  | cons args lists ih =>
    have step := @ih (links + 1)
    rw [← Nat.add_assoc] at step
    simp only [chainNesting, ← Nat.add_max_add_left, Nat.max_le, step]
    omega

end CallScript.Expr
