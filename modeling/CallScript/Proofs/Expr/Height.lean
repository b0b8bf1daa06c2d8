import CallScript.Proofs.Expr.Nesting

/-! # Height and nesting

The height of a tree counts calls from the root through operators as well as arguments, its nesting
counts argument lists from the left of each chain. What follows a call in a chain lifts everything in
its argument lists by one level of height, but adds nothing to their nesting. So the height is not
bounded by the nesting but by its triangular number (`height_le_triangle`), which `tallest` reaches.
The two agree in trees whose chains hold calls in their last list only (`height_le_nesting`). -/

namespace CallScript.Expr

/-- The sum of the numbers up to `n`. -/
def triangle : Nat → Nat
  | 0 => 0
  | n + 1 => triangle n + (n + 1)

theorem triangle_mono {m n : Nat} (h : m ≤ n) : triangle m ≤ triangle n := by
  induction h with
  | refl => exact Nat.le_refl _
  | step _ ih => exact Nat.le_trans ih (Nat.le_add_right _ _)

theorem add_triangle_pred (n : Nat) : n + triangle (n - 1) = triangle n := by
  cases n with
  | zero => rfl
  | succ n => exact Nat.add_comm _ _

theorem le_triangle (n : Nat) : n ≤ triangle n :=
  add_triangle_pred n ▸ Nat.le_add_right n _

theorem triangle_le_iff {n : Nat} : triangle n ≤ n ↔ n ≤ 1 := by
  have sum := add_triangle_pred n
  have least := le_triangle (n - 1)
  constructor
  · intro small
    omega
  · intro small
    have nothing : n - 1 = 0 := by omega
    rw [nothing] at sum
    exact Nat.le_of_eq sum.symm

/-! ## Height is bounded by nesting -/

theorem links_le_nesting (e : Expr) : e.links ≤ e.nesting := by
  cases e with
  | literal | word => exact Nat.le_refl _
  | call operator args =>
    rw [links, nesting]
    omega

-- The bound follows the chain: a link adds one to the height of the links before it, and its
-- arguments have one level of nesting less than the whole chain at least.
mutual

theorem height_le_links_add {e : Expr} {n : Nat} (fits : e.nesting ≤ n) :
    e.height ≤ e.links + triangle (n - 1) := by
  match e with
  | .literal _ => exact Nat.zero_le _
  | .word _ => exact Nat.zero_le _
  | .call operator args =>
    rw [nesting, Nat.max_le] at fits
    have before := height_le_links_add fits.1
    have inside := heightAll_le_triangle (show nestingAll args ≤ n - (links operator + 1) by omega)
    have smaller := triangle_mono (show n - (links operator + 1) ≤ n - 1 by omega)
    rw [height, links]
    omega

theorem heightAll_le_triangle {es : List Expr} {n : Nat} (fits : nestingAll es ≤ n) :
    heightAll es ≤ triangle n := by
  match es with
  | [] => exact Nat.zero_le _
  | e :: es =>
    rw [nestingAll, Nat.max_le] at fits
    have first := height_le_links_add fits.1
    have others := heightAll_le_triangle fits.2
    have links := links_le_nesting e
    rw [heightAll, Nat.max_le]
    refine ⟨?_, others⟩
    rw [← add_triangle_pred]
    omega

end

theorem height_le_triangle {e : Expr} {n : Nat} (fits : e.nesting ≤ n) : e.height ≤ triangle n := by
  have alone : nestingAll [e] ≤ n := by simpa [nestingAll] using fits
  simpa [heightAll] using heightAll_le_triangle alone

/-! ## The tallest trees -/

theorem height_callAll_nil (e : Expr) (n : Nat) :
    (e.callAll (List.replicate n [])).height = e.height + n := by
  induction n generalizing e with
  | zero => rfl
  | succ n ih =>
    rw [List.replicate_succ, callAll_cons, ih, height, heightAll]
    omega

theorem chainNesting_nil_le (depth n : Nat) :
    chainNesting depth (List.replicate n []) ≤ depth + n := by
  induction n generalizing depth with
  | zero => exact Nat.zero_le _
  | succ n ih =>
    have others := ih (depth + 1)
    rw [List.replicate_succ, chainNesting, nestingAll, Nat.max_le]
    omega

/-- A tree of the given nesting with the largest height: the arguments stand in the first list of the
chain, and every further list lifts them. -/
def tallest : Nat → Expr
  | 0 => .word "f"
  | n + 1 => (Expr.call (.word "f") [tallest n]).callAll (List.replicate n [])

theorem nesting_tallest (n : Nat) : (tallest n).nesting = n := by
  induction n with
  | zero => rfl
  | succ n ih =>
    have chain := chainNesting_nil_le 1 n
    have first : (Expr.call (.word "f") [tallest n]).nesting = 1 + n := by
      simp [nesting, nestingAll, links, ih]
    have links : (Expr.call (.word "f") [tallest n]).links = 1 := rfl
    rw [tallest, nesting_callAll, first, links]
    omega

theorem height_tallest (n : Nat) : (tallest n).height = triangle n := by
  induction n with
  | zero => rfl
  | succ n ih =>
    have first : (Expr.call (.word "f") [tallest n]).height = 1 + triangle n := by
      simp [height, heightAll, ih]
    rw [tallest, height_callAll_nil, first, triangle]
    omega

/-! ## Calls in the last lists only -/

/-- A chain without calls in its argument lists. -/
def FlatChain : Expr → Prop
  | .literal _ => True
  | .word _ => True
  | .call operator args => FlatChain operator ∧ heightAll args = 0

mutual

/-- In every chain of the tree only the last argument list holds calls. -/
def CallsLast : Expr → Prop
  | .literal _ => True
  | .word _ => True
  | .call operator args => FlatChain operator ∧ CallsLastAll args

/-- `CallsLast` of every tree in a list. -/
def CallsLastAll : List Expr → Prop
  | [] => True
  | e :: es => CallsLast e ∧ CallsLastAll es

end

theorem FlatChain.height_eq {e : Expr} (flat : e.FlatChain) : e.height = e.links := by
  match e with
  | .literal _ => rfl
  | .word _ => rfl
  | .call operator args =>
    rw [height, links, FlatChain.height_eq flat.1, flat.2]
    omega

mutual

theorem height_le_nesting {e : Expr} (last : e.CallsLast) : e.height ≤ e.nesting := by
  match e with
  | .literal _ => exact Nat.le_refl _
  | .word _ => exact Nat.le_refl _
  | .call operator args =>
    have before := FlatChain.height_eq last.1
    have inside := heightAll_le_nestingAll last.2
    rw [height, nesting]
    omega

theorem heightAll_le_nestingAll {es : List Expr} (last : CallsLastAll es) :
    heightAll es ≤ nestingAll es := by
  match es with
  | [] => exact Nat.le_refl _
  | e :: es =>
    have first := height_le_nesting last.1
    have others := heightAll_le_nestingAll last.2
    rw [heightAll, nestingAll]
    omega

end

end CallScript.Expr
