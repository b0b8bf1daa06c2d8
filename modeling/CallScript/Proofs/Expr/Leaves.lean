import CallScript.Proofs.Expr.Nesting

/-! # The leaves of a tree

What holds of every constant and every word of a tree, and how it carries over to a tree that is the
same program. -/

namespace CallScript.Expr

mutual

/-- Every constant and every word of a tree is as asked for. -/
def Leaves (literal : Literal → Prop) (word : String → Prop) : Expr → Prop
  | .literal l => literal l
  | .word name => word name
  | .call operator args => Leaves literal word operator ∧ LeavesAll literal word args

/-- `Leaves` of every tree in a list. -/
def LeavesAll (literal : Literal → Prop) (word : String → Prop) : List Expr → Prop
  | [] => True
  | e :: es => Leaves literal word e ∧ LeavesAll literal word es

end

variable {literal literal' known : Literal → Prop} {word word' named : String → Prop}

theorem leaves_callAll {e : Expr} {lists : List (List Expr)} (operator : e.Leaves literal word)
    (args : ∀ list ∈ lists, LeavesAll literal word list) :
    (e.callAll lists).Leaves literal word := by
  induction lists generalizing e with
  | nil => exact operator
  | cons list lists ih =>
    rw [callAll_cons]
    apply ih
    · exact ⟨operator, args list List.mem_cons_self⟩
    · intro other later
      exact args other (List.mem_cons_of_mem _ later)

mutual

/-- What follows for the leaves that a tree has follows for the tree. -/
theorem leaves_imp (literals : ∀ l, known l → literal l → literal' l)
    (words : ∀ name, named name → word name → word' name) {e : Expr} (h : e.Leaves known named)
    (leaves : e.Leaves literal word) : e.Leaves literal' word' := by
  match e with
  | .literal l => exact literals l h leaves
  | .word name => exact words name h leaves
  | .call operator args =>
    exact ⟨leaves_imp literals words h.1 leaves.1, leavesAll_imp literals words h.2 leaves.2⟩

theorem leavesAll_imp (literals : ∀ l, known l → literal l → literal' l)
    (words : ∀ name, named name → word name → word' name) {es : List Expr}
    (h : LeavesAll known named es) (leaves : LeavesAll literal word es) :
    LeavesAll literal' word' es := by
  match es with
  | [] => trivial
  | e :: es =>
    exact ⟨leaves_imp literals words h.1 leaves.1, leavesAll_imp literals words h.2 leaves.2⟩

end

/-- What is equivalent for the leaves that a tree has is equivalent for the tree. -/
theorem leaves_congr (literals : ∀ l, known l → (literal l ↔ literal' l))
    (words : ∀ name, named name → (word name ↔ word' name)) {e : Expr} (h : e.Leaves known named) :
    e.Leaves literal word ↔ e.Leaves literal' word' :=
  ⟨leaves_imp (fun l hl => (literals l hl).mp) (fun name hn => (words name hn).mp) h,
    leaves_imp (fun l hl => (literals l hl).mpr) (fun name hn => (words name hn).mpr) h⟩

/-! ## Trees that are the same program -/

theorem literal_of_same {l : Literal} {e : Expr} (h : same (.literal l) e = true) :
    ∃ l', e = .literal l' ∧ (l == l') = true := by
  cases e with
  | literal l' => exact ⟨l', rfl, h⟩
  | word | call => cases h

theorem word_of_same {name : String} {e : Expr} (h : same (.word name) e = true) :
    e = .word name := by
  cases e with
  | word name' =>
    have names : (name == name') = true := h
    rw [beq_iff_eq.mp names]
  | literal | call => cases h

theorem call_of_same {operator : Expr} {args : List Expr} {e : Expr}
    (h : same (.call operator args) e = true) :
    ∃ operator' args', e = .call operator' args' ∧ same operator operator' = true ∧
      sameAll args args' = true := by
  cases e with
  | call operator' args' =>
    have both : (same operator operator' && sameAll args args') = true := h
    rw [Bool.and_eq_true] at both
    exact ⟨operator', args', rfl, both⟩
  | literal | word => cases h

theorem nil_of_sameAll {es : List Expr} (h : sameAll [] es = true) : es = [] := by
  cases es with
  | nil => rfl
  | cons => cases h

theorem cons_of_sameAll {a : Expr} {as es : List Expr} (h : sameAll (a :: as) es = true) :
    ∃ b bs, es = b :: bs ∧ same a b = true ∧ sameAll as bs = true := by
  cases es with
  | nil => cases h
  | cons b bs =>
    have both : (same a b && sameAll as bs) = true := h
    rw [Bool.and_eq_true] at both
    exact ⟨b, bs, rfl, both⟩

theorem links_of_same {a b : Expr} (h : same a b = true) : a.links = b.links := by
  match a with
  | .literal l =>
    obtain ⟨l', rfl, -⟩ := literal_of_same h
    rfl
  | .word name => rw [word_of_same h]
  | .call operator args =>
    obtain ⟨operator', args', rfl, operators, -⟩ := call_of_same h
    rw [links, links, links_of_same operators]

mutual

theorem nesting_of_same {a b : Expr} (h : same a b = true) : a.nesting = b.nesting := by
  match a with
  | .literal l =>
    obtain ⟨l', rfl, -⟩ := literal_of_same h
    rfl
  | .word name => rw [word_of_same h]
  | .call operator args =>
    obtain ⟨operator', args', rfl, operators, lists⟩ := call_of_same h
    rw [nesting, nesting, nesting_of_same operators, links_of_same operators,
      nestingAll_of_same lists]

theorem nestingAll_of_same {as bs : List Expr} (h : sameAll as bs = true) :
    nestingAll as = nestingAll bs := by
  match as with
  | [] => rw [nil_of_sameAll h]
  | a :: as =>
    obtain ⟨b, bs, rfl, first, others⟩ := cons_of_sameAll h
    rw [nestingAll, nestingAll, nesting_of_same first, nestingAll_of_same others]

end

mutual

/-- The leaves of a tree carry over to one that is the same program, its words unchanged and its
constants up to sameness. -/
theorem Leaves.of_same (literals : ∀ l l', literal l → (l == l') = true → literal' l') {a b : Expr}
    (leaves : a.Leaves literal word) (h : same a b = true) : b.Leaves literal' word := by
  match a with
  | .literal l =>
    obtain ⟨l', rfl, constants⟩ := literal_of_same h
    exact literals l l' leaves constants
  | .word name =>
    rw [word_of_same h]
    exact leaves
  | .call operator args =>
    obtain ⟨operator', args', rfl, operators, lists⟩ := call_of_same h
    exact ⟨Leaves.of_same literals leaves.1 operators, LeavesAll.of_same literals leaves.2 lists⟩

theorem LeavesAll.of_same (literals : ∀ l l', literal l → (l == l') = true → literal' l')
    {as bs : List Expr} (leaves : LeavesAll literal word as) (h : sameAll as bs = true) :
    LeavesAll literal' word bs := by
  match as with
  | [] =>
    rw [nil_of_sameAll h]
    trivial
  | a :: as =>
    obtain ⟨b, bs, rfl, first, others⟩ := cons_of_sameAll h
    exact ⟨Leaves.of_same literals leaves.1 first, LeavesAll.of_same literals leaves.2 others⟩

end

mutual

theorem same_self (literals : ∀ l, literal l → (l == l) = true) {e : Expr}
    (leaves : e.Leaves literal word) : same e e = true := by
  match e with
  | .literal l => exact literals l leaves
  | .word name =>
    have names : (name == name) = true := beq_self_eq_true name
    exact names
  | .call operator args =>
    rw [same, same_self literals leaves.1, sameAll_self literals leaves.2]
    rfl

theorem sameAll_self (literals : ∀ l, literal l → (l == l) = true) {es : List Expr}
    (leaves : LeavesAll literal word es) : sameAll es es = true := by
  match es with
  | [] => rfl
  | e :: es =>
    rw [sameAll, same_self literals leaves.1, sameAll_self literals leaves.2]
    rfl

end

end CallScript.Expr
