import CallScript.Proofs.Expr.Height
import CallScript.Proofs.Source.RoundTrip

/-! # What the depth limit bounds

The reader limits how deep argument lists nest, with those of a chain counted from the left. The trees
that it accepts under a limit are higher than that as soon as a call in an earlier list of a chain is
followed by more lists: their largest height is the triangular number of the limit
(`height_of_parseWith`). -/

namespace CallScript.Source

open CallScript.Expr (triangle tallest CallsLast)

/-- The text of a canonical tree within the limit is read as the tree. -/
theorem parseWith_source_of_canonical {options : Options} {e : Expr} (canonical : e.Canonical)
    (fits : e.nesting ≤ options.maxDepth) : parseWith options e.source = .ok e := by
  have text : e.source.toList = e.sourceChars := String.toList_ofList
  rw [parseWith_eq_runProgram, runProgram_eq_ok_iff, text]
  exact ⟨isProgram_of_canonical canonical, fits⟩

theorem nesting_le_of_parseWith {options : Options} {text : String} {e : Expr}
    (read : parseWith options text = .ok e) : e.nesting ≤ options.maxDepth :=
  (runProgram_eq_ok_iff.mp (parseWith_eq_runProgram.mp read)).2

theorem canonical_word {name : String} {c : Char} {cs : List Char} (chars : name.toList = c :: cs)
    (inside : ∀ d ∈ c :: cs, isWordChar d = true) (noDigit : c.isDigit = false) :
    (Expr.word name).Canonical := by
  have word := isWord_of_head inside noDigit
  rw [← chars] at word
  exact word

theorem canonical_tallest (n : Nat) : (tallest n).Canonical := by
  have f : (Expr.word "f").Canonical := canonical_word rfl (List.forall_mem_singleton.mpr rfl) rfl
  induction n with
  | zero => exact f
  | succ n ih =>
    apply Expr.leaves_callAll
    · exact ⟨f, ih, trivial⟩
    · intro list member
      rw [List.eq_of_mem_replicate member]
      trivial

/-- How high the trees are that are accepted under a limit. Their height is at most the limit's
triangular number, which some tree reaches, and at most the limit itself where only the last list of
each chain holds calls. So the limit bounds the height of every tree if and only if it is `0` or `1`. -/
theorem height_of_parseWith (options : Options) :
    (∀ text e, parseWith options text = .ok e →
      e.height ≤ triangle options.maxDepth ∧ (e.CallsLast → e.height ≤ options.maxDepth)) ∧
    (∃ text e, parseWith options text = .ok e ∧ e.height = triangle options.maxDepth) ∧
    ((∀ text e, parseWith options text = .ok e → e.height ≤ options.maxDepth) ↔
      options.maxDepth ≤ 1) := by
  have bound (text : String) (e : Expr) (read : parseWith options text = .ok e) :
      e.height ≤ triangle options.maxDepth :=
    Expr.height_le_triangle (nesting_le_of_parseWith read)
  have reached := @parseWith_source_of_canonical options _ (canonical_tallest options.maxDepth)
    (Nat.le_of_eq (Expr.nesting_tallest _))
  refine ⟨?_, ?_, ?_⟩
  · intro text e read
    refine ⟨bound text e read, ?_⟩
    intro last
    exact Nat.le_trans (Expr.height_le_nesting last) (nesting_le_of_parseWith read)
  · exact ⟨_, _, reached, Expr.height_tallest _⟩
  · rw [← Expr.triangle_le_iff]
    constructor
    · intro limited
      rw [← Expr.height_tallest]
      exact limited _ _ reached
    · intro small text e read
      exact Nat.le_trans (bound text e read) small

/-- Under a limit of two a tree of height three is accepted: the second list of the chain lifts the call
in the first one. -/
theorem chained_call_exceeds_limit :
    ∃ e, parseWith ⟨true, 2⟩ "f(g(x))()" = .ok e ∧ ¬ e.height ≤ 2 := by
  refine ⟨.call (.call (.word "f") [.call (.word "g") [.word "x"]]) [], ?_, by decide⟩
  exact parseWith_eq_runProgram.mpr (by cbv)

end CallScript.Source
