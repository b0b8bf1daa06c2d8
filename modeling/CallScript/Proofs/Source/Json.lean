import CallScript.Proofs.Expr.Json
import CallScript.Proofs.Source.Depth

/-! # Parsed trees through JSON

The reader of program text and that of JSON limit the same number of levels, but the first counts the
lists of a chain from the left and the second counts calls from the root. So a tree that was read from
a text need not survive JSON: it does if calls stand in the last lists of chains only
(`ofJsonText_of_parse`). -/

namespace CallScript.Source

open CallScript.Expr (maxHeight ofJsonText)

/-- A tree that was read from a text and has finite numbers comes back from JSON the same if and only if
its height is within the limit and its doubles are read back. Its height is within the limit if in every
chain only the last list holds calls; otherwise it can be too large, and is refused as such. -/
theorem ofJsonText_of_parse {text : String} {e : Expr} (read : parse text = .ok e)
    (finite : e.IsFinite) :
    ((∃ e', ofJsonText e.toJsonText = .ok e' ∧ (e' == e) = true) ↔
      e.height ≤ maxHeight ∧ e.ReadsBack) ∧
    (e.CallsLast → e.height ≤ maxHeight) ∧
    (maxHeight < e.height →
      ∃ error, ofJsonText e.toJsonText = .error error ∧ error.kind = .tooDeeplyNested) := by
  refine ⟨Expr.exists_ofJsonText_iff finite, ?_, Expr.ofJsonText_of_high finite⟩
  intro last
  exact Nat.le_trans (Expr.height_le_nesting last) (nesting_le_of_parseWith read)

theorem last_call_survives :
    ∃ e, parse "f(x)(g(y))" = .ok e ∧
      ∃ e', ofJsonText e.toJsonText = .ok e' ∧ (e' == e) = true := by
  have read : parse "f(x)(g(y))" =
      .ok (.call (.call (.word "f") [.word "x"]) [.call (.word "g") [.word "y"]]) :=
    parseWith_eq_runProgram.mpr (by cbv)
  refine ⟨_, read, (ofJsonText_of_parse read ?_).1.mpr ⟨by decide, ?_⟩⟩
  · simp [Expr.IsFinite, Expr.Leaves, Expr.LeavesAll]
  · simp [Expr.ReadsBack, Expr.Leaves, Expr.LeavesAll]

/-- `f(f(x))` followed by 255 empty argument lists, which are 256 lists in a chain. -/
def liftedCall : Expr :=
  (Expr.call (.word "f") [.call (.word "f") [.word "x"]]).callAll (List.replicate 255 [])

theorem canonical_liftedCall : liftedCall.Canonical := by
  have f : (Expr.word "f").Canonical := canonical_word rfl (List.forall_mem_singleton.mpr rfl) rfl
  have x : (Expr.word "x").Canonical := canonical_word rfl (List.forall_mem_singleton.mpr rfl) rfl
  apply Expr.leaves_callAll
  · exact ⟨f, ⟨f, x, trivial⟩, trivial⟩
  · intro list member
    rw [List.eq_of_mem_replicate member]
    trivial

/-- Every list of the chain lifts the call inside it by one level, so its height is 257. -/
theorem liftedCall_is_refused :
    parse liftedCall.source = .ok liftedCall ∧ liftedCall.IsFinite ∧
      ¬ ∃ e', ofJsonText liftedCall.toJsonText = .ok e' ∧ (e' == liftedCall) = true := by
  have finite : liftedCall.IsFinite := by
    apply Expr.leaves_callAll
    · exact ⟨trivial, ⟨trivial, trivial, trivial⟩, trivial⟩
    · intro list member
      rw [List.eq_of_mem_replicate member]
      trivial
  have high : liftedCall.height = 257 := Expr.height_callAll_nil _ 255
  have fits : liftedCall.nesting ≤ 256 := by
    have chain := Expr.chainNesting_nil_le 1 255
    rw [liftedCall, Expr.nesting_callAll, Nat.max_le]
    exact ⟨by decide, chain⟩
  refine ⟨parseWith_source_of_canonical canonical_liftedCall fits, finite, ?_⟩
  rw [Expr.exists_ofJsonText_iff finite, high]
  rintro ⟨low, -⟩
  exact absurd low (by decide)

end CallScript.Source
