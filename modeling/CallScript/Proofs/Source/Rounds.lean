import CallScript.Proofs.Source.Limit
import CallScript.Proofs.SyntaxError

/-! # Space in rounds

A reader that is put together from parts skips space round by round: each round takes a run of white space
or a comment, and the first round that does not apply ends the repetition. A round that applies and takes
nothing would come again forever, so on such a round the repetition fails, and nothing at all is skipped.
With these rounds it always ends and never fails, and it ends where `skipSpace` does
(`skipSpace_strips_leading_layout`). -/

namespace CallScript.Source

open Text (byteSize byteSize_append byteSize_eq_zero_iff)

/-! ## Repetitions -/

section

variable {take : List Char → Option (List Char)} {text rest rest' : List Char} {rounds rounds' : Nat}

/-- `Ends take text rounds rest`: so many rounds lead from `text` to `rest`, each of them takes something,
and behind them no further round applies. -/
inductive Ends (take : List Char → Option (List Char)) : List Char → Nat → List Char → Prop where
  | here {text : List Char} (stops : take text = none) : Ends take text 0 text
  | round {text middle rest : List Char} {rounds : Nat} (took : take text = some middle)
      (something : byteSize middle ≠ byteSize text) (following : Ends take middle rounds rest) :
      Ends take text (rounds + 1) rest

/-- The repetition comes to a round that takes nothing. -/
inductive Fails (take : List Char → Option (List Char)) : List Char → Prop where
  | here {text rest : List Char} (took : take text = some rest)
      (nothing : byteSize rest = byteSize text) : Fails take text
  | round {text middle : List Char} (took : take text = some middle)
      (something : byteSize middle ≠ byteSize text) (following : Fails take middle) : Fails take text

/-- What is left when the rounds are over; all of the text, if the repetition fails. -/
inductive Skips (take : List Char → Option (List Char)) : List Char → List Char → Prop where
  | ended {text rest : List Char} {rounds : Nat} (ends : Ends take text rounds rest) :
      Skips take text rest
  | failed {text : List Char} (fails : Fails take text) : Skips take text text

theorem Ends.stops (h : Ends take text rounds rest) : take rest = none := by
  induction h with
  | here stops => exact stops
  | round _ _ _ ih => exact ih

theorem Ends.unique (h : Ends take text rounds rest) (h' : Ends take text rounds' rest') :
    rounds = rounds' ∧ rest = rest' := by
  induction h generalizing rounds' with
  | here stops =>
    cases h' with
    | here => exact ⟨rfl, rfl⟩
    | round took => rw [stops] at took; cases took
  | round took _ _ ih =>
    cases h' with
    | here stops => rw [stops] at took; cases took
    | round took' _ following =>
      rw [took] at took'
      cases took'
      obtain ⟨same, same'⟩ := ih following
      exact ⟨congrArg (· + 1) same, same'⟩

theorem Ends.not_fails (h : Ends take text rounds rest) : ¬ Fails take text := by
  induction h with
  | here stops =>
    intro fails
    cases fails with
    | here took | round took => rw [stops] at took; cases took
  | round took something _ ih =>
    intro fails
    cases fails with
    | here took' nothing =>
      rw [took] at took'
      cases took'
      exact something nothing
    | round took' _ following =>
      rw [took] at took'
      cases took'
      exact ih following

/-- Rounds that all take something come to an end, one byte each at least. -/
theorem exists_ends (progress : ∀ text rest, take text = some rest → byteSize rest < byteSize text)
    (text : List Char) : ∃ rounds rest, Ends take text rounds rest ∧
      rounds + byteSize rest ≤ byteSize text := by
  -- induction on the bytes that are left, of which every round has fewer
  induction size : byteSize text using Nat.strongRecOn generalizing text with
  | ind bytes ih =>
    subst size
    cases took : take text with
    | none => exact ⟨0, text, .here took, by omega⟩
    | some middle =>
      have less := progress text middle took
      obtain ⟨rounds, rest, ends, bound⟩ := ih _ less middle rfl
      exact ⟨rounds + 1, rest, .round took less.ne ends, by omega⟩

end

/-! ## A round of space -/

variable {comments : Bool} {text rest : List Char}

/-- A run of white space, which may not be empty. -/
def takeBlanks (text : List Char) : Option (List Char) :=
  if (text.takeWhile Text.isBlank).isEmpty then none else some (text.dropWhile Text.isBlank)

/-- A comment, up to the end of its line. -/
def takeComment : List Char → Option (List Char)
  | '#' :: text => some (text.dropWhile fun c => !endsLine c)
  | _ => none

def takeRound (comments : Bool) (text : List Char) : Option (List Char) :=
  if comments then (takeBlanks text).or (takeComment text) else takeBlanks text

theorem layout_blanks {run : List Char} (blank : ∀ c ∈ run, Text.isBlank c = true) :
    Layout comments (run ++ rest) rest := by
  induction run with
  | nil => exact .none
  | cons c run ih =>
    obtain ⟨first, others⟩ := List.forall_mem_cons.mp blank
    exact .blank first (ih others)

theorem takeBlanks_eq_some (took : takeBlanks text = some rest) :
    ∃ run, run ≠ [] ∧ (∀ c ∈ run, Text.isBlank c = true) ∧ text = run ++ rest := by
  rw [takeBlanks] at took
  split at took
  next => cases took
  next some =>
    cases took
    refine ⟨text.takeWhile Text.isBlank, ?_, fun _ => List.mem_takeWhile_imp, ?_⟩
    · rwa [List.isEmpty_iff] at some
    · exact List.takeWhile_append_dropWhile.symm

theorem takeComment_eq_some (took : takeComment text = some rest) :
    ∃ body, (∀ c ∈ body, endsLine c = false) ∧ (∀ c ∈ rest.head?, endsLine c = true) ∧
      text = '#' :: (body ++ rest) := by
  fun_cases takeComment text with
  | case1 text =>
    simp only [takeComment, Option.some.injEq] at took
    subst took
    refine ⟨text.takeWhile fun c => !endsLine c, ?_, ?_, ?_⟩
    · intro c hc
      simpa using List.mem_takeWhile_imp hc
    · intro c hc
      simpa using Text.head_dropWhile _ text c hc
    · rw [List.takeWhile_append_dropWhile]
  | case2 text other =>
    rw [takeComment] at took
    · cases took
    · exact other

/-- A round takes layout, and takes something. -/
theorem takeRound_eq_some (took : takeRound comments text = some rest) :
    Layout comments text rest ∧ ∃ taken, taken ≠ [] ∧ text = taken ++ rest := by
  have ofBlanks (blanks : takeBlanks text = some rest) :
      Layout comments text rest ∧ ∃ taken, taken ≠ [] ∧ text = taken ++ rest := by
    obtain ⟨run, nonempty, blank, rfl⟩ := takeBlanks_eq_some blanks
    exact ⟨layout_blanks blank, run, nonempty, rfl⟩
  rw [takeRound] at took
  split at took
  next on =>
    rcases Option.or_eq_some_iff.mp took with blanks | ⟨-, comment⟩
    · exact ofBlanks blanks
    · obtain ⟨body, inside, stops, rfl⟩ := takeComment_eq_some comment
      exact ⟨.comment on inside stops .none, '#' :: body, by simp, rfl⟩
  next => exact ofBlanks took

theorem byteSize_takeRound_lt (text rest : List Char) (took : takeRound comments text = some rest) :
    byteSize rest < byteSize text := by
  obtain ⟨-, taken, nonempty, rfl⟩ := takeRound_eq_some took
  have size : byteSize taken ≠ 0 := mt byteSize_eq_zero_iff.mp nonempty
  rw [byteSize_append]
  omega

theorem takeBlanks_eq_none_iff {c : Char} {cs : List Char} :
    takeBlanks (c :: cs) = none ↔ Text.isBlank c = false := by
  cases blank : Text.isBlank c <;> simp [takeBlanks, blank]

theorem takeComment_eq_none_iff {c : Char} {cs : List Char} :
    takeComment (c :: cs) = none ↔ c ≠ '#' := by
  by_cases hash : c = '#' <;> simp [takeComment, hash]

/-- No round applies at the end of the text and where a token starts. -/
theorem takeRound_eq_none_iff :
    takeRound comments text = none ↔ ∀ c ∈ text.head?, startsToken comments c = true := by
  cases text with
  | nil => cases comments <;> simp [takeRound, takeBlanks, takeComment]
  | cons c cs =>
    cases comments with
    | false => simp [takeRound, takeBlanks_eq_none_iff, startsToken]
    | true => simp [takeRound, takeBlanks_eq_none_iff, takeComment_eq_none_iff, startsToken]

/-! ## All of it -/

/-- What all rounds together take is layout. -/
theorem Ends.layout {rounds : Nat} (h : Ends (takeRound comments) text rounds rest) :
    Layout comments text rest := by
  induction h with
  | here => exact .none
  | round took _ _ ih => exact (takeRound_eq_some took).1.trans ih

/-- There is only one place behind layout where a token starts. -/
theorem Layout.eq_skipSpace (h : Layout comments text rest)
    (starts : ∀ c ∈ rest.head?, startsToken comments c = true) : rest = skipSpace comments text := by
  rw [h.skipSpace_eq]
  cases rest with
  | nil => rfl
  | cons c cs => exact (skipSpace_cons (starts c rfl) cs).symm

/-- The repetition ends where `skipSpace` does. -/
theorem ends_skipSpace (comments : Bool) (text : List Char) :
    ∃ rounds, Ends (takeRound comments) text rounds (skipSpace comments text) ∧
      rounds + byteSize (skipSpace comments text) ≤ byteSize text := by
  obtain ⟨rounds, rest, ends, bound⟩ := exists_ends byteSize_takeRound_lt text
  obtain rfl := ends.layout.eq_skipSpace (takeRound_eq_none_iff.mp ends.stops)
  exact ⟨rounds, ends, bound⟩

theorem skips_iff : Skips (takeRound comments) text rest ↔ rest = skipSpace comments text := by
  obtain ⟨rounds, ends, -⟩ := ends_skipSpace comments text
  constructor
  · intro skips
    cases skips with
    | ended ends' => exact (ends'.unique ends).2
    | failed fails => exact absurd fails ends.not_fails
  · intro same
    rw [same]
    exact .ended ends

/-- Skipping space leaves an end of the text and strips layout, all of it: at what is left a token starts,
unless nothing is left. There is only one such end of the text, so skipping again changes nothing. Skipped
round by round, each round takes something, so that after one round for each byte at most the repetition is
over. It never fails, and leaves the same. -/
theorem skipSpace_strips_leading_layout (comments : Bool) (text : List Char) :
    skipSpace comments text <:+ text ∧
    Layout comments text (skipSpace comments text) ∧
    (∀ c ∈ (skipSpace comments text).head?, startsToken comments c = true) ∧
    (∀ rest, Layout comments text rest → (∀ c ∈ rest.head?, startsToken comments c = true) →
      rest = skipSpace comments text) ∧
    skipSpace comments (skipSpace comments text) = skipSpace comments text ∧
    (∃ rounds, Ends (takeRound comments) text rounds (skipSpace comments text) ∧
      rounds + byteSize (skipSpace comments text) ≤ byteSize text) ∧
    ¬ Fails (takeRound comments) text ∧
    ∀ rest, Skips (takeRound comments) text rest ↔ rest = skipSpace comments text := by
  have layout := layout_skipSpace comments text
  obtain ⟨rounds, ends, bound⟩ := ends_skipSpace comments text
  exact ⟨layout.suffix, layout, head_skipSpace comments text, fun _ => Layout.eq_skipSpace,
    layout.skipSpace_eq.symm, ⟨rounds, ends, bound⟩, ends.not_fails, fun _ => skips_iff⟩

end CallScript.Source
