/-!
# Runs of characters

A maximal run at the start of a text is `takeWhile`, what follows it `dropWhile`. Readers that take
run after run end because the rest of the text gets shorter.
-/

namespace CallScript.Text

theorem length_dropWhile_lt {α : Type} (p : α → Bool) {l : List α}
    (h : (l.takeWhile p).isEmpty = false) : (l.dropWhile p).length < l.length := by
  cases l with
  | nil => simp at h
  | cons a as =>
    cases hp : p a with
    | false => simp [hp] at h
    | true =>
      simp only [List.dropWhile_cons, hp, if_true, List.length_cons]
      exact Nat.lt_succ_of_le (List.dropWhile_suffix p).length_le

/-! ## A run in front of a text -/

variable {α : Type} {p : α → Bool} {run text : List α}

theorem takeWhile_eq_nil_of_head (stops : ∀ a ∈ text.head?, p a = false) :
    text.takeWhile p = [] := by
  cases text with
  | nil => rfl
  | cons a rest => simp [stops a rfl]

theorem dropWhile_eq_self_of_head (stops : ∀ a ∈ text.head?, p a = false) :
    text.dropWhile p = text := by
  cases text with
  | nil => rfl
  | cons a rest => simp [stops a rfl]

theorem takeWhile_run (all : ∀ a ∈ run, p a = true) (stops : ∀ a ∈ text.head?, p a = false) :
    (run ++ text).takeWhile p = run := by
  rw [List.takeWhile_append_of_pos all, takeWhile_eq_nil_of_head stops, List.append_nil]

theorem dropWhile_run (all : ∀ a ∈ run, p a = true) (stops : ∀ a ∈ text.head?, p a = false) :
    (run ++ text).dropWhile p = text := by
  rw [List.dropWhile_append_of_pos all, dropWhile_eq_self_of_head stops]

theorem head_dropWhile (p : α → Bool) (text : List α) :
    ∀ a ∈ (text.dropWhile p).head?, p a = false := by
  intro a ha
  have h := List.head?_dropWhile_not p text
  rw [Option.mem_def.mp ha] at h
  exact h

end CallScript.Text
