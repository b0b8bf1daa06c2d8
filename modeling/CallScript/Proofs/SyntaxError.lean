import CallScript.SyntaxError
import Mathlib.Data.List.Basic

/-! # Where a syntax error points

A syntax error is located by the sizes of two texts in bytes, and shows characters around the place.
If the second text is a tail of the first, the place falls between two characters (`positionOf_append`),
and the error says what a reader expects: the character at the place, and the sixty characters around
it (`located_pointsAt`). The same context comes out if every step is made in bytes, where a cut inside
a character would be a fault (`contextByBytes?_eq`). -/

namespace CallScript

/-! ## Cutting a text at a byte -/

namespace Text

variable {text before behind : List Char} {bytes : Nat}

/-- The two parts of a text around its byte `bytes`, if that byte starts a character or ends the text. -/
def cut? : (bytes : Nat) → List Char → Option (List Char × List Char)
  | 0, text => some ([], text)
  | _ + 1, [] => none
  | bytes + 1, c :: cs =>
    if c.utf8Size ≤ bytes + 1 then
      (cut? (bytes + 1 - c.utf8Size) cs).map fun (before, behind) => (c :: before, behind)
    else none

@[simp] theorem byteSize_append (before behind : List Char) :
    byteSize (before ++ behind) = byteSize before + byteSize behind := by
  induction before with
  | nil => simp [byteSize]
  | cons c cs ih => simp [byteSize, ih, Nat.add_assoc]

theorem byteSize_eq_zero_iff : byteSize text = 0 ↔ text = [] := by
  cases text with
  | nil => simp [byteSize]
  | cons c cs =>
    have size := c.utf8Size_pos
    simp [byteSize]
    omega

/-- A text is cut where a part of it ends, and nowhere else. -/
theorem cut?_eq_some_iff :
    cut? bytes text = some (before, behind) ↔ text = before ++ behind ∧ byteSize before = bytes := by
  fun_induction cut? bytes text generalizing before with
  | case1 text =>
    simp only [Option.some.injEq, Prod.mk.injEq, byteSize_eq_zero_iff]
    constructor
    · intro ⟨empty, same⟩
      subst empty same
      exact ⟨rfl, rfl⟩
    · intro ⟨split, empty⟩
      subst empty
      exact ⟨rfl, split⟩
  | case2 bytes =>
    simp only [reduceCtorEq, false_iff]
    intro ⟨split, size⟩
    obtain ⟨rfl, -⟩ := List.append_eq_nil_iff.mp split.symm
    simp [byteSize] at size
  | case3 bytes c cs fits ih =>
    have size := c.utf8Size_pos
    cases before with
    | nil => simp [byteSize]
    | cons d ds =>
      simp only [Option.map_eq_some_iff, Prod.exists, Prod.mk.injEq, byteSize]
      constructor
      · intro ⟨ds', _, cut, same, same'⟩
        obtain ⟨rfl, rfl⟩ := List.cons.inj same
        subst same'
        obtain ⟨split, total⟩ := ih.mp cut
        exact ⟨by rw [split]; rfl, by omega⟩
      · intro ⟨split, total⟩
        obtain ⟨rfl, tail⟩ := List.cons.inj split
        exact ⟨ds, behind, ih.mpr ⟨tail, by omega⟩, rfl, rfl⟩
  | case4 bytes c cs short =>
    simp only [reduceCtorEq, false_iff]
    intro ⟨split, size⟩
    cases before with
    | nil => simp [byteSize] at size
    | cons d ds =>
      obtain ⟨rfl, -⟩ := List.cons.inj split
      simp only [byteSize] at size
      omega

theorem charsWithin_append (before behind : List Char) :
    charsWithin (byteSize before) (before ++ behind) = before.length := by
  induction before with
  | nil =>
    cases behind with
    | nil => rfl
    | cons c cs =>
      have size := c.utf8Size_pos
      simp only [byteSize, List.nil_append, charsWithin, List.length_nil]
      rw [if_neg (by omega)]
  | cons c cs ih =>
    simp [byteSize, charsWithin, ih, Nat.add_comm]

end Text

namespace SyntaxError

open Text

variable {text before rest hidden shown left : List Char} {position : Nat}

theorem positionOf_append (before rest : List Char) :
    positionOf (before ++ rest) rest = before.length := by
  rw [positionOf, byteSize_append, Nat.add_sub_cancel, charsWithin_append]

/-! ## The window -/

/-- The sixty characters of a text from twenty before a position: what is `hidden` in front of them,
what is `shown`, and what is `left` behind them. -/
structure Window (text : List Char) (position : Nat) (hidden shown left : List Char) : Prop where
  split : text = hidden ++ shown ++ left
  start : hidden.length = if 20 < position then position - 20 else 0
  size : shown.length ≤ 60
  -- Less is shown only where the text ends.
  full : left ≠ [] → shown.length = 60

/-- What is shown, with dots for what is not, on one line: a line feed is written as a backslash and
an n, and a carriage return is not written. -/
def framed (hidden shown left : List Char) : List Char :=
  let front := if hidden = [] then [] else ['[', '.', '.', '.', ']']
  let back := if left = [] then [] else ['[', '.', '.', '.', ']']
  (front ++ shown ++ back).flatMap fun c =>
    if c = '\n' then ['\\', 'n'] else if c = '\r' then [] else [c]

theorem start_eq (position : Nat) :
    (if 20 < position then position - 20 else 0) = position - contextBefore := by
  rw [contextBefore]
  split <;> omega

theorem exists_window (inside : position ≤ text.length) :
    ∃ hidden shown left, Window text position hidden shown left := by
  let tail := text.drop (position - contextBefore)
  refine ⟨text.take (position - contextBefore), tail.take 60, tail.drop 60, ?_⟩
  constructor
  case split => rw [List.append_assoc, List.take_append_drop, List.take_append_drop]
  case start =>
    rw [start_eq, List.length_take]
    omega
  case size => exact List.length_take_le 60 tail
  case full =>
    intro some
    have more := List.length_pos_iff.mpr some
    rw [List.length_drop] at more
    rw [List.length_take]
    omega

namespace Window

/-- Where the window starts, what is left of the text is the rest of the window and what is behind. -/
theorem drop_eq (window : Window text position hidden shown left) :
    text.drop (position - contextBefore) = shown ++ left := by
  rw [← start_eq, ← window.start, window.split, List.append_assoc, List.drop_left]

theorem take_eq (window : Window text position hidden shown left) :
    (shown ++ left).take contextSize = shown := by
  by_cases whole : left = []
  · rw [whole, List.append_nil]
    exact List.take_of_length_le window.size
  · rw [contextSize, ← window.full whole, List.take_left]

theorem left_iff (window : Window text position hidden shown left) :
    hidden.length + contextSize < text.length ↔ left ≠ [] := by
  have size := window.size
  have full := window.full
  rw [window.split, List.length_append, List.length_append, contextSize, ← List.length_pos_iff]
  rw [← List.length_pos_iff] at full
  omega

/-- The place is among the characters that are shown. -/
theorem getElem?_shown (window : Window (before ++ rest) before.length hidden shown left) :
    shown[before.length - hidden.length]? = rest.head? := by
  have start := window.start
  have full := window.full
  have total := congrArg List.length window.split
  simp only [List.length_append] at total
  rw [← List.length_pos_iff] at full
  have within : before.length - hidden.length < shown.length ∨ left.length = 0 := by
    split at start <;> omega
  have place : (shown ++ left)[before.length - hidden.length]? = rest.head? := by
    have there := congrArg (·[before.length]?) window.split
    simp only [List.append_assoc] at there
    rw [List.getElem?_append_right (Nat.le_refl _), Nat.sub_self,
      List.getElem?_append_right (by split at start <;> omega)] at there
    rw [← there, List.head?_eq_getElem?]
  obtain inside | nothing := within
  · rw [← place, List.getElem?_append_left inside]
  · rw [← place, List.length_eq_zero_iff.mp nothing, List.append_nil]

end Window

/-- The dots stay as they are. -/
theorem flatMap_onOneLine_dots (P : Prop) [Decidable P] :
    (if P then [] else ellipsis).flatMap onOneLine = if P then [] else ellipsis := by
  split <;> rfl

theorem framed_eq (hidden shown left : List Char) :
    framed hidden shown left =
      (if hidden = [] then [] else ellipsis) ++ shown.flatMap onOneLine
        ++ (if left = [] then [] else ellipsis) := by
  show ((if hidden = [] then [] else ellipsis) ++ shown
    ++ (if left = [] then [] else ellipsis)).flatMap onOneLine = _
  rw [List.flatMap_append, List.flatMap_append, flatMap_onOneLine_dots, flatMap_onOneLine_dots]

theorem contextAt_eq (window : Window text position hidden shown left) :
    contextAt text position = framed hidden shown left := by
  have start : hidden.length = position - contextBefore := window.start.trans (start_eq position)
  have front : 0 < hidden.length ↔ hidden ≠ [] := List.length_pos_iff
  rw [framed_eq, contextAt, window.drop_eq, window.take_eq]
  simp only [← start, window.left_iff, front, ite_not]

/-! ## Sizes in bytes -/

/-- The context of an error at `rest` as it is found in bytes. Both cuts are faults if they fall inside
a character. -/
def contextByBytes? (text rest : List Char) : Option (List Char) := do
  let (before, _) ← cut? (byteSize text - byteSize rest) text
  let start := byteSize (before.take (before.length - 20))
  let (_, tail) ← cut? start text
  let shown := tail.take 60
  let front := if 0 < start then ellipsis else []
  let back := if start + byteSize shown < byteSize text then ellipsis else []
  return (front ++ shown ++ back).flatMap onOneLine

theorem contextByBytes?_eq (window : Window (before ++ rest) before.length hidden shown left) :
    contextByBytes? (before ++ rest) rest = some (framed hidden shown left) := by
  have offset : byteSize (before ++ rest) - byteSize rest = byteSize before := by
    rw [byteSize_append, Nat.add_sub_cancel]
  have again : before ++ rest = hidden ++ (shown ++ left) := by
    rw [window.split, List.append_assoc]
  have start : before.take (before.length - 20) = hidden := by
    have length : hidden.length = before.length - 20 := window.start.trans (start_eq _)
    have inside : hidden.length ≤ before.length := by omega
    rw [← length, ← List.take_append_of_le_length inside, again, List.take_left]
  have front : 0 < byteSize hidden ↔ hidden ≠ [] := by
    rw [Nat.pos_iff_ne_zero, ne_eq, byteSize_eq_zero_iff]
  have back : byteSize hidden + byteSize shown < byteSize (before ++ rest) ↔ left ≠ [] := by
    rw [again, byteSize_append, byteSize_append, ← Nat.add_assoc, Nat.lt_add_right_iff_pos,
      Nat.pos_iff_ne_zero, ne_eq, byteSize_eq_zero_iff]
  have first : cut? (byteSize before) (before ++ rest) = some (before, rest) :=
    cut?_eq_some_iff.mpr ⟨rfl, rfl⟩
  have second : cut? (byteSize hidden) (before ++ rest) = some (hidden, shown ++ left) :=
    cut?_eq_some_iff.mpr ⟨again, rfl⟩
  have window' : (shown ++ left).take 60 = shown := window.take_eq
  simp only [contextByBytes?, offset, first, start, second, window', front, back, ite_not,
    Option.bind_eq_bind, Option.bind_some, Option.pure_def]
  rfl

/-! ## Located errors -/

/-- The error names the character between `before` and `rest`, and shows the text around it. -/
structure PointsAt (error : SyntaxError) (before rest : List Char) : Prop where
  found : error.found = rest.head?.map (String.singleton ·)
  context : ∃ hidden shown left, Window (before ++ rest) before.length hidden shown left ∧
    error.context = some (.ofList (framed hidden shown left)) ∧
    shown[before.length - hidden.length]? = rest.head?
  -- No cut falls inside a character.
  bytes : (contextByBytes? (before ++ rest) rest).map (String.ofList ·) = error.context

theorem located_pointsAt (kind : Kind) (message : String) (before rest : List Char) :
    (located kind message (before ++ rest) rest).PointsAt before rest := by
  have inside : before.length ≤ (before ++ rest).length := by simp
  obtain ⟨hidden, shown, left, window⟩ := exists_window inside
  have shows : (located kind message (before ++ rest) rest).context =
      some (.ofList (framed hidden shown left)) := by
    rw [located, positionOf_append, contextAt_eq window]
  constructor
  case found => rfl
  case context => exact ⟨hidden, shown, left, window, shows, window.getElem?_shown⟩
  case bytes => rw [contextByBytes?_eq window, shows, Option.map_some]

end SyntaxError

end CallScript
