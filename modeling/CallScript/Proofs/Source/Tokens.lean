import CallScript.Proofs.Source.Continuation
import CallScript.Proofs.Source.Piece

/-! # The tokens of a text

`Tokens` splits a text as the grammar does, with layout dropped. Every text is split in one way
(`Tokens.unique`, `exists_tokens`), and the reader sees no more of a text than its tokens
(`run_outcome_eq`): the tree and the kind of an error do not depend on layout. New layout between two
tokens leaves the tokens as they are (`Cut.tokens_insert`). -/

namespace CallScript.Source

variable {limit : Nat} {state : State} {text text' start rest more : List Char} {token : Token}
  {tokens tokens' : List Token} {e : Expr}

/-- The tokens of a text with comments on. Layout may stand in front of each of them and at the end; a
quote that is never closed comes last, as the token `bad`. -/
inductive Tokens : List Char → List Token → Prop where
  | none {text : List Char} (layout : Layout true text []) : Tokens text []
  | cons {text start rest : List Char} {token : Token} {tokens : List Token}
      (layout : Layout true text start) (taken : TokenAt start token rest)
      (behind : Tokens rest tokens) : Tokens text (token :: tokens)
  | unclosed {text body : List Char} (layout : Layout true text ('"' :: body))
      (never : '"' ∉ body) : Tokens text [.bad]

/-! ## Every text is split in one way -/

theorem TokenAt.ne_bad (h : TokenAt text token rest) : token ≠ .bad := by
  cases h <;> exact Token.noConfusion

theorem nextToken_of_unclosed {body : List Char} (layout : Layout true text ('"' :: body))
    (never : '"' ∉ body) : ∃ rest, nextToken true text = some (.bad, '"' :: body, rest) := by
  have starts : startsToken true '"' = true := by decide
  rcases takeToken_quote body with ⟨closed, -⟩ | ⟨-, bad⟩
  · exact absurd closed never
  · exact ⟨_, by rw [nextToken_of_layout starts layout, bad]⟩

/-- Where comments are on, no token can start only at a quote that is never closed. -/
theorem unclosed_of_bad {c : Char} {cs : List Char} (starts : startsToken true c = true)
    (bad : (takeToken (c :: cs)).1 = .bad) : c = '"' ∧ '"' ∉ cs := by
  by_cases word : isWordChar c = true
  · obtain ⟨a, atom⟩ := exists_takeToken_atom word cs
    rw [bad] at atom
    cases atom
  · simp only [startsToken, Bool.and_eq_true, Bool.not_eq_true', Bool.true_and] at starts
    have delimiter : c ∈ wordDelimiters := by
      simpa [isWordChar, starts.1] using word
    simp only [wordDelimiters, List.mem_cons, List.not_mem_nil, or_false] at delimiter
    rcases delimiter with rfl | rfl | rfl | rfl | rfl
    · cases bad
    · cases bad
    · cases bad
    · cases starts.2
    · rcases takeToken_quote cs with ⟨-, a, atom⟩ | ⟨never, -⟩
      · rw [bad] at atom
        cases atom
      · exact ⟨rfl, never⟩

/-- The tokens of a text, found one after the other. -/
def scan (text : List Char) : List Token :=
  match _h : nextToken true text with
  | none => []
  | some (token, _, rest) => token :: if token = .bad then [] else scan rest
termination_by text.length
decreasing_by exact length_nextToken_lt _h

theorem scan_of_nextToken_none (found : nextToken true text = none) : scan text = [] := by
  rw [scan]
  split
  next => rfl
  next some => rw [found] at some; cases some

theorem scan_of_nextToken (found : nextToken true text = some (token, start, rest)) :
    scan text = token :: if token = .bad then [] else scan rest := by
  rw [scan]
  split
  next none => rw [found] at none; cases none
  next same =>
    rw [found] at same
    cases same
    rfl

theorem tokens_scan (text : List Char) : Tokens text (scan text) := by
  fun_induction scan text with
  | case1 text found => exact .none (nextToken_eq_none_iff.mp found)
  | case2 text token start rest found ih =>
    by_cases bad : token = .bad
    · obtain ⟨c, cs, rfl, starts, layout, taken⟩ := starts_of_nextToken found
      obtain ⟨rfl, never⟩ := unclosed_of_bad starts (by rw [taken, bad])
      rw [if_pos bad, bad]
      exact .unclosed layout never
    · obtain ⟨layout, taken⟩ := (nextToken_eq_some_iff bad).mp found
      rw [if_neg bad]
      exact .cons layout taken ih

theorem Tokens.scan_eq (h : Tokens text tokens) : scan text = tokens := by
  induction h with
  | none layout => exact scan_of_nextToken_none (nextToken_eq_none_iff.mpr layout)
  | cons layout taken _ ih =>
    have good := taken.ne_bad
    rw [scan_of_nextToken ((nextToken_eq_some_iff good).mpr ⟨layout, taken⟩), if_neg good, ih]
  | unclosed layout never =>
    obtain ⟨rest, found⟩ := nextToken_of_unclosed layout never
    rw [scan_of_nextToken found, if_pos rfl]

theorem Tokens.unique (h : Tokens text tokens) (h' : Tokens text tokens') : tokens = tokens' :=
  h.scan_eq.symm.trans h'.scan_eq

/-! ## The reader sees tokens only -/

/-- What of a run does not depend on places in the text: the tree and whether something is left behind
it, or the fault. -/
def outcome : Except Failure (Expr × List Char) → Except Fault (Expr × Bool)
  | .ok (e, rest) => .ok (e, rest.isEmpty)
  | .error failure => .error failure.fault

theorem outcome_run_of_token {options : Options}
    (found : nextToken options.comments text = some (token, start, rest)) :
    outcome (run options state text) =
      match step options.maxDepth state token with
      | .move next => outcome (run options next rest)
      | .stop e => .ok (e, false)
      | .fail fault => .error fault := by
  obtain ⟨c, cs, rfl, -⟩ := starts_of_nextToken found
  rw [run_of_token found]
  cases step options.maxDepth state token <;> rfl

/-- Two texts with the same tokens are read alike. -/
theorem outcome_run_eq (h : Tokens text tokens) (h' : Tokens text' tokens) :
    outcome (run ⟨true, limit⟩ state text) = outcome (run ⟨true, limit⟩ state text') := by
  induction h generalizing state text' with
  | none layout =>
    cases h' with
    | none layout' =>
      have run_eq {text : List Char} (layout : Layout true text []) :
          run ⟨true, limit⟩ state text = _ := run_of_layout layout
      rw [run_eq layout, run_eq layout']
  | cons layout taken _ ih =>
    cases h' with
    | cons layout' taken' behind' =>
      have good := taken.ne_bad
      have found := (nextToken_eq_some_iff good).mpr ⟨layout, taken⟩
      have found' := (nextToken_eq_some_iff good).mpr ⟨layout', taken'⟩
      have one : outcome (run ⟨true, limit⟩ state _) = _ := outcome_run_of_token found
      have other : outcome (run ⟨true, limit⟩ state _) = _ := outcome_run_of_token found'
      rw [one, other]
      split
      next => exact ih behind'
      next => rfl
      next => rfl
    | unclosed => exact absurd rfl taken.ne_bad
  | unclosed layout never =>
    cases h' with
    | cons _ taken' => exact absurd rfl taken'.ne_bad
    | unclosed layout' never' =>
      obtain ⟨rest, found⟩ := nextToken_of_unclosed layout never
      obtain ⟨rest', found'⟩ := nextToken_of_unclosed layout' never'
      have one : outcome (run ⟨true, limit⟩ state _) = _ := outcome_run_of_token found
      have other : outcome (run ⟨true, limit⟩ state _) = _ := outcome_run_of_token found'
      rw [one, other]
      split
      next moves => exact absurd rfl (ne_bad_of_move moves)
      next => rfl
      next => rfl

/-- The tree of a text, or the kind of its error. -/
def reading (limit : Nat) (text : String) : Except SyntaxError.Kind Expr :=
  (parseWith ⟨true, limit⟩ text).mapError (·.kind)

theorem reading_eq_outcome (limit : Nat) (text : String) :
    reading limit text =
      match outcome (run ⟨true, limit⟩ (.before []) text.toList) with
      | .ok (e, true) => .ok e
      | .ok (_, false) => .error .trailingContent
      | .error fault => .error fault.kind := by
  rw [reading, parseWith, runProgram]
  cases run ⟨true, limit⟩ (.before []) text.toList with
  | error failure => rfl
  | ok result =>
    obtain ⟨e, rest⟩ := result
    cases rest <;> rfl

theorem reading_eq_of_tokens {text text' : String} (h : Tokens text.toList tokens)
    (h' : Tokens text'.toList tokens) : reading limit text = reading limit text' := by
  rw [reading_eq_outcome, reading_eq_outcome, outcome_run_eq h h']

/-! ## New layout between tokens -/

/-- White space and comments stand in `text` before `rest`, and a line end closes each comment. -/
inductive ClosedLayout : List Char → List Char → Prop where
  | none {text : List Char} : ClosedLayout text text
  | blank {c : Char} {text rest : List Char} (hc : Text.isBlank c = true)
      (following : ClosedLayout text rest) : ClosedLayout (c :: text) rest
  | comment {body text rest : List Char} {c : Char} (inside : ∀ d ∈ body, endsLine d = false)
      (ends : endsLine c = true) (following : ClosedLayout text rest) :
      ClosedLayout ('#' :: (body ++ c :: text)) rest

/-- It is layout in front of any text. -/
theorem ClosedLayout.exists_piece (h : ClosedLayout text rest) :
    ∃ piece, text = piece ++ rest ∧ ∀ rest', Layout true (piece ++ rest') rest' := by
  induction h with
  | none => exact ⟨[], rfl, fun _ => .none⟩
  | @blank c _ _ hc _ ih =>
    obtain ⟨piece, rfl, layout⟩ := ih
    exact ⟨c :: piece, rfl, fun rest' => .blank hc (layout rest')⟩
  | @comment body _ _ c inside ends _ ih =>
    obtain ⟨piece, rfl, layout⟩ := ih
    refine ⟨'#' :: (body ++ c :: piece), by simp, ?_⟩
    intro rest'
    have line : Layout true (c :: (piece ++ rest')) rest' :=
      .blank (isBlank_of_endsLine ends) (layout rest')
    rw [List.cons_append, List.append_assoc]
    exact .comment rfl inside (fun d hd => by cases hd; exact ends) line

/-- Nothing that it starts with can go on with a word. -/
theorem ClosedLayout.head (h : ClosedLayout text rest) :
    ∀ c ∈ text.head?, isWordChar c = true → c ∈ rest.head? := by
  cases h with
  | none => exact fun c hc _ => hc
  | blank hc =>
    intro c first word
    cases first
    simp [isWordChar, hc] at word
  | comment =>
    intro c first word
    cases first
    cases word

/-- `Cut text rest`: some tokens of the text and closed layout behind them stand before `rest`. -/
inductive Cut : List Char → List Char → Prop where
  | layout {text rest : List Char} (closed : ClosedLayout text rest) : Cut text rest
  | token {text start behind rest : List Char} {token : Token} (layout : Layout true text start)
      (taken : TokenAt start token behind) (cut : Cut behind rest) : Cut text rest

theorem Tokens.of_layout (layout : Layout true text rest) (h : Tokens rest tokens) :
    Tokens text tokens := by
  cases h with
  | none behind => exact .none (layout.trans behind)
  | cons before taken behind => exact .cons (layout.trans before) taken behind
  | unclosed before never => exact .unclosed (layout.trans before) never

theorem ClosedLayout.layout {gap : List Char} (h : ClosedLayout gap []) (rest : List Char) :
    Layout true (gap ++ rest) rest := by
  obtain ⟨piece, rfl, layout⟩ := h.exists_piece
  rw [List.append_nil]
  exact layout rest

/-- Closed layout goes on with nothing that stands before it. -/
theorem ClosedLayout.head_append {gap before : List Char} (h : ClosedLayout gap []) :
    ∀ c ∈ (before ++ (gap ++ rest)).head?, isWordChar c = true → c ∈ (before ++ rest).head? := by
  cases before with
  | cons d ds => exact fun c hc _ => hc
  | nil =>
    intro c hc word
    cases gap with
    | nil => exact hc
    | cons d ds => cases h.head c hc word

/-- New layout at a cut leaves the tokens as they are. -/
theorem Cut.tokens_insert (cut : Cut text rest) :
    ∃ before, text = before ++ rest ∧
      ∀ gap tokens, ClosedLayout gap [] → Tokens text tokens →
        Tokens (before ++ (gap ++ rest)) tokens := by
  induction cut with
  | @layout text rest closed =>
    obtain ⟨piece, rfl, layout⟩ := closed.exists_piece
    refine ⟨piece, rfl, ?_⟩
    intro gap tokens new h
    have behind := tokens_scan rest
    obtain rfl := h.unique (.of_layout (layout rest) behind)
    exact .of_layout ((layout _).trans (new.layout rest)) behind
  | @token text start behind rest token layout taken _ ih =>
    obtain ⟨before, rfl, insert⟩ := ih
    obtain ⟨c, cs, rfl, again⟩ := taken.exists_piece
    obtain ⟨piece, rfl, layoutAgain⟩ := layout.exists_piece
    refine ⟨piece ++ (c :: cs ++ before), by simp, ?_⟩
    intro gap tokens new h
    have others := tokens_scan (before ++ rest)
    obtain rfl := h.unique (.cons layout taken others)
    have first : Layout true (piece ++ (c :: cs ++ (before ++ (gap ++ rest)))) _ :=
      layoutAgain _ fun d hd _ => hd
    simp only [List.append_assoc]
    exact .cons first (again _ new.head_append) (insert gap _ new others)

/-! ## Layout does not matter -/

/-- Layout does not matter. Every text has its tokens, and with the same tokens two texts are read
alike under any limit: as the same tree, or with an error of the same kind. In particular a text may
get new white space and new comments, closed by line ends, between its tokens. -/
theorem reading_by_tokens (limit : Nat) :
    (∀ text, ∃! tokens, Tokens text tokens) ∧
    (∀ (text text' : String) (tokens : List Token), Tokens text.toList tokens →
      Tokens text'.toList tokens →
      (parseWith ⟨true, limit⟩ text).mapError (·.kind) =
        (parseWith ⟨true, limit⟩ text').mapError (·.kind)) ∧
    ∀ before gap behind : String, Cut (before ++ behind).toList behind.toList →
      ClosedLayout gap.toList [] →
      (parseWith ⟨true, limit⟩ (before ++ gap ++ behind)).mapError (·.kind) =
        (parseWith ⟨true, limit⟩ (before ++ behind)).mapError (·.kind) := by
  refine ⟨?_, ?_, ?_⟩
  · intro text
    exact ⟨scan text, tokens_scan text, fun tokens h => h.scan_eq.symm⟩
  · intro text text' tokens h h'
    exact reading_eq_of_tokens h h'
  · intro before gap behind cut new
    obtain ⟨before', split, insert⟩ := cut.tokens_insert
    rw [String.toList_append] at split
    obtain rfl := List.append_cancel_right split
    have h := tokens_scan (before ++ behind).toList
    apply reading_eq_of_tokens _ h
    rw [String.toList_append, String.toList_append, List.append_assoc]
    exact insert gap.toList _ new h

/-- A missing comma is reported as such, however the text is laid out, and with a comment in it. -/
theorem missing_comma_laid_out :
    Tokens "f(a b".toList (scan "f(a b".toList) ∧ Tokens "f (a\nb".toList (scan "f(a b".toList) ∧
      Cut ("f" ++ "(a b").toList "(a b".toList ∧ ClosedLayout " # (\n".toList [] ∧
      (parseWith ⟨true, 9⟩ "f(a b").mapError (·.kind) =
        (parseWith ⟨true, 9⟩ "f (a\nb").mapError (·.kind) ∧
      (parseWith ⟨true, 9⟩ ("f" ++ " # (\n" ++ "(a b")).mapError (·.kind) =
        (parseWith ⟨true, 9⟩ ("f" ++ "(a b")).mapError (·.kind) := by
  have one := tokens_scan "f(a b".toList
  have same : scan "f (a\nb".toList = scan "f(a b".toList := by cbv
  have other := tokens_scan "f (a\nb".toList
  rw [same] at other
  have word : TokenAt ("f" ++ "(a b").toList (.atom (.word ['f'])) "(a b".toList :=
    tokenAt_of_takeToken (by cbv) Token.noConfusion
  have cut : Cut ("f" ++ "(a b").toList "(a b".toList := .token .none word (.layout .none)
  have comment : ClosedLayout ['#', ' ', '(', '\n'] [] :=
    @ClosedLayout.comment [' ', '('] [] [] '\n' (by simp [endsLine]) rfl .none
  have gap : ClosedLayout " # (\n".toList [] := .blank (by decide) comment
  exact ⟨one, other, cut, gap, (reading_by_tokens 9).2.1 _ _ _ one other,
    (reading_by_tokens 9).2.2 _ _ _ cut gap⟩

end CallScript.Source
