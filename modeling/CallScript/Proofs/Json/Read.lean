import CallScript.Json.Read
import CallScript.Proofs.Bindings
import CallScript.Proofs.Json.Token

/-! # Reading what was written

The compact text of a value is read as this value, with every double as its own text is read
(`read_chars`). The reader comes from the start of a value to its end with the stack as it was
(`run_value`); arrays and objects add their items and members one after the other to the frame on
top. What the machine does with one token is told by `Transition`, and a run is a chain of such moves
(`reaches_of_run`). -/

namespace CallScript.Json

mutual

/-- Integers have 64 bits, doubles are finite, and the members of objects are in the order of their
names. -/
def Proper : Json → Prop
  | .int n => -2 ^ 63 ≤ n ∧ n < 2 ^ 64
  | .double x => x.isFinite = true
  | .array items => ProperAll items
  | .object members =>
    ProperMembers members ∧ (members.map (·.1)).Pairwise (· < ·)
  | _ => True

/-- `Proper` of every value in a list. -/
def ProperAll : List Json → Prop
  | [] => True
  | item :: rest => Proper item ∧ ProperAll rest

/-- `Proper` of the value of every member. -/
def ProperMembers : List (String × Json) → Prop
  | [] => True
  | (_, value) :: rest => Proper value ∧ ProperMembers rest

end

mutual

/-- What the text of a value is read as: the value, with each double as its text is read. -/
def reread : Json → Option Json
  | .double x => (rereadDouble x).map .double
  | .array items => (rereadAll items).map .array
  | .object members => (rereadMembers members).map .object
  | json => some json

/-- `reread` of every value in a list. -/
def rereadAll : List Json → Option (List Json)
  | [] => some []
  | item :: rest => do
    let item ← reread item
    let rest ← rereadAll rest
    return item :: rest

/-- `reread` of the value of every member. -/
def rereadMembers : List (String × Json) → Option (List (String × Json))
  | [] => some []
  | (name, value) :: rest => do
    let value ← reread value
    let rest ← rereadMembers rest
    return (name, value) :: rest

end

variable {state state' next : State} {token : Token} {c : Char} {text rest after : List Char}
  {stack : List Frame} {json : Json}

/-! ## One token -/

/-- Something is still to be read. -/
def State.Going : State → Prop
  | .after _ [] => False
  | _ => True

theorem skipSpace_cons (noSpace : isSpace c = false) : skipSpace (c :: rest) = c :: rest :=
  List.dropWhile_cons_of_neg (by simp [noSpace])

/-- The machine takes the token behind white space. -/
theorem run_skipSpace (going : state.Going) (text : List Char) :
    run state text =
      (takeToken (skipSpace text)).bind fun (token, after) =>
        (step state token).bind fun next => run next after := by
  rw [run]
  · split
    next stuck =>
      rw [stuck]
      rfl
    next token after found =>
      rw [found]
      dsimp only [Option.bind_some]
      cases step state token <;> rfl
  · rintro json rfl
    exact going

theorem run_eq (going : state.Going) (noSpace : isSpace c = false) :
    run state (c :: text) =
      (takeToken (c :: text)).bind fun (token, after) =>
        (step state token).bind fun next => run next after := by
  rw [run_skipSpace going, skipSpace_cons noSpace]

theorem run_of_step (going : state.Going) (noSpace : isSpace c = false)
    (taken : takeToken (c :: text) = some (token, after)) (moves : step state token = some next) :
    run state (c :: text) = run next after := by
  rw [run_eq going noSpace, taken, Option.bind_some]
  simp only [moves, Option.bind_some]

/-- Two states that do the same with the next token do the same with the text. -/
theorem run_congr (going : state.Going) (going' : state'.Going) (noSpace : isSpace c = false)
    (same : ∀ token after, takeToken (c :: text) = some (token, after) →
      step state token = step state' token) :
    run state (c :: text) = run state' (c :: text) := by
  rw [run_eq going noSpace, run_eq going' noSpace]
  cases taken : takeToken (c :: text) with
  | none => rfl
  | some result => simp only [Option.bind_some, same result.1 result.2 taken]

/-! ## Runs -/

/-- What the machine does with a token, one case for each place where the token may stand. -/
inductive Transition : State → Token → State → Prop where
  | start {stack : List Frame} {token : Token} {next : State}
      (starts : startValue stack token = some next) : Transition (.value stack) token next
  | firstItem {stack : List Frame} {token : Token} {next : State}
      (starts : startValue (.array [] :: stack) token = some next) :
      Transition (.firstItem stack) token next
  | emptyArray {stack : List Frame} :
      Transition (.firstItem stack) .closeBracket (.after (.array []) stack)
  | firstName {stack : List Frame} {name : String} :
      Transition (.firstName stack) (.string name) (.colon [] name stack)
  | emptyObject {stack : List Frame} :
      Transition (.firstName stack) .closeBrace (.after (.object []) stack)
  | name {members : List (String × Json)} {stack : List Frame} {name : String} :
      Transition (.name members stack) (.string name) (.colon members name stack)
  | colon {members : List (String × Json)} {name : String} {stack : List Frame} :
      Transition (.colon members name stack) .colon (.value (.member members name :: stack))
  | nextItem {json : Json} {items : List Json} {stack : List Frame} :
      Transition (.after json (.array items :: stack)) .comma (.value (.array (json :: items) :: stack))
  | closeArray {json : Json} {items : List Json} {stack : List Frame} :
      Transition (.after json (.array items :: stack)) .closeBracket
        (.after (.array (json :: items).reverse) stack)
  | nextMember {json : Json} {members : List (String × Json)} {name : String} {stack : List Frame} :
      Transition (.after json (.member members name :: stack)) .comma
        (.name (Bindings.put name json members) stack)
  | closeObject {json : Json} {members : List (String × Json)} {name : String} {stack : List Frame} :
      Transition (.after json (.member members name :: stack)) .closeBrace
        (.after (.object (Bindings.put name json members)) stack)

theorem transition_of_step (moves : step state token = some next) : Transition state token next := by
  revert moves
  fun_cases step state token <;> intro moves
  case case1 => exact .start moves
  case case3 => exact .firstItem moves
  all_goals cases moves
  case case2 => exact .emptyArray
  case case4 => exact .emptyObject
  case case5 => exact .firstName
  case case7 => exact .name
  case case9 => exact .colon
  case case11 => exact .nextItem
  case case12 => exact .closeArray
  case case13 => exact .nextMember
  case case14 => exact .closeObject

/-- The machine goes over the next token. -/
inductive Moves : State × List Char → State × List Char → Prop where
  | intro {state next : State} {token : Token} {text after : List Char} (going : state.Going)
      (taken : takeToken (skipSpace text) = some (token, after))
      (moves : step state token = some next) : Moves (state, text) (next, after)

/-- The machine comes from one place in a text to another one. -/
abbrev Reaches : State × List Char → State × List Char → Prop :=
  Relation.ReflTransGen Moves

theorem going_of_ne (other : ∀ json, state = .after json [] → False) : state.Going := by
  cases state with
  | after json stack =>
    cases stack with
    | nil => exact other json rfl
    | cons => trivial
  | _ => trivial

/-- A run that ends has come to its end. -/
theorem reaches_of_run (ends : run state text = some (json, rest)) :
    Reaches (state, text) (.after json [], rest) := by
  fun_induction run state text with
  | case1 text json =>
    cases ends
    exact .refl
  | case2 | case3 => cases ends
  | case4 text state going token after taken next moves ih =>
    exact .head (.intro (going_of_ne going) taken moves) (ih ends)

theorem run_of_read (taken : read text = some (json, rest)) :
    run (.value []) text = some (json, rest) := by
  rw [read] at taken
  split at taken
  next value after ends =>
    split at taken
    next =>
      cases taken
      exact ends
    next => cases taken
  next => cases taken

/-! ## The start of a value -/

/-- A value starts with a character that is no white space and that closes no array. -/
theorem exists_chars_cons (proper : json.Proper) :
    ∃ c cs, json.chars = c :: cs ∧ isSpace c = false ∧ c ≠ ']' := by
  have number {text : List Char} (isNumber : IsNumberText text) :
      ∃ c cs, text = c :: cs ∧ isSpace c = false ∧ c ≠ ']' := by
    obtain ⟨c, cs, rfl⟩ := List.exists_cons_of_ne_nil isNumber.nonempty
    have first := isNumber.chars c List.mem_cons_self
    refine ⟨c, cs, rfl, isSpace_of_isNumberChar first, ?_⟩
    rintro rfl
    cases first
  cases json with
  | null => exact ⟨_, _, rfl, by decide, by decide⟩
  | bool value => cases value <;> exact ⟨_, _, rfl, by decide, by decide⟩
  | int n => exact number (isNumberText_int n)
  | double x => exact number (isNumberText_double proper)
  | string s => exact ⟨_, _, rfl, by decide, by decide⟩
  | array items => exact ⟨_, _, rfl, by decide, by decide⟩
  | object members => exact ⟨_, _, rfl, by decide, by decide⟩

theorem takeToken_closeBracket (taken : takeToken (c :: text) = some (.closeBracket, after)) :
    c = ']' := by
  rw [takeToken.eq_def] at taken
  split at taken
  case h_4 same => cases same; rfl
  case h_7 =>
    obtain ⟨_, _, same⟩ := Option.map_eq_some_iff.mp taken
    cases same
  case h_8 =>
    obtain ⟨_, _, same⟩ := Option.map_eq_some_iff.mp taken
    cases same
  all_goals cases taken

/-- The first item of an array starts as any value. -/
theorem run_firstItem (item : Json) (items : List Json) (proper : item.Proper) (text : List Char) :
    run (.firstItem stack) (itemChars (item :: items) ++ text) =
      run (.value (.array [] :: stack)) (itemChars (item :: items) ++ text) := by
  obtain ⟨c, cs, chars, noSpace, other⟩ := exists_chars_cons proper
  rw [itemChars, chars, List.append_assoc, List.append_assoc, List.cons_append]
  apply run_congr (by trivial) (by trivial) noSpace
  intro token after taken
  cases token with
  | closeBracket => exact absurd (takeToken_closeBracket taken) other
  | _ => rfl

theorem run_value_number (number : IsNumberText text) :
    run (.value stack) (text ++ rest) =
      (takeNumber (text ++ rest)).bind fun (value, after) => run (.after value stack) after := by
  have token := takeToken_number number rest
  obtain ⟨c, cs, rfl⟩ := List.exists_cons_of_ne_nil number.nonempty
  have noSpace := isSpace_of_isNumberChar (number.chars c List.mem_cons_self)
  rw [List.cons_append] at token ⊢
  rw [run_eq (by trivial) noSpace, token]
  cases takeNumber (c :: (cs ++ rest)) <;> rfl

/-! ## Whole values -/

theorem endsNumber_cons (other : isNumberChar c = false) : EndsNumber (c :: rest) := by
  rintro d same
  cases same
  exact other

/-- The first name of an object stands there as any name. -/
theorem run_firstName (name : String) (value : Json) (members : List (String × Json))
    (text : List Char) :
    run (.firstName stack) (memberChars ((name, value) :: members) ++ text) =
      run (.name [] stack) (memberChars ((name, value) :: members) ++ text) := by
  rw [memberChars, List.append_assoc, List.append_assoc, List.append_assoc]
  have token (text : List Char) := takeToken_string name text
  exact (run_of_step (by trivial) (by decide) (token _) rfl).trans
    (run_of_step (by trivial) (by decide) (token _) rfl).symm

/-- A name in an object and the colon behind it. -/
theorem run_name (read : List (String × Json)) (name : String) (text : List Char) :
    run (.name read stack) (stringChars name ++ ':' :: text) =
      run (.value (.member read name :: stack)) text := by
  calc run (.name read stack) (stringChars name ++ ':' :: text)
      = run (.colon read name stack) (':' :: text) :=
        run_of_step (by trivial) (by decide) (takeToken_string name _) rfl
    _ = run (.value (.member read name :: stack)) text :=
        run_of_step (by trivial) (by decide) rfl rfl

theorem put_of_sorted {read : List (String × Json)} {name : String} {names : List String}
    (sorted : (read.map (·.1) ++ name :: names).Pairwise (· < ·)) (value : Json) :
    Bindings.put name value read = read ++ [(name, value)] := by
  apply Bindings.put_of_all_lt
  intro entry member
  obtain ⟨-, -, before⟩ := List.pairwise_append.mp sorted
  exact before entry.1 (List.mem_map_of_mem member) name List.mem_cons_self

-- The induction follows the value. Lists of items and members are not empty here, since the machine has
-- states of its own for the places in which the first one is missing.
mutual

/-- The reader comes from the start of a value to its end. -/
theorem run_value (json : Json) (proper : json.Proper) (stack : List Frame) {rest : List Char}
    (ends : EndsNumber rest) :
    run (.value stack) (json.chars ++ rest) =
      json.reread.bind fun value => run (.after value stack) rest := by
  match json with
  | .null => exact run_of_step trivial (by decide) rfl rfl
  | .bool true => exact run_of_step trivial (by decide) rfl rfl
  | .bool false => exact run_of_step trivial (by decide) rfl rfl
  | .int n =>
    rw [chars, run_value_number (isNumberText_int n), takeNumber_int proper.1 proper.2 ends]
    rfl
  | .double x =>
    rw [chars, run_value_number (isNumberText_double proper), takeNumber_double proper ends, reread]
    cases rereadDouble x <;> rfl
  | .string s => exact run_of_step trivial (by decide) (takeToken_string s rest) rfl
  | .array [] =>
    calc run (.value stack) ('[' :: ']' :: rest)
        = run (.firstItem stack) (']' :: rest) := run_of_step trivial (by decide) rfl rfl
      _ = run (.after (.array []) stack) rest := run_of_step trivial (by decide) rfl rfl
  | .array (item :: items) =>
    have text : (Json.array (item :: items)).chars ++ rest =
        '[' :: (itemChars (item :: items) ++ ']' :: rest) := by simp [chars]
    have opens (text : List Char) : run (.value stack) ('[' :: text) = run (.firstItem stack) text :=
      run_of_step trivial (by decide) rfl rfl
    have inside := run_items (item :: items) (List.cons_ne_nil _ _) proper [] stack rest
    rw [text, opens, run_firstItem item items proper.1, inside, reread]
    cases rereadAll (item :: items) <;> rfl
  | .object [] =>
    calc run (.value stack) ('\x7b' :: '\x7d' :: rest)
        = run (.firstName stack) ('\x7d' :: rest) := run_of_step trivial (by decide) rfl rfl
      _ = run (.after (.object []) stack) rest := run_of_step trivial (by decide) rfl rfl
  | .object ((name, value) :: members) =>
    have text : (Json.object ((name, value) :: members)).chars ++ rest =
        '\x7b' :: (memberChars ((name, value) :: members) ++ '\x7d' :: rest) := by simp [chars]
    have opens (text : List Char) : run (.value stack) ('\x7b' :: text) = run (.firstName stack) text :=
      run_of_step trivial (by decide) rfl rfl
    have inside := run_members ((name, value) :: members) (List.cons_ne_nil _ _) proper.1 []
      proper.2 stack rest
    rw [text, opens, run_firstName, inside, reread]
    cases rereadMembers ((name, value) :: members) <;> rfl

/-- Items are added to the array on top of the stack, which closes behind them. -/
theorem run_items (items : List Json) (nonempty : items ≠ []) (proper : ProperAll items)
    (read : List Json) (stack : List Frame) (rest : List Char) :
    run (.value (.array read :: stack)) (itemChars items ++ ']' :: rest) =
      (rereadAll items).bind fun values =>
        run (.after (.array (read.reverse ++ values)) stack) rest := by
  match items with
  | [] => exact absurd rfl nonempty
  | [item] =>
    have closes (value : Json) : run (.after value (.array read :: stack)) (']' :: rest) =
        run (.after (.array (value :: read).reverse) stack) rest :=
      run_of_step trivial (by decide) rfl rfl
    have text : itemChars [item] ++ ']' :: rest = item.chars ++ ']' :: rest := by simp [itemChars]
    rw [text, run_value item proper.1 _ (endsNumber_cons (by decide)), rereadAll, rereadAll]
    cases item.reread with
    | none => rfl
    | some value => simp [closes]
  | item :: next :: items =>
    have goes (value : Json) (text : List Char) :
        run (.after value (.array read :: stack)) (',' :: text) =
          run (.value (.array (value :: read) :: stack)) text :=
      run_of_step trivial (by decide) rfl rfl
    have text : itemChars (item :: next :: items) ++ ']' :: rest =
        item.chars ++ ',' :: (itemChars (next :: items) ++ ']' :: rest) := by simp [itemChars]
    have others (value : Json) :=
      run_items (next :: items) (List.cons_ne_nil _ _) proper.2 (value :: read) stack rest
    rw [text, run_value item proper.1 _ (endsNumber_cons (by decide)), rereadAll]
    cases item.reread with
    | none => rfl
    | some value =>
      rw [Option.bind_some, goes, others]
      cases rereadAll (next :: items) <;> simp

/-- Members are added to the object on top of the stack, which closes behind them. -/
theorem run_members (members : List (String × Json)) (nonempty : members ≠ [])
    (proper : ProperMembers members) (read : List (String × Json))
    (sorted : (read.map (·.1) ++ members.map (·.1)).Pairwise (· < ·))
    (stack : List Frame) (rest : List Char) :
    run (.name read stack) (memberChars members ++ '\x7d' :: rest) =
      (rereadMembers members).bind fun values =>
        run (.after (.object (read ++ values)) stack) rest := by
  match members with
  | [] => exact absurd rfl nonempty
  | [(name, value)] =>
    have closes (v : Json) : run (.after v (.member read name :: stack)) ('\x7d' :: rest) =
        run (.after (.object (read ++ [(name, v)])) stack) rest := by
      rw [← put_of_sorted sorted]
      exact run_of_step trivial (by decide) rfl rfl
    have text : memberChars [(name, value)] ++ '\x7d' :: rest =
        stringChars name ++ ':' :: (value.chars ++ '\x7d' :: rest) := by simp [memberChars]
    rw [text, run_name, run_value value proper.1 _ (endsNumber_cons (by decide)), rereadMembers,
      rereadMembers]
    cases value.reread with
    | none => rfl
    | some v => simp [closes]
  | (name, value) :: next :: members =>
    have goes (v : Json) (text : List Char) :
        run (.after v (.member read name :: stack)) (',' :: text) =
          run (.name (read ++ [(name, v)]) stack) text := by
      rw [← put_of_sorted sorted]
      exact run_of_step trivial (by decide) rfl rfl
    have text : memberChars ((name, value) :: next :: members) ++ '\x7d' :: rest =
        stringChars name ++ ':' :: (value.chars ++ ',' :: (memberChars (next :: members) ++
          '\x7d' :: rest)) := by simp [memberChars]
    have others (v : Json) := run_members (next :: members) (List.cons_ne_nil _ _) proper.2
      (read ++ [(name, v)]) (by simpa using sorted) stack rest
    rw [text, run_name, run_value value proper.1 _ (endsNumber_cons (by decide)), rereadMembers]
    cases value.reread with
    | none => rfl
    | some v =>
      rw [Option.bind_some, goes, others]
      cases rereadMembers (next :: members) <;> simp

end

/-- The text of a value is read as the value, with each double as its text is read, and nothing is
left over. -/
theorem read_chars (json : Json) (proper : json.Proper) :
    read json.chars = json.reread.map fun value => (value, []) := by
  have whole := run_value json proper [] (show EndsNumber [] by simp [EndsNumber])
  rw [List.append_nil] at whole
  rw [read, whole]
  cases json.reread with
  | none => rfl
  | some value =>
    have done : run (.after value []) [] = some (value, []) := by rw [run]
    have ends : endsScalar [] = true := rfl
    simp [done, ends]

end CallScript.Json
