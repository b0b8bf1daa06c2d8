import CallScript.Proofs.Json.Read

/-! # The reader reads the grammar

The machine reads a text to its end exactly if the text is a document, and the value is that of the
document with its members merged (`read_eq_some_iff`). One direction follows the derivation of a value;
for the other one it is said what the text behind a state of the machine has to hold (`Accepts`). -/

namespace CallScript.Json

variable {state next : State} {token : Token} {text part rest space inside : List Char} {c : Char}
  {stack : List Frame} {json result : Json} {items : List Json}
  {members entries : List (String × Json)} {name : String}

/-! ## White space -/

theorem blank_nil : Blank [] :=
  List.forall_mem_nil _

theorem exists_blank_skipSpace (text : List Char) :
    ∃ space, text = space ++ skipSpace text ∧ Blank space :=
  ⟨text.takeWhile isSpace, List.takeWhile_append_dropWhile.symm, fun _ => List.mem_takeWhile_imp⟩

theorem skipSpace_append (blank : Blank space) (text : List Char) :
    skipSpace (space ++ text) = skipSpace text :=
  List.dropWhile_append_of_pos blank

theorem skipSpace_isEmpty_iff : (skipSpace text).isEmpty = true ↔ Blank text := by
  rw [List.isEmpty_iff, skipSpace, List.dropWhile_eq_nil_iff, Blank]

theorem run_blank (going : state.Going) (blank : Blank space) (text : List Char) :
    run state (space ++ text) = run state text := by
  rw [run_skipSpace going, run_skipSpace going, skipSpace_append blank]

theorem read_of_blank (blank : Blank text) : read text = none := by
  have nothing : skipSpace text = [] := List.isEmpty_iff.mp (skipSpace_isEmpty_iff.mpr blank)
  rw [read, run_skipSpace (by trivial), nothing]
  rfl

/-- A token behind white space. -/
theorem run_of_token (going : state.Going) (blank : Blank space) (h : TokenText part token)
    (taken : takeToken (part ++ rest) = some (token, rest)) (moves : step state token = some next) :
    run state (space ++ (part ++ rest)) = run next rest := by
  obtain ⟨c, cs, rfl, noSpace⟩ := h.head
  rw [run_blank going blank]
  exact run_of_step going noSpace taken moves

theorem isNumberChar_of_isSpace (space : isSpace c = true) : isNumberChar c = false := by
  cases number : isNumberChar c with
  | false => rfl
  | true =>
    rw [isSpace_of_isNumberChar number] at space
    cases space

theorem endsNumber_of_blank (blank : Blank space) (ends : EndsNumber rest) :
    EndsNumber (space ++ rest) := by
  cases space with
  | nil => exact ends
  | cons c cs => exact endsNumber_cons (isNumberChar_of_isSpace (blank c List.mem_cons_self))

/-! ## What is derived is read -/

theorem ofParts_cases {negative : Bool} {whole : List Char} {fraction? : Option (List Char)}
    {exponent? : Option Int} (value : ofParts negative whole fraction? exponent? = some json) :
    (∃ n, json = .int n) ∨ ∃ x, json = .double x := by
  simp only [ofParts] at value
  split at value
  next =>
    cases value
    rw [ofInteger]
    split
    next => exact .inl ⟨_, rfl⟩
    next =>
      split
      next => exact .inr ⟨_, rfl⟩
      next => exact .inl ⟨_, rfl⟩
  next =>
    obtain ⟨x, -, rfl⟩ := Option.map_eq_some_iff.mp value
    exact .inr ⟨_, rfl⟩

theorem ScalarText.cases (h : ScalarText part json) :
    json = .null ∨ (∃ b, json = .bool b) ∨ (∃ n, json = .int n) ∨ ∃ x, json = .double x := by
  cases h with
  | null => exact .inl rfl
  | true | false => exact .inr (.inl ⟨_, rfl⟩)
  | number number =>
    cases number with
    | positive valid exponent value => exact .inr (.inr (ofParts_cases value))
    | negative valid exponent value => exact .inr (.inr (ofParts_cases value))

theorem ScalarText.merged_eq (h : ScalarText part json) : json.merged = json := by
  rcases h.cases with rfl | ⟨b, rfl⟩ | ⟨n, rfl⟩ | ⟨x, rfl⟩ <;> rfl

theorem ValueText.head (h : ValueText part json) :
    ∃ c cs, part = c :: cs ∧ isSpace c = false ∧ c ≠ ']' := by
  cases h with
  | scalar scalar =>
    cases scalar with
    | null | true | false => exact ⟨_, _, rfl, by decide, by decide⟩
    | number number =>
      obtain ⟨c, cs, rfl⟩ := List.exists_cons_of_ne_nil number.isNumberText.nonempty
      have first := number.isNumberText.chars c List.mem_cons_self
      exact ⟨c, cs, rfl, isSpace_of_isNumberChar first, by rintro rfl; cases first⟩
  | string string =>
    cases string with
    | intro => exact ⟨_, _, rfl, by decide, by decide⟩
  | emptyArray | array | emptyObject | object => exact ⟨_, _, rfl, by decide, by decide⟩

theorem ItemsText.head (h : ItemsText inside items) :
    ∃ space c cs, inside = space ++ c :: cs ∧ Blank space ∧ isSpace c = false ∧ c ≠ ']' := by
  have padded {part : List Char} {json : Json} (h : PaddedText part json) :
      ∃ space c cs, part = space ++ c :: cs ∧ Blank space ∧ isSpace c = false ∧ c ≠ ']' := by
    cases h with
    | intro blank value blank' =>
      obtain ⟨c, cs, rfl, first⟩ := value.head
      exact ⟨_, c, cs ++ _, rfl, blank, first⟩
  cases h with
  | last item => exact padded item
  | next item more =>
    obtain ⟨space, c, cs, rfl, first⟩ := padded item
    exact ⟨space, c, cs ++ ',' :: _, by rw [List.append_assoc]; rfl, first⟩

theorem MembersText.head (h : MembersText inside members) :
    ∃ space cs, inside = space ++ '"' :: cs ∧ Blank space := by
  have member {part : List Char} {name : String} {json : Json} (h : MemberText part name json) :
      ∃ space cs, part = space ++ '"' :: cs ∧ Blank space := by
    cases h with
    | intro blank string blank' value =>
      cases string with
      | intro chars => exact ⟨_, _, rfl, blank⟩
  cases h with
  | last first => exact member first
  | next first more =>
    obtain ⟨space, cs, rfl, blank⟩ := member first
    exact ⟨space, cs ++ ',' :: _, by rw [List.append_assoc]; rfl, blank⟩

/-- The first item of an array starts as any value. -/
theorem ItemsText.run_firstItem (h : ItemsText inside items) (stack : List Frame) (text : List Char) :
    run (.firstItem stack) (inside ++ text) = run (.value (.array [] :: stack)) (inside ++ text) := by
  obtain ⟨space, c, cs, rfl, blank, noSpace, other⟩ := h.head
  rw [List.append_assoc, List.cons_append, run_blank (by trivial) blank, run_blank (by trivial) blank]
  apply run_congr (by trivial) (by trivial) noSpace
  intro token after taken
  cases token with
  | closeBracket => exact absurd (takeToken_closeBracket taken) other
  | _ => rfl

/-- The first name of an object stands there as any name. -/
theorem MembersText.run_firstName (h : MembersText inside members) (stack : List Frame)
    (text : List Char) :
    run (.firstName stack) (inside ++ text) = run (.name [] stack) (inside ++ text) := by
  obtain ⟨space, cs, rfl, blank⟩ := h.head
  rw [List.append_assoc, List.cons_append, run_blank (by trivial) blank, run_blank (by trivial) blank]
  apply run_congr (by trivial) (by trivial) (by decide)
  intro token after taken
  obtain ⟨_, _, same⟩ := Option.map_eq_some_iff.mp taken
  cases same
  rfl

-- The induction follows the derivation.
mutual

/-- The machine comes from the start of a value to its end. -/
theorem ValueText.run_eq {part : List Char} {json : Json} (h : ValueText part json)
    (stack : List Frame) {rest : List Char} (ends : EndsNumber rest) :
    run (.value stack) (part ++ rest) = run (.after json.merged stack) rest := by
  match h with
  | .scalar scalar =>
    rw [scalar.merged_eq]
    exact run_of_token (by trivial) blank_nil (.scalar scalar)
      ((TokenText.scalar scalar).takeToken_eq ends) rfl
  | .string quoted =>
    exact run_of_token (by trivial) blank_nil (.string quoted) (quoted.takeToken_eq rest) rfl
  | .emptyArray blank =>
    have opens (text : List Char) : run (.value stack) ('[' :: text) = run (.firstItem stack) text :=
      run_of_step trivial (by decide) rfl rfl
    rw [List.cons_append, List.append_assoc, opens, run_blank (by trivial) blank]
    exact run_of_step trivial (by decide) rfl rfl
  | .array list =>
    have opens (text : List Char) : run (.value stack) ('[' :: text) = run (.firstItem stack) text :=
      run_of_step trivial (by decide) rfl rfl
    rw [List.cons_append, List.append_assoc, opens, list.run_firstItem]
    exact list.run_eq [] stack rest
  | .emptyObject blank =>
    have opens (text : List Char) : run (.value stack) ('\x7b' :: text) = run (.firstName stack) text :=
      run_of_step trivial (by decide) rfl rfl
    rw [List.cons_append, List.append_assoc, opens, run_blank (by trivial) blank]
    exact run_of_step trivial (by decide) rfl rfl
  | .object list =>
    have opens (text : List Char) : run (.value stack) ('\x7b' :: text) = run (.firstName stack) text :=
      run_of_step trivial (by decide) rfl rfl
    rw [List.cons_append, List.append_assoc, opens, list.run_firstName]
    exact list.run_eq [] stack rest

/-- Inside an array or an object the white space behind a value is passed over as well. -/
theorem PaddedText.run_eq {part : List Char} {json : Json} (h : PaddedText part json) (frame : Frame)
    (stack : List Frame) {rest : List Char} (ends : EndsNumber rest) :
    run (.value (frame :: stack)) (part ++ rest) = run (.after json.merged (frame :: stack)) rest := by
  match h with
  | .intro blank value blank' =>
    rw [List.append_assoc, List.append_assoc, run_blank (by trivial) blank,
      value.run_eq _ (endsNumber_of_blank blank' ends), run_blank (by trivial) blank']

/-- Items are added to the array on top of the stack, which closes behind them. -/
theorem ItemsText.run_eq {inside : List Char} {items : List Json} (h : ItemsText inside items)
    (read : List Json) (stack : List Frame) (rest : List Char) :
    run (.value (.array read :: stack)) (inside ++ ']' :: rest) =
      run (.after (.array (read.reverse ++ mergedAll items)) stack) rest := by
  match h with
  | .last item =>
    rw [item.run_eq _ stack (endsNumber_cons (by decide)), mergedAll, mergedAll, ← List.reverse_cons]
    exact run_of_step trivial (by decide) rfl rfl
  | @ItemsText.next _ others json items item more =>
    have goes : run (.after json.merged (.array read :: stack)) (',' :: (others ++ ']' :: rest)) =
        run (.value (.array (json.merged :: read) :: stack)) (others ++ ']' :: rest) :=
      run_of_step trivial (by decide) rfl rfl
    rw [List.append_assoc, List.cons_append, item.run_eq _ stack (endsNumber_cons (by decide)), goes,
      more.run_eq, mergedAll, List.reverse_cons, List.append_assoc, List.singleton_append]

theorem MemberText.run_eq {part : List Char} {name : String} {json : Json}
    (h : MemberText part name json) (read : List (String × Json)) (stack : List Frame)
    {rest : List Char} (ends : EndsNumber rest) :
    run (.name read stack) (part ++ rest) =
      run (.after json.merged (.member read name :: stack)) rest := by
  match h with
  | @MemberText.intro _ _ _ padded _ _ blank quoted blank' value =>
    have colon : run (.colon read name stack) (':' :: (padded ++ rest)) =
        run (.value (.member read name :: stack)) (padded ++ rest) :=
      run_of_step trivial (by decide) rfl rfl
    rw [List.append_assoc, List.append_assoc, List.append_assoc, List.cons_append,
      run_of_token (by trivial) blank (.string quoted) (quoted.takeToken_eq _) rfl,
      run_blank (by trivial) blank', colon, value.run_eq _ stack ends]

/-- Members are added to the object on top of the stack, which closes behind them. -/
theorem MembersText.run_eq {inside : List Char} {members : List (String × Json)}
    (h : MembersText inside members) (read : List (String × Json)) (stack : List Frame)
    (rest : List Char) :
    run (.name read stack) (inside ++ '\x7d' :: rest) =
      run (.after (.object (mergedInto read members)) stack) rest := by
  match h with
  | .last member =>
    rw [member.run_eq read stack (endsNumber_cons (by decide)), mergedInto, mergedInto]
    exact run_of_step trivial (by decide) rfl rfl
  | @MembersText.next _ others name json members member more =>
    have goes : run (.after json.merged (.member read name :: stack))
        (',' :: (others ++ '\x7d' :: rest)) =
          run (.name (Bindings.put name json.merged read) stack) (others ++ '\x7d' :: rest) :=
      run_of_step trivial (by decide) rfl rfl
    rw [List.append_assoc, List.cons_append, member.run_eq read stack (endsNumber_cons (by decide)),
      goes, more.run_eq, mergedInto]

end

/-! ## What is read is derived -/

/-- What stands between a value in an array and the end of the array: nothing, or a comma and other
items. -/
inductive MoreItems : List Char → List Json → Prop where
  | none : MoreItems [] []
  | some {inside : List Char} {items : List Json} (list : ItemsText inside items) :
      MoreItems (',' :: inside) items

/-- What stands between a value in an object and the end of the object. -/
inductive MoreMembers : List Char → List (String × Json) → Prop where
  | none : MoreMembers [] []
  | some {inside : List Char} {members : List (String × Json)} (list : MembersText inside members) :
      MoreMembers (',' :: inside) members

theorem PaddedText.itemsText {more : List Char} (h : PaddedText part json)
    (others : MoreItems more items) : ItemsText (part ++ more) (json :: items) := by
  cases others with
  | none =>
    rw [List.append_nil]
    exact .last h
  | some list => exact .next h list

theorem MemberText.membersText {more : List Char} (h : MemberText part name json)
    (others : MoreMembers more members) : MembersText (part ++ more) ((name, json) :: members) := by
  cases others with
  | none =>
    rw [List.append_nil]
    exact .last h
  | some list => exact .next h list

/-- After a value has been read the text goes on with what belongs to the innermost open array or
object, the one around it, and so on outwards, up to `rest`. -/
def Continues : List Frame → Json → List Char → Json → List Char → Prop
  | [], json, text, result, rest => json = result ∧ text = rest
  | .array items :: stack, json, text, result, rest =>
    ∃ space more values behind, Blank space ∧ MoreItems more values ∧
      text = space ++ (more ++ ']' :: behind) ∧
      Continues stack (.array ((json :: items).reverse ++ mergedAll values)) behind result rest
  | .member members name :: stack, json, text, result, rest =>
    ∃ space more entries behind, Blank space ∧ MoreMembers more entries ∧
      text = space ++ (more ++ '\x7d' :: behind) ∧
      Continues stack (.object (mergedInto (Bindings.put name json members) entries)) behind result
        rest
  | .object _ :: _, _, _, _, _ => False

/-- A value stands here, and what continues it. -/
def AcceptsValue (stack : List Frame) (text : List Char) (result : Json) (rest : List Char) : Prop :=
  ∃ space part json behind, Blank space ∧ ValueText part json ∧ text = space ++ (part ++ behind) ∧
    Continues stack json.merged behind result rest

/-- Members stand here, and the end of the object. -/
def AcceptsMembers (read : List (String × Json)) (stack : List Frame) (text : List Char)
    (result : Json) (rest : List Char) : Prop :=
  ∃ inside entries behind, MembersText inside entries ∧ text = inside ++ '\x7d' :: behind ∧
    Continues stack (.object (mergedInto read entries)) behind result rest

/-- What the text holds from a state of the machine on. -/
def Accepts : State → List Char → Json → List Char → Prop
  | .value stack, text, result, rest => AcceptsValue stack text result rest
  | .firstItem stack, text, result, rest =>
    (∃ space behind, Blank space ∧ text = space ++ ']' :: behind ∧
      Continues stack (.array []) behind result rest) ∨
    AcceptsValue (.array [] :: stack) text result rest
  | .firstName stack, text, result, rest =>
    (∃ space behind, Blank space ∧ text = space ++ '\x7d' :: behind ∧
      Continues stack (.object []) behind result rest) ∨
    AcceptsMembers [] stack text result rest
  | .name read stack, text, result, rest => AcceptsMembers read stack text result rest
  | .colon read name stack, text, result, rest =>
    ∃ space padded json more entries behind, Blank space ∧ PaddedText padded json ∧
      MoreMembers more entries ∧ text = space ++ ':' :: (padded ++ (more ++ '\x7d' :: behind)) ∧
      Continues stack (.object (mergedInto (Bindings.put name json.merged read) entries)) behind
        result rest
  | .after json stack, text, result, rest => Continues stack json text result rest

variable {after : List Char}

/-- A token that starts a value, in front of what is accepted behind it. -/
theorem AcceptsValue.of_start (blank : Blank space) (taken : TokenText part token)
    (starts : startValue stack token = some next) (h : Accepts next after result rest) :
    AcceptsValue stack (space ++ (part ++ after)) result rest := by
  cases token with
  | closeBrace | closeBracket | comma | colon => cases starts
  | string s =>
    cases starts
    cases taken with
    | string quoted => exact ⟨space, part, .string s, after, blank, .string quoted, rfl, h⟩
  | scalar json =>
    cases starts
    cases taken with
    | scalar scalar =>
      refine ⟨space, part, json, after, blank, .scalar scalar, rfl, ?_⟩
      rw [scalar.merged_eq]
      exact h
  | openBracket =>
    cases starts
    cases taken
    rcases h with ⟨space', behind, blank', rfl, h⟩ | ⟨space', part, json, text, blank', value, rfl, h⟩
    · exact ⟨space, _, _, behind, blank, .emptyArray blank', by simp, h⟩
    · -- the first item, and what continues it in the array
      obtain ⟨space'', more, values, behind, blank'', others, rfl, h⟩ := h
      have list := (PaddedText.intro blank' value blank'').itemsText others
      exact ⟨space, _, _, behind, blank, .array list, by simp, h⟩
  | openBrace =>
    cases starts
    cases taken
    rcases h with ⟨space', behind, blank', rfl, h⟩ | ⟨inside, entries, behind, list, rfl, h⟩
    · exact ⟨space, _, _, behind, blank, .emptyObject blank', by simp, h⟩
    · exact ⟨space, _, _, behind, blank, .object list, by simp, h⟩

/-- A name in front of what is accepted behind it. -/
theorem AcceptsMembers.of_name {read : List (String × Json)} {s : String} (blank : Blank space)
    (quoted : StringText part s) (h : Accepts (.colon read s stack) after result rest) :
    AcceptsMembers read stack (space ++ (part ++ after)) result rest := by
  obtain ⟨space', padded, json, more, entries, behind, blank', value, others, rfl, h⟩ := h
  have list := (MemberText.intro blank quoted blank' value).membersText others
  exact ⟨_, _, behind, list, by simp, h⟩

theorem Accepts.of_step (blank : Blank space) (taken : TokenText part token)
    (moves : step state token = some next) (h : Accepts next after result rest) :
    Accepts state (space ++ (part ++ after)) result rest := by
  cases transition_of_step moves with
  | start starts => exact .of_start blank taken starts h
  | firstItem starts => exact .inr (.of_start blank taken starts h)
  | emptyArray | emptyObject =>
    cases taken
    exact .inl ⟨space, after, blank, rfl, h⟩
  | firstName =>
    cases taken with
    | string quoted => exact .inr (.of_name blank quoted h)
  | name =>
    cases taken with
    | string quoted => exact .of_name blank quoted h
  | colon =>
    cases taken
    obtain ⟨space', part, json, text, blank', value, rfl, h⟩ := h
    obtain ⟨space'', more, entries, behind, blank'', others, rfl, h⟩ := h
    have padded := PaddedText.intro blank' value blank''
    exact ⟨space, _, json, more, entries, behind, blank, padded, others, by simp, h⟩
  | nextItem =>
    cases taken
    obtain ⟨space', part, json, text, blank', value, rfl, h⟩ := h
    obtain ⟨space'', more, values, behind, blank'', others, rfl, h⟩ := h
    have list := (PaddedText.intro blank' value blank'').itemsText others
    refine ⟨space, _, json :: values, behind, blank, .some list, by simp, ?_⟩
    rwa [List.reverse_cons, List.append_assoc, List.singleton_append, ← mergedAll] at h
  | closeArray =>
    cases taken
    refine ⟨space, [], [], after, blank, .none, rfl, ?_⟩
    rwa [mergedAll, List.append_nil]
  | nextMember =>
    cases taken
    obtain ⟨inside, entries, behind, list, rfl, h⟩ := h
    exact ⟨space, _, entries, behind, blank, .some list, by simp, h⟩
  | closeObject =>
    cases taken
    exact ⟨space, [], [], after, blank, .none, rfl, h⟩

/-- What the machine reads from a state on is what the text holds. -/
theorem accepts_of_reaches {place : State × List Char}
    (reaches : Reaches place (.after result [], rest)) : Accepts place.1 place.2 result rest := by
  -- a move adds one rule to what is accepted from the next state
  induction reaches using Relation.ReflTransGen.head_induction_on with
  | refl => exact ⟨rfl, rfl⟩
  | head moves _ ih =>
    cases moves with
    | @intro state next token text after going taken moves =>
      obtain ⟨space, split, blank⟩ := exists_blank_skipSpace text
      obtain ⟨part, found, token⟩ := tokenText_of_takeToken taken
      show Accepts state text result rest
      rw [split, found]
      exact .of_step blank token moves ih

/-- Of the members with one name the last one counts. -/
theorem lookup?_mergedInto (read members : List (String × Json)) :
    Bindings.lookup? name (mergedInto read members) =
      ((members.reverse.find? (·.1 = name)).map (·.2.merged)).or (Bindings.lookup? name read) := by
  induction members generalizing read with
  | nil => rfl
  | cons member rest ih =>
    obtain ⟨key, value⟩ := member
    rw [mergedInto, ih, Bindings.lookup?_put, List.reverse_cons, List.find?_append,
      List.find?_singleton]
    cases rest.reverse.find? (·.1 = name) with
    | some later => rfl
    | none => by_cases same : key = name <;> simp [same]

/-! ## Documents -/

/-- A value is read from the front of a text, and nothing but white space is behind it, exactly if the
text is a document of this value. -/
theorem read_eq_some_iff :
    (∃ rest, read text = some (result, rest) ∧ Blank rest) ↔
      ∃ json, Document text json ∧ json.merged = result := by
  constructor
  · rintro ⟨rest, taken, blank⟩
    obtain ⟨space, part, json, behind, blank', value, rfl, rfl, rfl⟩ :=
      accepts_of_reaches (reaches_of_run (run_of_read taken))
    exact ⟨json, .intro blank' value blank, rfl⟩
  · rintro ⟨json, document, rfl⟩
    cases document with
    | @intro before part behind json blank value blank' =>
      have ends : EndsNumber (behind ++ []) :=
        endsNumber_of_blank blank' (by simp [EndsNumber])
      rw [List.append_nil] at ends
      have whole : run (.value []) (before ++ (part ++ behind)) = some (json.merged, behind) := by
        rw [run_blank (by trivial) blank, value.run_eq [] ends, run]
      refine ⟨behind, ?_, blank'⟩
      have stops : endsScalar behind = true := by
        cases behind with
        | nil => rfl
        | cons c cs => rw [endsScalar, blank' c List.mem_cons_self, Bool.true_or]
      rw [read, whole]
      simp only [stops, Bool.or_true, if_true]

end CallScript.Json
