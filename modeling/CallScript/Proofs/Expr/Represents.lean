import CallScript.Expr.Json
import CallScript.Proofs.Json.Document
import CallScript.Proofs.Number.Closest

/-! # Which values are trees

The decoder accepts a value if and only if the value represents a tree that is not too high, and makes
this tree of it (`ofJson_eq_ok_iff`). A text is accepted if its brackets do not nest too deeply and it
is a document of such a value (`ofJsonText_eq_ok_iff_document`). -/

namespace CallScript.Expr

variable {levels : Nat} {json : Json} {items : List Json} {members : List (String × Json)}
  {e : Expr} {es : List Expr} {text : List Char}

/-- The value represents the tree. An object may have members beyond those that are named here. -/
inductive Represents : Json → Expr → Prop where
  | string {members : List (String × Json)} {s : String}
      (type : Bindings.lookup? "type" members = some (.string "value"))
      (value : Bindings.lookup? "value" members = some (.string s)) :
      Represents (.object members) (.literal (.string s))
  | integer {members : List (String × Json)} {n : Int}
      (type : Bindings.lookup? "type" members = some (.string "value"))
      (value : Bindings.lookup? "value" members = some (.int n)) :
      Represents (.object members) (.literal (.number (Number.ofInt n)))
  | double {members : List (String × Json)} {x : Float}
      (type : Bindings.lookup? "type" members = some (.string "value"))
      (value : Bindings.lookup? "value" members = some (.double x)) :
      Represents (.object members) (.literal (.number x))
  | word {members : List (String × Json)} {name : String}
      (type : Bindings.lookup? "type" members = some (.string "word"))
      (found : Bindings.lookup? "name" members = some (.string name)) :
      Represents (.object members) (.word name)
  | call {members : List (String × Json)} {function : Json} {items : List Json} {operator : Expr}
      {args : List Expr} (type : Bindings.lookup? "type" members = some (.string "apply"))
      (first : Bindings.lookup? "operator" members = some function)
      (list : Bindings.lookup? "args" members = some (.array items))
      (represents : Represents function operator) (each : List.Forall₂ Represents items args) :
      Represents (.object members) (.call operator args)

/-! ## Decoding in parts -/

/-- Both parts of a decoding that succeeds succeed. -/
theorem bind_eq_ok {ε α β : Type} {x : Except ε α} {f : α → Except ε β} {b : β} :
    (x >>= f) = .ok b ↔ ∃ a, x = .ok a ∧ f a = .ok b := by
  cases x with
  | error fault =>
    constructor
    · intro rest
      cases rest
    · rintro ⟨a, ok, -⟩
      cases ok
  | ok a =>
    constructor
    · exact fun rest => ⟨a, rfl, rest⟩
    · rintro ⟨a', ok, rest⟩
      cases ok
      exact rest

/-- A list is decoded item by item. -/
theorem mapM_eq_ok {ε α β : Type} {f : α → Except ε β} {xs : List α} {ys : List β} :
    xs.mapM f = .ok ys ↔ List.Forall₂ (fun x y => f x = .ok y) xs ys := by
  induction xs generalizing ys with
  | nil =>
    constructor
    · intro decoded
      cases decoded
      exact .nil
    · intro each
      cases each
      rfl
  | cons x xs ih =>
    rw [List.mapM_cons, bind_eq_ok]
    constructor
    · rintro ⟨y, first, decoded⟩
      obtain ⟨ys, others, same⟩ := bind_eq_ok.mp decoded
      cases same
      exact .cons first (ih.mp others)
    · rintro (_ | ⟨first, others⟩)
      exact ⟨_, first, bind_eq_ok.mpr ⟨_, ih.mpr others, rfl⟩⟩

theorem heightAll_lt_iff {n : Nat} : heightAll es < n ↔ 0 < n ∧ ∀ e ∈ es, e.height < n := by
  induction es with
  | nil => simp [heightAll]
  | cons e es ih =>
    rw [heightAll, Nat.max_lt, ih, List.forall_mem_cons]
    exact and_left_comm

/-- Items that represent trees up to a height. -/
theorem forall₂_low_iff :
    List.Forall₂ (fun item e => Represents item e ∧ e.height < levels) items es ↔
      List.Forall₂ Represents items es ∧ ∀ e ∈ es, e.height < levels := by
  constructor
  · intro each
    have turned : List.Forall₂ (fun e item => e.height < levels ∧ Represents item e) es items :=
      each.flip.imp fun _ _ both => both.symm
    obtain ⟨low, represent⟩ := (List.forall₂_and_left es items).mp turned
    exact ⟨represent.flip, low⟩
  · rintro ⟨represent, low⟩
    have turned := (List.forall₂_and_left es items).mpr ⟨low, represent.flip⟩
    exact turned.flip.imp fun _ _ both => both.symm

/-! ## The decoder -/

theorem represents_of_literalOfJson (type : Bindings.lookup? "type" members = some (.string "value"))
    (decoded : literalOfJson members = .ok e) : Represents (.object members) e ∧ e.height = 0 := by
  rw [literalOfJson] at decoded
  split at decoded
  next s found =>
    cases decoded
    exact ⟨.string type found, rfl⟩
  next n found =>
    cases decoded
    exact ⟨.integer type found, rfl⟩
  next x found =>
    cases decoded
    exact ⟨.double type found, rfl⟩
  next => cases decoded

theorem represents_of_wordOfJson (type : Bindings.lookup? "type" members = some (.string "word"))
    (decoded : wordOfJson members = .ok e) : Represents (.object members) e ∧ e.height = 0 := by
  rw [wordOfJson] at decoded
  split at decoded
  next name found =>
    cases decoded
    exact ⟨.word type found, rfl⟩
  next => cases decoded

theorem represents_of_ofJson (decoded : ofJson levels json = .ok e) :
    Represents json e ∧ e.height < levels := by
  induction levels generalizing json e with
  | zero => cases decoded
  | succ levels ih =>
    cases json with
    | object members =>
      simp only [ofJson] at decoded
      split at decoded
      next type =>
        obtain ⟨represents, leaf⟩ := represents_of_literalOfJson type decoded
        exact ⟨represents, leaf ▸ Nat.succ_pos levels⟩
      next type =>
        obtain ⟨represents, leaf⟩ := represents_of_wordOfJson type decoded
        exact ⟨represents, leaf ▸ Nat.succ_pos levels⟩
      next type =>
        split at decoded
        next => cases decoded
        next function items first list =>
          obtain ⟨operator, decodedFirst, decoded⟩ := bind_eq_ok.mp decoded
          obtain ⟨args, decodedList, same⟩ := bind_eq_ok.mp decoded
          cases same
          obtain ⟨represents, low⟩ := ih decodedFirst
          have both := (mapM_eq_ok.mp decodedList).imp fun _ _ => ih
          obtain ⟨each, lows⟩ := forall₂_low_iff.mp both
          have inside := heightAll_lt_iff.mpr ⟨Nat.zero_lt_of_lt low, lows⟩
          refine ⟨.call type first list represents each, ?_⟩
          rw [height]
          omega
        next => cases decoded
      next => cases decoded
      next => cases decoded
    | _ => cases decoded

theorem ofJson_of_represents (represents : Represents json e) (low : e.height < levels) :
    ofJson levels json = .ok e := by
  induction levels generalizing json e with
  | zero => exact absurd low (Nat.not_lt_zero _)
  | succ levels ih =>
    cases represents with
    | string type value => simp only [ofJson, literalOfJson, type, value]
    | integer type value => simp only [ofJson, literalOfJson, type, value]
    | double type value => simp only [ofJson, literalOfJson, type, value]
    | word type found => simp only [ofJson, wordOfJson, type, found]
    | @call members function items operator args type first list represents each =>
      rw [height] at low
      obtain ⟨-, lows⟩ := heightAll_lt_iff.mp (show heightAll args < levels by omega)
      have both := (forall₂_low_iff.mpr ⟨each, lows⟩).imp fun _ _ both => ih both.1 both.2
      simp only [ofJson, type, first, list]
      refine bind_eq_ok.mpr ⟨_, ih represents (by omega), ?_⟩
      exact bind_eq_ok.mpr ⟨_, mapM_eq_ok.mpr both, rfl⟩

/-- The decoder makes a tree of a value if and only if the value represents the tree, and the tree has
fewer levels than the decoder may use. -/
theorem ofJson_eq_ok_iff : ofJson levels json = .ok e ↔ Represents json e ∧ e.height < levels := by
  constructor
  · exact represents_of_ofJson
  · rintro ⟨represents, low⟩
    exact ofJson_of_represents represents low

/-! ## Texts -/

theorem JsonFault.kind_mem (fault : JsonFault) :
    fault.toSyntaxError.kind ∈ [SyntaxError.Kind.unexpectedSyntax, .tooDeeplyNested] := by
  cases fault <;> simp [toSyntaxError]

theorem readJson_eq_ok_iff :
    readJson text = .ok e ↔ Json.nestingExceeds text maxNesting = false ∧
      ∃ json rest, (Json.read text = some (json, rest) ∧ Json.Blank rest) ∧
        ofJson (maxHeight + 1) json = .ok e := by
  rw [readJson]
  constructor
  · intro decoded
    split at decoded
    next => cases decoded
    next shallow =>
      split at decoded
      next => cases decoded
      next =>
        split at decoded
        next => cases decoded
        next json rest taken =>
          split at decoded
          next blank =>
            have blank := Json.skipSpace_isEmpty_iff.mp blank
            exact ⟨Bool.not_eq_true _ ▸ shallow, json, rest, ⟨taken, blank⟩, decoded⟩
          next => cases decoded
  · rintro ⟨shallow, json, rest, ⟨taken, blank⟩, decoded⟩
    have something : ¬ (Json.skipSpace text).isEmpty = true := by
      intro empty
      rw [Json.read_of_blank (Json.skipSpace_isEmpty_iff.mp empty)] at taken
      cases taken
    have ended := Json.skipSpace_isEmpty_iff.mpr blank
    simp only [shallow, something, taken, ended, Bool.false_eq_true, if_false, if_true, decoded]

theorem ofJsonText_eq_ok_iff {text : String} :
    ofJsonText text = .ok e ↔ readJson text.toList = .ok e := by
  rw [ofJsonText]
  cases readJson text.toList with
  | error => constructor <;> intro decoded <;> cases decoded
  | ok => constructor <;> intro decoded <;> cases decoded <;> rfl

/-- A text is accepted if and only if its brackets do not nest too deeply and it is a document with
this tree. -/
theorem ofJsonText_eq_ok_iff_document {text : String} :
    ofJsonText text = .ok e ↔ Json.nestingExceeds text.toList maxNesting = false ∧
      ∃ json, Json.Document text.toList json ∧ ofJson (maxHeight + 1) json.merged = .ok e := by
  rw [ofJsonText_eq_ok_iff, readJson_eq_ok_iff]
  refine and_congr_right fun _ => ?_
  constructor
  · rintro ⟨json, rest, taken, decoded⟩
    obtain ⟨written, document, rfl⟩ := Json.read_eq_some_iff.mp ⟨rest, taken⟩
    exact ⟨written, document, decoded⟩
  · rintro ⟨written, document, decoded⟩
    obtain ⟨rest, taken⟩ := Json.read_eq_some_iff.mpr ⟨written, document, rfl⟩
    exact ⟨_, rest, taken, decoded⟩

/-- What the decoder accepts. It makes a tree of a value if and only if the value represents the tree,
and the tree is not too high; otherwise it reports a syntax error. A text is accepted if and only if the
bracket scan lets it pass and it is one document, white space around it apart, whose value the decoder
accepts; of members with one name the last one counts. The double that an integer is rounded to is
closest to it of all finite doubles. -/
theorem decoder_accepts_trees (json : Json) (e : Expr) (text : String) (n : Int) :
    (ofJson (maxHeight + 1) json = .ok e ↔ Represents json e ∧ e.height ≤ maxHeight) ∧
    ((¬ ∃ e, Represents json e ∧ e.height ≤ maxHeight) →
      ∃ fault, ofJson (maxHeight + 1) json = .error fault ∧
        fault.toSyntaxError.kind ∈ [SyntaxError.Kind.unexpectedSyntax, .tooDeeplyNested]) ∧
    (ofJsonText text = .ok e ↔ Json.nestingExceeds text.toList maxNesting = false ∧
      ∃ json, Json.Document text.toList json ∧ ofJson (maxHeight + 1) json.merged = .ok e) ∧
    (∀ name members, Bindings.lookup? name (Json.mergedInto [] members) =
      (members.reverse.find? (·.1 = name)).map (·.2.merged)) ∧
    (-2 ^ 63 ≤ n → n < 2 ^ 64 → ∃ q, Number.HasRational (Number.ofInt n) q ∧
      ∀ y r, Number.HasRational y r → |q - n| ≤ |r - n|) := by
  have accepts (e : Expr) :
      ofJson (maxHeight + 1) json = .ok e ↔ Represents json e ∧ e.height ≤ maxHeight := by
    rw [ofJson_eq_ok_iff, Nat.lt_succ_iff]
  refine ⟨accepts e, ?_, ofJsonText_eq_ok_iff_document, ?_, ?_⟩
  · intro none
    cases decoded : ofJson (maxHeight + 1) json with
    | error fault => exact ⟨fault, rfl, fault.kind_mem⟩
    | ok e => exact absurd ⟨e, (accepts e).mp decoded⟩ none
  · intro name members
    rw [Json.lookup?_mergedInto, Bindings.lookup?, Option.or_none]
  · intro low high
    have below : 2 ^ 64 ≤ Number.overflow := by decide +kernel
    exact Number.ofInt_closest (by omega)

/-- A member that is there twice counts as it is written last. -/
theorem last_name_counts :
    (∃ fault, ofJson (maxHeight + 1) .null = .error fault ∧
      fault.toSyntaxError.kind ∈ [SyntaxError.Kind.unexpectedSyntax, .tooDeeplyNested]) ∧
    ofJsonText " \x7b\"name\":[],\"name\":\"f\",\"type\":\"word\"\x7d" = .ok (.word "f") ∧
    ∃ q, Number.HasRational (Number.ofInt (2 ^ 53 + 1)) q ∧
      ∀ y r, Number.HasRational y r → |q - (2 ^ 53 + 1 : Int)| ≤ |r - (2 ^ 53 + 1 : Int)| := by
  obtain ⟨-, refused, reads, -, closest⟩ := decoder_accepts_trees .null (.word "f")
    " \x7b\"name\":[],\"name\":\"f\",\"type\":\"word\"\x7d" (2 ^ 53 + 1)
  refine ⟨refused ?_, reads.mpr ⟨by decide, ?_⟩, closest (by decide) (by decide)⟩
  · rintro ⟨e, represents, -⟩
    cases represents
  · have member {name : String} {part : List Char} {json : Json}
        (plain : ∀ c ∈ name.toList, c ≠ '"' ∧ c ≠ '\\' ∧ ¬ c.toNat < 0x20)
        (value : Json.ValueText part json) :
        Json.MemberText ('"' :: (name.toList ++ ['"']) ++ ':' :: part) name json := by
      have padded : Json.PaddedText ([] ++ (part ++ [])) json :=
        .intro Json.blank_nil value Json.blank_nil
      rw [List.nil_append, List.append_nil] at padded
      exact .intro Json.blank_nil (Json.stringText_plain plain) Json.blank_nil padded
    have text {s : String} (plain : ∀ c ∈ s.toList, c ≠ '"' ∧ c ≠ '\\' ∧ ¬ c.toNat < 0x20) :=
      Json.ValueText.string (Json.stringText_plain plain)
    have first := @member "name" _ _ (by simp) (.emptyArray Json.blank_nil)
    have again := @member "name" _ _ (by simp) (@text "f" (by simp))
    have type := @member "type" _ _ (by simp) (@text "word" (by simp))
    have space : Json.Blank [' '] := List.forall_mem_singleton.mpr rfl
    have document :=
      Json.PaddedText.intro space (.object (.next first (.next again (.last type)))) Json.blank_nil
    exact ⟨_, document, by rfl⟩

end CallScript.Expr
