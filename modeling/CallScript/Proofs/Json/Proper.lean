import CallScript.Proofs.Json.Read
import CallScript.Proofs.Json.Scale

/-! # What is read is proper

Every value that is read from a text could have been written: its integers have 64 bits, its doubles
are finite, and the members of its objects stand in order, each name once (`proper_of_read`). The
machine keeps this for all that is on its stack. -/

namespace CallScript.Json

open Number

variable {json : Json} {text rest : List Char} {state next : State} {token : Token}
  {stack : List Frame} {members : List (String × Json)} {items : List Json}

/-! ## Numbers -/

theorem takeFitting_lt {n : Nat} {digits : List Char} (fits : n < 2 ^ 64) :
    (takeFitting n digits).1 < 2 ^ 64 := by
  fun_induction takeFitting n digits with
  | case1 => exact fits
  | case2 n c cs next below ih => exact ih below
  | case3 => exact fits

theorem exists_standsFor_ofNat {n : Nat} (fits : n < 2 ^ 64) : ∃ q, StandsFor (ofNat n) q := by
  rcases Nat.eq_zero_or_pos n with rfl | positive
  · exact ⟨0, standsFor_ofNat_zero⟩
  · exact ⟨_, standsFor_ofNat positive (Nat.lt_trans fits (by decide +kernel))⟩

theorem isFinite_ofInt {n : Int} (fits : n.natAbs < 2 ^ 64) : (ofInt n).isFinite = true := by
  obtain ⟨q, stands⟩ := exists_standsFor_ofNat fits
  rw [ofInt]
  split
  next => exact isFinite_neg stands.isFinite
  next => exact stands.isFinite

theorem proper_ofInteger {negative : Bool} {n : Nat} (fits : n < 2 ^ 64) :
    (ofInteger negative n).Proper := by
  rw [ofInteger]
  split
  next => exact ⟨by omega, by omega⟩
  next =>
    split
    next =>
      obtain ⟨q, stands⟩ := exists_standsFor_ofNat fits
      exact isFinite_neg stands.isFinite
    next small => exact ⟨by omega, by omega⟩

theorem proper_ofParts {negative : Bool} {whole : List Char} {fraction? : Option (List Char)}
    {exponent? : Option Int} (read : ofParts negative whole fraction? exponent? = some json) :
    json.Proper := by
  have fits : (takeFitting 0 whole).1 < 2 ^ 64 := takeFitting_lt (by decide)
  simp only [ofParts] at read
  split at read
  next =>
    cases read
    exact proper_ofInteger fits
  next =>
    obtain ⟨y, scaled, rfl⟩ := Option.map_eq_some_iff.mp read
    have kept := @takeFitting_lt _ (fraction?.getD []) fits
    obtain ⟨q, stands⟩ := exists_standsFor_ofNat kept
    have finite := isFinite_of_scale stands scaled
    cases negative with
    | false => exact finite
    | true => exact isFinite_neg finite

theorem proper_takeUnsigned {negative : Bool} (taken : takeUnsigned negative text = some (json, rest)) :
    json.Proper := by
  simp only [takeUnsigned] at taken
  split at taken
  next => cases taken
  next =>
    split at taken
    next => cases taken
    next =>
      split at taken
      next => cases taken
      next =>
        obtain ⟨value, read, same⟩ := Option.map_eq_some_iff.mp taken
        cases same
        exact proper_ofParts read

theorem proper_takeNumber (taken : takeNumber text = some (json, rest)) : json.Proper := by
  rw [takeNumber.eq_def] at taken
  split at taken <;> exact proper_takeUnsigned taken

theorem isFinite_of_rereadDouble {x y : Float} (reads : rereadDouble x = some y) :
    y.isFinite = true := by
  rw [rereadDouble] at reads
  split at reads
  next taken =>
    cases reads
    exact proper_takeNumber taken
  next => cases reads

theorem proper_takeScalar (taken : takeScalar text = some (json, rest)) : json.Proper := by
  rw [takeScalar.eq_def] at taken
  split at taken
  case h_4 => exact proper_takeNumber taken
  all_goals
    cases taken
    trivial

/-! ## The machine -/

def Token.Proper : Token → Prop
  | .scalar json => json.Proper
  | _ => True

theorem proper_takeToken (taken : takeToken text = some (token, rest)) : token.Proper := by
  rw [takeToken.eq_def] at taken
  split at taken
  case h_7 =>
    obtain ⟨_, _, same⟩ := Option.map_eq_some_iff.mp taken
    cases same
    trivial
  case h_8 =>
    obtain ⟨⟨json, after⟩, scalar, same⟩ := Option.map_eq_some_iff.mp taken
    cases same
    exact proper_takeScalar scalar
  all_goals
    cases taken
    trivial

/-- What has been read of an open array or object is proper. -/
def Frame.Proper : Frame → Prop
  | .array items => ProperAll items
  | .object members => (Json.object members).Proper
  | .member members _ => (Json.object members).Proper

/-- Every part of the place is proper. -/
def State.Proper : State → Prop
  | .value stack | .firstItem stack | .firstName stack => ∀ frame ∈ stack, frame.Proper
  | .name members stack | .colon members _ stack =>
    (Json.object members).Proper ∧ ∀ frame ∈ stack, frame.Proper
  | .after json stack => json.Proper ∧ ∀ frame ∈ stack, frame.Proper

theorem properAll_iff : ProperAll items ↔ ∀ item ∈ items, item.Proper := by
  induction items with
  | nil => simp [ProperAll]
  | cons item items ih => rw [ProperAll, ih, List.forall_mem_cons]

theorem properAll_reverse (proper : ProperAll items) : ProperAll items.reverse := by
  rw [properAll_iff] at proper ⊢
  simpa using proper

theorem properMembers_put {name : String} (proper : ProperMembers members) (value : json.Proper) :
    ProperMembers (Bindings.put name json members) := by
  fun_induction Bindings.put name json members with
  | case1 => exact ⟨value, trivial⟩
  | case2 => exact ⟨value, proper⟩
  | case3 => exact ⟨value, proper.2⟩
  | case4 key old rest _ _ ih => exact ⟨proper.1, ih proper.2⟩

theorem proper_put {name : String} (proper : (Json.object members).Proper) (value : json.Proper) :
    (Json.object (Bindings.put name json members)).Proper := by
  refine ⟨properMembers_put proper.1 value, ?_⟩
  rw [List.pairwise_map]
  exact Bindings.pairwise_put name json (List.pairwise_map.mp proper.2)

theorem proper_object_nil : (Json.object []).Proper :=
  ⟨trivial, .nil⟩

theorem proper_startValue (starts : startValue stack token = some next)
    (proper : ∀ frame ∈ stack, frame.Proper) (tokenProper : token.Proper) : next.Proper := by
  cases token <;> cases starts
  case openBrace => exact proper
  case openBracket => exact proper
  case string => exact ⟨trivial, proper⟩
  case scalar => exact ⟨tokenProper, proper⟩

/-- The machine moves from proper parts to proper parts. -/
theorem proper_step (moves : step state token = some next) (proper : state.Proper)
    (tokenProper : token.Proper) : next.Proper := by
  cases transition_of_step moves with
  | start starts => exact proper_startValue starts proper tokenProper
  | firstItem starts =>
    exact proper_startValue starts (List.forall_mem_cons.mpr ⟨trivial, proper⟩) tokenProper
  | emptyArray => exact ⟨trivial, proper⟩
  | firstName | emptyObject => exact ⟨proper_object_nil, proper⟩
  | name => exact proper
  | colon => exact List.forall_mem_cons.mpr proper
  | nextItem =>
    obtain ⟨items, others⟩ := List.forall_mem_cons.mp proper.2
    exact List.forall_mem_cons.mpr ⟨⟨proper.1, items⟩, others⟩
  | closeArray =>
    obtain ⟨items, others⟩ := List.forall_mem_cons.mp proper.2
    exact ⟨properAll_reverse ⟨proper.1, items⟩, others⟩
  | nextMember | closeObject =>
    obtain ⟨members, others⟩ := List.forall_mem_cons.mp proper.2
    exact ⟨proper_put members proper.1, others⟩

theorem proper_of_reaches {place later : State × List Char} (reaches : Reaches place later)
    (proper : place.1.Proper) : later.1.Proper := by
  induction reaches with
  | refl => exact proper
  | tail _ moves ih =>
    cases moves with
    | intro going taken moves => exact proper_step moves ih (proper_takeToken taken)

/-- Whatever is read is proper. -/
theorem proper_of_read (taken : read text = some (json, rest)) : json.Proper :=
  (proper_of_reaches (reaches_of_run (run_of_read taken)) (List.forall_mem_nil _)).1

end CallScript.Json
