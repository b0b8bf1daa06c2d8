import CallScript.Proofs.Builtin
import Mathlib.Order.Bounds.Basic

/-! # Host functions as builtins

What becomes of a typed function of the host when a program calls it. The number of the arguments is
looked at first, then their types, from left to right, and only if all is well the function is called,
once and with these arguments (`builtins_check_then_run`). That a function is called shows in its
reply; `HostFunction.watched` makes every call show. -/

namespace CallScript

/-! ## Parameters -/

namespace Param

variable {p : Param} {v : Value} {wanted : ValueType}

/-- What a function receives, as the value that it was made from. -/
def toValue : (p : Param) → p.Arg → Value
  | .number, x => .number x
  | .boolean, b => .boolean b
  | .string, s => .string s
  | .any, v => v
  | .items, vs => .array vs

/-- The type that a parameter asks for, unless it takes any value. -/
def type? : Param → Option ValueType
  | .number => some .number
  | .boolean => some .boolean
  | .string => some .string
  | .any => none
  | .items => some .array

/-- The value has the type of the parameter. -/
def Fits (p : Param) (v : Value) : Prop :=
  ∀ wanted, p.type? = some wanted → v.type = wanted

@[simp] theorem convert_toValue (p : Param) (a : p.Arg) : p.convert (p.toValue a) = .ok a := by
  cases p <;> rfl

theorem Fits.exists_toValue (fits : p.Fits v) : ∃ a, v = p.toValue a := by
  cases p with
  | any => exact ⟨v, rfl⟩
  | number | boolean | string | items =>
    have type := fits _ rfl
    cases v <;> first | exact ⟨_, rfl⟩ | cases type

theorem fits_toValue (p : Param) (a : p.Arg) : p.Fits (p.toValue a) := by
  intro wanted asks
  cases p <;> cases asks <;> rfl

/-- A value is made into an argument, or has another type than the parameter asks for. -/
theorem fits_or (p : Param) (v : Value) :
    (∃ a, v = p.toValue a) ∨ ∃ wanted, p.type? = some wanted ∧ v.type ≠ wanted := by
  by_cases fits : p.Fits v
  · exact .inl fits.exists_toValue
  · simp only [Fits, not_forall, exists_prop] at fits
    exact .inr fits

theorem convert_of_type_ne (asks : p.type? = some wanted) (other : v.type ≠ wanted) :
    p.convert v = .error (.typeError (.expected wanted v.type)) := by
  cases p <;> cases asks <;> cases v <;> first | rfl | exact absurd rfl other

end Param

/-- Of the arguments that do not have the type of their parameter, the leftmost has the type `got`, and
its parameter asks for the type `wanted`. -/
inductive Misfit : List Param → List Value → (wanted got : ValueType) → Prop where
  | here {p : Param} {ps : List Param} {v : Value} {vs : List Value} {wanted : ValueType}
      (asks : p.type? = some wanted) (other : v.type ≠ wanted) :
      Misfit (p :: ps) (v :: vs) wanted v.type
  | later {p : Param} {ps : List Param} {v : Value} {vs : List Value} {wanted got : ValueType}
      (fits : p.Fits v) (misfit : Misfit ps vs wanted got) : Misfit (p :: ps) (v :: vs) wanted got

/-! ## Host functions -/

/-- The reply of a call that first prints the array of its arguments. -/
def Reply.showing (r : Reply) (args : List Value) : Reply :=
  { r with printed := .array args :: r.printed }

/-- A typed function of a host, with its parameters. -/
inductive HostFunction (α : Type) where
  | one (p : Param) (f : p.Arg → α)
  | two (p q : Param) (f : p.Arg → q.Arg → α)

namespace HostFunction

variable {α : Type}

def params : HostFunction α → List Param
  | .one p _ => [p]
  | .two p q _ => [p, q]

/-- The operation that the function is registered as. -/
def operation [ToReply α] : HostFunction α → Operation
  | .one p f => .unary p f
  | .two p q f => .binary p q f

/-- Called with these arguments, in this order, the function returns `a`. -/
inductive Returns : HostFunction α → List Value → α → Prop where
  | one (p : Param) (f : p.Arg → α) (x : p.Arg) : Returns (.one p f) [p.toValue x] (f x)
  | two (p q : Param) (f : p.Arg → q.Arg → α) (x : p.Arg) (y : q.Arg) :
      Returns (.two p q f) [p.toValue x, q.toValue y] (f x y)

/-- The function, but every call of it shows in its reply. -/
def watched [ToReply α] : HostFunction α → HostFunction Reply
  | .one p f => .one p fun x => (toReply (f x)).showing [p.toValue x]
  | .two p q f => .two p q fun x y => (toReply (f x y)).showing [p.toValue x, q.toValue y]

variable {h : HostFunction α} {args : List Value} {a : α} {wanted got : ValueType}

/-- Of as many arguments as there are parameters, one does not fit, or the function can be called. -/
theorem misfit_or_returns (count : args.length = h.params.length) :
    (∃ wanted got, Misfit h.params args wanted got) ∨ ∃ a, h.Returns args a := by
  cases h with
  | one p f =>
    obtain ⟨v, rfl⟩ := List.length_eq_one_iff.mp count
    obtain ⟨x, rfl⟩ | ⟨wanted, asks, other⟩ := p.fits_or v
    · exact .inr ⟨_, .one p f x⟩
    · exact .inl ⟨_, _, .here asks other⟩
  | two p q f =>
    obtain ⟨v, w, rfl⟩ := List.length_eq_two.mp count
    obtain ⟨x, rfl⟩ | ⟨wanted, asks, other⟩ := p.fits_or v
    · obtain ⟨y, rfl⟩ | ⟨wanted, asks, other⟩ := q.fits_or w
      · exact .inr ⟨_, .two p q f x y⟩
      · exact .inl ⟨_, _, .later (p.fits_toValue x) (.here asks other)⟩
    · exact .inl ⟨_, _, .here asks other⟩

section

variable [ToReply α]

theorem operation_of_length_ne (wrong : args.length ≠ h.params.length) :
    h.operation args = .fail (.wrongArity h.params.length args.length) := by
  cases h with
  | one p f =>
    match args with
    | [] => rfl
    | [_] => exact absurd rfl wrong
    | _ :: _ :: _ => rfl
  | two p q f =>
    match args with
    | [] => rfl
    | [_] => rfl
    | [_, _] => exact absurd rfl wrong
    | _ :: _ :: _ :: _ => rfl

theorem operation_of_misfit (count : args.length = h.params.length)
    (misfit : Misfit h.params args wanted got) :
    h.operation args = .fail (.typeError (.expected wanted got)) := by
  cases h with
  | one p f =>
    obtain ⟨v, rfl⟩ := List.length_eq_one_iff.mp count
    cases misfit with
    | here asks other => rw [operation, Operation.unary, Param.convert_of_type_ne asks other]
    | later _ misfit => cases misfit
  | two p q f =>
    obtain ⟨v, w, rfl⟩ := List.length_eq_two.mp count
    cases misfit with
    | here asks other => rw [operation, Operation.binary, Param.convert_of_type_ne asks other]
    | later fits misfit =>
      obtain ⟨x, rfl⟩ := fits.exists_toValue
      cases misfit with
      | here asks other =>
        rw [operation, Operation.binary, Param.convert_toValue]
        dsimp only
        rw [Param.convert_of_type_ne asks other]
      | later _ misfit => cases misfit

theorem operation_of_returns (returns : h.Returns args a) : h.operation args = toReply a := by
  cases returns with
  | one p f x => rw [operation, Operation.unary, Param.convert_toValue]
  | two p q f x y => simp only [operation, Operation.binary, Param.convert_toValue]

/-! ## Watched functions -/

@[simp] theorem params_watched (h : HostFunction α) : h.watched.params = h.params := by
  cases h <;> rfl

theorem watched_returns (returns : h.Returns args a) :
    h.watched.Returns args ((toReply a).showing args) := by
  cases returns with
  | one p f x => exact .one p _ x
  | two p q f x y => exact .two p q _ x y

end

end HostFunction

/-! ## What a call comes to -/

/-- A smallest count that an arity accepts. -/
theorem Arity.isLeast_least (arity : Arity) :
    IsLeast {count | arity.accepts count = true} arity.least := by
  cases arity with
  | exact n => exact ⟨by simp [accepts, least], fun m accepted => by simp_all [accepts, least]⟩
  | atLeast n => exact ⟨by simp [accepts, least], fun m accepted => by simp_all [accepts, least]⟩
  | any => exact ⟨rfl, fun m _ => Nat.zero_le m⟩

theorem Operation.variadic_of_accepts {α : Type} [ToReply α] {arity : Arity} {args : List Value}
    (f : List Value → α) (accepted : arity.accepts args.length = true) :
    variadic arity f args = toReply (f args) := by
  rw [variadic, Arity.validate, if_pos accepted]

theorem Operation.variadic_of_refuses {α : Type} [ToReply α] {arity : Arity} {args : List Value}
    (f : List Value → α) (refused : arity.accepts args.length = false) :
    variadic arity f args = .fail (.wrongArity arity.least args.length) := by
  rw [variadic, Arity.validate, if_neg (by simp [refused])]

/-- A call of a builtin that stands for a typed function. With a wrong number of arguments, whatever
they are, it fails and says how many there should be; otherwise, with an argument of another type than
its parameter asks for, it fails and names the two types of the leftmost one. In both cases the
function is not called and the world is as before. Otherwise the function is called once, with these
arguments, and the call ends as the function does. A variadic function is called if and only if the
number of arguments is accepted, and otherwise the call fails and names the smallest number that is. -/
theorem builtins_check_then_run {α : Type} [ToReply α] (world : World) (fuel : Nat)
    (args : List Value) :
    (∀ (h : HostFunction α) (v : Value), world.Offers v h.operation →
      (args.length ≠ h.params.length →
        world.call fuel v args =
            some (.error (.wrongArity h.params.length args.length), world) ∧
          (h.watched.operation args).printed = []) ∧
      (args.length = h.params.length → ∀ wanted got, Misfit h.params args wanted got →
        world.call fuel v args = some (.error (.typeError (.expected wanted got)), world) ∧
          (h.watched.operation args).printed = []) ∧
      (∀ a, h.Returns args a →
        world.call fuel v args =
            some ((toReply a).result, world.printing (toReply a).printed) ∧
          (h.watched.operation args).printed = .array args :: (toReply a).printed) ∧
      (args.length = h.params.length →
        (∃ wanted got, Misfit h.params args wanted got) ∨ ∃ a, h.Returns args a)) ∧
    ∀ (arity : Arity) (f : List Value → α) (v : Value), world.Offers v (.variadic arity f) →
      (arity.accepts args.length = true →
        world.call fuel v args =
          some ((toReply (f args)).result, world.printing (toReply (f args)).printed)) ∧
      (arity.accepts args.length = false →
        ∃ least, IsLeast {count | arity.accepts count = true} least ∧
          world.call fuel v args = some (.error (.wrongArity least args.length), world)) := by
  constructor
  · intro h v offers
    have watched := h.params_watched
    refine ⟨?_, ?_, ?_, HostFunction.misfit_or_returns⟩
    · intro wrong
      rw [offers.call_eq, HostFunction.operation_of_length_ne wrong,
        HostFunction.operation_of_length_ne (by rwa [watched])]
      simp [Reply.fail]
    · intro count wanted got misfit
      rw [offers.call_eq, HostFunction.operation_of_misfit count misfit,
        HostFunction.operation_of_misfit (by rwa [watched]) (by rwa [watched])]
      simp [Reply.fail]
    · intro a returns
      rw [offers.call_eq, HostFunction.operation_of_returns returns,
        HostFunction.operation_of_returns (HostFunction.watched_returns returns)]
      exact ⟨rfl, rfl⟩
  · intro arity f v offers
    constructor
    · intro accepted
      rw [offers.call_eq, Operation.variadic_of_accepts f accepted]
    · intro refused
      refine ⟨arity.least, arity.isLeast_least, ?_⟩
      rw [offers.call_eq, Operation.variadic_of_refuses f refused]
      simp [Reply.fail]

/-- A function that prints its first argument and returns its second one. -/
def announce : HostFunction Reply :=
  .two .string .number fun (text : String) (x : Float) =>
    { printed := [.string text], result := .ok (.number x) }

/-- Of two arguments in the wrong order the first one is reported, and nothing is printed. -/
theorem announce_checks_first :
    ∃ world : World, ∃ v w : Value,
      world.Offers v announce.operation ∧
      world.Offers w (.variadic (.atLeast 1) fun vs => (toReply (Value.array vs) : Reply)) ∧
      world.call 0 v [.number 1, .string "a"] =
        some (.error (.typeError (.expected .string .number)), world) ∧
      world.call 0 v [.number 1] = some (.error (.wrongArity 2 1), world) ∧
      world.call 0 v [.string "a", .number 1] =
        some (.ok (.number 1), world.printing [.string "a"]) ∧
      ∃ least, world.call 0 w [] = some (.error (.wrongArity least 0), world) := by
  let first := (World.newGlobal {}).2.register 0 "announce" announce.operation
  let pack : List Value → Reply := fun vs => toReply (Value.array vs)
  have announces := World.offers_register (World.newGlobal {}).2 0 "announce" announce.operation
  have offers := announces.register 0 "pack" (.variadic (.atLeast 1) pack)
  have packs := World.offers_register first 0 "pack" (.variadic (.atLeast 1) pack)
  refine ⟨first.register 0 "pack" (.variadic (.atLeast 1) pack), _, _, offers, packs, ?_⟩
  have swapped := (builtins_check_then_run _ 0 [.number 1, .string "a"]).1 announce _ offers
  have lone := (builtins_check_then_run _ 0 [.number 1]).1 announce _ offers
  have right := (builtins_check_then_run _ 0 [.string "a", .number 1]).1 announce _ offers
  have none := (builtins_check_then_run _ 0 []).2 (.atLeast 1) pack _ packs
  refine ⟨?_, ?_, ?_, ?_⟩
  · exact (swapped.2.1 rfl _ _ (.here rfl (by decide))).1
  · exact (lone.1 (by decide)).1
  · exact (right.2.2.1 _ (.two .string .number _ "a" 1)).1
  · obtain ⟨least, -, fails⟩ := none.2 rfl
    exact ⟨least, fails⟩

end CallScript
