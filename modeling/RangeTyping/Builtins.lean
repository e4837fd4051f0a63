import RangeTyping.Scope.Context

/-!
# Builtins

Every analysis starts from the same root scope.  It holds eleven scalar types, the conversions
between them, and the operators as ordinary overload sets named by their tokens.

The backend is told about each scalar in turn and answers with a cookie; since no two requests are
alike, a backend is a function from requests to cookies.

Weights of integer conversions are chosen so that a direct conversion is always cheaper than a chain
of two: one that keeps every value costs from 10 to 16, any other 30.
-/

namespace RangeTyping

/-! ### Scalars -/

/-- What the backend is told about a scalar. -/
inductive Registration where
  | void
  | bool
  | integer (bits alignment : Nat) (signed : Bool)
  | char (bits alignment : Nat) (signed : Bool)
deriving DecidableEq, Repr

namespace Registration

/-- The requests to the backend, in order. -/
def all : List Registration :=
  [ integer 8 1 true, integer 16 2 true, integer 32 4 true, integer 64 8 true,
    integer 8 1 false, integer 16 2 false, integer 32 4 false, integer 64 8 false,
    void, bool, char 8 1 false ]

end Registration

/-- The builtin scalars. -/
structure BuiltinTypes where
  void : Scalar
  bool : Scalar
  s8 : Scalar
  s16 : Scalar
  s32 : Scalar
  s64 : Scalar
  u8 : Scalar
  u16 : Scalar
  u32 : Scalar
  u64 : Scalar
  c8 : Scalar
deriving DecidableEq, Repr

namespace BuiltinTypes

/-- The scalars with the cookies of a backend. -/
def ofBackend (cookie : Registration → Nat) : BuiltinTypes :=
  let int (name : String) (bytes : Nat) (signed : Bool) (weight : Weight) : Scalar :=
    ⟨name, bytes, bytes, if signed then .signedInt else .unsignedInt,
      cookie (.integer (8 * bytes) bytes signed), weight⟩
  { void := ⟨"Void", 0, 1, .void, cookie .void, maxWeight⟩
    bool := ⟨"Bool", 1, 1, .bool, cookie .bool, maxWeight⟩
    s8 := int "S8" 1 true 7
    s16 := int "S16" 2 true 5
    s32 := int "S32" 4 true 1
    s64 := int "S64" 8 true 2
    u8 := int "U8" 1 false 8
    u16 := int "U16" 2 false 6
    u32 := int "U32" 4 false 3
    u64 := int "U64" 8 false 4
    c8 := ⟨"C8", 1, 1, .char, cookie (.char 8 1 false), maxWeight⟩ }

/-- The integers by literal weight, the cheapest first. -/
def integers (t : BuiltinTypes) : List Scalar :=
  [t.s32, t.s64, t.u32, t.u64, t.s16, t.u16, t.s8, t.u8]

/-- All scalars, in the order of registration. -/
def all (t : BuiltinTypes) : List Scalar :=
  [t.void, t.bool, t.s8, t.s16, t.s32, t.s64, t.u8, t.u16, t.u32, t.u64, t.c8]

/-- The type without values. -/
def voidTy (t : BuiltinTypes) : Ty := .ofScalar t.void

/-- The type of truth values. -/
def boolTy (t : BuiltinTypes) : Ty := .ofScalar t.bool

end BuiltinTypes

/-! ### Conversions -/

/-- Whether every value of the integer `a` is a value of the integer `b`, which is wider. -/
def Scalar.widensTo (a b : Scalar) : Bool :=
  decide (a.size < b.size) && (a.isSigned == b.isSigned || !a.isSigned)

/-- The conversion between two integers. -/
def Cast.ofIntegers (a b : Scalar) : Cast :=
  let expand : CastOp := if a.isSigned then .expandSigned else .expandUnsigned
  if a.widensTo b then
    let signChange := if a.isSigned == b.isSigned then 0 else 3
    ⟨.ofScalar a, .ofScalar b, 10 + Nat.log2 (b.size / a.size) + signChange, .always, expand,
      .integer⟩
  else
    let op : CastOp :=
      if b.size < a.size then .truncate
      else if b.size = a.size then .changeSign
      else expand
    ⟨.ofScalar a, .ofScalar b, 30, .whenRangeFits, op, .integer⟩

/-- The conversion between a character and the unsigned integer of its size, which has to be
written. -/
def Cast.ofChar (a b : Scalar) : Cast :=
  ⟨.ofScalar a, .ofScalar b, 10, .never, .noOp, .integer⟩

/-- The conversions between the builtin scalars. -/
def BuiltinTypes.casts (t : BuiltinTypes) : CastTable :=
  let toInteger (b : Scalar) : List Cast :=
    (t.integers.filter fun a => !a.same b).map fun a => Cast.ofIntegers a b
  t.integers.map (fun b =>
    (.ofScalar b, toInteger b ++ if b.same t.u8 then [Cast.ofChar t.c8 b] else [])) ++
  [(.ofScalar t.c8, [Cast.ofChar t.u8 t.c8])]

/-! ### Operators -/

/-- The overload of an operator for operands of type `operand`. -/
def Overload.ofOperator (name : String) (operator : BuiltinOperator) (arity : Nat)
    (operand result : Scalar) : Overload :=
  { name
    type := .arrow (List.replicate arity (.ofScalar operand)) (.ofScalar result)
    argumentNames := (List.range arity).map fun i => s!"arg{i}"
    kind := .builtin operator
    location := none }

/-- The overload sets of the operators. -/
def BuiltinTypes.operators (t : BuiltinTypes) : List OverloadSet :=
  let arithmetic (name : String) (op : Signedness → Option BinaryOperation) : OverloadSet :=
    ⟨name, t.integers.filterMap fun s =>
      (op s.signedness).map fun o => .ofOperator name (.binary o) 2 s s⟩
  let comparison (name : String) (op : Signedness → BinaryOperation) (operands : List Scalar) :
      OverloadSet :=
    ⟨name, operands.map fun s => .ofOperator name (.binary (op s.signedness)) 2 s t.bool⟩
  [ arithmetic "+" (some ∘ .plus),
    arithmetic "-" (some ∘ .minus),
    arithmetic "*" (some ∘ .multiply),
    arithmetic "/" (fun s => if s = .unsigned then some .divideUnsigned else none),
    comparison "<" .lessThan t.integers,
    comparison "<=" .lessThanOrEqual t.integers,
    comparison ">" .greaterThan t.integers,
    comparison ">=" .greaterThanOrEqual t.integers,
    comparison "==" (fun _ => .equals) (t.integers ++ [t.bool]),
    comparison "!=" (fun _ => .notEquals) (t.integers ++ [t.bool]),
    ⟨"!", [.ofOperator "!" .logicalNot 1 t.bool t.bool]⟩ ]

/-! ### The root context -/

/-- The builtin scalars and the context every module is analysed in. -/
structure Builtins where
  types : BuiltinTypes
  root : LookupContext

namespace Builtins

/-- **The builtins of a backend.** -/
def prepare (cookie : Registration → Nat) : Builtins :=
  let types := BuiltinTypes.ofBackend cookie
  let named := types.all.map fun s => (s.name, Ty.ofScalar s)
  { types
    root :=
      { current :=
          { label := 0
            types := named
            objects := types.operators.map fun f => (f.name, .function f)
            casts := types.casts }
        outer := []
        typeIds :=
          ⟨(types.all.map fun s => (s.cookie, s.name, Ty.ofScalar s)).reverse, true⟩
        nextLabel := 1 } }

/-- A context with a scope of its own for one module. -/
def moduleContext (b : Builtins) : LookupContext := b.root.deriveModule

end Builtins

end RangeTyping
