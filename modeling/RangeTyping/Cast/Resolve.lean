import RangeTyping.Cast.Search

/-!
# Resolving a conversion

A value of one type is wanted as another.  Equal types need nothing.  Otherwise a conversion that
leads directly from source to destination wins over every chain; only without one is the cheapest
chain searched.  Either must be unique and stay within the weight limit.  The range of the value is
then carried through the chain, conversion by conversion, and any of them may refuse it.  A refused
chain is not replaced by a costlier one.
-/

namespace RangeTyping

/-! ### Queries, chains and errors -/

/-- A conversion that is wanted. -/
structure CastQuery where
  source : Ty
  range : Option ValueRange
  destination : Ty
  /-- Whether the conversion is not written in the program. -/
  implicit : Bool
  /-- The weight that is left for it. -/
  limit : Weight

/-- A conversion of a chain and the range after it. -/
structure ChainStep where
  cast : Cast
  range : Option ValueRange

/-- The conversions that were found, from source to destination, and the range after the last. -/
structure Chain where
  steps : List ChainStep
  weight : Weight
  range : Option ValueRange

namespace Chain

/-- The chain without conversions. -/
def identity (range : Option ValueRange) : Chain := ⟨[], 0, range⟩

/-- Whether the chain has no conversions. -/
def isIdentity (c : Chain) : Bool := c.steps.isEmpty

end Chain

/-- Why a conversion is not possible. -/
inductive CastError where
  | noPath (source destination : Ty)
  | ambiguous (source destination : Ty) (paths : Nat)
  | tooExpensive (weight limit : Weight)
  | rangeUnsafe (source destination : Ty) (range : Option ValueRange)

namespace CastError

/-- The wording of a conversion error. -/
def message (S : StructStore) : CastError → String
  | noPath s d => s!"no conversion from `{s.text S}` to `{d.text S}`"
  | ambiguous s d paths =>
    s!"ambiguous conversion from `{s.text S}` to `{d.text S}`: {paths} paths of equal weight"
  | tooExpensive weight limit =>
    s!"expression too expensive: conversion costs {weight}, {limit} left in budget"
  | rangeUnsafe s d range =>
    let shown := (range.map ValueRange.text).getD "<unknown>"
    s!"conversion from `{s.text S}` to `{d.text S}` is unsafe for range {shown}"

/-- The name of the kind of error. -/
def name : CastError → String
  | noPath _ _ => "Cast.NoPath"
  | ambiguous _ _ _ => "Cast.Ambiguous"
  | tooExpensive _ _ => "Cast.TooExpensive"
  | rangeUnsafe _ _ _ => "Cast.RangeUnsafe"

/-- Whether the conversion failed because several chains are cheapest. -/
def isAmbiguous : CastError → Bool
  | ambiguous _ _ _ => true
  | _ => false

end CastError

namespace CastQuery

/-! ### Finding the chain -/

/-- The direct conversions of least weight. -/
def cheapestDirect (S : StructStore) (G : CastGraph) (q : CastQuery) : List Cast :=
  let direct := (G.castsTo S q.destination).filter fun c =>
    c.usable q.implicit && c.source.same S q.source
  direct.filter fun c => direct.all (c.weight ≤ ·.weight)

/-- The only cheapest chain of conversions. -/
def searchedChain (S : StructStore) (G : CastGraph) (q : CastQuery) : Outcome CastError (List Cast) :=
  let search := Search.explore S G q.source q.destination q.implicit
  match search.origin with
  | none => Outcome.fail (.noPath q.source q.destination)
  | some (i, _) =>
    let paths := search.chainCount i
    if 1 < paths then
      Outcome.fail (.ambiguous q.source q.destination paths)
    else
      match search.chain i with
      | some casts => .ok casts
      | none =>
        .error (.internal (.castPathStops (q.source.text S) (q.destination.text S)))

/-- The conversions to apply. -/
def casts (S : StructStore) (G : CastGraph) (q : CastQuery) : Outcome CastError (List Cast) :=
  match q.cheapestDirect S G with
  | [] => q.searchedChain S G
  | [c] => .ok [c]
  | several =>
    Outcome.fail (.ambiguous q.source q.destination (min several.length maxWeight))

/-! ### Carrying the range along -/

/-- Whether an implicit conversion may be used for a value of this range. -/
def admits (implicit : Bool) (c : Cast) (range : Option ValueRange) : Except InternalError Bool :=
  if implicit && c.rule == .whenRangeFits then
    match range, c.destination.asScalar? with
    | some r, some s => s.fits r
    | _, _ => .ok false
  else
    .ok true

/-- The range after one conversion. -/
def rangeAfter (q : CastQuery) (c : Cast) (range : Option ValueRange) :
    Outcome CastError (Option ValueRange) := do
  unless ← admits q.implicit c range do
    Outcome.fail (.rangeUnsafe q.source q.destination range)
  match range with
  | none => c.destination.fullRange
  | some r =>
    match ← c.transform c.source c.destination r q.implicit with
    | some after => return some after
    | none => Outcome.fail (.rangeUnsafe q.source q.destination (some r))

/-- The conversions of a chain, each with the range after it. -/
def steps (q : CastQuery) : Option ValueRange → List Cast → Outcome CastError (List ChainStep)
  | _, [] => .ok []
  | range, c :: rest => do
    let after ← q.rangeAfter c range
    let others ← q.steps after rest
    return ⟨c, after⟩ :: others

/-- The weight of a chain. -/
def totalWeight (casts : List Cast) : Weight := casts.foldl (fun w c => addWeight w c.weight) 0

/-- **Resolves a query** to the chain of conversions that answers it. -/
def resolve (S : StructStore) (G : CastGraph) (q : CastQuery) : Outcome CastError Chain := do
  if q.source.same S q.destination then
    return Chain.identity q.range
  let casts ← q.casts S G
  let weight := totalWeight casts
  if q.limit < weight then
    Outcome.fail (.tooExpensive weight q.limit)
  let steps ← q.steps q.range casts
  return ⟨steps, weight, (steps.getLast?.map (·.range)).getD q.range⟩

end CastQuery

end RangeTyping
