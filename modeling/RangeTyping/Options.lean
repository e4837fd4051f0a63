import RangeTyping.Scalar

/-!
# Options

The weights that an analysis may spend.  Options are read from a document: a record with any of the
two entries, or a list of up to two values in their order.  What is left out keeps its default, and
a document that holds anything else is refused.
-/

namespace RangeTyping

/-- Data without a fixed shape.  `fraction` stands for every number that is not written as an
integer. -/
inductive Document where
  | null
  | bool (value : Bool)
  | integer (value : Int)
  | fraction
  | text (value : String)
  | list (items : List Document)
  | record (entries : List (String × Document))
deriving Inhabited

/-- The weights that an analysis may spend. -/
structure Options where
  /-- On each expression statement, return value, assignment, condition and function result. -/
  expressionLimit : Weight
  /-- On each variable initializer; `none` is no limit. -/
  initializerLimit : Option Weight
deriving DecidableEq, Repr

namespace Options

/-- The options of an empty document. -/
def default : Options := ⟨1000, none⟩

/-- A weight. -/
def weight? : Document → Option Weight
  | .integer v => if 0 ≤ v ∧ v ≤ maxWeight then some v.toNat else none
  | _ => none

/-- A weight, or no limit. -/
def limit? : Document → Option (Option Weight)
  | .null => some none
  | d => (weight? d).map some

/-- Reads one entry of a record. -/
def readEntry (o : Options) : String × Document → Option Options
  | ("max_expression_weight", d) => (weight? d).map fun w => { o with expressionLimit := w }
  | ("initializer_weight_limit", d) => (limit? d).map fun w => { o with initializerLimit := w }
  | _ => none

/-- **Reads options from a document.** -/
def ofDocument? : Document → Option Options
  | .record entries => entries.foldlM readEntry default
  | .list [] => some default
  | .list [e] => (weight? e).map fun w => { default with expressionLimit := w }
  | .list [e, i] => do return ⟨← weight? e, ← limit? i⟩
  | _ => none

end Options

end RangeTyping
