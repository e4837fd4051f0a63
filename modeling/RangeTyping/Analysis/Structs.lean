import RangeTyping.Analysis.Basic

/-!
# The structs of a module

All structs are declared before any of them is defined, so they may point to each other in any
order.  A struct that holds another by value has to wait until that one has a size.  Definition
therefore goes in rounds: every struct is tried, those that lack a size are tried again in the next
round, and a round in which all of them lack one is the last.

Anything else that is wrong with a struct is reported when it is first tried.  A struct that is too
large for words is not reported; it stops the analysis.
-/

namespace RangeTyping

/-- Runs a step on every item.  Where it finds something wrong the item is left out, the state stays
as it was, and the next item follows. -/
def collect {σ α β : Type} (step : σ → α → Outcome Diagnostic (β × σ)) :
    σ → List α → Except InternalError (List β × List Diagnostic × σ)
  | s, [] => .ok ([], [], s)
  | s, a :: rest =>
    match step s a with
    | .error (.internal e) => .error e
    | .error (.error d) => do
      let (results, diagnostics, s) ← collect step s rest
      return (results, d :: diagnostics, s)
    | .ok (b, s) => do
      let (results, diagnostics, s) ← collect step s rest
      return (b :: results, diagnostics, s)

/-- A struct of a module that is declared: its definition and its type. -/
structure DeclaredStruct where
  definition : Source.StructDef
  type : Ty

namespace DeclaredStruct

/-- The struct as part of a typed module. -/
def typed (d : DeclaredStruct) : TypedStruct := ⟨d.definition.name.text, d.type⟩

/-! ### Declaration -/

/-- Declares a struct under its name. -/
def declare (s : StructStore × LookupContext) (definition : Source.StructDef) :
    Outcome Diagnostic (DeclaredStruct × StructStore × LookupContext) := do
  let name := definition.name.text
  let (structs, i) := s.1.declare (some name)
  let context ← (s.2.addType name (.struct .none i)).mapError fun e =>
    (⟨.registrationFailed .struct name (some e.message), definition.node.location⟩ : Diagnostic)
  return (⟨definition, .struct .none i⟩, structs, context)

/-! ### Definition -/

/-- The members as they are written, with their types. -/
def members (context : LookupContext) :
    List Source.MemberDef → Except Diagnostic (List (String × Ty))
  | [] => .ok []
  | m :: rest => do
    let t ← context.resolveType m.type
    return (m.name.text, t) :: (← members context rest)

/-- What comes of trying to define a struct. -/
inductive Attempt where
  | defined
  /-- A member held by value has no size yet. -/
  | deferred (d : Diagnostic)
  | refused (d : Diagnostic)

/-- Tries to define a struct. -/
def define (context : LookupContext) (S : StructStore) (d : DeclaredStruct) :
    Except InternalError (Attempt × StructStore) :=
  match members context d.definition.members with
  | .error diagnostic => .ok (.refused diagnostic, S)
  | .ok members =>
    match S.define d.type members with
    | (.ok (), S) => .ok (.defined, S)
    | (.error (.error (.incompleteMember struct member type)), S) =>
      .ok (.deferred ⟨.type (.incompleteMember struct member type), d.definition.node.location⟩, S)
    | (.error (.error e), S) => .ok (.refused ⟨.type e, d.definition.node.location⟩, S)
    | (.error (.internal e), _) => .error e

/-- What comes of a round: the structs to try again, each with what it lacks, and those that are
refused. -/
structure Round where
  structs : StructStore
  deferred : List (DeclaredStruct × Diagnostic)
  refused : List Diagnostic

/-- The round with an attempt at one more struct before it. -/
def Round.cons (d : DeclaredStruct) (r : Round) : Attempt → Round
  | .defined => r
  | .deferred diagnostic => { r with deferred := (d, diagnostic) :: r.deferred }
  | .refused diagnostic => { r with refused := diagnostic :: r.refused }

/-- Tries every struct once. -/
def round (context : LookupContext) (S : StructStore) :
    List DeclaredStruct → Except InternalError Round
  | [] => .ok ⟨S, [], []⟩
  | d :: rest => do
    let (attempt, S) ← define context S d
    let r ← round context S rest
    return r.cons d attempt

/-- **Defines structs in rounds**, until a round defers all that it was given. -/
def defineAll (context : LookupContext) (S : StructStore) (pending : List DeclaredStruct) :
    Except InternalError (StructStore × List Diagnostic) :=
  match round context S pending with
  | .error e => .error e
  | .ok r =>
    if r.deferred.length < pending.length then do
      let (structs, diagnostics) ← defineAll context r.structs (r.deferred.map (·.1))
      return (structs, r.refused ++ diagnostics)
    else
      .ok (r.structs, r.refused ++ r.deferred.map (·.2))
termination_by pending.length
decreasing_by simpa using by assumption

end DeclaredStruct

/-- **Declares and defines the structs of a module.** -/
def Source.Module.declareStructs (m : Source.Module) (S : StructStore) (context : LookupContext) :
    Except InternalError (List DeclaredStruct × List Diagnostic × StructStore × LookupContext) := do
  let (declared, diagnostics, S, context) ← collect DeclaredStruct.declare (S, context) m.structs
  let (S, more) ← DeclaredStruct.defineAll context S declared
  return (declared, diagnostics ++ more, S, context)

end RangeTyping
