import RangeTyping.Analysis.Functions

/-!
# Sessions

A session analyses modules one after another on the same builtins.  Each module has a scope of its
own inside the root scope and sees nothing of the modules before it; what the session carries along
is only the store of structs and the supply of identities.
-/

namespace RangeTyping

/-- What is carried from one analysis to the next. -/
structure Session where
  builtins : Builtins
  structs : StructStore
  fresh : Fresh
  nextModule : Nat

/-- The answer of an analysis: a typed module, or all that is wrong with it. -/
abbrev Verdict : Type := Except (List Diagnostic) TypedModule

namespace Session

/-- A session on the builtins of a backend. -/
def start (cookie : Registration → Nat) : Session := ⟨.prepare cookie, .empty, .initial, 1⟩

/-- **Analyses a module.**  Diagnostics come in the order of the stages: structs, function names,
signatures, bodies. -/
def analyze (s : Session) (options : Options) (m : Source.Module) :
    Except InternalError (Verdict × Session) := do
  let types := s.builtins.types
  let context := s.builtins.moduleContext
  let (declared, structErrors, structs, context) ← m.declareStructs s.structs context
  let (signatures, functionErrors, context) ← m.registerFunctions structs types.voidTy context
  let env : Env := ⟨structs, types, options, "", types.voidTy, context⟩
  let (functions, bodyErrors, fresh) ←
    collect (fun fresh (f : Signature) => f.analyze env fresh) s.fresh signatures
  match structErrors ++ functionErrors ++ bodyErrors with
  | [] =>
    let typed : TypedModule :=
      ⟨s.nextModule, m.name, m.node.location, declared.map (·.typed), functions⟩
    return (.ok typed, { s with structs, fresh, nextModule := s.nextModule + 1 })
  | diagnostics => return (.error diagnostics, { s with structs, fresh })

end Session

end RangeTyping
