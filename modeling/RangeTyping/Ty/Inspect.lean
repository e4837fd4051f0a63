import RangeTyping.Text.Quoted
import RangeTyping.Ty.Store

/-!
# Structs shown for inspection
-/

namespace RangeTyping

/-- A struct's name and whether it is complete, as they are shown for inspection. -/
def StructStore.inspect (S : StructStore) (i : StructId) : String :=
  let name := match S.name? i with
    | some n => "Some(" ++ Text.quoted n ++ ")"
    | none => "None"
  "StructType \x7b name: " ++ name ++ ", complete: " ++
    (if S.isComplete i then "true" else "false") ++ " \x7d"

end RangeTyping
