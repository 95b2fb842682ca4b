import ReflectGen.Parse.FrontEnd

namespace ReflectGen.Parse

open Text

/-- A node from the words of its row: its kind, 1 if it is named, its role or a dash, the ends of
its byte range, and the number of its children. -/
def rowNode? : List String → Option (Node × Nat)
  | [kind, named, role, start, stop, count] => do
    let role := if role = "-" then .plain else Role.ofName role
    return (⟨.ofName kind, named == "1", role, ← start.toNat?, ← stop.toNat?⟩, ← count.toNat?)
  | _ => none

/-- What stands below the root of a tree that is listed in pre-order, one row a line. -/
def ofListing? (listing : List Char) : Option Children := do
  let rows ← (lines listing).mapM fun line => rowNode? ((words line).map String.ofList)
  return (← (Forest.ofPreorder rows).head?).2

/-- A parser that knows some texts, and finds nothing in any other. -/
def Parser.ofTable (table : List (List Char × Children)) : Parser := fun text =>
  ((table.find? (·.1 == text)).map (·.2)).getD .nil

end ReflectGen.Parse
