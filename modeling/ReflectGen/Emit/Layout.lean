namespace ReflectGen.Emit

/-- Lines of code and their nesting. A scope's body is indented one level more than the lines
that open and close it. -/
inductive Layout where
  | done
  | line (text : String) (next : Layout)
  | scope (opening : String) (closing : Option String) (body next : Layout)
  deriving DecidableEq, Repr

namespace Layout

def append : Layout → Layout → Layout
  | done, l => l
  | line text next, l => line text (next.append l)
  | scope opening closing body next, l => scope opening closing body (next.append l)

instance : Append Layout := ⟨append⟩

def lines (texts : List String) : Layout := texts.foldr line done

def blank : Layout := line "" done

/-- A header line and a body in braces. -/
def block (header : String) (body : Layout) : Layout :=
  line header (scope "\x7b" (some "\x7d") body done)

def concat (parts : List Layout) : Layout := parts.foldr (· ++ ·) done

end Layout

/-- Collects indented lines. `pending` holds the closing lines of the open scopes, innermost
first. -/
structure CodeWriter where
  indent : String := "    "
  depth : Nat := 0
  lines : List String := []
  pending : List (Option String) := []
  deriving DecidableEq, Repr

namespace CodeWriter

/-- Adds a line at the current depth; an empty one gets no indentation. -/
def line (w : CodeWriter) (text : String) : CodeWriter :=
  let indented := if text = "" then "" else String.join (List.replicate w.depth w.indent) ++ text
  { w with lines := w.lines ++ [indented] }

def openScope (w : CodeWriter) (opening : String) (closing : Option String) : CodeWriter :=
  let w := w.line opening
  { w with depth := w.depth + 1, pending := closing :: w.pending }

def openBlock (w : CodeWriter) (header : String) : CodeWriter :=
  (w.line header).openScope "\x7b" (some "\x7d")

/-- Ends the innermost open scope, if there is one. -/
def closeScope (w : CodeWriter) : CodeWriter :=
  match w.pending with
  | [] => w
  | closing :: rest =>
    let w := { w with depth := w.depth - 1, pending := rest }
    closing.elim w w.line

/-- Ends all open scopes, innermost first. -/
def closeAll (w : CodeWriter) : CodeWriter :=
  w.pending.foldl (fun w _ => w.closeScope) w

def write (w : CodeWriter) : Layout → CodeWriter
  | .done => w
  | .line text next => (w.line text).write next
  | .scope opening closing body next =>
    (((w.openScope opening closing).write body).closeScope).write next

/-- All lines, each ended by a line feed. -/
def text (w : CodeWriter) : String := String.join (w.lines.map (· ++ "\n"))

end CodeWriter

end ReflectGen.Emit
