import ReflectGen.Parse.Node

namespace ReflectGen.Parse.Declarator

open Text

/-- Chooses the declarator inside a declarator: the child in that role, else the first named one. -/
def isInner (cs : Children) (n : Node) : Bool :=
  if (child? .declarator cs).isSome then n.role == .declarator else n.named

/-- The node that names what a declarator declares. Among siblings, the first that `choose` takes
is the declarator. -/
def nameAmong (choose : Node → Bool) : Children → Option Node
  | .nil => none
  | .cons n cs rest =>
    if choose n then
      match n.kind with
      | .identifier | .destructorName | .operatorName => some n
      | .qualifiedName => (nameAmong (·.role == .name) cs).or (some n)
      | .pointerDeclarator | .referenceDeclarator | .arrayDeclarator | .functionDeclarator
      | .parenthesized | .attributed | .initialized => nameAmong (isInner cs) cs
      | _ => none
    else nameAmong choose rest

def name? (declarator : Node × Children) : Option Node :=
  nameAmong (fun _ => true) (.cons declarator.1 declarator.2 .nil)

/-- Whether a declarator declares a function rather than an object or a pointer to a function. -/
def functionAmong (choose : Node → Bool) : Children → Bool
  | .nil => false
  | .cons n cs rest =>
    if choose n then
      match n.kind with
      | .functionDeclarator => (child? .declarator cs).all (·.1.kind != .parenthesized)
      | .pointerDeclarator | .referenceDeclarator | .parenthesized | .attributed =>
        functionAmong (isInner cs) cs
      | _ => false
    else functionAmong choose rest

def isFunction (declarator : Node × Children) : Bool :=
  functionAmong (fun _ => true) (.cons declarator.1 declarator.2 .nil)

/-- What a declarator adds to the type in front of it: pointers, references and array bounds,
outermost first. -/
def decorations (source : List Char) (choose : Node → Bool) : Children → List Char
  | .nil => []
  | .cons n cs rest =>
    if choose n then
      match n.kind with
      | .pointerDeclarator => " *".toList ++ decorations source (isInner cs) cs
      | .referenceDeclarator =>
        let sign :=
          if (afterLiteral "&&".toList ((n.text source).dropWhile isSpace)).isSome then " &&"
          else " &"
        sign.toList ++ decorations source (isInner cs) cs
      | .arrayDeclarator =>
        let bound := (child? .size cs).elim [] (·.1.text source)
        " [".toList ++ bound ++ "]".toList ++ decorations source (isInner cs) cs
      | .parenthesized | .attributed | .initialized => decorations source (isInner cs) cs
      | _ => []
    else decorations source choose rest

def decorate (source : List Char) (base : List Char) (declarator : Node × Children) : List Char :=
  base ++ decorations source (fun _ => true) (.cons declarator.1 declarator.2 .nil)

end ReflectGen.Parse.Declarator
