import Interpose.Unit.Basic
import Interpose.WordChar

/-!
Containers that the compiler makes for iterators and deferred continuations.

The body of such a method is moved to a nested type. The name of the type tells the name of the
method, and a local of the type or the fields that capture its parameters tell which method of that
name it is.
-/

namespace Interpose.Container

/-- The method name in a container name: a word between angle brackets, followed by the letter
and the underscores that mark a container. -/
def originName? (typeName : String) : Option String :=
  match typeName.toList with
  | '<' :: rest =>
    match rest.takeWhile WordChar.isWord, rest.dropWhile WordChar.isWord with
    | c :: word, '>' :: 'd' :: '_' :: '_' :: _ => some (String.ofList (c :: word))
    | _, _ => none
  | _ => none

/-- A text stands somewhere in another. -/
def occursIn (part : List Char) : List Char → Bool
  | [] => part.isEmpty
  | c :: rest => part.isPrefixOf (c :: rest) || occursIn part rest

/-- A parameter is captured by a public field of its name and type. -/
def captures (t : TypeDecl) (p : Parameter) : Bool :=
  t.publicFields.any fun f => f.name == p.name && f.fieldType == p.paramType

/-- The type can be the container of a method: its name holds that of the method, and the method
has a local of this type, or every parameter is captured. Without parameters the receiver is all
that may be captured. -/
def isFor (t : TypeDecl) (m : MethodDecl) : Bool :=
  occursIn m.name.toList t.name.toList &&
    (m.locals.any (·.localType == t.fullName) ||
      if m.params.isEmpty then t.publicFields.length == m.hasThis.toNat
      else m.params.all (captures t))

end Interpose.Container
