/-!
Paths of files, kept as they were written.

A path is a text; what it names depends only on its components. Repeated and trailing slashes
and inner dots make no component, a leading dot and every double dot do. Two paths are equal,
`==`, when their components are.
-/

namespace Interpose

structure Path where
  text : String
  deriving Repr, Inhabited

namespace Path

/-- The pieces of a text between its slashes, at least one. -/
def pieces : List Char → List (List Char)
  | [] => [[]]
  | c :: rest =>
    if c = '/' then [] :: pieces rest
    else match pieces rest with
      | [] => [[c]]
      | p :: ps => (c :: p) :: ps

/-- The segments of a path: what stands between its slashes. -/
def segments (p : Path) : List String := (pieces p.text.toList).map String.ofList

/-- The path with the given segments. -/
def ofSegments (segments : List String) : Path := ⟨"/".intercalate segments⟩

inductive Component where
  | root
  | current
  | parent
  | name (s : String)
  deriving DecidableEq, Repr

/-- A segment that names nothing behind a slash. -/
def isIdle (s : String) : Bool := s == "" || s == "."

/-- The component of a segment that stands behind a slash. -/
def Component.inner? (s : String) : Option Component :=
  if isIdle s then none else if s = ".." then some .parent else some (.name s)

/-- The component of a segment at the front; an empty one before a slash is the root. -/
def Component.front? (s : String) (rest : List String) : Option Component :=
  if s = "" then (if rest.isEmpty then none else some .root)
  else if s = "." then some .current
  else if s = ".." then some .parent
  else some (.name s)

def components (p : Path) : List Component :=
  match p.segments with
  | [] => []
  | s :: rest => (Component.front? s rest).toList ++ rest.filterMap Component.inner?

instance : BEq Path := ⟨fun p q => p.components == q.components⟩

theorem beq_iff {p q : Path} : (p == q) = true ↔ p.components = q.components :=
  beq_iff_eq (a := p.components)

instance : ReflBEq Path where
  rfl := beq_iff.2 rfl

def isAbsolute (p : Path) : Bool := p.text.toList.head? == some '/'

/-- The path `p` seen from `base`: an absolute path stays, and one slash comes between. -/
def join (base p : Path) : Path :=
  if p.isAbsolute then p
  else if base.text.isEmpty || base.text.toList.getLast? == some '/' then ⟨base.text ++ p.text⟩
  else ⟨base.text ++ "/" ++ p.text⟩

/-- The path up to the last component; none for the root and the empty path. -/
def parent? (p : Path) : Option Path :=
  match p.segments with
  | [] => none
  | s :: rest =>
    match rest.reverse.dropWhile isIdle with
    | [] => if s = "" then none else some ⟨""⟩
    | _ :: before =>
      let kept := (before.dropWhile isIdle).reverse
      if kept.isEmpty && s == "" then some ⟨"/"⟩ else some (ofSegments (s :: kept))

/-- The directory that a file lies in; the empty parent is the directory one stands in. -/
def directory? (p : Path) : Option Path :=
  p.parent?.map fun d => if d.text.isEmpty then ⟨"."⟩ else d

/-- The last component, if it is a name. -/
def fileName? (p : Path) : Option String :=
  match p.components.getLast? with
  | some (.name s) => some s
  | _ => none

/-- A file name without its extension: what stands before the last point, unless nothing does. -/
def stemOf (name : String) : String :=
  let chars := name.toList.reverse
  match chars.dropWhile (· ≠ '.') with
  | [] => name
  | [_] => name
  | _ :: before => String.ofList before.reverse

/-- The file name without its extension. -/
def stem? (p : Path) : Option String := p.fileName?.map stemOf

end Path

end Interpose
