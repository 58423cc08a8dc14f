/-!
# Paths of files

Names separated by slashes. Paths are compared and shown as they are written.
-/
namespace AnnotatedToC.Path

def isAbsolute (path : String) : Bool := path.toList.head? == some '/'

/-- Drops the slashes and the dots between slashes at the end of a path, given from its end. The root
and a dot that begins the path stay. -/
def trimEnd : List Char → List Char
  | ['/'] => ['/']
  | '/' :: rest => trimEnd rest
  | '.' :: '/' :: rest => if rest.isEmpty then ['/'] else trimEnd rest
  | reversed => reversed

/-- The directory of a file: all before its name. -/
def parent (path : String) : String :=
  String.ofList (trimEnd (path.toList.reverse.dropWhile (· != '/'))).reverse

/-- A path seen from a directory. -/
def join (base path : String) : String :=
  if isAbsolute path || base.isEmpty then path
  else if base.toList.getLast? == some '/' then base ++ path
  else base ++ "/" ++ path

end AnnotatedToC.Path
