set_option autoImplicit false

namespace TextureLoom.CommandLine.Path

/-- What stands between the slashes of a path. -/
def parts (path : String) : List String := path.splitOn "/"

/-- Whether a part leads nowhere: nothing at all, or one dot. -/
def isIdle (part : String) : Bool := part == "" || part == "."

/-- The parts up to the last one that is not idle. -/
def trimmed (parts : List String) : List String := (parts.reverse.dropWhile isIdle).reverse

/-- The folder that a path names something in, if it is another than the present one. An idle part counts only at the
front of a path: it is the outermost folder or the present one. -/
def folder? (path : String) : Option String :=
  let (front, rest) := (parts path).splitAt (if (parts path).head?.any isIdle then 1 else 0)
  match trimmed rest with
  | [] => none
  | named =>
    match front ++ trimmed named.dropLast with
    | [] => none
    | [""] => some "/"
    | folder => some ("/".intercalate folder)

/-- Whether a path ends like one of a picture file that can be read. -/
def namesPicture (path : String) : Bool :=
  let name := path.toList.reverse.takeWhile fun c => c != '/'
  let ending := String.ofList ((name.takeWhile fun c => c != '.').reverse.map Char.toLower)
  (ending == "png" || ending == "apng") && 1 < (name.dropWhile fun c => c != '.').length

end TextureLoom.CommandLine.Path
