/-!
# Paths

A path is the segments from the root down to a symbol. The symbols above it stand at its ancestors:
the path itself, then without its last segment, and so on up to the root.
-/

namespace FrontEnd

/-- **A path from the root**, the outermost segment first. -/
abbrev Path :=
  List String

namespace Path

/-- A path as it is written, with points between its segments. -/
def written (path : Path) : String :=
  ".".intercalate path

/-- The beginnings of a path that are neither empty nor the whole of it, the shortest first. -/
def between (path : Path) : List Path :=
  (List.range (path.length - 1)).map fun n => path.take (n + 1)

/-- **A path and all that it stands in**, up to the root. -/
def ancestors (path : Path) : List Path :=
  (List.range (path.length + 1)).reverse.map path.take

end Path

end FrontEnd
