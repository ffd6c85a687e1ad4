import EggLang.Bytes

/-!
# Paths

Slash-separated paths. `clean` gives the shortest path that means the same place: no empty or
`.` segments, and `..` only at the front of a relative path.
-/

namespace EggLang.Path

def segments (path : Bytes) : List Bytes := Bytes.splitOn 47 path

def isAbsolute (path : Bytes) : Bool := path.head? = some 47

def here : Bytes := utf8 "."

def up : Bytes := utf8 ".."

/-- Takes one more segment onto the segments so far, the last one first. -/
def push (rooted : Bool) (done : List Bytes) (segment : Bytes) : List Bytes :=
  if segment.isEmpty || segment = here then done
  else if segment = up then
    match done with
    | [] => if rooted then [] else [up]
    | last :: rest => if last = up then up :: done else rest
  else segment :: done

def cleanSegments (path : Bytes) : List Bytes :=
  ((segments path).foldl (push (isAbsolute path)) []).reverse

def clean (path : Bytes) : Bytes :=
  let body := Bytes.join (utf8 "/") (cleanSegments path)
  if isAbsolute path then utf8 "/" ++ body
  else if body.isEmpty then here
  else body

/-- One path below another, cleaned. Empty parts do not count. -/
def join (base path : Bytes) : Bytes :=
  match [base, path].filter (!·.isEmpty) with
  | [] => []
  | parts => clean (Bytes.join (utf8 "/") parts)

/-- The part of a path up to its last slash. -/
def untilLastSlash (path : Bytes) : Bytes := (path.reverse.dropWhile (· != 47)).reverse

def parent (path : Bytes) : Bytes := clean (untilLastSlash path)

/-- A path without the slashes at its end. -/
def trimSlashes (path : Bytes) : Bytes := (path.reverse.dropWhile (· = 47)).reverse

/-- The last segment of a path. -/
def base (path : Bytes) : Bytes :=
  if path.isEmpty then here
  else
    let trimmed := trimSlashes path
    if trimmed.isEmpty then utf8 "/"
    else (trimmed.reverse.takeWhile (· != 47)).reverse

def absolute (cwd path : Bytes) : Bytes := if isAbsolute path then clean path else join cwd path

end EggLang.Path
