import ReactMigration.Text.Basic

/-!
Slash-separated paths as plain text: joining, normalising, and the path from one place to another.
-/

namespace ReactMigration.Path

open ReactMigration.Text

/-- The text up to the last slash, without trailing slashes unless it is only slashes. -/
def directory (p : String) : String :=
  let back := p.toList.reverse
  let head := (back.dropWhile (· != '/')).reverse
  if head.all (· == '/') then String.ofList head
  else String.ofList (dropTrailing (· == '/') head)

/-- The text after the last slash. -/
def fileName (p : String) : String :=
  (splitLast '/' p).2

/-- Appends `q` to `p`; an absolute `q` replaces it. -/
def join (p q : String) : String :=
  if q.startsWith "/" then q
  else if p == "" || p.endsWith "/" then p ++ q
  else p ++ "/" ++ q

/-- One step of resolving a segment against the segments before it, newest first. -/
def resolveSegment (absolute : Bool) (done : List String) (segment : String) : List String :=
  if segment == "" || segment == "." then done
  else if segment == ".." then
    match done with
    | [] => if absolute then [] else [".."]
    | last :: before => if last == ".." then ".." :: done else before
  else segment :: done

/-- The segments of a path with empty, `.` and resolvable `..` segments removed. -/
def segments (absolute : Bool) (p : String) : List String :=
  ((splitAt '/' p).foldl (resolveSegment absolute) []).reverse

/-- A leading slash is kept; exactly two leading slashes stay two. -/
def rootOf (p : String) : String :=
  if p.startsWith "//" && !p.startsWith "///" then "//"
  else if p.startsWith "/" then "/"
  else ""

/-- The shortest path with the same meaning; `.` for the empty path. -/
def normalize (p : String) : String :=
  if p == "" then "."
  else
    let root := rootOf p
    let text := root ++ "/".intercalate (segments (root ≠ "") p)
    if text == "" then "." else text

/-- Drops the beginning two lists share. -/
def dropShared : List String → List String → List String × List String
  | a :: as, b :: bs => if a == b then dropShared as bs else (a :: as, b :: bs)
  | as, bs => (as, bs)

/-- The path that leads from the directory `start` to `target`, both relative to one root. -/
def relative (target start : String) : String :=
  let (up, down) := dropShared (segments false start) (segments false target)
  let parts := up.map (fun _ => "..") ++ down
  if parts.isEmpty then "." else "/".intercalate parts

end ReactMigration.Path
