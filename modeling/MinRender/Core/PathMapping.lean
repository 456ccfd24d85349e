import Mathlib.Data.List.DropRight

/-!
# Path mappings

The prefix rewriting between the operating systems' forms of a path, on the
operating system tags `win`, `mac` and `lin`, the parent of a path, and a path
below another.
-/

namespace MinRender

structure PathMapping where
  win : String := ""
  mac : String := ""
  lin : String := ""
  enabled : Bool := true
  label : String := ""
deriving DecidableEq, Repr

def mappingPrefix (m : PathMapping) (os : String) : String :=
  if os = "win" then m.win
  else if os = "mac" then m.mac
  else m.lin

/-- `std::replace` over a string. -/
def replaceChar (old new : Char) (s : String) : String :=
  String.ofList (s.toList.map fun c => if c = old then new else c)

/-- Forward slashes throughout. -/
def normalizePath (path : String) : String := replaceChar '\\' '/' path

def toNativeSeparators (path os : String) : String :=
  if os = "win" then replaceChar '/' '\\' path else replaceChar '\\' '/' path

/-- `::tolower` over a string. -/
def lowercase (s : String) : String := String.ofList (s.toList.map Char.toLower)

/-- Whether a normalised path starts with a mapping's prefix; the case is
ignored for a Windows source. -/
def matchesPrefix (sourceOS srcPrefix normalized : String) : Bool :=
  if sourceOS = "win" then
    (lowercase srcPrefix).toList.isPrefixOf (lowercase normalized).toList
  else srcPrefix.toList.isPrefixOf normalized.toList

/-- The target prefix without trailing slashes, then the remainder without
the one slash it may start with. -/
def rebase (tgtPrefix : String) (remainder : List Char) : String :=
  let remainder := match remainder with
    | '/' :: rest => rest
    | _ => remainder
  let normTarget := (normalizePath tgtPrefix).toList.rdropWhile (· = '/')
  if remainder = [] then String.ofList normTarget
  else String.ofList (normTarget ++ '/' :: remainder)

/-- The first enabled mapping whose prefix matches rewrites the path; without
one only the separators change. -/
def translatePath (sourceOS targetOS path : String) (mappings : List PathMapping) :
    String :=
  if sourceOS = targetOS then toNativeSeparators path targetOS
  else
    let normalized := normalizePath path
    let applies (m : PathMapping) : Bool :=
      let srcPrefix := normalizePath (mappingPrefix m sourceOS)
      m.enabled && srcPrefix ≠ "" && mappingPrefix m targetOS ≠ "" &&
        matchesPrefix sourceOS srcPrefix normalized
    match mappings.find? applies with
    | none => toNativeSeparators path targetOS
    | some m =>
        let srcPrefix := normalizePath (mappingPrefix m sourceOS)
        toNativeSeparators
          (rebase (mappingPrefix m targetOS)
            (normalized.toList.drop srcPrefix.length)) targetOS

def toCanonicalPath (os path : String) (mappings : List PathMapping) : String :=
  translatePath os "win" path mappings

example : toCanonicalPath "mac" "/Volumes/show/a.blend"
    [{ win := "Z:\\show", mac := "/Volumes/show" }] = "Z:\\show\\a.blend" := by decide

/-! ## The parent of a path -/

/-- The separators of an operating system. -/
def isSeparator (os : String) (c : Char) : Bool :=
  c = '/' || (os = "win" && c = '\\')

/-- The root name and the rest: a drive, or the host of a network path. Only
Windows has root names. -/
def splitRootName (os : String) (path : List Char) : List Char × List Char :=
  if os ≠ "win" then ([], path)
  else
    match path with
    | drive :: ':' :: rest =>
        if drive.isAlpha then ([drive, ':'], rest) else ([], path)
    | a :: b :: c :: rest =>
        if isSeparator os a && isSeparator os b && !isSeparator os c then
          (a :: b :: (c :: rest).takeWhile (!isSeparator os ·),
            (c :: rest).dropWhile (!isSeparator os ·))
        else ([], path)
    | _ => ([], path)

/-- `std::filesystem::path::parent_path`: the last name goes, with the
separators before it; a root directory stays. -/
def parentPath (os path : String) : String :=
  let (rootName, rest) := splitRootName os path.toList
  let rootDir := rest.takeWhile (isSeparator os)
  let names := rest.dropWhile (isSeparator os)
  let parent := (names.rdropWhile (!isSeparator os ·)).rdropWhile (isSeparator os)
  String.ofList (rootName ++ rootDir ++ parent)

example : parentPath "mac" "/a/b/shot.png" = "/a/b" := by decide

/-- `std::filesystem::path::operator/`: a right side with another root name
replaces the left one, and one with a root directory all but its root name. -/
def joinPath (os p q : String) : String :=
  let (root, dirs) := splitRootName os p.toList
  let (drive, rest) := splitRootName os q.toList
  if drive ≠ [] ∧ drive ≠ root then q
  else if rest.head?.any (isSeparator os) then String.ofList (root ++ rest)
  -- nothing is put behind a drive, a separator behind the host of a network path
  else if dirs = [] ∧ root.length ≤ 2 ∨ dirs.getLast?.any (isSeparator os) then
    p ++ String.ofList rest
  else p ++ (if os = "win" then "\\" else "/") ++ String.ofList rest

example : joinPath "win" "C:\\data" "/shots" = "C:/shots" := by decide

end MinRender
