import WordLang.Text.Lines
import WordLang.Text.Quoted
import WordLang.Text.Numeral

/-! Files as the command sees them, and a tree of files held in memory. -/
namespace WordLang

/-- Why a file cannot be written. -/
inductive WriteError where
  | noSuchFile
  | permissionDenied
  | isDirectory
  /-- Any other answer of the system, by its number and words. -/
  | other (number : Nat) (reason : String)
deriving DecidableEq

namespace WriteError

def notDirectory : WriteError := .other 20 "Not a directory"

def nameTooLong : WriteError := .other 36 "File name too long"

def number : WriteError → Nat
  | .noSuchFile => 2
  | .permissionDenied => 13
  | .isDirectory => 21
  | .other n _ => n

def reason : WriteError → String
  | .noSuchFile => "No such file or directory"
  | .permissionDenied => "Permission denied"
  | .isDirectory => "Is a directory"
  | .other _ r => r

def message (e : WriteError) (path : String) : String :=
  "[Errno " ++ Nat.repr e.number ++ "] " ++ e.reason ++ ": " ++ Text.quoted path

end WriteError

/-- What the command asks of the system: whether a path is a directory, and what comes of writing a
text to a path. -/
structure FileSystem where
  isDirectory : String → Bool
  write : String → String → Option WriteError

/-! ### Paths -/

def pathParts (path : String) : List String :=
  (Text.splitBy (· == '/') path.toList).map String.ofList

/-- The slashes that make a path absolute; exactly two are kept apart from one. -/
def pathRoot (path : String) : String :=
  match (path.toList.takeWhile (· == '/')).length with
  | 0 => ""
  | 2 => "//"
  | _ => "/"

/-- A path without empty parts and single dots; the empty path is the current directory. -/
def cleanPath (path : String) : String :=
  let parts := (pathParts path).filter fun p => p != "" && p != "."
  let clean := pathRoot path ++ String.intercalate "/" parts
  if clean = "" then "." else clean

/-- A path with a zero character, which no system can be asked about. -/
def isUnaskable (path : String) : Bool := path.toList.contains '\x00'

/-! ### Files in memory -/

/-- Directories and files by the names on the way to them from the root, and the directory where
relative paths start. -/
structure Files where
  home : List String
  directories : List (List String)
  files : List (List String × String)
deriving DecidableEq

namespace Files

def maxNameBytes : Nat := 255

def maxPathBytes : Nat := 4095

/-- A place is a directory, as all places on the way to the home are. -/
def hasDirectory (f : Files) (place : List String) : Bool :=
  place.isPrefixOf f.home || f.directories.contains place

def hasFile (f : Files) (place : List String) : Bool := (f.files.lookup place).isSome

/-- The directory that a part of a path leads to. The root is above itself. -/
def enter (f : Files) (here : List String) (part : String) : Except WriteError (List String) :=
  if part = "" ∨ part = "." then .ok here
  else if part = ".." then .ok here.dropLast
  else if maxNameBytes < part.utf8ByteSize then .error .nameTooLong
  else if f.hasDirectory (here ++ [part]) then .ok (here ++ [part])
  else if f.hasFile (here ++ [part]) then .error .notDirectory
  else .error .noSuchFile

def walk (f : Files) : List String → List String → Except WriteError (List String)
  | here, [] => .ok here
  | here, part :: parts =>
    match f.enter here part with
    | .error e => .error e
    | .ok there => f.walk there parts

def origin (f : Files) (path : String) : List String := if pathRoot path = "" then f.home else []

/-- The directory that some parts of a path lead to, if the path is not too long. -/
def follow (f : Files) (path : String) (parts : List String) : Except WriteError (List String) :=
  if maxPathBytes < path.utf8ByteSize then .error .nameTooLong
  else f.walk (f.origin path) parts

/-- A path leads to a directory. The empty path leads nowhere. -/
def isDirectory (f : Files) (path : String) : Bool :=
  path != "" && match f.follow path (pathParts path) with
    | .ok _ => true
    | .error _ => false

def put (f : Files) (place : List String) (text : String) : Files :=
  { f with files := (place, text) :: f.files.filter (·.1 != place) }

def write (f : Files) (path text : String) : Except WriteError Files :=
  let parts := pathParts path
  match f.follow path parts.dropLast with
  | .error e => .error e
  | .ok here =>
    match f.enter here (parts.getLast?.getD "") with
    | .ok _ => .error .isDirectory
    | .error e =>
      if e = .noSuchFile ∨ e = .notDirectory then
        .ok (f.put (here ++ [parts.getLast?.getD ""]) text)
      else .error e

/-- The files as the command sees them. -/
def system (f : Files) : FileSystem where
  isDirectory := f.isDirectory
  write path text :=
    match f.write path text with
    | .ok _ => none
    | .error e => some e

/-- Files below the home that are new or different, by their paths from there. -/
def changes (before after : Files) : List (String × String) :=
  (after.files.filter fun (place, text) =>
    before.home.isPrefixOf place && before.files.lookup place != some text).map
      fun (place, text) => (String.intercalate "/" (place.drop before.home.length), text)

end Files

end WordLang
