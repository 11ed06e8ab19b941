import Citations.Text.Quoted
import Citations.Text.Utf8

/-!
# Files

* `Path`          the components of a path, without empty ones and single points;
* `FileError`     why a file cannot be opened, with the wording;
* `FileTree`      files at places counted from the top, and where relative paths start;
* `FileTree.read`, `FileTree.write`, `FileTree.changedSince`.
-/

namespace Citations

/-- A path: the slashes at its front, and its components. -/
structure Path where
  root : Text
  parts : List Text
  deriving DecidableEq, Repr

namespace Path

/-- One or three and more slashes at the front are one, two stay two. -/
def ofText (t : Text) : Path :=
  let slashes := (t.takeWhile (· == '/')).length
  { root := if slashes = 0 then [] else if slashes = 2 then ['/', '/'] else ['/']
    parts := (Text.splitAt '/' t).filter fun p => p ≠ [] && p ≠ ['.'] }

def text (p : Path) : Text :=
  if p.root = [] ∧ p.parts = [] then ['.'] else p.root ++ Text.joined ['/'] p.parts

end Path

inductive FileError where
  | missing
  | noDirectory
  | isDirectory
  | noSpace
  | nameTooLong
  | other (number : Nat) (reason : Text)
  deriving DecidableEq, Repr

namespace FileError

def number : FileError → Nat
  | .missing => 2
  | .noDirectory => 20
  | .isDirectory => 21
  | .noSpace => 28
  | .nameTooLong => 36
  | .other n _ => n

def reason : FileError → Text
  | .missing => "No such file or directory".toList
  | .noDirectory => "Not a directory".toList
  | .isDirectory => "Is a directory".toList
  | .noSpace => "No space left on device".toList
  | .nameTooLong => "File name too long".toList
  | .other _ r => r

/-- What is wrong with a path; a fault met behind the opening names no path. -/
def message (e : FileError) (p : Path) : Text :=
  "[Errno ".toList ++ Text.ofNat e.number ++ "] ".toList ++ e.reason ++
    (if e = .noSpace then [] else ':' :: ' ' :: Text.quoted p.text)

end FileError

/-- What a system has besides files. -/
inductive Device where
  /-- takes everything and is empty -/
  | null
  /-- takes nothing -/
  | full
  deriving DecidableEq, Repr

/-- The names on the way from the top. -/
abbrev Place := List Text

/-- Files at their places, and the directory where relative paths start. -/
structure FileTree where
  files : List (Place × List UInt8) := []
  home : Place := []
  deriving Repr

namespace FileTree

/-- The directories that a system has. -/
def directories : List Place :=
  ["bin", "boot", "dev", "dev/pts", "dev/shm", "etc", "home", "lib", "lib64", "media", "mnt", "opt",
    "proc", "root", "run", "sbin", "srv", "sys", "tmp", "usr", "usr/bin", "usr/include", "usr/lib",
    "usr/local", "usr/local/bin", "usr/local/lib", "usr/sbin", "usr/share", "usr/src", "var",
    "var/cache", "var/lib", "var/log", "var/tmp"].map fun s => Text.splitAt '/' s.toList

def devices : List (Place × Device) :=
  [(["dev".toList, "null".toList], .null), (["dev".toList, "full".toList], .full)]

/-- A home below the directory for passing files; its name is one that no path can hold. -/
def passingHome : Place := ["tmp".toList, [Char.ofNat 0]]

/-- Files given by their ways from a passing home. -/
def ofHome (files : List (Place × List UInt8)) : FileTree where
  files := files.map fun (way, bytes) => (passingHome ++ way, bytes)
  home := passingHome

inductive Node where
  | file (bytes : List UInt8)
  | device (d : Device)
  | directory
  | nothing
  deriving DecidableEq, Repr

def node (t : FileTree) (place : Place) : Node :=
  match t.files.find? fun f => f.1 == place with
  | some f => .file f.2
  | none =>
    match devices.find? fun d => d.1 == place with
    | some d => .device d.2
    | none =>
      if place.isPrefixOf t.home || directories.contains place ||
          t.files.any fun f => place.isPrefixOf f.1 then .directory
      else .nothing

/-- The greatest number of bytes of a name, and of a path. -/
def maxName : Nat := 255
def maxPath : Nat := 4095

/-- The place that names lead to from `place`, going through directories only; above the top there
is the top. -/
def follow (t : FileTree) (place : Place) : List Text → Except FileError Place
  | [] => .ok place
  | p :: ps =>
    match t.node place with
    | .nothing => .error .missing
    | .file _ | .device _ => .error .noDirectory
    | .directory =>
      if p = ['.', '.'] then t.follow place.dropLast ps
      else if maxName < (Utf8.encode p).length then .error .nameTooLong
      else t.follow (place ++ [p]) ps

/-- The place of a path. -/
def locate (t : FileTree) (p : Path) : Except FileError Place :=
  if maxPath < (Utf8.encode p.text).length then .error .nameTooLong
  else t.follow (if p.root = [] then t.home else []) p.parts

def read (t : FileTree) (p : Path) : Except FileError (List UInt8) :=
  match t.locate p with
  | .error e => .error e
  | .ok place =>
    match t.node place with
    | .file bytes => .ok bytes
    | .device _ => .ok []
    | .directory => .error .isDirectory
    | .nothing => .error .missing

/-- Puts a file in the place of another, or next to those that are there. -/
def put (t : FileTree) (place : Place) (bytes : List UInt8) : FileTree :=
  { t with files := t.files.filter (·.1 != place) ++ [(place, bytes)] }

/-- Writes a file; the directory that it is in must be there. -/
def write (t : FileTree) (p : Path) (bytes : List UInt8) : Except FileError FileTree :=
  match t.locate p with
  | .error e => .error e
  | .ok place =>
    match t.node place with
    | .directory => .error .isDirectory
    | .device .null => .ok t
    | .device .full => if bytes = [] then .ok t else .error .noSpace
    | .file _ | .nothing => .ok (t.put place bytes)

/-- The files below the home, with their ways from there, that are new or have other contents than
in `old`. -/
def changedSince (old new : FileTree) : List (Place × List UInt8) :=
  (new.files.filter fun f => new.home.isPrefixOf f.1 && old.node f.1 ≠ .file f.2).map
    fun (place, bytes) => (place.drop new.home.length, bytes)

theorem node_put_self (t : FileTree) (place : Place) (bytes : List UInt8) :
    (t.put place bytes).node place = .file bytes := by
  have gone : (t.files.filter (·.1 != place)).find? (·.1 == place) = none := by
    simp [List.find?_eq_none]
  simp [put, node, List.find?_append, gone]

end FileTree
end Citations
