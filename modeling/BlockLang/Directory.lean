/-!
# Directories

A directory holds files under paths of names, and a path that is asked for is followed
one name at a time: `/` stands between names, as often as one likes, `.` stays where it
is, and `..` goes back up.  Every name but the last has to be that of a directory
inside, and the last that of a file.  A path that leaves the directory is followed no
further.
-/

namespace BlockLang

/-- What is found under a path: nothing that can be read, or bytes. -/
inductive FileContent where
  | unreadable
  | bytes (data : ByteArray)

/-- A directory: its files, each with the names on the way to it. -/
structure Directory where
  files : List (List String × ByteArray)

namespace Directory

/-- The names in a path.  Between two neighbouring slashes there is an empty one. -/
def names (path : String) : List String :=
  path.splitOn "/"

/-- Whether a name stays in the directory that it is looked up in. -/
def isIdle (name : String) : Bool :=
  name = "" || name = "."

/-- A directory of files, given by their paths in it. -/
def ofFiles (files : List (String × ByteArray)) : Directory :=
  { files := files.map (fun (path, data) => ((names path).filter (fun n => !isIdle n), data)) }

/-- Whether there is a directory at the end of some names: some file is on the way through it. -/
def hasDirectory (d : Directory) (here : List String) : Bool :=
  d.files.any (fun (there, _) => here.isPrefixOf there && here.length < there.length)

/-- Follows names from a place inside to where a file should be. -/
def follow (d : Directory) (here : List String) : List String → Option (List String)
  | [] => none
  | [name] => if isIdle name || name = ".." then none else some (here ++ [name])
  | name :: rest =>
    if isIdle name then follow d here rest
    else if name = ".." then
      if here.isEmpty then none else follow d here.dropLast rest
    else if d.hasDirectory (here ++ [name]) then follow d (here ++ [name]) rest
    else none

/-- The least number of bytes of a path that is too long to be followed. -/
def pathLimit : Nat :=
  4096

/-- **What is found under a path.** -/
def read (d : Directory) (path : String) : FileContent :=
  if path.startsWith "/" || pathLimit ≤ path.utf8ByteSize then .unreadable
  else
    match (d.follow [] (names path)).bind (fun there => d.files.lookup there) with
    | some data => .bytes data
    | none => .unreadable

end Directory

end BlockLang
