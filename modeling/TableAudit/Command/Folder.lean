/-!
# A folder of text files

The files that the command line is started among, by their paths. A path may stay where it is or
go back up, but only within the folder; one that begins at the root of all files has a first step of
its own.
-/

namespace TableAudit.Command

/-- Text files by the steps of their paths. -/
abbrev Folder := List (List String × String)

/-- What stands at a path. -/
inductive Found
  | missing
  | folder
  | file (text : String)
deriving DecidableEq, Repr

namespace Folder

/-- The root of all files. -/
def root : String := "/"

/-- The steps of a path, without those that stay where they are. -/
def steps (path : String) : List String :=
  let relative := (path.splitOn "/").filter fun s => !(s == "" || s == ".")
  if path.startsWith root then root :: relative else relative

/-- A folder with files at paths. -/
def ofFiles (files : List (String × String)) : Folder :=
  files.map fun f => (steps f.1, f.2)

/-- Whether a folder stands at some steps. -/
def hasFolder (d : Folder) (place : List String) : Bool :=
  place.isEmpty || d.any fun f => place.isPrefixOf f.1 && place.length < f.1.length

/-- What stands at some steps. -/
def at? (d : Folder) (place : List String) : Found :=
  match d.lookup place with
  | some text => .file text
  | none => if d.hasFolder place then .folder else .missing

/-- What is found by going on from a place. A step leads on from a folder only. -/
def walk (d : Folder) (place : List String) : List String → Found
  | [] => d.at? place
  | step :: rest =>
    if !d.hasFolder place then .missing
    else if step = ".." then
      if place.isEmpty then .missing else walk d place.dropLast rest
    else walk d (place ++ [step]) rest

/-- What is found at a path. -/
def find (d : Folder) (path : String) : Found :=
  d.walk [] (steps path)

/-- The text of a file at a path, if there is one. -/
def text? (d : Folder) (path : String) : Option String :=
  match d.find path with
  | .file text => some text
  | _ => none

end Folder

end TableAudit.Command
