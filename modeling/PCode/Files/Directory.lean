import PCode.Files.Path
import PCode.Wire.LittleEndian

/-!
# Directories

What a command sees of the file system: a working directory, the directories inside it, and files. A
directory is there if a file is somewhere inside it. Of the directories above the working directory,
and of the root, nothing is known but that they are there.

`Directory.read` and `Directory.write` follow a path name by name. Every name but the last has to
lead to a directory. A path takes at most 4095 bytes, which is checked before it is followed. A name
takes at most 255 bytes, which is checked where the name is looked up, so that a name after a file
or after nothing is never found too long.

| path leads to | reading | writing |
|---|---|---|
| a file | its content | replaces the content |
| a file, with a slash after it | not a directory | is a directory |
| a directory | is a directory | is a directory |
| nothing | no such file or directory | makes a file |
| nothing, with a slash after it | no such file or directory | is a directory |
| a name too long to be there | file name too long | file name too long |
| a name too long to be there, with a slash after it | file name too long | is a directory |

* `file?_put_self`, `file?_put_of_ne`: writing a file changes that file and no other.
-/

namespace PCode.Files

/-! ## Errors of the system -/

/-- An error of the operating system. -/
structure SystemError where
  /-- Its number. -/
  code : Nat
  /-- Its description. -/
  description : String
deriving DecidableEq, Repr

namespace SystemError

/-- There is nothing at the path. -/
def noEntry : SystemError := ⟨2, "No such file or directory"⟩

/-- The path goes on after a file. -/
def notDirectory : SystemError := ⟨20, "Not a directory"⟩

/-- The path leads to a directory. -/
def isDirectory : SystemError := ⟨21, "Is a directory"⟩

/-- The path, or a name in it, takes more bytes than the system allows. -/
def nameTooLong : SystemError := ⟨36, "File name too long"⟩

/-- The error in words. -/
def message (e : SystemError) : String := s!"{e.description} (os error {e.code})"

end SystemError

/-! ## Places -/

/-- Where a walk can start. -/
inductive Anchor where
  /-- The directory so many levels above the working directory. -/
  | above (levels : Nat)
  /-- The root. -/
  | root
deriving DecidableEq, Repr

/-- A place in the file system, which need not be taken. -/
structure Location where
  /-- Where to start. -/
  anchor : Anchor
  /-- The names on the way from there; none of them is `.` or `..`. -/
  names : List String
deriving DecidableEq, Repr

/-- How many bytes a name may take. -/
def nameLimit : Nat := 255

/-- How many bytes a path may take. -/
def pathLimit : Nat := 4095

namespace Location

/-- The place that contains this one. -/
def parent : Location → Location
  | ⟨.root, []⟩ => ⟨.root, []⟩
  | ⟨.above levels, []⟩ => ⟨.above (levels + 1), []⟩
  | ⟨anchor, names⟩ => ⟨anchor, names.dropLast⟩

/-- The place of a given name inside this one. -/
def child (l : Location) (name : String) : Location := ⟨l.anchor, l.names ++ [name]⟩

/-- Where a name leads from here. -/
def next (l : Location) (name : String) : Location :=
  if name = "." then l else if name = ".." then l.parent else l.child name

/-- The place lies somewhere inside another. -/
def isInside (inner outer : Location) : Bool :=
  inner.anchor == outer.anchor && outer.names.length < inner.names.length &&
    outer.names.isPrefixOf inner.names

/-- The last name takes more bytes than a name may, so that nothing can be at the place. -/
def isTooLong (l : Location) : Bool := l.names.getLast?.any (nameLimit < ·.utf8ByteSize)

/-- What is reported of the place when nothing is there. -/
def absence (l : Location) : SystemError := if l.isTooLong then .nameTooLong else .noEntry

end Location

namespace Path

/-- Where a path starts. -/
def start (p : Path) : Location := ⟨if p.absolute then .root else .above 0, []⟩

end Path

/-! ## Content -/

/-- The files that there are. -/
structure Directory where
  /-- Each file's place and content. -/
  files : List (Location × Bytes)
deriving DecidableEq, Repr

namespace Directory

/-- The content of the file at a place. -/
def file? (d : Directory) (l : Location) : Option Bytes := d.files.lookup l

/-- There is a directory at the place. -/
def isFolder (d : Directory) (l : Location) : Bool :=
  l.names.isEmpty || d.files.any (·.1.isInside l)

/-- Follows one name of a path. -/
def follow (d : Directory) (l : Location) (name : String) : Except SystemError Location :=
  if d.isFolder l then .ok (l.next name)
  else if (d.file? l).isSome then .error .notDirectory
  else .error l.absence

/-- Where a path leads. The empty path leads nowhere. -/
def locate (d : Directory) (p : Path) : Except SystemError Location :=
  if pathLimit < p.size then .error .nameTooLong
  else if p.names.isEmpty && !p.absolute then .error .noEntry
  else p.names.foldlM d.follow p.start

/-- The content of the file that a path leads to. -/
def read (d : Directory) (path : String) : Except SystemError Bytes := do
  let p := Path.ofString path
  let l ← d.locate p
  if d.isFolder l then throw .isDirectory
  match d.file? l with
  | none => throw l.absence
  | some content => if p.endsWithSlash then throw .notDirectory else return content

/-- The directory with a file at a place. -/
def put (d : Directory) (l : Location) (content : Bytes) : Directory :=
  ⟨(l, content) :: d.files.filter (·.1 != l)⟩

/-- The directory after the file that a path leads to has been given a content. -/
def write (d : Directory) (path : String) (content : Bytes) : Except SystemError Directory := do
  let p := Path.ofString path
  let l ← d.locate p
  if d.isFolder l || p.endsWithSlash then throw .isDirectory
  if l.isTooLong then throw .nameTooLong
  return d.put l content

@[simp] theorem file?_put_self (d : Directory) (l : Location) (content : Bytes) :
    (d.put l content).file? l = some content := by
  simp [file?, put]

theorem file?_put_of_ne (d : Directory) {l l' : Location} (content : Bytes) (h : l' ≠ l) :
    (d.put l content).file? l' = d.file? l' := by
  simp only [file?, put, List.lookup_cons, beq_eq_false_iff_ne.mpr h]
  induction d.files with
  | nil => rfl
  | cons f fs ih =>
    obtain ⟨place, content'⟩ := f
    by_cases hp : place = l
    · simp [hp, ih, List.lookup_cons, beq_eq_false_iff_ne.mpr h]
    · by_cases hl : l' = place
      · subst hl
        simp [h]
      · simp [hp, List.lookup_cons, beq_eq_false_iff_ne.mpr hl, ih]

end Directory

end PCode.Files
