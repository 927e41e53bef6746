import BundleSize.Files.Path
import BundleSize.Text.Encoding
import BundleSize.Text.Quoted

/-!
# File trees

A file tree holds the files and directories that a run may come across,
each by the steps that lead to it from the root, and says which directory
the run works in. Whatever lies on the way to one of these is a directory
too.

A step is taken only in a directory, also a step back to the parent; from
the root, that step leads nowhere. The system may have other reasons not to
look at a path, or not to read or write there: permissions, the length of a
name, a link that leads to itself. The tree lists what is refused for such a
reason. What was wrong about a path is told by the error, together with the
path's text.

A text file holds UTF-8. Its lines may end in any of the three usual ways;
the text that is read has line feeds only. Text is written as it is.
-/

namespace BundleSize

/-- Why a file cannot be read or written. -/
inductive FileFault where
  | missing
  | isDirectory
  | notADirectory
  /-- Any other error of the system, by the word for its kind, its number and its text. -/
  | other (kind : String) (number : Nat) (text : String)
  deriving Repr, DecidableEq

/-- What is done at a path. -/
inductive Access where
  | look
  | read
  | write
  deriving Repr, DecidableEq

/-- A failed access to a file. -/
inductive FileError where
  | blocked (fault : FileFault) (path : String)
  /-- No file has a name with a null character in it. -/
  | nullInPath
  deriving Repr, DecidableEq

def FileFault.message : FileFault → String
  | missing => "[Errno 2] No such file or directory"
  | isDirectory => "[Errno 21] Is a directory"
  | notADirectory => "[Errno 20] Not a directory"
  | other _ number text => "[Errno " ++ toString number ++ "] " ++ text

/-- The word for the kind of a fault. -/
def FileFault.kind : FileFault → String
  | missing => "FileNotFoundError"
  | isDirectory => "IsADirectoryError"
  | notADirectory => "NotADirectoryError"
  | other kind _ _ => kind

/-- A path with this fault counts as one that leads nowhere: also a bad descriptor and too many
links do. -/
def FileFault.leadsNowhere : FileFault → Bool
  | missing => true
  | isDirectory => false
  | notADirectory => true
  | other _ number _ => number = 9 || number = 40

def FileError.message : FileError → String
  | .blocked fault path => fault.message ++ ": " ++ Text.quoted path
  | nullInPath => "embedded null byte"

/-- Files with their bytes, directories, the working directory, and what the system refuses. -/
structure FileTree where
  home : List String := []
  directories : List (List String) := []
  files : List (List String × Text.Bytes) := []
  refusals : List ((Access × Path) × FileFault) := []
  deriving Repr, DecidableEq

/-- The list with the bytes of one file set; a new file comes last. -/
def setBytes (steps : List String) (bytes : Text.Bytes) :
    List (List String × Text.Bytes) → List (List String × Text.Bytes)
  | [] => [(steps, bytes)]
  | file :: files =>
    if file.1 = steps then (steps, bytes) :: files else file :: setBytes steps bytes files

namespace FileTree

/-- The bytes of a file. -/
def bytes? (t : FileTree) (steps : List String) : Option Text.Bytes := t.files.lookup steps

/-- The tree with a file's bytes set. -/
def put (t : FileTree) (steps : List String) (bytes : Text.Bytes) : FileTree :=
  { t with files := setBytes steps bytes t.files }

/-- There is a directory: one that is listed, or one on the way to something. -/
def hasDirectory (t : FileTree) (steps : List String) : Bool :=
  steps.isPrefixOf t.home || t.directories.any steps.isPrefixOf ||
    t.files.any fun file => steps.isPrefixOf file.1 && steps.length < file.1.length

/-- What is wrong about taking a step from a place that is no directory. -/
def faultAt (t : FileTree) (steps : List String) : FileFault :=
  if (t.bytes? steps).isSome then .notADirectory else .missing

/-- The place that steps lead to. Every place on the way has to be a directory. -/
def walk (t : FileTree) : (place : List String) → (steps : List String) →
    Except FileFault (List String)
  | place, [] => .ok place
  | place, step :: rest =>
    if t.hasDirectory place then
      t.walk (if step = ".." then place.dropLast else place ++ [step]) rest
    else .error (t.faultAt place)

/-- The place of a path. -/
def find (t : FileTree) (p : Path) : Except FileFault (List String) :=
  t.walk (if p.root = .working then t.home else []) p.steps

/-- Some step of the path is no possible name. -/
def hasNull (p : Path) : Bool := p.steps.any fun step => step.toList.contains '\x00'

/-- The place of a path where something is done that the system may refuse. -/
def reach (t : FileTree) (access : Access) (p : Path) : Except FileFault (List String) :=
  match t.refusals.lookup (access, p) with
  | some fault => .error fault
  | none => t.find p

/-- The path leads to a file. A path that leads nowhere is not an error. -/
def isFile (t : FileTree) (p : Path) : Except FileError Bool :=
  if hasNull p then .ok false
  else
    match t.reach .look p with
    | .ok place => .ok (t.bytes? place).isSome
    | .error fault => if fault.leadsNowhere then .ok false else .error (.blocked fault p.toText)

/-- Reads a file. -/
def read (t : FileTree) (p : Path) : Except FileError Text.Bytes :=
  if hasNull p then .error .nullInPath
  else
    match t.reach .read p with
    | .error fault => .error (.blocked fault p.toText)
    | .ok place =>
      match t.bytes? place with
      | some bytes => .ok bytes
      | none =>
        .error (.blocked (if t.hasDirectory place then .isDirectory else .missing) p.toText)

/-- Writes a file. Its directory has to exist. -/
def write (t : FileTree) (p : Path) (bytes : Text.Bytes) : Except FileError FileTree :=
  if hasNull p then .error .nullInPath
  else
    match t.reach .write p with
    | .error fault => .error (.blocked fault p.toText)
    | .ok place =>
      if t.hasDirectory place then .error (.blocked .isDirectory p.toText)
      else .ok (t.put place bytes)

theorem lookup_cons_eq (other steps : List String) (bytes : Text.Bytes)
    (files : List (List String × Text.Bytes)) :
    ((steps, bytes) :: files).lookup other =
      if other = steps then some bytes else files.lookup other := by
  by_cases h : other = steps
  · simp [h]
  · have h' : (other == steps) = false := beq_false_of_ne h
    simp [List.lookup_cons, h, h']

theorem lookup_setBytes (steps other : List String) (bytes : Text.Bytes)
    (files : List (List String × Text.Bytes)) :
    (setBytes steps bytes files).lookup other =
      if other = steps then some bytes else files.lookup other := by
  induction files with
  | nil => simp [setBytes, lookup_cons_eq]
  | cons file files ih =>
    obtain ⟨name, old⟩ := file
    by_cases e : name = steps
    · subst e
      by_cases h : other = name <;> simp [setBytes, lookup_cons_eq, h]
    · by_cases h : other = steps
      · subst h
        simp [setBytes, lookup_cons_eq, e, ih, Ne.symm e]
      · simp [setBytes, lookup_cons_eq, e, ih, h]

@[simp] theorem bytes?_put (t : FileTree) (steps other : List String) (bytes : Text.Bytes) :
    (t.put steps bytes).bytes? other = if other = steps then some bytes else t.bytes? other :=
  lookup_setBytes steps other bytes t.files

end FileTree

namespace TextFile

/-- The text of a file's bytes. -/
def decode (bytes : Text.Bytes) : Except Text.DecodingError String :=
  (Text.Utf8.decode bytes).map fun text => String.ofList (Text.unifyLineEnds text.toList)

/-- The bytes of a text. -/
def encode (text : String) : Text.Bytes := Text.Utf8.encode text

end TextFile

end BundleSize
