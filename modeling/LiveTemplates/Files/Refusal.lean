import LiveTemplates.Files.Name
import LiveTemplates.Files.Path

/-!
# Refusals

How a file system refuses an operation: with one of its numbered errors, with a text alone, or
because the path is no name of a file at all.
-/

namespace LiveTemplates

inductive SystemError where
  | notPermitted
  | notFound
  | inputOutput
  | denied
  | notDirectory
  | isDirectory
  | tooManyOpen
  | nameTooLong
  | notEmpty
  | tooManyLinks
  | stale
deriving DecidableEq

namespace SystemError

def number : SystemError → Nat
  | .notPermitted => 1
  | .notFound => 2
  | .inputOutput => 5
  | .denied => 13
  | .notDirectory => 20
  | .isDirectory => 21
  | .tooManyOpen => 24
  | .nameTooLong => 36
  | .notEmpty => 39
  | .tooManyLinks => 40
  | .stale => 116

def description : SystemError → String
  | .notPermitted => "Operation not permitted"
  | .notFound => "No such file or directory"
  | .inputOutput => "Input/output error"
  | .denied => "Permission denied"
  | .notDirectory => "Not a directory"
  | .isDirectory => "Is a directory"
  | .tooManyOpen => "Too many open files"
  | .nameTooLong => "File name too long"
  | .notEmpty => "Directory not empty"
  | .tooManyLinks => "Too many levels of symbolic links"
  | .stale => "Stale file handle"

def all : List SystemError :=
  [.notPermitted, .notFound, .inputOutput, .denied, .notDirectory, .isDirectory, .tooManyOpen,
    .nameTooLong, .notEmpty, .tooManyLinks, .stale]

def ofNumber? (n : Nat) : Option SystemError := all.find? (·.number = n)

theorem ofNumber?_number (e : SystemError) : ofNumber? e.number = some e := by
  cases e <;> rfl

def message (e : SystemError) (path : Path) : Text :=
  Text.ofString "[Errno " ++ Text.ofNat e.number ++ Text.ofString "] " ++
    Text.ofString e.description ++ Text.ofString ": " ++ path.text.quoted

/-- An error that means that there is nothing at the path. -/
def meansAbsent : SystemError → Bool
  | .notFound | .notDirectory | .tooManyLinks => true
  | _ => false

end SystemError

/-- An error that keeps everybody from a path, and leaves open whether there is anything. -/
structure Barrier where
  error : SystemError
  leavesOpen : error.meansAbsent = false
deriving DecidableEq

inductive Refusal where
  | system (e : SystemError)
  /-- A failure without a number, known by its text alone. -/
  | told (message : Text)
  | nulByte
  | unencodable (u : Unencodable)
deriving DecidableEq

/-- What a refusal says about the resource that it makes unavailable. -/
def Refusal.reason : Refusal → Text
  | .system .notFound => "file not found"
  | .system .notPermitted => "permission denied"
  | .system .denied => "permission denied"
  | .system e => Text.ofString e.description
  | .told message => message
  | .nulByte => "embedded null byte"
  | .unencodable u => u.message

/-- Whether a path can be handed to a file system. -/
def Path.check (p : Path) : Except Refusal Unit :=
  match p.text.octets with
  | .error u => .error (.unencodable u)
  | .ok octets =>
    if .char '\x00' ∈ p.text then .error .nulByte
    else if pathLimit < octets.length then .error (.system .nameTooLong)
    else .ok ()

end LiveTemplates
