/-!
# Errors of files

Why a file cannot be reached, read or removed, with the texts of the operating system.
-/

namespace ImagePipeline.Files

/-- An error of an operation on files. -/
inductive FileError where
  | notFound
  | notADirectory
  | isADirectory
  /-- More symbolic links on the way than are followed. -/
  | tooManyLinks
  /-- The bytes of a file are no text. -/
  | notText
  /-- Any other error, by its text. -/
  | other (text : String)
deriving DecidableEq, Repr

namespace FileError

/-- The text of an error. -/
def message : FileError → String
  | notFound => "No such file or directory (os error 2)"
  | notADirectory => "Not a directory (os error 20)"
  | isADirectory => "Is a directory (os error 21)"
  | tooManyLinks => "Too many levels of symbolic links (os error 40)"
  | notText => "stream did not contain valid UTF-8"
  | other text => text

end FileError

end ImagePipeline.Files
