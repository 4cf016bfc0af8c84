import ImagePipeline.Engine.Error
import ImagePipeline.Files.Error
import ImagePipeline.Regex.Reader

/-!
# Errors of building and transferring images

Every error has a text for reports; four of them have a longer one for the person who started
the run, which adds what to look at.

* `ImageError.isNotFound` holds of the errors that mean: there is no such image.
-/

namespace ImagePipeline

/-- What is wrong with a tag. -/
inductive TagFault where
  | empty
  /-- More than 128 bytes. -/
  | tooLong (bytes : Nat)
  /-- A dot or a hyphen in front. -/
  | badStart (tag : String)
  /-- A character that tags do not have. -/
  | badChar (c : Char) (tag : String)
deriving DecidableEq, Repr

/-- The text of a fault. -/
def TagFault.text : TagFault → String
  | empty => "(empty)"
  | tooLong bytes => "Tag too long (" ++ Decimal.natText bytes ++ " characters, max 128)"
  | badStart tag => tag
  | badChar c tag => "Invalid character '" ++ String.ofList [c] ++ "' in tag: " ++ tag

/-- What is wrong with stored credentials. -/
inductive CredentialsFault where
  | unreadable (error : Files.FileError)
  | malformed
  | badEncoding
  | notText
  /-- Any other fault, by its text. -/
  | other (text : String)
deriving DecidableEq, Repr

/-- The text of a fault. -/
def CredentialsFault.text : CredentialsFault → String
  | unreadable error => "config.json を読めません: " ++ error.message
  | malformed => "config.json が不正です: invalid JSON"
  | badEncoding => "auth の base64 が不正です: invalid base64"
  | notText => "auth が UTF-8 ではありません: invalid utf-8"
  | other text => text

/-- An error of building, tagging, removing or transferring images. -/
inductive ImageError where
  /-- There is no recipe at the path. -/
  | dockerfileMissing (path : String)
  /-- There is no directory at the path. -/
  | contextMissing (path : String)
  | engine (error : EngineError)
  | buildFailed (message : String)
  | imageMissing (image : String)
  | pushFailed (message : String)
  | pullFailed (image message : String)
  | invalidTag (fault : TagFault)
  | credentials (source : String) (fault : CredentialsFault)
  | unreadable (path : String) (error : Files.FileError)
  /-- A file holds no match, or the pattern is none, for the given reason. -/
  | patternMissing (path pattern : String) (reason : Option Regex.SyntaxError)
  | files (error : Files.FileError)
deriving DecidableEq, Repr

namespace ImageError

/-- The text of an error. -/
def message : ImageError → String
  | dockerfileMissing path => "Dockerfile not found: " ++ path
  | contextMissing path => "Build context directory not found: " ++ path
  | engine error => "Docker connection error: " ++ error.message
  | buildFailed text => "Build failed: " ++ text
  | imageMissing image => "Image not found: " ++ image
  | pushFailed text => "Push failed: " ++ text
  | pullFailed image text => "Pull failed for " ++ image ++ ": " ++ text
  | invalidTag fault => "Invalid tag: " ++ fault.text
  | credentials source fault => "Registry auth failed for " ++ source ++ ": " ++ fault.text
  | unreadable path error => "Failed to read " ++ path ++ ": " ++ error.message
  | patternMissing path pattern none => "Pattern not found in " ++ path ++ ": " ++ pattern
  | patternMissing path pattern (some reason) =>
    "Pattern not found in " ++ path ++ ": " ++ pattern ++ " (regex parse error: "
      ++ reason.message ++ ")"
  | files error => "IO error: " ++ error.message

/-- The text of an error for the person who started the run. -/
def userMessage : ImageError → String
  | dockerfileMissing path =>
    "Dockerfileが見つかりません: " ++ path
      ++ "\n\nリポジトリのルートで実行しているか確認してください。"
  | buildFailed text =>
    "ビルドに失敗しました: " ++ text
      ++ "\n\nDockerfileとビルド引数を確認してください。"
  | unreadable path error =>
    "ファイルを読み込めません: " ++ path ++ " (" ++ error.message ++ ")"
      ++ "\n\nonnx-mlir のソースツリーのルートで実行しているか確認してください。"
  | imageMissing image =>
    "ローカルイメージが見つかりません: " ++ image
      ++ "\n\n先に mlirci llvm / mlirci build を実行してください。"
  | error => error.message

/-- Whether an error means that there is no such image. -/
def isNotFound : ImageError → Bool
  | imageMissing _ => true
  | engine error => error.isNotFound
  | _ => false

end ImageError

end ImagePipeline
