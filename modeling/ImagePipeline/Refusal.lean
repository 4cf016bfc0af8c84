import ImagePipeline.Image.Kind

/-!
# Refusals

What the rules of the pipeline refuse, apart from any service or file.
-/

namespace ImagePipeline

/-- A refusal by the rules of the pipeline. -/
inductive Refusal where
  /-- A text that names no image kind. -/
  | unknownKind (text : String)
  /-- Labels that are absent or empty. -/
  | missingLabels (image : String) (keys : List String)
  /-- A commit date that is not a date. -/
  | badCommitDate (image : String) (text : String)
  /-- The registry has a toolchain from a later commit than the pull request expects. -/
  | sourceOutOfDate
  /-- Toolchain build arguments for an image of another family. -/
  | notToolchain (kind : ImageKind)
  /-- Product build arguments for an image of another family. -/
  | notProduct (kind : ImageKind)
deriving DecidableEq, Repr

/-- The text of a refusal. -/
def Refusal.message : Refusal → String
  | unknownKind text =>
    "不明なイメージ種別: " ++ text ++ "（static, shared, dev, usr のいずれか）"
  | missingLabels image keys =>
    "イメージ " ++ image ++ " のラベルが不正です: " ++ ", ".intercalate keys
  | badCommitDate image text =>
    "イメージ " ++ image ++ " のコミット日時が ISO-8601 ではありません: " ++ text
  | sourceOutOfDate =>
    "PR のソースが古くなっています。rebase してから再ビルドしてください (PR source out of date, rebase then rebuild)"
  | notToolchain kind =>
    "無効な設定: " ++ kind.name ++ " はツールチェーンイメージではありません"
  | notProduct kind =>
    "無効な設定: " ++ kind.name ++ " はプロダクトイメージではありません"

end ImagePipeline
