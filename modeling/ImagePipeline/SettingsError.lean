/-!
# Errors of settings and configuration

What can be wrong with the variables and the configuration document of a run.
-/

namespace ImagePipeline

/-- An error in the settings of a run. -/
inductive SettingsError where
  /-- A variable that has to be set is not. -/
  | missingVariable (name : String)
  /-- A variable has a value of the wrong form. -/
  | invalidVariable (name value : String)
  /-- The configuration document cannot be read. -/
  | unreadable (path reason : String)
  /-- The configuration document is not of the required form. -/
  | malformed (path reason : String)
deriving DecidableEq, Repr

/-- The text of an error. -/
def SettingsError.message : SettingsError → String
  | missingVariable name => "環境変数 " ++ name ++ " が設定されていません"
  | invalidVariable name value => "環境変数 " ++ name ++ " の値が不正です: " ++ value
  | unreadable path reason => "設定ファイルを読み込めません: " ++ path ++ "\n理由: " ++ reason
  | malformed path reason =>
    "設定ファイルのパースに失敗しました: " ++ path ++ "\n理由: " ++ reason

end ImagePipeline
