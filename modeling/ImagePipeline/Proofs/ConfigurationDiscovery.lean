import ImagePipeline.Proofs.ConfigurationDocument
import ImagePipeline.Proofs.FirstMatch
import ImagePipeline.Proofs.InvocationTranscript
import ImagePipeline.Proofs.TransferRun
import ImagePipeline.Proofs.WrongVariable

/-!
# The discovery of the configuration

A call takes its endpoints from one file, or has the usual ones.  Which file that is depends on what
is there, and on nothing that is in it: a file that is there and cannot be used ends the call, even
if a good one could be found further down the list.

* `Endpoints.candidates`, `Invocation.Chooses`: the places where a file may be, and the file of a
  call.
* `Endpoints.Holds`, `Endpoints.Faults`: what a file gives, and why it gives nothing.
* `Invocation.RunsWith`: a call is its command with some endpoints.
* `Invocation.first_configuration_counts`: all calls by their files.
-/

namespace ImagePipeline

open Files (Tree joinPath)

/-! ## Files -/

namespace Endpoints

variable {env : Environment} {t t' : Tree} {path text : String} {e : Endpoints}
  {error : SettingsError}

/-- Something is at a path. -/
def IsThere (t : Tree) (env : Environment) (path : String) : Prop :=
  ∃ entry, t.lookup env.here path = .ok entry

/-- A path leads to a file with a text, in UTF-8. -/
def HasText (t : Tree) (env : Environment) (path text : String) : Prop :=
  t.lookup env.here path = .ok (.file (Text.encode text))

/-- A path leads to a document that gives these endpoints. -/
def Holds (t : Tree) (env : Environment) (path : String) (e : Endpoints) : Prop :=
  ∃ text, HasText t env path text ∧ IsDocument text e

/-- What is wrong with a file: it is missing, a directory or no text, or its text is no document
that gives any endpoints.  Both errors name the path. -/
inductive Faults (t : Tree) (env : Environment) (path : String) : SettingsError → Prop where
  | unreadable {reason : String} (h : ∀ text, ¬ HasText t env path text) :
      Faults t env path (.unreadable path reason)
  | malformed {text reason : String} (htext : HasText t env path text)
      (h : ∀ e, ¬ IsDocument text e) : Faults t env path (.malformed path reason)

theorem reaches_eq_true_iff : t.reaches env.here path = true ↔ IsThere t env path := by
  unfold Tree.reaches IsThere
  cases t.lookup env.here path with
  | ok entry => exact iff_of_true rfl ⟨entry, rfl⟩
  | error error => exact iff_of_false nofun nofun

theorem readText_eq_ok_iff : t.readText env.here path = .ok text ↔ HasText t env path text := by
  unfold Tree.readText Tree.readBytes HasText
  cases t.lookup env.here path with
  | error error => exact iff_of_false nofun nofun
  | ok entry =>
    cases entry with
    | directory => exact iff_of_false nofun nofun
    | link target => exact iff_of_false nofun nofun
    | file bytes =>
      rw [Except.ok.injEq, Files.Entry.file.injEq]
      constructor
      · intro h
        cases hdecode : Text.decode bytes with
        | some decoded =>
          simp only [hdecode, bind, Except.bind, Except.ok.injEq] at h
          rw [← h]
          exact (Text.encode_of_decode hdecode).symm
        | none =>
          simp only [hdecode, bind, Except.bind] at h
          cases h
      · rintro rfl
        simp only [Text.decode_encode, bind, Except.bind]

/-- A file gives the endpoints that its document does, or there is something wrong with it. -/
theorem load_cases (t : Tree) (env : Environment) (path : String) :
    (∃ e, Holds t env path e ∧ load t env path = .ok e) ∨
      ∃ error, Faults t env path error ∧ load t env path = .error error := by
  unfold load
  cases hread : t.readText env.here path with
  | error error =>
    refine .inr ⟨_, .unreadable fun text htext => ?_, rfl⟩
    exact nomatch hread.symm.trans (readText_eq_ok_iff.2 htext)
  | ok text =>
    have htext := readText_eq_ok_iff.1 hread
    by_cases hdocument : ∃ e, IsDocument text e
    · obtain ⟨e, he⟩ := hdocument
      exact .inl ⟨e, ⟨text, htext, he⟩, read_eq_ok_iff.2 he⟩
    · have hnone := not_exists.1 hdocument
      obtain ⟨reason, hreason⟩ := exists_reason_of_not_isDocument path hnone
      exact .inr ⟨_, .malformed htext hnone, hreason⟩

theorem load_of_isDocument (htext : HasText t env path text) (he : IsDocument text e) :
    load t env path = .ok e := by
  rw [load, readText_eq_ok_iff.2 htext]
  exact read_eq_ok_iff.2 he

theorem load_congr (h : t'.lookup env.here path = t.lookup env.here path) :
    load t' env path = load t env path := by
  rw [load, load, Tree.readText, Tree.readText, Tree.readBytes, Tree.readBytes, h]

/-! ## Places -/

/-- The paths at which a configuration file is looked for, in this order: the one in the variable,
the one in the working directory, the one in its directory for the pipeline, and the one of the
user. -/
def candidates (env : Environment) : List String :=
  [env.value? "MLIRCI_CONFIG",
    some (joinPath env.directory "mlirci.yaml"),
    some (joinPath (joinPath env.directory ".mlirci") "mlirci.yaml"),
    env.configHome?.map fun home => joinPath (joinPath home "mlirci") "mlirci.yaml"].filterMap id

theorem configPaths_eq (env : Environment) : configPaths env = candidates env := by
  unfold configPaths candidates
  cases env.value? "MLIRCI_CONFIG" <;> cases env.configHome? <;> rfl

end Endpoints

namespace Invocation

open Endpoints (IsThere HasText Holds Faults candidates IsFlatMapping KeysOnce)
open Program

variable {i : Invocation} {env : Environment} {server : Server} {t t' : Tree} {w : World}
  {before before' : List String} {choice choice' : Option String} {path text : String}
  {e : Endpoints} {error : SettingsError}

/-- The file from which a call takes its endpoints, if it takes them from one, and the paths that
are tried before. -/
inductive Chooses (i : Invocation) (env : Environment) (t : Tree) :
    List String → Option String → Prop where
  | given {path : String} (hgiven : i.options.config = some path) : Chooses i env t [] (some path)
  | found {before after : List String} {path : String} (hnone : i.options.config = none)
      (hpaths : candidates env = before ++ path :: after)
      (hbefore : ∀ earlier ∈ before, ¬ IsThere t env earlier) (hpath : IsThere t env path) :
      Chooses i env t before (some path)
  | usual (hnone : i.options.config = none)
      (hall : ∀ path ∈ candidates env, ¬ IsThere t env path) : Chooses i env t (candidates env) none

/-- The settings of a call with its endpoints; the socket of the engine may be an option. -/
def settingsWith (i : Invocation) (env : Environment) (e : Endpoints) :
    Except SettingsError Settings :=
  let socket := i.options.socket.or (env.value? Variable.dockerSocket)
  (Settings.ofVariables env.value? e).map fun s =>
    if socket.isSome then { s with dockerSocket := socket } else s

/-- A call is its command with settings that have these endpoints, unless the variables are
wrong. -/
inductive RunsWith (i : Invocation) (env : Environment) (server : Server) (w : World)
    (e : Endpoints) : Prop where
  | refused {error : SettingsError} (hsettings : i.settingsWith env e = .error error)
      (hrun : (i.program env).run server w = (.error (.settings error), w))
  | settled {s : Settings} (hsettings : i.settingsWith env e = .ok s) (hendpoints : s.endpoints = e)
      (hrun : (i.program env).run server w = (i.verb.command s env).run server w)

/-! ## The file of a call -/

theorem exists_chooses (i : Invocation) (env : Environment) (t : Tree) :
    ∃ before choice, Chooses i env t before choice := by
  cases hconfig : i.options.config with
  | some path => exact ⟨[], some path, .given hconfig⟩
  | none =>
    cases hfind : (candidates env).find? (t.reaches env.here) with
    | none =>
      rw [List.find?_eq_none] at hfind
      refine ⟨candidates env, none, .usual hconfig fun path hpath hthere => ?_⟩
      exact hfind path hpath (Endpoints.reaches_eq_true_iff.2 hthere)
    | some path =>
      obtain ⟨hpath, before, after, hpaths, hbefore⟩ := List.find?_eq_some_iff_append.1 hfind
      refine ⟨before, some path, .found hconfig hpaths (fun earlier hearlier hthere => ?_)
        (Endpoints.reaches_eq_true_iff.1 hpath)⟩
      have hno := hbefore earlier hearlier
      rw [Endpoints.reaches_eq_true_iff.2 hthere] at hno
      cases hno

/-- The paths tried and the file chosen are settled by what is there. -/
theorem Chooses.unique (h : Chooses i env t before choice) (h' : Chooses i env t before' choice') :
    before' = before ∧ choice' = choice := by
  cases h with
  | given hgiven =>
    cases h' with
    | given hgiven' =>
      cases hgiven.symm.trans hgiven'
      exact ⟨rfl, rfl⟩
    | found hnone _ _ _ => cases hgiven.symm.trans hnone
    | usual hnone _ => cases hgiven.symm.trans hnone
  | @found _ after path hnone hpaths hbefore hpath =>
    cases h' with
    | given hgiven => cases hnone.symm.trans hgiven
    | usual _ hall =>
      exact absurd hpath (hall path (hpaths ▸ List.mem_append_right _ List.mem_cons_self))
    | found _ hpaths' hbefore' hpath' =>
      obtain ⟨hsame, rfl⟩ :=
        unique_of_before (hpaths.symm.trans hpaths') hbefore hpath hbefore' hpath'
      exact ⟨hsame, rfl⟩
  | usual hnone hall =>
    cases h' with
    | given hgiven => cases hnone.symm.trans hgiven
    | usual _ _ => exact ⟨rfl, rfl⟩
    | @found _ after path _ hpaths _ hpath =>
      exact absurd hpath (hall path (hpaths ▸ List.mem_append_right _ List.mem_cons_self))

/-- What a file has for a call depends on what is at the paths tried, up to its own. -/
theorem Chooses.of_agrees (h : Chooses i env t before (some path))
    (hagrees : ∀ tried ∈ before ++ [path], t'.lookup env.here tried = t.lookup env.here tried) :
    Chooses i env t' before (some path) := by
  have hthere : ∀ tried ∈ before ++ [path], IsThere t' env tried ↔ IsThere t env tried := by
    intro tried htried
    rw [IsThere, IsThere, hagrees tried htried]
  have hown := hthere path (List.mem_append_right before List.mem_cons_self)
  cases h with
  | given hgiven => exact .given hgiven
  | found hnone hpaths hbefore hpath =>
    refine .found hnone hpaths (fun earlier hearlier h => ?_) (hown.2 hpath)
    exact hbefore earlier hearlier ((hthere earlier (List.mem_append_left _ hearlier)).1 h)

/-- The endpoints of a call. -/
def endpoints (i : Invocation) (env : Environment) (t : Tree) : Except SettingsError Endpoints :=
  match i.options.config with
  | some path => Endpoints.load t env path
  | none => Endpoints.discover t env

theorem endpoints_of_chooses (h : Chooses i env t before choice) :
    i.endpoints env t = match choice with
      | some path => Endpoints.load t env path
      | none => .ok {} := by
  cases h with
  | given hgiven => rw [endpoints, hgiven]
  | @found _ after path hnone hpaths hbefore hpath =>
    have hfind : (candidates env).find? (t.reaches env.here) = some path := by
      refine List.find?_eq_some_iff_append.2 ⟨Endpoints.reaches_eq_true_iff.2 hpath, before, after,
        hpaths, fun earlier hearlier => ?_⟩
      rw [Bool.not_eq_true']
      exact Bool.eq_false_iff.2 fun h =>
        hbefore earlier hearlier (Endpoints.reaches_eq_true_iff.1 h)
    rw [endpoints, hnone]
    show Endpoints.discover t env = _
    rw [Endpoints.discover, Endpoints.configPath?, Endpoints.configPaths_eq, hfind]
  | usual hnone hall =>
    have hfind : (candidates env).find? (t.reaches env.here) = none :=
      List.find?_eq_none.2 fun path hpath h => hall path hpath (Endpoints.reaches_eq_true_iff.1 h)
    rw [endpoints, hnone]
    show Endpoints.discover t env = _
    rw [Endpoints.discover, Endpoints.configPath?, Endpoints.configPaths_eq, hfind]

/-! ## The run of a call -/

/-- The settings of a call leave no trace. -/
theorem run_settings (i : Invocation) (env : Environment) (server : Server) (w : World) :
    (i.settings env).run server w =
    ((i.endpoints env w.tree >>= i.settingsWith env).mapError .settings, w) := by
  have hlook : (i.settings env).run server w =
      (Command.setting (i.endpoints env w.tree) >>= fun e =>
        Command.setting (Settings.ofVariables env.value? e) >>= fun s =>
          let socket := i.options.socket.or (env.value? Variable.dockerSocket)
          pure (if socket.isSome then { s with dockerSocket := socket } else s)).run server w := rfl
  rw [hlook]
  cases i.endpoints env w.tree with
  | error error => rfl
  | ok e =>
    show (Command.setting (Settings.ofVariables env.value? e) >>= _).run server w =
      ((Except.map _ (Settings.ofVariables env.value? e)).mapError Failure.settings, w)
    cases Settings.ofVariables env.value? e with
    | error error => rfl
    | ok s => rfl

theorem endpoints_of_settingsWith {s : Settings} (h : i.settingsWith env e = .ok s) :
    s.endpoints = e := by
  cases hvariables : Settings.ofVariables env.value? e with
  | error error =>
    rw [settingsWith, hvariables] at h
    cases h
  | ok s' =>
    rw [settingsWith, hvariables] at h
    cases h
    rw [← Settings.endpoints_of_ofVariables hvariables]
    dsimp only
    split <;> rfl

theorem run_program_of_error (hverb : i.verb ≠ .version)
    (h : i.endpoints env w.tree = .error error) :
    (i.program env).run server w = (.error (.settings error), w) := by
  have hsettings := run_settings i env server w
  rw [h] at hsettings
  rw [program_eq hverb]
  exact run_bind_of_error hsettings

theorem runsWith_of_endpoints (hverb : i.verb ≠ .version) (h : i.endpoints env w.tree = .ok e) :
    RunsWith i env server w e := by
  have hsettings := run_settings i env server w
  rw [h] at hsettings
  cases hwith : i.settingsWith env e with
  | error error =>
    refine .refused hwith ?_
    rw [program_eq hverb]
    refine run_bind_of_error (hsettings.trans ?_)
    show ((i.settingsWith env e).mapError Failure.settings, w) = _
    rw [hwith]
    rfl
  | ok s =>
    refine .settled hwith (endpoints_of_settingsWith hwith) ?_
    rw [program_eq hverb]
    refine run_bind_of_ok (hsettings.trans ?_)
    show ((i.settingsWith env e).mapError Failure.settings, w) = _
    rw [hwith]
    rfl

/-- **The first configuration counts.**  Every call takes its endpoints from one file, or has the
usual ones: the file in its option, or the first that is there of the places where one is looked
for.  All commands but the one for the version run with these endpoints.  If there is something
wrong with the file, the call ends with an error that names it and has done nothing, and it does so
whatever else there is, the paths tried aside.  A file with a flat mapping gives the texts that the
mapping has, and the defaults for all other keys. -/
theorem first_configuration_counts (hverb : i.verb ≠ .version) (env : Environment)
    (server : Server) (w : World) :
    (∃ before choice, Chooses i env w.tree before choice ∧
      ∀ before' choice', Chooses i env w.tree before' choice' →
        before' = before ∧ choice' = choice) ∧
    (∀ before, Chooses i env w.tree before none → RunsWith i env server w {}) ∧
    (∀ before path, Chooses i env w.tree before (some path) →
      (∃ e, Holds w.tree env path e ∧ RunsWith i env server w e) ∨
      ∃ error, Faults w.tree env path error ∧
        (i.program env).run server w = (.error (.settings error), w) ∧
        ∀ t, (∀ tried ∈ before ++ [path],
            t.lookup env.here tried = w.tree.lookup env.here tried) →
          (i.program env).run server { w with tree := t } =
            (.error (.settings error), { w with tree := t })) ∧
    ∀ before path text texts, Chooses i env w.tree before (some path) →
      HasText w.tree env path text → IsFlatMapping text texts → KeysOnce texts →
        ∃ e, e.Has texts ∧ RunsWith i env server w e := by
  refine ⟨?_, fun before h => ?_, fun before path h => ?_,
    fun before path text texts h htext hflat honce => ?_⟩
  · obtain ⟨before, choice, h⟩ := exists_chooses i env w.tree
    exact ⟨before, choice, h, fun before' choice' h' => h.unique h'⟩
  · exact runsWith_of_endpoints hverb (endpoints_of_chooses h)
  · rcases Endpoints.load_cases w.tree env path with ⟨e, he, hload⟩ | ⟨error, herror, hload⟩
    · exact .inl ⟨e, he, runsWith_of_endpoints hverb ((endpoints_of_chooses h).trans hload)⟩
    · refine .inr ⟨error, herror,
        run_program_of_error hverb ((endpoints_of_chooses h).trans hload), fun t hagrees => ?_⟩
      have hown := hagrees path (List.mem_append_right before List.mem_cons_self)
      have hload' := (Endpoints.load_congr hown).trans hload
      exact run_program_of_error (w := { w with tree := t }) hverb
        ((endpoints_of_chooses (h.of_agrees hagrees)).trans hload')
  · obtain ⟨e, he, hhas⟩ := Endpoints.exists_isDocument_of_isFlatMapping hflat honce
    have hload := Endpoints.load_of_isDocument htext he
    exact ⟨e, hhas, runsWith_of_endpoints hverb ((endpoints_of_chooses h).trans hload)⟩

/-! A build with a file in the variable that is no text, beside a good one in the working
directory. -/

namespace Garbled

def environment : Environment where
  directory := "/"
  value? name := if name = "MLIRCI_CONFIG" then some "ci.yaml" else none

def tree : Tree where
  entries := [(["ci.yaml"], .file [255]),
    (["mlirci.yaml"], .file (Text.encode "jenkins_user: ci\n"))]
  unique := by decide
  placed := by
    intro entry hentry
    rcases List.mem_pair.1 hentry with rfl | rfl
    · exact ⟨"ci.yaml", [], rfl, by decide, .inl rfl⟩
    · exact ⟨"mlirci.yaml", [], rfl, by decide, .inl rfl⟩

def invocation : Invocation := ⟨.build, {}⟩

def silent : Server := fun _ => .unreachable

def world : World := ⟨[], "", tree⟩

theorem lookup_garbled : tree.lookup environment.here "ci.yaml" = .ok (.file [255]) := rfl

theorem not_hasText (text : String) : ¬ HasText tree environment "ci.yaml" text := by
  intro h
  have hbytes : [255] = Text.encode text :=
    Files.Entry.file.inj (Except.ok.inj (lookup_garbled.symm.trans h))
  have hdecode : Text.decode [255] = some text := by rw [hbytes, Text.decode_encode]
  have hnone : Text.decode [255] = none := by decide +kernel
  cases hnone.symm.trans hdecode

end Garbled

/-- This build ends with the file in the variable, and the good one is of no use. -/
theorem first_configuration_counts_garbled :
    Garbled.invocation.verb ≠ .version ∧ ∃ reason,
      (Garbled.invocation.program Garbled.environment).run Garbled.silent Garbled.world =
        (.error (.settings (.unreadable "ci.yaml" reason)), Garbled.world) := by
  have hverb : Garbled.invocation.verb ≠ .version := by decide
  refine ⟨hverb, ?_⟩
  obtain ⟨-, -, hfile, -⟩ :=
    first_configuration_counts hverb Garbled.environment Garbled.silent Garbled.world
  have hchooses : Chooses Garbled.invocation Garbled.environment Garbled.tree [] (some "ci.yaml") :=
    .found rfl (rfl : candidates Garbled.environment = [] ++ "ci.yaml" :: _) nofun
      ⟨_, Garbled.lookup_garbled⟩
  rcases hfile [] "ci.yaml" hchooses with ⟨e, ⟨text, htext, -⟩, -⟩ | ⟨error, hfaults, hrun, -⟩
  · exact absurd htext (Garbled.not_hasText text)
  · cases hfaults with
    | unreadable _ => exact ⟨_, hrun⟩
    | malformed htext _ => exact absurd htext (Garbled.not_hasText _)

end Invocation

end ImagePipeline
