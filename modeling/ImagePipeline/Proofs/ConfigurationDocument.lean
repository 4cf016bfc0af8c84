import ImagePipeline.Endpoints.Document
import ImagePipeline.Proofs.FlatDocument

/-!
# What a configuration document says

A document gives texts to some of seven keys, each at most once, and says nothing about the others.
This is told here of the value of a document, whichever way it is written, and then of its text.

* `fields`: the keys, and the endpoints that they give.
* `Says`: a document gives these endpoints.
* `ofYaml?_eq_some_iff`: this is what is read of a document.
* `exists_says_of_givesTexts`: a flat mapping gives what it says, and the defaults elsewhere.
* `IsDocument`: the same of a text.
-/

namespace ImagePipeline.Endpoints

variable {e : Endpoints} {entries : List (String × Yaml)} {texts : List (String × String)}
  {document : Option Yaml} {name default text path : String}

/-! ## The keys -/

/-- The keys of a configuration document, and the endpoints that they give. -/
def fields : List (String × (Endpoints → String)) :=
  [("registry_auth_url", registryAuthUrl), ("registry_url", registryUrl),
    ("registry_service", registryService), ("github_api_url", githubApiUrl),
    ("jenkins_url", jenkinsUrl), ("jenkins_user", jenkinsUser), ("toolchain_repo", toolchainRepo)]

/-- What a key gives: its default if it is not there, and its text if it is there once. -/
inductive Gives (entries : List (String × Yaml)) (name default : String) : String → Prop where
  | usual (h : ∀ entry ∈ entries, entry.1 ≠ name) : Gives entries name default default
  | once {before after : List (String × Yaml)} {value : Yaml} {text : String}
      (hentries : entries = before ++ (name, value) :: after)
      (hothers : ∀ entry ∈ before ++ after, entry.1 ≠ name) (htext : value.text? = some text) :
      Gives entries name default text

theorem given?_eq_some_iff : given? entries name default = some text ↔
    Gives entries name default text := by
  unfold given?
  constructor
  · intro h
    split at h
    next hfilter =>
      cases h
      rw [List.filter_eq_nil_iff] at hfilter
      exact .usual fun entry hentry => by simpa using hfilter entry hentry
    next key value hfilter =>
      obtain ⟨before, after, rfl, hbefore, hkey, hafter⟩ := List.filter_eq_cons_iff.1 hfilter
      obtain rfl : key = name := eq_of_beq hkey
      refine .once rfl (fun entry hentry => ?_) h
      rcases List.mem_append.1 hentry with hentry | hentry
      · simpa using hbefore entry hentry
      · simpa using List.filter_eq_nil_iff.1 hafter entry hentry
    next => cases h
  · rintro (h | @⟨before, after, value, _, rfl, hothers, htext⟩)
    · have hfilter : entries.filter (·.1 == name) = [] :=
        List.filter_eq_nil_iff.2 fun entry hentry => by simpa using h entry hentry
      rw [hfilter]
    · have hnone : ∀ entry ∈ before ++ after, ¬ (entry.1 == name) = true :=
        fun entry hentry => by simpa using hothers entry hentry
      have hafter : after.filter (·.1 == name) = [] :=
        List.filter_eq_nil_iff.2 fun entry hentry =>
          hnone entry (List.mem_append_right before hentry)
      have hfilter : (before ++ (name, value) :: after).filter (·.1 == name) = [(name, value)] :=
        List.filter_eq_cons_iff.2 ⟨before, after, rfl,
          fun entry hentry => hnone entry (List.mem_append_left after hentry),
          beq_self_eq_true name, hafter⟩
      rw [hfilter]
      exact htext

/-- The endpoints of a mapping are those that its keys give. -/
theorem ofEntries?_eq_some_iff : ofEntries? entries = some e ↔
    ∀ field ∈ fields, Gives entries field.1 (field.2 {}) (field.2 e) := by
  simp only [fields, List.forall_mem_cons, List.not_mem_nil, false_imp_iff, implies_true, and_true]
  simp only [← given?_eq_some_iff]
  constructor
  · intro h
    unfold ofEntries? at h
    simp only [bind, Option.bind_eq_some_iff] at h
    obtain ⟨_, h₁, _, h₂, _, h₃, _, h₄, _, h₅, _, h₆, _, h₇, h⟩ := h
    cases h
    exact ⟨h₁, h₂, h₃, h₄, h₅, h₆, h₇⟩
  · rintro ⟨h₁, h₂, h₃, h₄, h₅, h₆, h₇⟩
    unfold ofEntries?
    simp only [bind, h₁, h₂, h₃, h₄, h₅, h₆, h₇, Option.bind_some]
    rfl

/-! ## Documents -/

/-- What a document says about the endpoints: all are as usual without a value, and with a mapping
from names to values each is as its key gives it. -/
inductive Says : Option Yaml → Endpoints → Prop where
  | nothing : Says none {}
  | blank : Says (some (.scalar "" true)) {}
  | mapping {ms : List (Yaml × Yaml)} {entries : List (String × Yaml)} {e : Endpoints}
      (hkeys : List.Forall₂ (fun m entry => m.1.text? = some entry.1 ∧ m.2 = entry.2) ms entries)
      (hfields : ∀ field ∈ fields, Gives entries field.1 (field.2 {}) (field.2 e)) :
      Says (some (.mapping ms)) e

theorem entry_eq_some_iff {m : Yaml × Yaml} {entry : String × Yaml} :
    m.1.text?.map (·, m.2) = some entry ↔ m.1.text? = some entry.1 ∧ m.2 = entry.2 := by
  rw [Option.map_eq_some_iff]
  constructor
  · rintro ⟨key, hkey, rfl⟩
    exact ⟨hkey, rfl⟩
  · rintro ⟨hkey, hvalue⟩
    exact ⟨entry.1, hkey, by rw [hvalue]⟩

theorem ofYaml?_eq_some_iff : ofYaml? document = some e ↔ Says document e := by
  constructor
  · intro h
    unfold ofYaml? at h
    split at h
    next =>
      cases h
      exact .nothing
    next text plain =>
      split at h
      next hblank =>
        cases h
        rw [Bool.and_eq_true, String.isEmpty_iff] at hblank
        rw [hblank.1, hblank.2]
        exact .blank
      next => cases h
    next ms =>
      obtain ⟨entries, hentries, h⟩ := Option.bind_eq_some_iff.1 h
      have hkeys := Json.mapM_eq_some_iff.1 hentries
      refine .mapping (hkeys.imp fun m entry hentry => ?_) (ofEntries?_eq_some_iff.1 h)
      exact entry_eq_some_iff.1 hentry
    next => cases h
    next => cases h
  · rintro (_ | _ | ⟨hkeys, hfields⟩)
    · rfl
    · rfl
    · have hentries := Json.mapM_eq_some_iff.2 (hkeys.imp fun m entry => entry_eq_some_iff.2)
      exact Option.bind_eq_some_iff.2 ⟨_, hentries, ofEntries?_eq_some_iff.2 hfields⟩

/-! ## Flat mappings -/

/-- Each key is there at most once. -/
def KeysOnce (texts : List (String × String)) : Prop :=
  ∀ field ∈ fields, (texts.map Prod.fst).count field.1 ≤ 1

/-- The given keys have the texts given, and the others their defaults. -/
def Has (e : Endpoints) (texts : List (String × String)) : Prop :=
  ∀ field ∈ fields, field.2 e = (texts.lookup field.1).getD (field.2 {})

/-- The endpoints with some texts in place of the defaults. -/
def ofTexts (texts : List (String × String)) : Endpoints :=
  let text name default := (texts.lookup name).getD default
  let usual : Endpoints := {}
  { registryAuthUrl := text "registry_auth_url" usual.registryAuthUrl
    registryUrl := text "registry_url" usual.registryUrl
    registryService := text "registry_service" usual.registryService
    githubApiUrl := text "github_api_url" usual.githubApiUrl
    jenkinsUrl := text "jenkins_url" usual.jenkinsUrl
    jenkinsUser := text "jenkins_user" usual.jenkinsUser
    toolchainRepo := text "toolchain_repo" usual.toolchainRepo }

theorem has_ofTexts (texts : List (String × String)) : (ofTexts texts).Has texts := by
  simp only [Has, fields, List.forall_mem_cons, List.not_mem_nil, false_imp_iff, implies_true,
    and_true]
  exact ⟨rfl, rfl, rfl, rfl, rfl, rfl, rfl⟩

theorem Gives.cons {entry : String × Yaml} (hentry : entry.1 ≠ name)
    (h : Gives entries name default text) : Gives (entry :: entries) name default text := by
  cases h with
  | usual h => exact .usual (List.forall_mem_cons.2 ⟨hentry, h⟩)
  | @once before after value _ hentries hothers htext =>
    rw [hentries, ← List.cons_append]
    exact .once rfl (List.forall_mem_cons.2 ⟨hentry, hothers⟩) htext

theorem gives_of_texts
    (h : List.Forall₂ (fun entry t => entry.1 = t.1 ∧ entry.2.text? = some t.2) entries texts)
    (honce : (texts.map Prod.fst).count name ≤ 1) :
    Gives entries name default ((texts.lookup name).getD default) := by
  induction h with
  | nil => exact .usual fun entry hentry => absurd hentry List.not_mem_nil
  | @cons entry t entries texts hentry hrest ih =>
    obtain ⟨key, value⟩ := entry
    obtain ⟨_, text⟩ := t
    obtain ⟨rfl, htext⟩ := hentry
    rw [List.map_cons, List.count_cons] at honce
    by_cases hname : key = name
    · subst hname
      have hzero : (texts.map Prod.fst).count key = 0 := by
        rw [if_pos (beq_self_eq_true key)] at honce
        omega
      have hothers : ∀ entry ∈ entries, entry.1 ≠ key := by
        intro entry hentry hkey
        obtain ⟨t, ht, hentry, -⟩ := Yaml.exists_of_forall₂ hrest hentry
        refine List.count_eq_zero.1 hzero (List.mem_map.2 ⟨t, ht, ?_⟩)
        rw [← hentry, hkey]
      rw [List.lookup_cons_self, Option.getD_some]
      exact .once (List.nil_append _).symm hothers htext
    · have hbeq : (name == key) = false := by simpa using Ne.symm hname
      rw [List.lookup_cons, hbeq]
      exact (ih (by omega)).cons hname

/-- The keys of a flat mapping are texts. -/
theorem exists_entries_of_areTexts {ms : List (Yaml × Yaml)}
    (h : Yaml.Reader.AreTexts ms texts) : ∃ entries : List (String × Yaml),
      List.Forall₂ (fun m entry => m.1.text? = some entry.1 ∧ m.2 = entry.2) ms entries ∧
      List.Forall₂ (fun entry t => entry.1 = t.1 ∧ entry.2.text? = some t.2) entries texts := by
  induction h with
  | nil => exact ⟨[], .nil, .nil⟩
  | @cons m t _ _ hm _ ih =>
    obtain ⟨entries, hkeys, htexts⟩ := ih
    exact ⟨(t.1, m.2) :: entries, .cons ⟨hm.1, rfl⟩ hkeys, .cons ⟨rfl, hm.2⟩ htexts⟩

/-- A flat mapping gives the texts that it has, and nothing else. -/
theorem exists_says_of_givesTexts (h : Yaml.GivesTexts document texts) (honce : KeysOnce texts) :
    ∃ e, Says document e ∧ e.Has texts := by
  refine ⟨ofTexts texts, ?_, has_ofTexts texts⟩
  cases h with
  | nothing => exact .nothing
  | mapping hms =>
    obtain ⟨entries, hkeys, htexts⟩ := exists_entries_of_areTexts hms
    refine .mapping hkeys fun field hfield => ?_
    rw [has_ofTexts texts field hfield]
    exact gives_of_texts htexts (honce field hfield)

/-! ## Texts -/

/-- The text is a document that gives these endpoints. -/
def IsDocument (text : String) (e : Endpoints) : Prop :=
  ∃ document, Yaml.parse text = .ok document ∧ Says document e

/-- The text is a flat mapping with these entries: it is written as one, or its document is one,
however it is written. -/
def IsFlatMapping (text : String) (texts : List (String × String)) : Prop :=
  Yaml.IsFlatText texts text ∨
    ∃ document, Yaml.parse text = .ok document ∧ Yaml.GivesTexts document texts

theorem read_eq_ok_iff : read path text = .ok e ↔ IsDocument text e := by
  unfold read IsDocument
  cases hparse : Yaml.parse text with
  | error error => exact ⟨nofun, fun ⟨_, h, _⟩ => nomatch h⟩
  | ok document =>
    simp only [Except.ok.injEq, exists_eq_left', ← ofYaml?_eq_some_iff]
    cases hread : ofYaml? document with
    | none => exact ⟨nofun, nofun⟩
    | some endpoints => rw [Except.ok.injEq, Option.some_inj]

/-- A text that is no such document is refused, with the path of its file. -/
theorem exists_reason_of_not_isDocument (path : String) (h : ∀ e, ¬ IsDocument text e) :
    ∃ reason, read path text = .error (.malformed path reason) := by
  cases hread : read path text with
  | ok e => exact absurd (read_eq_ok_iff.1 hread) (h e)
  | error error =>
    unfold read at hread
    split at hread
    · cases hread
      exact ⟨_, rfl⟩
    · split at hread
      · cases hread
      · cases hread
        exact ⟨_, rfl⟩

/-- Every flat mapping is a document, and gives what it has. -/
theorem exists_isDocument_of_isFlatMapping (h : IsFlatMapping text texts)
    (honce : KeysOnce texts) : ∃ e, IsDocument text e ∧ e.Has texts := by
  have hdocument : ∃ document, Yaml.parse text = .ok document ∧
      Yaml.GivesTexts document texts := h.elim Yaml.parse_of_isFlatText id
  obtain ⟨document, hparse, hgives⟩ := hdocument
  obtain ⟨e, hsays, hhas⟩ := exists_says_of_givesTexts hgives honce
  exact ⟨e, ⟨document, hparse, hsays⟩, hhas⟩

end ImagePipeline.Endpoints
