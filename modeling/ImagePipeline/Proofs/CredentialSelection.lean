import ImagePipeline.Json.Printer
import ImagePipeline.Proofs.FirstMatch
import ImagePipeline.Proofs.StoredPair

/-!
# Which credentials are used

A user and token that the run was given go before everything that is stored, but only for the
default registry.  All other credentials are looked up in the engine's configuration file.  There a
registry may have several names; the first one whose entry says anything decides, for good or bad.

* `HostIn`: the registry that the name of an image begins with, by `registryOf_eq_iff`.
* `StoredAuths.Decides`: an entry that is not passed over; `CredentialSource.Selected` is what the
  first such entry gives, and by `CredentialSource.pick_eq_iff` what is picked.
* `CredentialSource.Consulted`: what a look into the configuration file gives, by `stored_eq_iff`.
* `CredentialSource.Serves`: the user and token go before the file.
* `find_credentials`: the credentials for an image, and what they do not depend on.
-/

namespace ImagePipeline

open Files (Tree Location)

/-! ## The registry of an image -/

/-- The name of an image begins with a host: what stands before the first slash holds a dot or a
colon. -/
def HostIn (image host : String) : Prop :=
  (∃ rest, image = host ++ "/" ++ rest) ∧ '/' ∉ host.toList ∧
    ('.' ∈ host.toList ∨ ':' ∈ host.toList)

theorem registryOf_of_hostIn {image host : String} (h : HostIn image host) :
    registryOf image = host := by
  obtain ⟨⟨rest, rfl⟩, hslash, hhost⟩ := h
  have hcut : Text.cut '/' (host ++ "/" ++ rest) = some (host, rest) :=
    Text.cut_eq_some_iff.2 ⟨rfl, hslash⟩
  simp only [registryOf, hcut]
  rw [if_pos (by simpa using hhost)]

theorem registryOf_of_not_hostIn {image : String} (h : ∀ host, ¬ HostIn image host) :
    registryOf image = defaultRegistry := by
  cases hcut : Text.cut '/' image with
  | none => simp only [registryOf, hcut]
  | some parts =>
    obtain ⟨host, rest⟩ := parts
    obtain ⟨himage, hslash⟩ := Text.cut_eq_some_iff.1 hcut
    simp only [registryOf, hcut]
    rw [if_neg]
    intro hhost
    exact h host ⟨⟨rest, himage⟩, hslash, by simpa using hhost⟩

/-- The registry of an image is the host that its name begins with, or else the default one. -/
theorem registryOf_eq_iff {image registry : String} :
    registryOf image = registry ↔
      HostIn image registry ∨ (∀ host, ¬ HostIn image host) ∧ registry = "docker.io" := by
  constructor
  · rintro rfl
    by_cases h : ∃ host, HostIn image host
    · obtain ⟨host, hhost⟩ := h
      exact .inl (registryOf_of_hostIn hhost ▸ hhost)
    · exact .inr ⟨not_exists.1 h, registryOf_of_not_hostIn (not_exists.1 h)⟩
  · rintro (h | ⟨h, rfl⟩)
    · exact registryOf_of_hostIn h
    · exact registryOf_of_not_hostIn h

/-! ## Entries -/

namespace Credentials

variable {auth text : String} {fault : CredentialsFault}

theorem Faulty.not_stores (h : Faulty auth fault) : ¬ Stores auth text := fun hstores =>
  nomatch (decode_of_faulty "" h).symm.trans (decode_of_stores "" hstores)

end Credentials

namespace StoredAuths

open Credentials (Stores)

variable {auths auths' : StoredAuths} {key auth : String}

/-- The entry under a key has a text; of several entries with one key the last counts. -/
def Holds (auths : StoredAuths) (key auth : String) : Prop :=
  ∃ before after, auths = before ++ (key, some auth) :: after ∧ ∀ entry ∈ after, entry.1 ≠ key

theorem get?_eq_some_iff : auths.get? key = some auth ↔ auths.Holds key auth := by
  rw [get?, Option.join_eq_some_iff, List.lookup_eq_some_iff]
  constructor
  · rintro ⟨after, before, hauths, hafter⟩
    refine ⟨before.reverse, after.reverse, ?_, fun entry hentry => ?_⟩
    · rw [← List.reverse_reverse auths, hauths, List.reverse_append, List.reverse_cons,
        List.append_assoc, List.singleton_append]
    · exact (bne_iff_ne.1 (hafter entry (List.mem_reverse.1 hentry))).symm
  · rintro ⟨before, after, rfl, hafter⟩
    refine ⟨after.reverse, before.reverse, ?_, fun entry hentry => ?_⟩
    · rw [List.reverse_append, List.reverse_cons, List.append_assoc, List.singleton_append]
    · exact bne_iff_ne.2 (hafter entry (List.mem_reverse.1 hentry)).symm

theorem get?_congr (h : ∀ auth, auths.Holds key auth ↔ auths'.Holds key auth) :
    auths.get? key = auths'.get? key :=
  Option.ext fun auth => by rw [get?_eq_some_iff, get?_eq_some_iff, h]

/-- The entry under a key decides: it has a text, and that is the written form of no text or of one
with a colon. -/
def Decides (auths : StoredAuths) (key : String) : Prop :=
  ∃ auth, auths.Holds key auth ∧
    ((∀ text, ¬ Stores auth text) ∨ ∃ text, Stores auth text ∧ ':' ∈ text.toList)

end StoredAuths

namespace CredentialSource

open Credentials (Stores Faulty)
open StoredAuths (Decides get?_eq_some_iff)

variable {auths auths' : StoredAuths} {registry key : String} {keys : List String}
  {outcome : Except ImageError (Option Credentials)}

/-- What the first entry that decides gives. -/
inductive Selected (auths : StoredAuths) (registry : String) (keys : List String) :
    Except ImageError (Option Credentials) → Prop where
  | pair {key auth user password : String} (first : IsFirst auths.Decides keys key)
      (entry : auths.Holds key auth) (stored : Stores auth (user ++ ":" ++ password))
      (colon : ':' ∉ user.toList) :
      Selected auths registry keys (.ok (some ⟨user, password, registry⟩))
  | faulty {key auth : String} {fault : CredentialsFault} (first : IsFirst auths.Decides keys key)
      (entry : auths.Holds key auth) (faulty : Faulty auth fault) :
      Selected auths registry keys (.error (.credentials registry fault))
  | none (h : ∀ key ∈ keys, ¬ auths.Decides key) : Selected auths registry keys (.ok none)

theorem pick_cons_of_not_decides (h : ¬ auths.Decides key) :
    pick auths registry (key :: keys) = pick auths registry keys := by
  rw [pick]
  cases hentry : auths.get? key with
  | none => rfl
  | some auth =>
    rcases Credentials.stores_or_faulty auth with ⟨text, hstores⟩ | ⟨fault, hfaulty⟩
    · have hcolon : ':' ∉ text.toList := fun hmem =>
        h ⟨auth, get?_eq_some_iff.1 hentry, .inr ⟨text, hstores, hmem⟩⟩
      have hdecode := Credentials.decode_of_stores registry hstores
      rw [Text.cut_eq_none_iff.2 hcolon] at hdecode
      simp only [hdecode, Option.map_none]
    · exact absurd ⟨auth, get?_eq_some_iff.1 hentry, .inl fun _ => hfaulty.not_stores⟩ h

/-- What a key gives that decides, it gives as the first one that does. -/
theorem pick_of_isFirst (first : IsFirst auths.Decides keys key)
    (h : ∀ keys, pick auths registry (key :: keys) = outcome) :
    pick auths registry keys = outcome := by
  induction first with
  | here => exact h _
  | later fails _ ih => rw [pick_cons_of_not_decides fails, ih h]

theorem pick_of_selected (h : Selected auths registry keys outcome) :
    pick auths registry keys = outcome := by
  cases h with
  | pair first entry stored colon =>
    refine pick_of_isFirst first fun keys => ?_
    simp only [pick, get?_eq_some_iff.2 entry, Credentials.decode_of_stores_pair colon stored]
  | faulty first entry faulty =>
    refine pick_of_isFirst first fun keys => ?_
    simp only [pick, get?_eq_some_iff.2 entry, Credentials.decode_of_faulty registry faulty]
  | none h =>
    induction keys with
    | nil => rfl
    | cons key keys ih =>
      rw [pick_cons_of_not_decides (h key List.mem_cons_self)]
      exact ih fun key hkey => h key (List.mem_cons_of_mem _ hkey)

theorem exists_selected (auths : StoredAuths) (registry : String) (keys : List String) :
    ∃ outcome, Selected auths registry keys outcome := by
  by_cases hdecides : ∃ key ∈ keys, auths.Decides key
  · obtain ⟨key, first⟩ := exists_isFirst_iff.2 hdecides
    obtain ⟨auth, hentry, hnone | ⟨text, hstores, hcolon⟩⟩ := first.holds
    · rcases Credentials.stores_or_faulty auth with ⟨text, hstores⟩ | ⟨fault, hfaulty⟩
      · exact absurd hstores (hnone text)
      · exact ⟨_, .faulty first hentry hfaulty⟩
    · cases hcut : Text.cut ':' text with
      | none => exact absurd hcolon (Text.cut_eq_none_iff.1 hcut)
      | some parts =>
        obtain ⟨rfl, hnone⟩ := Text.cut_eq_some_iff.1 hcut
        exact ⟨_, .pair first hentry hstores hnone⟩
  · exact ⟨_, .none fun key hkey h => hdecides ⟨key, hkey, h⟩⟩

/-- What is picked is what the first entry that decides gives. -/
theorem pick_eq_iff :
    pick auths registry keys = outcome ↔ Selected auths registry keys outcome := by
  refine ⟨fun h => ?_, pick_of_selected⟩
  obtain ⟨outcome', hselected⟩ := exists_selected auths registry keys
  rwa [← h, pick_of_selected hselected]

/-- Only the entries under the keys matter. -/
theorem pick_congr (h : ∀ key ∈ keys, ∀ auth, auths.Holds key auth ↔ auths'.Holds key auth) :
    pick auths registry keys = pick auths' registry keys := by
  induction keys with
  | nil => rfl
  | cons key keys ih =>
    have hkey := StoredAuths.get?_congr (h key List.mem_cons_self)
    have hrest := ih fun key hkey => h key (List.mem_cons_of_mem _ hkey)
    simp only [pick, hkey, hrest]

/-- What is selected for a registry carries its name. -/
theorem Selected.registry_eq {c : Credentials}
    (h : Selected auths registry keys (.ok (some c))) : c.registry = registry := by
  cases h
  rfl

/-! ## The configuration file -/

variable {t : Tree} {here : Location} {path : String} {s : CredentialSource}

/-- The file at a path tells stored pairs. -/
def Tells (t : Tree) (here : Location) (path : String) (auths : StoredAuths) : Prop :=
  ∃ text, t.readText here path = .ok text ∧
    (Json.parse? text).bind StoredAuths.ofJson? = some auths

/-- What a look into the configuration file gives for a registry. -/
inductive Consulted (t : Tree) (here : Location) (path registry : String) :
    Except ImageError (Option Credentials) → Prop where
  | absent (h : t.reaches here path = false) : Consulted t here path registry (.ok none)
  | unreadable {error : Files.FileError} (h : t.reaches here path = true)
      (hread : t.readText here path = .error error) :
      Consulted t here path registry (.error (.credentials path (.unreadable error)))
  | malformed {text : String} (hread : t.readText here path = .ok text)
      (hauths : (Json.parse? text).bind StoredAuths.ofJson? = none) :
      Consulted t here path registry (.error (.credentials path .malformed))
  | told {auths : StoredAuths} {outcome : Except ImageError (Option Credentials)}
      (tells : Tells t here path auths)
      (selected : Selected auths registry (keysOf registry) outcome) :
      Consulted t here path registry outcome

theorem reaches_of_readText {text : String} (h : t.readText here path = .ok text) :
    t.reaches here path = true := by
  unfold Tree.reaches
  cases hlookup : t.lookup here path with
  | ok entry => rfl
  | error error =>
    rw [Tree.readText, Tree.readBytes, hlookup] at h
    cases h

theorem stored_of_tells (tells : Tells t here s.configPath auths) :
    find.stored s t here registry = pick auths registry (keysOf registry) := by
  obtain ⟨text, hread, hauths⟩ := tells
  rw [find.stored, reaches_of_readText hread, if_pos rfl, load, hread]
  simp only [hauths]
  rfl

theorem stored_of_consulted (h : Consulted t here s.configPath registry outcome) :
    find.stored s t here registry = outcome := by
  cases h with
  | absent h => rw [find.stored, h, if_neg Bool.false_ne_true]
  | unreadable h hread =>
    rw [find.stored, h, if_pos rfl, load, hread]
    rfl
  | malformed hread hauths =>
    rw [find.stored, reaches_of_readText hread, if_pos rfl, load, hread]
    simp only [hauths]
    rfl
  | told tells selected => rw [stored_of_tells tells, pick_of_selected selected]

theorem exists_consulted (t : Tree) (here : Location) (path registry : String) :
    ∃ outcome, Consulted t here path registry outcome := by
  cases h : t.reaches here path with
  | false => exact ⟨_, .absent h⟩
  | true =>
    cases hread : t.readText here path with
    | error error => exact ⟨_, .unreadable h hread⟩
    | ok text =>
      cases hauths : (Json.parse? text).bind StoredAuths.ofJson? with
      | none => exact ⟨_, .malformed hread hauths⟩
      | some auths =>
        obtain ⟨outcome, selected⟩ := exists_selected auths registry (keysOf registry)
        exact ⟨outcome, .told ⟨text, hread, hauths⟩ selected⟩

theorem stored_eq_iff :
    find.stored s t here registry = outcome ↔ Consulted t here s.configPath registry outcome := by
  refine ⟨fun h => ?_, stored_of_consulted⟩
  obtain ⟨outcome', hconsulted⟩ := exists_consulted t here s.configPath registry
  rwa [← h, stored_of_consulted hconsulted]

theorem Consulted.registry_eq {c : Credentials}
    (h : Consulted t here path registry (.ok (some c))) : c.registry = registry := by
  cases h with
  | told _ selected => exact selected.registry_eq

/-! ## The credentials for an image -/

variable {user token : Option String} {image : String}

/-- A source whose user and token count only when both are given. -/
def ofGiven (user token : Option String) (path : String) : CredentialSource :=
  ⟨user.bind fun u => token.map (u, ·), path⟩

/-- The source of a run is one of these, with the path that its environment names. -/
theorem ofEnvironment_eq (env : Environment) (user token : Option String) :
    ofEnvironment env user token = ofGiven user token env.dockerConfigPath := rfl

/-- The user and token serve for an image: both are given, and its registry is the default one. -/
def Serves (user token : Option String) (image : String) : Prop :=
  registryOf image = "docker.io" ∧ user ≠ none ∧ token ≠ none

theorem find_ofGiven_some (u k path : String) (t : Tree) (here : Location) (image : String) :
    (ofGiven (some u) (some k) path).find t here image =
      if registryOf image = "docker.io" then .ok (some ⟨u, k, registryOf image⟩)
      else find.stored (ofGiven (some u) (some k) path) t here (registryOf image) := rfl

theorem find_of_serves {u k : String} (h : registryOf image = "docker.io") :
    (ofGiven (some u) (some k) path).find t here image = .ok (some ⟨u, k, "docker.io"⟩) := by
  rw [find_ofGiven_some, if_pos h, h]

/-- A user and token that serve are found wherever the configuration file is. -/
theorem Serves.exists_find (h : Serves user token image) :
    ∃ c : Credentials, c.registry = registryOf image ∧
      ∀ path t here, (ofGiven user token path).find t here image = .ok (some c) := by
  obtain ⟨hregistry, huser, htoken⟩ := h
  obtain ⟨u, rfl⟩ := Option.ne_none_iff_exists'.1 huser
  obtain ⟨k, rfl⟩ := Option.ne_none_iff_exists'.1 htoken
  exact ⟨_, hregistry.symm, fun _ _ _ => find_of_serves hregistry⟩

theorem find_of_not_serves (h : ¬ Serves user token image) :
    (ofGiven user token path).find t here image =
      find.stored (ofGiven user token path) t here (registryOf image) := by
  cases user with
  | none => rfl
  | some u =>
    cases token with
    | none => rfl
    | some k =>
      rw [find_ofGiven_some, if_neg]
      exact fun hregistry => h ⟨hregistry, nofun, nofun⟩

/-- What is found carries the registry of the image. -/
theorem registry_eq_of_find {c : Credentials}
    (h : (ofGiven user token path).find t here image = .ok (some c)) :
    c.registry = registryOf image := by
  by_cases hserves : Serves user token image
  · obtain ⟨c', hregistry, hfind⟩ := hserves.exists_find
    obtain rfl := Option.some.inj (Except.ok.inj ((hfind _ _ _).symm.trans h))
    exact hregistry
  · rw [find_of_not_serves hserves, stored_eq_iff] at h
    exact h.registry_eq

/-- Entries under other keys than the registry's do not matter. -/
theorem find_congr {t' : Tree} {here' : Location} {path' : String}
    (tells : Tells t here path auths) (tells' : Tells t' here' path' auths')
    (h : ∀ key ∈ keysOf (registryOf image), ∀ auth, auths.Holds key auth ↔ auths'.Holds key auth) :
    (ofGiven user token path).find t here image =
      (ofGiven user token path').find t' here' image := by
  by_cases hserves : Serves user token image
  · obtain ⟨c, -, hfind⟩ := hserves.exists_find
    rw [hfind, hfind]
  · rw [find_of_not_serves hserves, find_of_not_serves hserves, stored_of_tells tells,
      stored_of_tells tells', pick_congr h]

/-- **Credentials for an image.**  The registry of an image is the host that its name begins with,
or else the default one.

* A user and a token serve an image of the default registry if both are given.  Then they are what
  is found, whatever the configuration file is.
* Otherwise the file decides.  Without one nothing is found, and one that cannot be read or makes no
  sense is an error.  Else the first key of the registry decides whose entry has a text that is the
  written form of no text, which is an error, or of one with a colon, which is the pair that is
  found.  Without such a key nothing is found.
* Entries under other keys do not matter, and what is found carries the registry of the image. -/
theorem find_credentials (user token : Option String) (path : String) (t : Tree) (here : Location)
    (image : String) :
    (∀ registry, registryOf image = registry ↔
      HostIn image registry ∨ (∀ host, ¬ HostIn image host) ∧ registry = "docker.io") ∧
    (∀ u k, registryOf image = "docker.io" → user = some u → token = some k →
      (ofGiven user token path).find t here image = .ok (some ⟨u, k, "docker.io"⟩)) ∧
    (¬ Serves user token image →
      ∀ outcome, (ofGiven user token path).find t here image = outcome ↔
        Consulted t here path (registryOf image) outcome) ∧
    keysOf "docker.io" = ["https://index.docker.io/v1/", "index.docker.io", "docker.io"] ∧
    (∀ registry, registry ≠ "docker.io" → keysOf registry = [registry]) ∧
    (∀ (t' : Tree) (here' : Location) (path' : String) (auths auths' : StoredAuths),
      Tells t here path auths → Tells t' here' path' auths' →
      (∀ key ∈ keysOf (registryOf image), ∀ auth,
        auths.Holds key auth ↔ auths'.Holds key auth) →
      (ofGiven user token path).find t here image =
        (ofGiven user token path').find t' here' image) ∧
    ∀ c, (ofGiven user token path).find t here image = .ok (some c) →
      c.registry = registryOf image := by
  refine ⟨fun registry => registryOf_eq_iff, ?_, fun h outcome => ?_, rfl, fun _ h => if_neg h,
    fun _ _ _ _ _ tells tells' h => find_congr tells tells' h, fun _ => registry_eq_of_find⟩
  · rintro u k hregistry rfl rfl
    exact find_of_serves hregistry
  · rw [find_of_not_serves h, stored_eq_iff]
    rfl

namespace Stored

/-- A configuration file with a text without a colon under the first key of the default registry, a
pair under the second, and no written form under the third. -/
def tree : Tree :=
  Tree.empty.put [] "config.json" (.file (Text.encode (Json.object [("auths", .object
    [("docker.io", .object [("auth", .string "?")]),
      ("index.docker.io", .object [("auth", .string "dTpw")]),
      ("https://index.docker.io/v1/", .object [("auth", .string "dQ==")])])]).render))

end Stored

/-- A token without a user does not count.  The text without a colon is passed over, and what comes
after the pair is not looked at. -/
theorem find_credentials_second_key :
    Consulted Stored.tree [] "/config.json" "docker.io" (.ok (some ⟨"u", "p", "docker.io"⟩)) ∧
      (ofGiven (some "user") (some "token") "/config.json").find Stored.tree [] "images/product" =
        .ok (some ⟨"user", "token", "docker.io"⟩) := by
  have hfind : (ofGiven none (some "token") "/config.json").find Stored.tree [] "images/product" =
      .ok (some ⟨"u", "p", "docker.io"⟩) := by decide +kernel
  have hregistry : registryOf "images/product" = "docker.io" := by decide
  obtain ⟨-, -, hconsulted, -⟩ :=
    find_credentials none (some "token") "/config.json" Stored.tree [] "images/product"
  obtain ⟨-, hserves, -⟩ :=
    find_credentials (some "user") (some "token") "/config.json" Stored.tree [] "images/product"
  refine ⟨?_, hserves _ _ hregistry rfl rfl⟩
  have hnone : ¬ Serves none (some "token") "images/product" := fun h => h.2.1 rfl
  exact hregistry ▸ (hconsulted hnone _).1 hfind

end CredentialSource

end ImagePipeline
