import ImagePipeline.Proofs.JsonRecord
import ImagePipeline.Proofs.SendableRequest

/-!
# Labels in the registry

The labels of an image are in JSON text that stands in a string of other JSON text, four records
deep.  The texts may be written in any way, and the records may say more than that; the labels are
found nevertheless.

* `Fetch.Serves`: a server that answers with a JSON text of a value; `Fetch.run_json_of_serves`.
* `Registry.IsToken`, `Registry.HasHistory`, `Registry.HasLabels`: the token, the texts of the
  history and the labels of an image, by what the records say.
* `Registry.Answers`: a registry that answers both requests of a lookup.
* `Registry.labels_served`: what a lookup of labels comes to, and which requests it sends.
-/

namespace ImagePipeline

open Program

/-! ## Answers -/

namespace Fetch

/-- After these requests, a server answers with a success and a JSON text of a value. -/
def Serves (server : Server) (requests : List Request) (j : Json) : Prop :=
  ∃ reply, server requests = .reply reply ∧ isSuccess reply.status = true ∧
    Json.IsText j reply.body.toText.toList

variable {server : Server} {w : World} {r : Web.Request} {j : Json} {α : Type}

/-- A success points nowhere. -/
theorem redirect?_eq_none {reply : Reply} (h : isSuccess reply.status = true) :
    redirect? r reply = none := by
  have hstatus : reply.status ∉ [301, 302, 303, 307, 308] := by
    simp only [isSuccess, Bool.and_eq_true, decide_eq_true_eq] at h
    simp only [List.mem_cons, List.not_mem_nil, or_false]
    omega
  rw [redirect?, guard, if_neg hstatus]
  rfl

/-- A value that is served is read after one request. -/
theorem run_json_of_serves (read : Json → Option α) (hr : r.sendable = true)
    (h : Serves server (w.requests ++ [.web r]) j) :
    (json read r).run server w =
      ((read j).elim (.error (.http .badBody)) .ok,
        { w with requests := w.requests ++ [.web r] }) := by
  obtain ⟨reply, hreply, hstatus, htext⟩ := h
  have hsend : (send r).run server w = (.ok ⟨r.url, reply.status, reply.body.toText⟩,
      { w with requests := w.requests ++ [.web r] }) := by
    rw [send, if_pos hr]
    show (take r (follow 9) (server (w.requests ++ [.web r]))).run server
      { w with requests := w.requests ++ [.web r] } = _
    rw [hreply, take, redirect?_eq_none hstatus]
    rfl
  rw [json_eq, run_bind, success_eq, run_bind, hsend]
  simp only [run_done, hstatus, if_true]
  rw [Json.parse?_eq_some_iff.2 htext, Option.bind_some]

end Fetch

namespace Registry

variable {registry : Registry} {repository tag token : String} {j : Json}

/-! ## What the records say -/

/-- A record that gives a token. -/
def IsToken (j : Json) (token : String) : Prop := j.Says "token" (.given (.string token))

/-- A record that gives the text of a history entry. -/
def IsEntry (j : Json) (text : String) : Prop := j.Says "v1Compatibility" (.given (.string text))

/-- A manifest that gives the texts of its history. -/
inductive HasHistory (j : Json) : List String → Prop where
  | entries {items : List Json} {texts : List String}
      (hitems : j.Says "history" (.given (.array items)))
      (htexts : List.Forall₂ IsEntry items texts) : HasHistory j texts
  | omitted (hkey : j.Says "history" .omitted) : HasHistory j []
  | cutOff (hkey : j.Says "history" .cutOff) : HasHistory j []

/-- The labels of an image; there are none if its configuration, or the labels in it, are left out
or null. -/
def HasLabels : Json → Labels → Prop :=
  Json.Nullable "config" (Json.Nullable "Labels" Labels.InMap .empty) .empty

theorem readToken_eq_some_iff : readToken j = some token ↔ IsToken j token :=
  Json.readField_eq_some_iff.trans (by
    simp only [Json.required_text_eq_some_iff, exists_eq_right, IsToken])

theorem readEntry_eq_some_iff {text : String} : readEntry j = some text ↔ IsEntry j text :=
  Json.readField_eq_some_iff.trans (by
    simp only [Json.required_text_eq_some_iff, exists_eq_right, IsEntry])

theorem readHistory_eq_some_iff {texts : List String} :
    readHistory j = some texts ↔ HasHistory j texts := by
  refine Json.readField_eq_some_iff.trans ⟨?_, ?_⟩
  · rintro ⟨field, hfield, hread⟩
    cases field with
    | given v =>
      obtain ⟨items, rfl, htexts⟩ := Json.list_eq_some_iff.1 hread
      simp only [readEntry_eq_some_iff] at htexts
      exact .entries hfield htexts
    | omitted =>
      cases hread
      exact .omitted hfield
    | cutOff =>
      cases hread
      exact .cutOff hfield
  · rintro (⟨hitems, htexts⟩ | hkey | hkey)
    · refine ⟨_, hitems, Json.list_eq_some_iff.2 ⟨_, rfl, ?_⟩⟩
      simpa only [readEntry_eq_some_iff] using htexts
    · exact ⟨_, hkey, rfl⟩
    · exact ⟨_, hkey, rfl⟩

theorem readConfig_eq_some_iff {ls : Labels} : (readConfig j).map (·.getD .empty) = some ls ↔
    Json.Nullable "Labels" Labels.InMap .empty j ls :=
  Json.readNullable_eq_some_iff (fun _ _ => Labels.ofJson?_eq_some_iff) rfl

theorem readImage_eq_some_iff {ls : Labels} : readImage j = some ls ↔ HasLabels j ls := by
  -- A configuration without labels may as well be one with the empty set of them.
  have hread : readImage j = (j.readField "config"
      (·.nullable fun v => (readConfig v).map (·.getD .empty))).map (·.getD .empty) := by
    unfold readImage Json.readField
    cases j.fields? ["config"] with
    | none => rfl
    | some fields =>
      rcases fields with _ | ⟨v | _ | _, _ | _⟩
      case some.cons.given.nil =>
        by_cases hv : v = .null
        · subst hv
          rfl
        · simp only [Option.bind_eq_bind, Option.bind_some, Json.nullable_of_ne_null hv]
          cases readConfig v <;> rfl
      all_goals rfl
  rw [hread]
  exact Json.readNullable_eq_some_iff (fun _ _ => readConfig_eq_some_iff) rfl

/-! ## The lookup -/

theorem sendable_of_tokenRequest {q : Web.Request}
    (h : registry.tokenRequest repository = .ok q) : q.sendable = true := by
  unfold tokenRequest at h
  cases hr : Fetch.request .get registry.authUrl with
  | error error =>
    rw [hr] at h
    cases h
  | ok r =>
    rw [hr] at h
    cases h
    exact (Fetch.sendable_of_request hr : r.sendable = true)

/-- The request for a manifest ends its headers with the form and the token. -/
theorem headers_of_manifestRequest {m : Web.Request}
    (h : registry.manifestRequest repository tag token = .ok m) :
    ∃ r : Web.Request, r.sendable = true ∧ m.headers =
      r.headers ++ [("accept", manifestType), ("authorization", "Bearer " ++ token)] := by
  unfold manifestRequest at h
  cases hr : Fetch.request .get (registry.manifestUrl repository tag) with
  | error error =>
    rw [hr] at h
    cases h
  | ok r =>
    rw [hr] at h
    cases h
    refine ⟨r, Fetch.sendable_of_request hr, ?_⟩
    show (r.headers ++ [_]) ++ [_] = _
    rw [List.append_assoc]
    rfl

/-- With a token that can stand in a header, the request for a manifest can be sent. -/
theorem sendable_of_manifestRequest {m : Web.Request}
    (h : registry.manifestRequest repository tag token = .ok m)
    (htoken : Web.isHeaderValue token = true) : m.sendable = true := by
  obtain ⟨r, hr, hheaders⟩ := headers_of_manifestRequest h
  have hbearer : Web.isHeaderValue ("Bearer " ++ token) = true := by
    rw [Web.isHeaderValue, String.toList_append, List.all_append, Bool.and_eq_true]
    exact ⟨by decide, htoken⟩
  rw [Web.Request.sendable, hheaders, List.all_append, Bool.and_eq_true]
  refine ⟨hr, ?_⟩
  simp only [List.all_cons, List.all_nil, hbearer]
  decide

/-- What a history comes to: an error if it is empty, and otherwise what its first text says. -/
theorem labelsOf_cons (url text : String) (rest : List String) :
    (∀ image ls, Json.IsText image text.toList → HasLabels image ls →
      labelsOf url (text :: rest) = .ok ls) ∧
    ((∀ image ls, Json.IsText image text.toList → ¬ HasLabels image ls) →
      labelsOf url (text :: rest) = .error .json) := by
  constructor
  · intro image ls htext hls
    rw [labelsOf, Json.parse?_eq_some_iff.2 htext, Option.bind_some, readImage_eq_some_iff.2 hls]
  · intro hno
    have hnone : (Json.parse? text).bind readImage = none := by
      rw [Option.eq_none_iff_forall_ne_some]
      intro ls hls
      obtain ⟨image, htext, himage⟩ := Option.bind_eq_some_iff.1 hls
      exact hno image ls (Json.parse?_eq_some_iff.1 htext) (readImage_eq_some_iff.1 himage)
    rw [labelsOf, hnone]

/-- What a registry answers a lookup with: a token that can stand in a header and, for that token, a
manifest with these texts in its history. -/
structure Answers (registry : Registry) (repository tag : String) (server : Server) (w : World)
    (q m : Web.Request) (token : String) (texts : List String) : Prop where
  tokenRequest : registry.tokenRequest repository = .ok q
  tokenServed : ∃ j, Fetch.Serves server (w.requests ++ [.web q]) j ∧ IsToken j token
  isHeaderValue : Web.isHeaderValue token = true
  manifestRequest : registry.manifestRequest repository tag token = .ok m
  manifestServed :
    ∃ j, Fetch.Serves server (w.requests ++ [.web q, .web m]) j ∧ HasHistory j texts

/-- A lookup that is answered is two requests. -/
theorem run_labels_of_answers {server : Server} {w : World} {q m : Web.Request}
    {texts : List String} (h : registry.Answers repository tag server w q m token texts) :
    (registry.labels repository tag).run server w =
      (labelsOf (registry.manifestUrl repository tag) texts,
        { w with requests := w.requests ++ [.web q, .web m] }) := by
  obtain ⟨tokens, htokens, hread⟩ := h.tokenServed
  obtain ⟨manifest, hmanifest, htexts⟩ := h.manifestServed
  have hfirst : (registry.pullToken repository).run server w =
      (.ok token, { w with requests := w.requests ++ [.web q] }) := by
    rw [pullToken_eq, h.tokenRequest]
    show (Fetch.json readToken q).run server w = _
    rw [Fetch.run_json_of_serves readToken (sendable_of_tokenRequest h.tokenRequest) htokens,
      readToken_eq_some_iff.2 hread]
    rfl
  have hsecond : (ofExcept (registry.manifestRequest repository tag token) >>=
      Fetch.json readHistory).run server { w with requests := w.requests ++ [.web q] } =
        (.ok texts, { w with requests := w.requests ++ [.web q, .web m] }) := by
    rw [h.manifestRequest]
    show (Fetch.json readHistory m).run server _ = _
    rw [Fetch.run_json_of_serves readHistory
        (sendable_of_manifestRequest h.manifestRequest h.isHeaderValue)
        (by rwa [List.append_assoc]), readHistory_eq_some_iff.2 htexts]
    show (_, _) = (_, _)
    rw [List.append_assoc]
    rfl
  rw [labels_eq, run_bind, hfirst]
  dsimp only
  rw [run_bind, hsecond]
  rfl

/-- **Labels in the registry.**  Without a token a lookup of labels fails as the request for the
token does, and nothing else is sent.  A lookup that is answered is the request for the token and
then, with that token, the request for the manifest.  The labels are those that the image in the
first text of the history has, and it has none if they, or its configuration, are left out or null.
An empty history is an error, and so is a text that is no JSON text of an image. -/
theorem labels_served (registry : Registry) (repository tag : String) (server : Server)
    (w : World) :
    (∀ error w', (registry.pullToken repository).run server w = (.error error, w') →
      (registry.labels repository tag).run server w = (.error error, w') ∧
        ∃ es, Fetch.Begun (registry.tokenRequest repository) es ∧
          w'.requests = w.requests ++ es.map (·.request)) ∧
    ∀ q m token texts, registry.Answers repository tag server w q m token texts →
      (∃ headers, m.headers =
        headers ++ [("accept", manifestType), ("authorization", "Bearer " ++ token)]) ∧
      ∃ result, (registry.labels repository tag).run server w =
          (result, { w with requests := w.requests ++ [.web q, .web m] }) ∧
        (texts = [] → result = .error (.unexpectedResponse (registry.manifestUrl repository tag)
          "manifest has no history")) ∧
        ∀ text rest, texts = text :: rest →
          (∀ image ls, Json.IsText image text.toList → HasLabels image ls → result = .ok ls) ∧
          ((∀ image ls, Json.IsText image text.toList → ¬ HasLabels image ls) →
            result = .error .json) := by
  refine ⟨fun error w' hrun => ⟨?_, ?_⟩, ?_⟩
  · rw [labels_eq, run_bind, hrun]
  · obtain ⟨-, hes⟩ := begun_of_yields_pullToken
      (yields_run server w (registry.pullToken repository))
    refine ⟨_, hes, ?_⟩
    rw [← requests_run, hrun]
  · intro q m token texts h
    obtain ⟨r, -, hheaders⟩ := headers_of_manifestRequest h.manifestRequest
    refine ⟨⟨r.headers, hheaders⟩, _, run_labels_of_answers h, ?_, ?_⟩
    · rintro rfl
      rfl
    · rintro text rest rfl
      exact labelsOf_cons _ _ _

/-! A registry that serves a manifest with one text in its history. -/

namespace OneText

/-- The registry, right below its host. -/
def hub : Registry := ⟨"http://h/token", "http://h/", "registry.docker.io"⟩

/-- The answer to the request for a token. -/
def tokens : Json := .object [("token", .string "abc")]

/-- The manifest. -/
def manifest (text : String) : Json :=
  .object [("history", .array [.object [("v1Compatibility", .string text)]])]

/-- How the registry answers. -/
def server (text : String) : Server := fun requests =>
  .reply ⟨200, none, .text (if requests.length = 1 then tokens.render else (manifest text).render)⟩

/-- Before any request. -/
def world : World := ⟨[], "", .empty⟩

theorem hasHistory_manifest (text : String) : HasHistory (manifest text) [text] :=
  .entries (.member (Json.onlyMember_singleton _ _))
    (.cons (.member (Json.onlyMember_singleton _ _)) .nil)

theorem exists_requests : ∃ q m, hub.tokenRequest "u/n" = .ok q ∧
    hub.manifestRequest "u/n" "amd64" "abc" = .ok m := by
  have hrequests : (hub.tokenRequest "u/n").toOption.isSome ∧
      (hub.manifestRequest "u/n" "amd64" "abc").toOption.isSome := by decide +kernel
  obtain ⟨q, hq⟩ := Option.isSome_iff_exists.1 hrequests.1
  obtain ⟨m, hm⟩ := Option.isSome_iff_exists.1 hrequests.2
  exact ⟨q, m, eq_ok_of_toOption hq, eq_ok_of_toOption hm⟩

theorem exists_answers (text : String) :
    ∃ q m, hub.Answers "u/n" "amd64" (server text) world q m "abc" [text] := by
  obtain ⟨q, m, hq, hm⟩ := exists_requests
  exact ⟨q, m, {
    tokenRequest := hq
    tokenServed := ⟨tokens, ⟨_, rfl, rfl, Json.parse?_eq_some_iff.1 (Json.parse?_render rfl)⟩,
      .member (Json.onlyMember_singleton _ _)⟩
    isHeaderValue := by decide
    manifestRequest := hm
    manifestServed := ⟨manifest text,
      ⟨_, rfl, rfl, Json.parse?_eq_some_iff.1 (Json.parse?_render rfl)⟩,
      hasHistory_manifest text⟩ }⟩

end OneText

/-- Labels with a quote and a line break, beside other fields. -/
theorem labels_served_quoted :
    let ls := Labels.ofList [("a", "\"1\"\n"), ("b", "")]
    let image : Json := .object [("os", .string "linux"),
      ("config", .object [("Labels", ls.toJson), ("User", .string "")])]
    ∃ q m, OneText.hub.Answers "u/n" "amd64" (OneText.server image.render) OneText.world q m "abc"
        [image.render] ∧
      (OneText.hub.labels "u/n" "amd64").run (OneText.server image.render) OneText.world =
        (.ok ls, { OneText.world with requests := [.web q, .web m] }) := by
  intro ls image
  obtain ⟨q, m, hanswers⟩ := OneText.exists_answers image.render
  have himage : image.isTextual = true := by
    decide +kernel
  have hlabels : HasLabels image ls := by
    refine .value (.member ⟨[("os", _)], [], rfl, ?_, nofun⟩)
      (.value (.member ⟨[], [("User", _)], rfl, nofun, ?_⟩) (Labels.inMap_toJson ls))
    · exact Json.not_hasMember_iff.2 (by decide)
    · exact Json.not_hasMember_iff.2 (by decide)
  obtain ⟨-, hserved⟩ := labels_served OneText.hub "u/n" "amd64" (OneText.server image.render)
    OneText.world
  obtain ⟨-, result, hrun, -, hresult⟩ := hserved q m "abc" _ hanswers
  obtain rfl := (hresult _ _ rfl).1 image ls
    (Json.parse?_eq_some_iff.1 (Json.parse?_render himage)) hlabels
  exact ⟨q, m, hanswers, hrun⟩

/-- An image that is written as an array of its fields has its labels too, so a text that is not
that of an object need not be an error. -/
theorem labels_not_error_of_array :
    ¬ ∀ (registry : Registry) (repository tag : String) (server : Server) (w : World)
        (q m : Web.Request) (token text : String) (rest : List String),
      registry.Answers repository tag server w q m token (text :: rest) →
      (∀ members, ¬ Json.IsText (.object members) text.toList) →
      ((registry.labels repository tag).run server w).1 = .error .json := by
  intro hclaim
  let image : Json := .array [.object [("Labels", .ofTexts [("a", "1")])]]
  obtain ⟨q, m, hanswers⟩ := OneText.exists_answers image.render
  have hparse : Json.parse? image.render = some image := Json.parse?_render rfl
  have hobject : ∀ members, ¬ Json.IsText (.object members) image.render.toList := by
    intro members htext
    have hsame := (Json.parse?_eq_some_iff.2 htext).symm.trans hparse
    simp only [Option.some.injEq, image, reduceCtorEq] at hsame
  have herror := hclaim OneText.hub "u/n" "amd64" (OneText.server image.render) OneText.world q m
    "abc" image.render [] hanswers hobject
  have hlabels : HasLabels image (Labels.ofList [("a", "1")]) :=
    .value (.item _) (.value (.member (Json.onlyMember_singleton _ _))
      ⟨_, rfl, Labels.get?_ofList _⟩)
  have hok := (labelsOf_cons (OneText.hub.manifestUrl "u/n" "amd64") image.render []).1
    image _ (Json.parse?_eq_some_iff.1 hparse) hlabels
  rw [run_labels_of_answers hanswers, hok] at herror
  cases herror

end Registry

end ImagePipeline
