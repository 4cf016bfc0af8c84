import ImagePipeline.Proofs.TransferRun
import Mathlib.Algebra.GroupWithZero.Nat

/-!
# Removals and their account

A cleanup goes through images in order.  For each it asks for the containers that come from it,
has those removed that are listed with an id, and then the image.  What a failure means is given
from outside; the order is the same in any case, and the report counts what the answers say.

* `Engine.settle`: what an exchange of a cleanup comes to, by its answer.
* `Engine.Conducted`: which of the exchanges that are due are made, and what comes of them: all of
  them, or those up to the first that fails.
* `Engine.Removal`: the exchanges for one image, its containers those that the engine has listed.
* `Engine.conducted_of_yields_removeImages`: a cleanup conducts the removals of its images.
* `Engine.removeAll_accounts`: so the report adds up if failures are left, and is one of successes
  only if they are not.
-/

namespace ImagePipeline

open Files (Tree)
open Program

/-- A request for the removal of a container. -/
def Request.removesContainer : Request → Bool
  | .engine _ (.removeContainer _) => true
  | _ => false

/-- A request for the removal of an image or of one of its names. -/
def Request.removesImage : Request → Bool
  | .engine _ (.removeImage _) => true
  | _ => false

namespace Engine

/-! ## What an exchange comes to -/

/-- The ids of the containers that an answer lists.  A container without one is passed over. -/
def toldContainers (answer : Answer) : Except ImageError (List String) :=
  ((readValue (Json.list readContainerId) answer).map (·.filterMap id)).mapError .engine

/-- The ids of the listed containers; a list that is not to be had counts as an empty one. -/
def listedContainers (answer : Answer) : List String :=
  (toldContainers answer).toOption.getD []

/-- The end of the removal of a container, by the answer to it. -/
def containerOutcome (answer : Answer) : Except ImageError Unit :=
  ((accept answer).mapError .engine).bind fun _ => .ok ()

/-- What an exchange of a cleanup comes to. -/
def settle (x : Exchange) : Except ImageError Unit :=
  match x.request with
  | .engine _ (.listContainers _) => (toldContainers x.answer).bind fun _ => .ok ()
  | .engine _ (.removeContainer _) => containerOutcome x.answer
  | .engine _ (.removeImage reference) => removalOutcome reference x.answer
  | _ => .ok ()

/-- A container goes if the answer is a success. -/
theorem containerOutcome_eq_ok_iff {answer : Answer} :
    containerOutcome answer = .ok () ↔ Succeeds answer := by
  unfold containerOutcome
  cases haccept : accept answer with
  | error error =>
    refine ⟨nofun, ?_⟩
    rintro ⟨reply, hreply⟩
    rw [accept_eq_ok_iff.2 hreply] at haccept
    cases haccept
  | ok reply => exact ⟨fun _ => ⟨reply, accept_eq_ok_iff.1 haccept⟩, fun _ => rfl⟩

/-- The answer to a call that wants a value: a success with the value for its body. -/
theorem readValue_eq_ok_iff {α : Type} {read : Json → Option α} {answer : Answer} {a : α} :
    readValue read answer = .ok a ↔ ∃ reply, answer = .reply reply ∧
      isSuccess reply.status = true ∧ (Json.parse? reply.body.toText).bind read = some a := by
  unfold readValue
  cases haccept : accept answer with
  | error error =>
    refine ⟨nofun, ?_⟩
    rintro ⟨reply, hreply, hsuccess, -⟩
    rw [accept_eq_ok_iff.2 ⟨hreply, hsuccess⟩] at haccept
    cases haccept
  | ok reply =>
    obtain ⟨rfl, hsuccess⟩ := accept_eq_ok_iff.1 haccept
    show readReply read reply = .ok a ↔ _
    unfold readReply
    constructor
    · intro h
      cases hread : (Json.parse? reply.body.toText).bind read with
      | none =>
        rw [hread] at h
        cases h
      | some b =>
        rw [hread] at h
        cases h
        exact ⟨reply, rfl, hsuccess, hread⟩
    · rintro ⟨reply', hreply, -, hread⟩
      cases hreply
      rw [hread]

/-- An image goes if the answer is a success that lists what has gone. -/
theorem removalOutcome_eq_ok_iff {reference : String} {answer : Answer} :
    removalOutcome reference answer = .ok () ↔ ∃ reply items, answer = .reply reply ∧
      isSuccess reply.status = true ∧
      (Json.parse? reply.body.toText).bind Json.items? = some items := by
  unfold removalOutcome
  cases hread : readValue Json.items? answer with
  | error error =>
    refine ⟨nofun, ?_⟩
    rintro ⟨reply, items, h⟩
    rw [readValue_eq_ok_iff.2 ⟨reply, h⟩] at hread
    cases hread
  | ok items =>
    obtain ⟨reply, h⟩ := readValue_eq_ok_iff.1 hread
    exact ⟨fun _ => ⟨reply, items, h⟩, fun _ => rfl⟩

/-! ## The account of exchanges -/

/-- A container that has gone. -/
def containerGone (x : Exchange) : Bool := x.request.removesContainer && (settle x).isOk

/-- An image, or one of its names, that has gone. -/
def imageGone (x : Exchange) : Bool := x.request.removesImage && (settle x).isOk

theorem isOk_iff {ε : Type} {result : Except ε Unit} : result.isOk = true ↔ result = .ok () := by
  cases result <;> simp [Except.isOk, Except.toBool]

/-- The containers that have gone are those whose removals are answered with success. -/
theorem containerGone_iff {e : EngineEndpoint} {id : String} {answer : Answer} :
    containerGone ⟨.engine e (.removeContainer id), answer⟩ = true ↔ Succeeds answer :=
  isOk_iff.trans containerOutcome_eq_ok_iff

/-- So are the images, with a list of what has gone for the body of the answer. -/
theorem imageGone_iff {e : EngineEndpoint} {reference : String} {answer : Answer} :
    imageGone ⟨.engine e (.removeImage reference), answer⟩ = true ↔
      ∃ reply items, answer = .reply reply ∧ isSuccess reply.status = true ∧
        (Json.parse? reply.body.toText).bind Json.items? = some items :=
  isOk_iff.trans removalOutcome_eq_ok_iff

/-- A removal that has failed. -/
def removalFailed (x : Exchange) : Bool :=
  (x.request.removesContainer || x.request.removesImage) && !(settle x).isOk

end Engine

/-- The report after more exchanges. -/
def CleanupReport.after (report : CleanupReport) (es : List Exchange) : CleanupReport where
  containersRemoved := report.containersRemoved + es.countP Engine.containerGone
  imagesRemoved := report.imagesRemoved + es.countP Engine.imageGone
  failures := report.failures + es.countP Engine.removalFailed

@[simp] theorem CleanupReport.after_nil (report : CleanupReport) : report.after [] = report := rfl

theorem CleanupReport.after_append (report : CleanupReport) (es es' : List Exchange) :
    report.after (es ++ es') = (report.after es).after es' := by
  simp only [after, List.countP_append, Nat.add_assoc]

namespace Engine

/-! ## What is due and what is made -/

variable {onFailure : OnFailure} {report report' : CleanupReport}
  {due due' made made' : List Exchange} {r : Except ImageError CleanupReport} {error : ImageError}
  {x : Exchange}

/-- Of the exchanges that are due, those that are made, with the report before them and what comes
of them. -/
inductive Conducted (onFailure : OnFailure) :
    CleanupReport → List Exchange → List Exchange → Except ImageError CleanupReport → Prop where
  | finished {report : CleanupReport} : Conducted onFailure report [] [] (.ok report)
  | stopped {report : CleanupReport} {x : Exchange} {due : List Exchange} {error : ImageError}
      (habort : onFailure = .abort) (hx : settle x = .error error) :
      Conducted onFailure report (x :: due) [x] (.error error)
  | next {report : CleanupReport} {x : Exchange} {due made : List Exchange}
      {r : Except ImageError CleanupReport} (hx : onFailure = .abort → settle x = .ok ())
      (hrest : Conducted onFailure (report.after [x]) due made r) :
      Conducted onFailure report (x :: due) (x :: made) r

namespace Conducted

theorem append (h : Conducted onFailure report due made (.ok report'))
    (h' : Conducted onFailure report' due' made' r) :
    Conducted onFailure report (due ++ due') (made ++ made') r := by
  generalize hr : (.ok report' : Except ImageError CleanupReport) = r₀ at h
  induction h with
  | finished =>
    cases hr
    exact h'
  | stopped => cases hr
  | next hx _ ih => exact .next hx (ih hr)

theorem append_of_error (h : Conducted onFailure report due made (.error error))
    (due' : List Exchange) : Conducted onFailure report (due ++ due') made (.error error) := by
  generalize hr : (.error error : Except ImageError CleanupReport) = r₀ at h
  induction h with
  | finished => cases hr
  | stopped habort hx =>
    cases hr
    exact .stopped habort hx
  | next hx _ ih => exact .next hx (ih hr)

theorem made_prefix (h : Conducted onFailure report due made r) : made <+: due := by
  induction h with
  | finished => exact List.prefix_rfl
  | stopped => exact ⟨_, rfl⟩
  | next _ _ ih => exact List.cons_prefix_cons.2 ⟨rfl, ih⟩

/-- If failures are left, all that is due is made and counted. -/
theorem of_ignore (h : Conducted .ignore report due made r) :
    made = due ∧ r = .ok (report.after due) := by
  induction h with
  | finished => exact ⟨rfl, rfl⟩
  | stopped habort => cases habort
  | @next report x due _ _ _ _ ih =>
    obtain ⟨rfl, rfl⟩ := ih
    exact ⟨rfl, by rw [← CleanupReport.after_append]; rfl⟩

/-- If they are not, a report is one of successes only. -/
theorem of_abort_ok (h : Conducted .abort report due made (.ok report')) :
    made = due ∧ report' = report.after due ∧ ∀ x ∈ due, settle x = .ok () := by
  generalize hr : (.ok report' : Except ImageError CleanupReport) = r at h
  induction h with
  | finished =>
    cases hr
    exact ⟨rfl, rfl, fun x hx => absurd hx List.not_mem_nil⟩
  | stopped => cases hr
  | @next report x due _ _ hx _ ih =>
    obtain ⟨rfl, rfl, hall⟩ := ih hr
    refine ⟨rfl, by rw [← CleanupReport.after_append]; rfl, ?_⟩
    exact List.forall_mem_cons.2 ⟨hx rfl, hall⟩

/-- Then a failure is that of the last exchange made, and the first one. -/
theorem of_abort_error (h : Conducted .abort report due made (.error error)) :
    ∃ before x, made = before ++ [x] ∧ (∀ y ∈ before, settle y = .ok ()) ∧
      settle x = .error error := by
  generalize hr : (.error error : Except ImageError CleanupReport) = r at h
  induction h with
  | finished => cases hr
  | @stopped _ x _ _ _ hx =>
    cases hr
    exact ⟨[], x, rfl, fun y hy => absurd hy List.not_mem_nil, hx⟩
  | @next _ x _ _ _ hx _ ih =>
    obtain ⟨before, y, rfl, hbefore, hy⟩ := ih hr
    exact ⟨x :: before, y, rfl, List.forall_mem_cons.2 ⟨hx rfl, hbefore⟩, hy⟩

end Conducted

/-! ## The program of a cleanup -/

variable {e : EngineEndpoint} {t t' : Tree} {es : List Exchange}

/-- The containers to remove by the answer to the call for them. -/
def toRemove (onFailure : OnFailure) (answer : Answer) : Except ImageError (List String) :=
  match toldContainers answer, onFailure with
  | .ok ids, _ => .ok ids
  | .error _, .ignore => .ok []
  | .error error, .abort => .error error

theorem toRemove_eq_ok {answer : Answer} {ids : List String}
    (h : toRemove onFailure answer = .ok ids) :
    listedContainers answer = ids ∧ (onFailure = .abort → toldContainers answer = .ok ids) := by
  unfold toRemove at h
  unfold listedContainers
  cases htold : toldContainers answer with
  | ok ids' =>
    rw [htold] at h
    cases h
    exact ⟨rfl, fun _ => rfl⟩
  | error error =>
    rw [htold] at h
    cases onFailure with
    | abort => cases h
    | ignore =>
      cases h
      exact ⟨rfl, nofun⟩

theorem toRemove_eq_error {answer : Answer} (h : toRemove onFailure answer = .error error) :
    onFailure = .abort ∧ toldContainers answer = .error error := by
  unfold toRemove at h
  cases htold : toldContainers answer with
  | ok ids =>
    rw [htold] at h
    cases h
  | error error' =>
    rw [htold] at h
    cases onFailure with
    | abort =>
      cases h
      exact ⟨rfl, rfl⟩
    | ignore => cases h

/-- A report with the outcome of a removal. -/
def recorded (onFailure : OnFailure) (removed : CleanupReport → CleanupReport)
    (report : CleanupReport) (outcome : Except ImageError Unit) :
    Except ImageError CleanupReport :=
  match outcome, onFailure with
  | .ok (), _ => .ok (removed report)
  | .error _, .ignore => .ok report.addFailure
  | .error error, .abort => .error error

theorem attempt_ask_bind {ε δ α β : Type} (q : Request) (outcome : Answer → Except ε α)
    (f : Except ε α → Program δ β) :
    ((ask q outcome).attempt >>= f) = send q fun answer => f (outcome answer) := rfl

theorem containersOf_eq (image : String) :
    containersOf e onFailure image =
      ask (.engine e (.listContainers image)) (toRemove onFailure) := by
  rw [containersOf, value_eq, attempt_ask_bind, ask]
  congr 1
  funext answer
  unfold toRemove toldContainers
  cases readValue (Json.list readContainerId) answer with
  | ok ids => rfl
  | error error => cases onFailure <;> rfl

theorem removeContainer_eq (id : String) :
    removeContainer e id = ask (.engine e (.removeContainer id)) containerOutcome := by
  show ((call e _).mapError _ >>= fun _ => done (.ok ())) = _
  rw [call_eq, ask_mapError, ask_bind_done]
  rfl

theorem record_ask (removed : CleanupReport → CleanupReport) (q : Request)
    (outcome : Answer → Except ImageError Unit) :
    record onFailure removed (ask q outcome) report =
      ask q fun answer => recorded onFailure removed report (outcome answer) := by
  rw [record, attempt_ask_bind, ask]
  congr 1
  funext answer
  cases outcome answer with
  | ok => rfl
  | error error => cases onFailure <;> rfl

/-- A removal that is recorded is conducted: it is counted as what it comes to, or ends the
cleanup. -/
theorem conducted_recorded {removed : CleanupReport → CleanupReport}
    (hremoved : settle x = .ok () → removed report = report.after [x])
    (hfailed : ∀ error, settle x = .error error → report.addFailure = report.after [x]) :
    Conducted onFailure report [x] [x] (recorded onFailure removed report (settle x)) := by
  cases hx : settle x with
  | ok =>
    show Conducted onFailure report [x] [x] (.ok (removed report))
    rw [hremoved hx]
    exact .next (fun _ => hx) .finished
  | error error =>
    cases onFailure with
    | abort => exact .stopped rfl hx
    | ignore =>
      show Conducted .ignore report [x] [x] (.ok report.addFailure)
      rw [hfailed error hx]
      exact .next nofun .finished

/-- The exchange for a container. -/
def containerExchange (e : EngineEndpoint) (container : String × Answer) : Exchange :=
  ⟨.engine e (.removeContainer container.1), container.2⟩

@[simp] theorem removesContainer_containerExchange (container : String × Answer) :
    (containerExchange e container).request.removesContainer = true := rfl

@[simp] theorem removesImage_containerExchange (container : String × Answer) :
    (containerExchange e container).request.removesImage = false := rfl

/-- The exchange for an image. -/
def imageExchange (e : EngineEndpoint) (image : String) (answer : Answer) : Exchange :=
  ⟨.engine e (.removeImage image), answer⟩

@[simp] theorem removesContainer_imageExchange (image : String) (answer : Answer) :
    (imageExchange e image answer).request.removesContainer = false := rfl

@[simp] theorem removesImage_imageExchange (image : String) (answer : Answer) :
    (imageExchange e image answer).request.removesImage = true := rfl

theorem conducted_containerExchange (container : String × Answer) :
    Conducted onFailure report [containerExchange e container] [containerExchange e container]
      (recorded onFailure .addContainer report (containerOutcome container.2)) := by
  refine conducted_recorded (x := containerExchange e container) (fun hx => ?_) fun error hx => ?_
  · simp [CleanupReport.after, CleanupReport.addContainer, containerGone, imageGone, removalFailed,
      Except.isOk, Except.toBool, hx]
  · simp [CleanupReport.after, CleanupReport.addFailure, containerGone, imageGone, removalFailed,
      Except.isOk, Except.toBool, hx]

theorem conducted_imageExchange (image : String) (answer : Answer) :
    Conducted onFailure report [imageExchange e image answer] [imageExchange e image answer]
      (recorded onFailure .addImage report (removalOutcome image answer)) := by
  refine conducted_recorded (x := imageExchange e image answer) (fun hx => ?_) fun error hx => ?_
  · simp [CleanupReport.after, CleanupReport.addImage, containerGone, imageGone, removalFailed,
      Except.isOk, Except.toBool, hx]
  · simp [CleanupReport.after, CleanupReport.addFailure, containerGone, imageGone, removalFailed,
      Except.isOk, Except.toBool, hx]

theorem conducted_of_yields_removeContainers {ids : List String}
    (h : (removeContainers e onFailure ids report).Yields t es t' r) :
    t' = t ∧ ∃ containers : List (String × Answer), containers.map (·.1) = ids ∧
      Conducted onFailure report (containers.map (containerExchange e)) es r := by
  induction ids generalizing report es r with
  | nil =>
    obtain ⟨rfl, rfl, rfl⟩ := yields_pure.1 h
    exact ⟨rfl, [], rfl, .finished⟩
  | cons id ids ih =>
    rw [removeContainers, removeContainer_eq, record_ask] at h
    obtain ⟨answer, rest, rfl, hrest⟩ := yields_ask_bind.1 h
    have hfirst : Conducted onFailure report [containerExchange e (id, answer)] _ _ :=
      conducted_containerExchange (id, answer)
    rcases hrest with ⟨error, herror, rfl, rfl, rfl⟩ | ⟨report', hreport, hrest⟩
    · -- The containers that are left are not asked for; what an answer would be is of no account.
      rw [herror] at hfirst
      refine ⟨rfl, (id, answer) :: ids.map fun id => (id, .dropped), ?_,
        hfirst.append_of_error _⟩
      rw [List.map_cons, List.map_map, Function.comp_def, List.map_id']
    · rw [hreport] at hfirst
      obtain ⟨rfl, containers, rfl, hcontainers⟩ := ih hrest
      exact ⟨rfl, (id, answer) :: containers, rfl, hfirst.append hcontainers⟩

/-- What is exchanged about one image: the containers that come from it are listed, those with an
id are removed in the order of the list, and then the image. -/
structure Removal where
  image : String
  listing : Answer
  containers : List (String × Answer)
  /-- The containers are the listed ones. -/
  named : containers.map (·.1) = listedContainers listing
  last : Answer

namespace Removal

/-- The exchange that lists the containers. -/
def listingExchange (e : EngineEndpoint) (round : Removal) : Exchange :=
  ⟨.engine e (.listContainers round.image), round.listing⟩

/-- The exchanges for the image, in order. -/
def exchanges (e : EngineEndpoint) (round : Removal) : List Exchange :=
  round.listingExchange e :: (round.containers.map (containerExchange e)
    ++ [imageExchange e round.image round.last])

/-- A removal of which nothing has been sent. -/
def unsent (image : String) : Removal := ⟨image, .dropped, [], rfl, .dropped⟩

theorem map_image_unsent (images : List String) :
    (images.map unsent).map (·.image) = images := by
  rw [List.map_map]
  exact List.map_id images

end Removal

theorem settle_listingExchange (round : Removal) :
    settle (round.listingExchange e) = (toldContainers round.listing).bind fun _ => .ok () := rfl

theorem conducted_listing {round : Removal}
    (hlisting : onFailure = .abort → ∃ ids, toldContainers round.listing = .ok ids)
    (h : Conducted onFailure report due made r) :
    Conducted onFailure report (round.listingExchange e :: due)
      (round.listingExchange e :: made) r := by
  refine .next (fun habort => ?_) h
  obtain ⟨ids, hids⟩ := hlisting habort
  rw [settle_listingExchange, hids]
  rfl

/-- A cleanup conducts the removals of its images. -/
theorem conducted_of_yields_removeImages {images : List String}
    (h : (removeImages e onFailure images report).Yields t es t' r) :
    t' = t ∧ ∃ rounds : List Removal, rounds.map (·.image) = images ∧
      Conducted onFailure report (rounds.flatMap (·.exchanges e)) es r := by
  induction images generalizing report es r with
  | nil =>
    obtain ⟨rfl, rfl, rfl⟩ := yields_pure.1 h
    exact ⟨rfl, [], rfl, .finished⟩
  | cons image images ih =>
    -- After a failure nothing is sent for the images that are left.
    have hstop (round : Removal) (himage : round.image = image) {made : List Exchange}
        {error : ImageError}
        (h : Conducted onFailure report (round.exchanges e) made (.error error)) :
        ∃ rounds : List Removal, rounds.map (·.image) = image :: images ∧
          Conducted onFailure report (rounds.flatMap (·.exchanges e)) made (.error error) := by
      refine ⟨round :: images.map .unsent, ?_, h.append_of_error _⟩
      rw [List.map_cons, himage, Removal.map_image_unsent]
    rw [removeImages, containersOf_eq, remove_eq] at h
    obtain ⟨listing, rest, rfl, ⟨error, hlisting, rfl, rfl, rfl⟩ | ⟨ids, hlisting, h₁⟩⟩ :=
      yields_ask_bind.1 h
    · obtain ⟨habort, htold⟩ := toRemove_eq_error hlisting
      have hlisted : listedContainers listing = [] := by
        rw [listedContainers, htold]
        rfl
      refine ⟨rfl, hstop ⟨image, listing, [], hlisted.symm, .dropped⟩ rfl (.stopped habort ?_)⟩
      rw [settle_listingExchange, htold]
      rfl
    obtain ⟨hlisted, htold⟩ := toRemove_eq_ok hlisting
    rcases yields_bind.1 h₁ with ⟨error, hcontainers, rfl⟩ |
      ⟨report', es₁, t₁, es₂, hcontainers, h₂, rfl⟩
    · obtain ⟨rfl, containers, hnamed, hcontainers⟩ :=
        conducted_of_yields_removeContainers hcontainers
      exact ⟨rfl, hstop ⟨image, listing, containers, hnamed.trans hlisted.symm, .dropped⟩ rfl
        (conducted_listing (fun habort => ⟨ids, htold habort⟩) (hcontainers.append_of_error _))⟩
    obtain ⟨rfl, containers, hnamed, hcontainers⟩ :=
      conducted_of_yields_removeContainers hcontainers
    rw [record_ask] at h₂
    obtain ⟨last, rest, rfl, hlast⟩ := yields_ask_bind.1 h₂
    let round : Removal := ⟨image, listing, containers, hnamed.trans hlisted.symm, last⟩
    have hround : Conducted onFailure report (round.exchanges e)
        (round.listingExchange e :: (es₁ ++ [imageExchange e image last]))
        (recorded onFailure .addImage report' (removalOutcome image last)) :=
      conducted_listing (fun habort => ⟨ids, htold habort⟩)
        (hcontainers.append (conducted_imageExchange image last))
    rcases hlast with ⟨error, himage, rfl, rfl, rfl⟩ | ⟨report'', himage, h₃⟩
    · rw [himage] at hround
      exact ⟨rfl, hstop round rfl hround⟩
    · rw [himage] at hround
      obtain ⟨rfl, rounds, rfl, hrounds⟩ := ih h₃
      refine ⟨rfl, round :: rounds, rfl, ?_⟩
      have h := hround.append hrounds
      rwa [List.cons_append, List.append_assoc] at h

/-! ## The account -/

/-- Every removal is counted once: as a container or an image that has gone, or as a failure. -/
theorem countP_gone_add (es : List Exchange) :
    es.countP containerGone + es.countP imageGone + es.countP removalFailed =
      es.countP (·.request.removesContainer) + es.countP (·.request.removesImage) := by
  have hcount : ∀ container image ok : Bool, ¬ (container = true ∧ image = true) →
      (if container && ok then 1 else 0) + (if image && ok then 1 else 0) +
          (if (container || image) && !ok then 1 else 0) =
        (if container then 1 else 0) + if image then 1 else 0 := by
    decide
  induction es with
  | nil => rfl
  | cons x es ih =>
    have hx : ¬ (x.request.removesContainer = true ∧ x.request.removesImage = true) := by
      rcases x with ⟨_ | ⟨_, _ | _⟩, _⟩ <;> simp [Request.removesContainer, Request.removesImage]
    have hone : (if containerGone x then 1 else 0) + (if imageGone x then 1 else 0) +
          (if removalFailed x then 1 else 0) =
        (if x.request.removesContainer then 1 else 0) + if x.request.removesImage then 1 else 0 :=
      hcount _ _ _ hx
    simp only [List.countP_cons]
    omega

/-- What is due for images: one removal of each image, and one of each container that is listed. -/
theorem countP_removesImage (rounds : List Removal) :
    (rounds.flatMap (·.exchanges e)).countP (·.request.removesImage) = rounds.length := by
  induction rounds with
  | nil => rfl
  | cons round rounds ih =>
    have hround : (round.exchanges e).countP (·.request.removesImage) = 1 := by
      simp [Removal.exchanges, Removal.listingExchange, Request.removesImage,
        List.countP_map, Function.comp_def, imageExchange, containerExchange]
    rw [List.flatMap_cons, List.countP_append, ih, hround, List.length_cons, Nat.add_comm]

theorem countP_removesContainer (rounds : List Removal) :
    (rounds.flatMap (·.exchanges e)).countP (·.request.removesContainer) =
      (rounds.map fun round => (listedContainers round.listing).length).sum := by
  induction rounds with
  | nil => rfl
  | cons round rounds ih =>
    have hround : (round.exchanges e).countP (·.request.removesContainer) =
        (listedContainers round.listing).length := by
      rw [← round.named]
      simp [Removal.exchanges, Removal.listingExchange, Request.removesContainer,
        List.countP_map, Function.comp_def, imageExchange, containerExchange]
    rw [List.flatMap_cons, List.countP_append, ih, hround, List.map_cons, List.sum_cons]

theorem countP_of_settled {es : List Exchange} (h : ∀ x ∈ es, settle x = .ok ()) :
    es.countP removalFailed = 0 ∧ es.countP imageGone = es.countP (·.request.removesImage) := by
  constructor
  · refine List.countP_eq_zero.2 fun x hx => ?_
    simp [removalFailed, h x hx, Except.isOk, Except.toBool]
  · refine List.countP_congr fun x hx => ?_
    simp [imageGone, h x hx, Except.isOk, Except.toBool]

/-- **The account of a cleanup.** What is due are the removals of the images in order: for each the
listing of its containers, the removal of those that are listed with an id, and its own removal.

If failures are left, all that is due is made.  The report counts the containers and images that
have gone, and with the failures these are as many as the containers that were listed and the
images.  If failures are not left, there is a report if and only if everything has gone well, and it
is then one of no failures and of all images; otherwise nothing is sent after the first exchange
that fails, and its error is that of the cleanup. -/
theorem removeAll_accounts (e : EngineEndpoint) (onFailure : OnFailure) (images : List String)
    (server : Server) (w : World) :
    ∃ (es : List Exchange) (rounds : List Removal),
      ((removeAll e onFailure images).run server w).2.requests =
        w.requests ++ es.map (·.request) ∧
      (∀ before x after, es = before ++ x :: after →
        x.answer = server (w.requests ++ before.map (·.request) ++ [x.request])) ∧
      rounds.map (·.image) = images ∧ es <+: rounds.flatMap (·.exchanges e) ∧
      (onFailure = .ignore → es = rounds.flatMap (·.exchanges e) ∧
        ∃ report, ((removeAll e onFailure images).run server w).1 = .ok report ∧
          report.containersRemoved = es.countP containerGone ∧
          report.imagesRemoved = es.countP imageGone ∧
          report.containersRemoved + report.imagesRemoved + report.failures =
            (rounds.map fun round => (listedContainers round.listing).length).sum
              + images.length) ∧
      (onFailure = .abort →
        ((∃ report, ((removeAll e onFailure images).run server w).1 = .ok report) ↔
          ∀ x ∈ es, settle x = .ok ()) ∧
        (∀ report, ((removeAll e onFailure images).run server w).1 = .ok report →
          es = rounds.flatMap (·.exchanges e) ∧ report.failures = 0 ∧
            report.imagesRemoved = images.length) ∧
        ∀ error, ((removeAll e onFailure images).run server w).1 = .error error →
          ∃ before x, es = before ++ [x] ∧ (∀ y ∈ before, settle y = .ok ()) ∧
            settle x = .error error) := by
  obtain ⟨-, rounds, himages, h⟩ :=
    conducted_of_yields_removeImages (yields_run server w (removeAll e onFailure images))
  refine ⟨(removeAll e onFailure images).exchanges server w, rounds, requests_run server w _,
    fun before x after => answer_of_exchanges_eq, himages, h.made_prefix, ?_, ?_⟩
  · rintro rfl
    obtain ⟨hmade, hr⟩ := h.of_ignore
    refine ⟨hmade, _, hr, ?_⟩
    rw [hmade]
    refine ⟨Nat.zero_add _, Nat.zero_add _, ?_⟩
    have htotal := countP_gone_add (rounds.flatMap (·.exchanges e))
    rw [countP_removesContainer, countP_removesImage, ← rounds.length_map, himages] at htotal
    simpa [CleanupReport.after, CleanupReport.empty] using htotal
  · rintro rfl
    cases hr : ((removeAll e .abort images).run server w).1 with
    | ok report =>
      rw [hr] at h
      obtain ⟨hmade, rfl, hall⟩ := h.of_abort_ok
      refine ⟨⟨fun _ => hmade ▸ hall, fun _ => ⟨_, rfl⟩⟩, ?_, nofun⟩
      rintro _ ⟨⟩
      obtain ⟨hfailed, hgone⟩ := countP_of_settled hall
      refine ⟨hmade, ?_, ?_⟩
      · simp [CleanupReport.after, CleanupReport.empty, hfailed]
      · rw [countP_removesImage, ← rounds.length_map, himages] at hgone
        simp [CleanupReport.after, CleanupReport.empty, hgone]
    | error error =>
      rw [hr] at h
      obtain ⟨before, x, hmade, hbefore, hx⟩ := h.of_abort_error
      refine ⟨⟨nofun, fun hall => ?_⟩, nofun, ?_⟩
      · rw [hall x (by simp [hmade])] at hx
        cases hx
      · rintro _ ⟨⟩
        exact ⟨before, x, hmade, hbefore, hx⟩

end Engine

end ImagePipeline
