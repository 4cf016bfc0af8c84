import ImagePipeline.Proofs.Lockstep
import ImagePipeline.Service.Fetch

/-!
# The authorization header

Two requests may differ in nothing but the value of one authorization header.  Fetching follows the
same redirections for both: the header stays on the way to the same host, and elsewhere it is gone,
so that no difference is left.

* `Web.Request.Apart`: the difference.
* `Web.Request.Twin`: no difference, or that one in requests to the host of an address.
* `Fetch.redirect?_twin`: a redirection goes on with twins.
* `Fetch.lockstep_json`: fetching with twins is in lockstep.
-/

namespace ImagePipeline

namespace Web

/-- Two addresses with one host and TCP number. -/
def Url.SameHost (u v : Url) : Prop :=
  u.host = v.host ∧ u.tcpNumber.getD (if u.secure then 443 else 80)
    = v.tcpNumber.getD (if v.secure then 443 else 80)

namespace Request

/-- A request goes to the host in an address as it is written. -/
def GoesTo (r : Request) (address : String) : Prop :=
  ∃ home, Url.read? address = some home ∧ home.SameHost r.url

/-- Two requests that are the same but for the value of one authorization header. -/
inductive Apart (v v' : String) : Request → Request → Prop where
  | intro (r : Request) (before after : List (String × String)) :
    Apart v v' { r with headers := before ++ ("authorization", v) :: after }
      { r with headers := before ++ ("authorization", v') :: after }

/-- Two requests that are the same, or go to the host in an address and differ in the value of one
authorization header. -/
inductive Twin (address v v' : String) : Request → Request → Prop where
  | same (r : Request) : Twin address v v' r r
  | apart {r r' : Request} (there : r.GoesTo address) (values : Apart v v' r r') :
    Twin address v v' r r'

variable {address v v' : String} {r r' : Request}

theorem GoesTo.of_sameHost {q : Request} (h : r.GoesTo address) (hsame : r.url.SameHost q.url) :
    q.GoesTo address := by
  obtain ⟨home, hread, hhost, htcp⟩ := h
  exact ⟨home, hread, hhost.trans hsame.1, htcp.trans hsame.2⟩

namespace Apart

theorem url_eq (h : Apart v v' r r') : r.url = r'.url := by
  cases h
  rfl

/-- One more header on both sides leaves the difference where it is. -/
theorem withHeader (h : Apart v v' r r') (name value : String) :
    Apart v v' (r.withHeader name value) (r'.withHeader name value) := by
  obtain ⟨r, before, after⟩ := h
  have hadded : Apart v v' _ _ :=
    intro r before (after ++ [(String.ofList (name.toList.map Char.toLower), value)])
  simpa only [Request.withHeader, List.append_assoc, List.cons_append] using hadded

theorem withBody (h : Apart v v' r r') (body : Option Json) :
    Apart v v' { r with body } { r' with body } := by
  obtain ⟨r, before, after⟩ := h
  exact intro { r with body } before after

/-- Whether a request can be sent depends on the values only as far as they are legal. -/
theorem sendable_eq (hv : isHeaderValue v = true) (hv' : isHeaderValue v' = true)
    (h : Apart v v' r r') : r.sendable = r'.sendable := by
  obtain ⟨r, before, after⟩ := h
  simp only [sendable, List.all_append, List.all_cons, hv, hv']

/-- Requests come apart by their authorization. -/
theorem of_authorization (r : Request) (v v' : String) :
    Apart v v' (r.withHeader "authorization" v) (r.withHeader "authorization" v') :=
  intro r r.headers []

end Apart

theorem Twin.url_eq (h : Twin address v v' r r') : r.url = r'.url := by
  cases h with
  | same => rfl
  | apart there values => exact values.url_eq

theorem Twin.sendable_eq (hv : isHeaderValue v = true) (hv' : isHeaderValue v' = true)
    (h : Twin address v v' r r') : r.sendable = r'.sendable := by
  cases h with
  | same => rfl
  | apart there values => exact values.sendable_eq hv hv'

theorem Twin.withHeader (h : Twin address v v' r r') (name value : String) :
    Twin address v v' (r.withHeader name value) (r'.withHeader name value) := by
  cases h with
  | same => exact .same _
  | apart there values => exact .apart there (values.withHeader name value)

theorem Twin.withBody (h : Twin address v v' r r') (body : Option Json) :
    Twin address v v' { r with body } { r' with body } := by
  cases h with
  | same => exact .same _
  | apart there values => exact .apart there (values.withBody body)

end Request

end Web

namespace Fetch

open Program Web.Request

variable {address v v' : String} {r r' : Web.Request} {R : Request → Request → Prop} {α : Type}

/-- A request goes to the host in the address that it was made of. -/
theorem goesTo_of_request {method : Web.Method} {address : String} {r : Web.Request}
    (h : request method address = .ok r) : r.GoesTo address := by
  unfold request at h
  cases hread : Web.Url.read? address with
  | none =>
    rw [hread] at h
    cases h
  | some home =>
    rw [hread] at h
    cases hinfo : home.userInfo with
    | none =>
      simp only [hinfo] at h
      cases h
      exact ⟨home, hread, rfl, rfl⟩
    | some info =>
      simp only [hinfo] at h
      cases h
      exact ⟨home, hread, rfl, rfl⟩

/-- The headers that go on to the same host have the difference. -/
theorem carryHeaders_of_sameHost {next : Web.Url} (hsame : r.url.SameHost next)
    (before after : List (String × String)) : ∃ before' after', ∀ v,
      carryHeaders { r with headers := before ++ ("authorization", v) :: after } next =
        before' ++ ("authorization", v) :: after' := by
  by_cases hplain : (r.url.secure && !next.secure) = true
  · refine ⟨before, after, fun v => ?_⟩
    rw [carryHeaders, if_pos hplain]
    exact if_pos hsame
  · refine ⟨before.filter (·.1 ≠ "referer"), after.filter (·.1 ≠ "referer") ++
      [("referer", ({ r.url with userInfo := none, fragment := none } : Web.Url).text)],
      fun v => ?_⟩
    rw [carryHeaders, if_neg hplain]
    simp only [if_pos (show _ ∧ _ from hsame)]
    rw [List.filter_append, List.filter_cons_of_pos (by simp), List.append_assoc,
      List.cons_append]

/-- The headers that go on to another host have no authorization. -/
theorem carryHeaders_of_not_sameHost {next : Web.Url} {before after : List (String × String)}
    (hother : ¬ r.url.SameHost next) (v v' : String) :
    carryHeaders { r with headers := before ++ ("authorization", v) :: after } next =
      carryHeaders { r with headers := before ++ ("authorization", v') :: after } next := by
  have hdropped : ∀ v, (before ++ ("authorization", v) :: after).filter (·.1 ≠ "authorization") =
      before.filter (·.1 ≠ "authorization") ++ after.filter (·.1 ≠ "authorization") := by
    intro v
    rw [List.filter_append, List.filter_cons_of_neg (by simp)]
  unfold carryHeaders
  simp only [if_neg (show ¬ (_ ∧ _) from hother), hdropped]

/-- A redirection goes on with twins, if it goes on at all. -/
theorem redirect?_twin (h : Twin address v v' r r') (reply : Reply) :
    Option.Rel (Twin address v v') (redirect? r reply) (redirect? r' reply) := by
  cases h with
  | same =>
    cases redirect? r reply with
    | none => exact .none
    | some next => exact .some (.same next)
  | apart there values =>
    obtain ⟨r, before, after⟩ := values
    have hbind {α : Type} {x : Option α} {f f' : α → Option Web.Request}
        (hf : ∀ a, Option.Rel (Twin address v v') (f a) (f' a)) :
        Option.Rel (Twin address v v') (x >>= f) (x >>= f') := by
      cases x with
      | none => exact .none
      | some a => exact hf a
    unfold redirect?
    refine hbind fun _ => hbind fun location => hbind fun url => ?_
    by_cases hsame : r.url.SameHost url
    · obtain ⟨before', after', hcarried⟩ := carryHeaders_of_sameHost hsame before after
      rw [hcarried v, hcarried v']
      split
      · exact .some (.apart (there.of_sameHost hsame) (.intro { r with url } before' after'))
      · exact .some (.apart (there.of_sameHost hsame)
          (.intro ⟨.get, url, [], none⟩ before' after'))
    · rw [carryHeaders_of_not_sameHost hsame v v']
      split
      · exact .some (.same _)
      · exact .some (.same _)

theorem lockstep_take {goOn goOn' : Web.Request → Program ServiceError Response}
    (h : Twin address v v' r r')
    (hgoOn : ∀ q q', Twin address v v' q q' → Lockstep R Eq (goOn q) (goOn' q'))
    (answer : Answer) : Lockstep R Eq (take r goOn answer) (take r' goOn' answer) := by
  cases answer with
  | unreachable => exact .done (.refl _)
  | dropped => exact .done (.refl _)
  | reply reply =>
    have hnext := redirect?_twin h reply
    simp only [take]
    generalize redirect? r reply = next at hnext ⊢
    generalize redirect? r' reply = next' at hnext ⊢
    cases hnext with
    | none =>
      rw [h.url_eq]
      exact .done (.refl _)
    | some htwin => exact hgoOn _ _ htwin

section

variable (hR : ∀ q q', Twin address v v' q q' → R (.web q) (.web q'))
include hR

theorem lockstep_follow (n : Nat) (h : Twin address v v' r r') :
    Lockstep R Eq (follow n r) (follow n r') := by
  induction n generalizing r r' with
  | zero =>
    exact .send (hR _ _ h) fun answer =>
      lockstep_take h (fun _ _ _ => .done (.refl _)) answer
  | succ n ih => exact .send (hR _ _ h) fun answer => lockstep_take h (fun _ _ => ih) answer

variable (hv : Web.isHeaderValue v = true) (hv' : Web.isHeaderValue v' = true)
include hv hv'

theorem lockstep_send (h : Twin address v v' r r') : Lockstep R Eq (send r) (send r') := by
  unfold send
  rw [← h.sendable_eq hv hv']
  split
  · exact lockstep_follow hR redirectLimit h
  · exact .done (.refl _)

theorem lockstep_success (h : Twin address v v' r r') :
    Lockstep R Eq (success r) (success r') := by
  refine (lockstep_send hR hv hv' h).andThen fun response => ?_
  split
  · exact .done (.refl _)
  · exact .done (.refl _)

/-- Fetching with twins is in lockstep. -/
theorem lockstep_json (read : Json → Option α) (h : Twin address v v' r r') :
    Lockstep R Eq (json read r) (json read r') := by
  refine (lockstep_success hR hv hv' h).andThen fun response => ?_
  split
  · exact .done (.refl _)
  · exact .done (.refl _)

end

end Fetch

end ImagePipeline
