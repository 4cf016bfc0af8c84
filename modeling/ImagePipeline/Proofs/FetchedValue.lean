import ImagePipeline.Proofs.SchedulerTranscript

/-!
# What fetching comes to

A chain of exchanges ends with an answer that points nowhere, or without one.  What it comes to can
be read from its last exchange alone.

* `Fetch.Settled`: the response that a chain ends with; `send_of_yields` says that a request comes
  to that response and to no other.
* `Fetch.Delivers`: the value in the body of that response; `json_of_yields` says the same of
  fetching a value.
-/

namespace ImagePipeline.Fetch

open Files (Tree)
open Program

variable {t t' : Tree} {es : List Exchange} {r : Web.Request} {response : Response}

/-- The response that a chain ends with: the last answer, if it does not point anywhere else. -/
def Settled (es : List Exchange) (response : Response) : Prop :=
  ∃ front r reply, es = front ++ [⟨.web r, .reply reply⟩] ∧ redirect? r reply = none ∧
    response = ⟨r.url, reply.status, reply.body.toText⟩

/-- The value that a chain brings: the body of a success, as it is read. -/
def Delivers {α : Type} (read : Json → Option α) (es : List Exchange) (a : α) : Prop :=
  ∃ response, Settled es response ∧ isSuccess response.status = true ∧
    (Json.parse? response.body).bind read = some a

theorem settled_singleton {answer : Answer} : Settled [⟨.web r, answer⟩] response ↔
    ∃ reply, answer = .reply reply ∧ redirect? r reply = none ∧
      response = ⟨r.url, reply.status, reply.body.toText⟩ := by
  constructor
  · rintro ⟨front, r', reply, hes, h⟩
    rcases List.singleton_eq_append_iff.1 hes with ⟨-, hlast⟩ | ⟨-, hlast⟩
    · cases hlast
      exact ⟨reply, rfl, h⟩
    · cases hlast
  · rintro ⟨reply, rfl, h⟩
    exact ⟨[], r, reply, rfl, h⟩

theorem settled_cons {x : Exchange} (hes : es ≠ []) :
    Settled (x :: es) response ↔ Settled es response := by
  constructor
  · rintro ⟨front, r', reply, hes', h⟩
    cases front with
    | nil => exact absurd (List.cons.inj hes').2 hes
    | cons y front => exact ⟨front, r', reply, (List.cons.inj hes').2, h⟩
  · rintro ⟨front, r', reply, rfl, h⟩
    exact ⟨x :: front, r', reply, rfl, h⟩

theorem Settled.unique {response' : Response} (h : Settled es response)
    (h' : Settled es response') : response = response' := by
  obtain ⟨front, r, reply, rfl, -, rfl⟩ := h
  obtain ⟨front', r', reply', hes, -, rfl⟩ := h'
  cases (List.append_inj_right' hes rfl)
  rfl

theorem Delivers.unique {α : Type} {read : Json → Option α} {a b : α} (h : Delivers read es a)
    (h' : Delivers read es b) : a = b := by
  obtain ⟨response, hsettled, -, hread⟩ := h
  obtain ⟨response', hsettled', -, hread'⟩ := h'
  cases hsettled.unique hsettled'
  exact Option.some.inj (hread.symm.trans hread')

theorem settled_of_yields_take {goOn : Web.Request → Program ServiceError Response}
    {answer : Answer} {res : Except ServiceError Response}
    (hgoOn : ∀ next, (goOn next).Yields t es t' res →
      (es = [] ∧ ∀ response, res ≠ .ok response) ∨
        (es ≠ [] ∧ ∀ response, res = .ok response ↔ Settled es response))
    (h : (take r goOn answer).Yields t es t' res) :
    res = .ok response ↔ Settled (⟨.web r, answer⟩ :: es) response := by
  cases answer with
  | unreachable =>
    obtain ⟨rfl, -, rfl⟩ := yields_fail.1 h
    simp [settled_singleton]
  | dropped =>
    obtain ⟨rfl, -, rfl⟩ := yields_fail.1 h
    simp [settled_singleton]
  | reply reply =>
    rw [take] at h
    cases hnext : redirect? r reply with
    | none =>
      rw [hnext] at h
      obtain ⟨rfl, -, rfl⟩ := yields_pure.1 h
      simp [settled_singleton, hnext, eq_comm]
    | some next =>
      rw [hnext] at h
      rcases hgoOn next h with ⟨rfl, hres⟩ | ⟨hes, hres⟩
      · simp [settled_singleton, hnext, hres]
      · rw [settled_cons hes, hres]

theorem settled_of_yields_follow {budget : Nat} {res : Except ServiceError Response}
    (h : (follow budget r).Yields t es t' res) : res = .ok response ↔ Settled es response := by
  induction budget generalizing r es response with
  | zero =>
    obtain ⟨answer, rest, rfl, htake⟩ := yields_send.1 h
    refine settled_of_yields_take (fun next hnext => .inl ?_) htake
    obtain ⟨rfl, -, rfl⟩ := yields_fail.1 hnext
    exact ⟨rfl, nofun⟩
  | succ budget ih =>
    obtain ⟨answer, rest, rfl, htake⟩ := yields_send.1 h
    refine settled_of_yields_take (fun next hnext => .inr ⟨?_, fun _ => ih hnext⟩) htake
    obtain ⟨answer', rest', rfl⟩ := (followed_of_yields_follow hnext).exists_head
    exact List.cons_ne_nil _ _

/-- A request that can be sent comes to the response that its chain ends with. -/
theorem send_of_yields {res : Except ServiceError Response} (hr : r.sendable = true)
    (h : (send r).Yields t es t' res) :
    Followed r es ∧ ∀ response, res = .ok response ↔ Settled es response := by
  rw [send, if_pos hr] at h
  exact ⟨followed_of_yields_follow h, fun response => settled_of_yields_follow h⟩

/-- Fetching a value comes to the one that the chain brings. -/
theorem json_of_yields {α : Type} {read : Json → Option α} {res : Except ServiceError α}
    (hr : r.sendable = true) (h : (json read r).Yields t es t' res) :
    Followed r es ∧ ∀ a, res = .ok a ↔ Delivers read es a := by
  rw [json_eq] at h
  obtain ⟨r₁, h₁, rfl⟩ := yields_bind_done.1 h
  rw [success_eq] at h₁
  obtain ⟨r₂, h₂, rfl⟩ := yields_bind_done.1 h₁
  obtain ⟨hes, hsettled⟩ := send_of_yields hr h₂
  refine ⟨hes, fun a => ?_⟩
  unfold Delivers
  simp only [← hsettled]
  cases r₂ with
  | error error => simp [Except.bind]
  | ok response =>
    cases hsuccess : isSuccess response.status with
    | false => simp [Except.bind, hsuccess]
    | true =>
      cases hread : (Json.parse? response.body).bind read with
      | none => simp [Except.bind, hsuccess, hread]
      | some b => simp [Except.bind, hsuccess, hread]

end ImagePipeline.Fetch
