import ImagePipeline.Program

/-!
# Transcripts of programs

A program does not know its server.  What a run leaves in the log is therefore described without
one: a *transcript* of a program is a list of exchanges, each a request with its answer, that
follows one path through the tree of the program.  Whatever holds of all transcripts holds of
every run, with every server, however its answers depend on the requests before.

* `Program.Yields`: the transcripts of a program, with the files before and after and the result.
* `yields_bind`, `yields_attempt`, `yields_mapError`: a transcript of a composed program falls
  apart into transcripts of its parts.
* `Yields.unique`: the exchanges decide how the program ends.
* `Program.exchanges`: the transcript of a run; `yields_run`, `requests_run` and
  `answer_of_exchanges_eq` say that it is one, that the log is made of its requests and that
  its answers are those of the server, and `Yields.eq_run` that there is no other.
* `exists_round_of_flatMap_eq`, `eq_of_flatMap_append_eq`: in a transcript made of rounds every
  exchange lies in exactly one of them.
* `Rounds`: the rounds of a loop, in order, until one fails; `loop_of_yields` finds them in a
  transcript of one.
* `Program.Only`: all requests a program may ever send are of one kind, and files stay as they
  are; `Yields.tree_eq` and `Yields.forall_request` read that on a transcript.
-/

namespace ImagePipeline

open Files (Tree)

/-- A request with what came of it. -/
structure Exchange where
  request : Request
  answer : Answer

namespace Program

variable {ε δ α β : Type}

/-- With the files `t` the program can make the exchanges `es`, in order, leave the files `t'` and
end with the result `r`. -/
def Yields : Program ε α → Tree → List Exchange → Tree → Except ε α → Prop
  | done result, t, es, t', r => es = [] ∧ t' = t ∧ r = result
  | send q next, t, es, t', r =>
    ∃ answer rest, es = ⟨q, answer⟩ :: rest ∧ (next answer).Yields t rest t' r
  | print _ next, t, es, t', r => next.Yields t es t' r
  | look next, t, es, t', r => (next t).Yields t es t' r
  | change tree next, _, es, t', r => next.Yields tree es t' r

variable {t t' : Tree} {es : List Exchange}

@[simp] theorem yields_done {result r : Except ε α} :
    (done result).Yields t es t' r ↔ es = [] ∧ t' = t ∧ r = result := Iff.rfl

@[simp] theorem yields_pure {a : α} {r : Except ε α} :
    (pure a : Program ε α).Yields t es t' r ↔ es = [] ∧ t' = t ∧ r = .ok a := Iff.rfl

@[simp] theorem yields_fail {e : ε} {r : Except ε α} :
    (fail e : Program ε α).Yields t es t' r ↔ es = [] ∧ t' = t ∧ r = .error e := Iff.rfl

@[simp] theorem yields_ofExcept {result r : Except ε α} :
    (ofExcept result).Yields t es t' r ↔ es = [] ∧ t' = t ∧ r = result := Iff.rfl

theorem yields_send {q : Request} {next : Answer → Program ε α} {r : Except ε α} :
    (send q next).Yields t es t' r ↔
      ∃ answer rest, es = ⟨q, answer⟩ :: rest ∧ (next answer).Yields t rest t' r := Iff.rfl

@[simp] theorem yields_print {text : String} {next : Program ε α} {r : Except ε α} :
    (print text next).Yields t es t' r ↔ next.Yields t es t' r := Iff.rfl

theorem yields_look {next : Tree → Program ε α} {r : Except ε α} :
    (look next).Yields t es t' r ↔ (next t).Yields t es t' r := Iff.rfl

@[simp] theorem yields_writeLine {text : String} {r : Except ε Unit} :
    (writeLine text).Yields t es t' r ↔ es = [] ∧ t' = t ∧ r = .ok () := Iff.rfl

@[simp] theorem yields_files {r : Except ε Tree} :
    files.Yields t es t' r ↔ es = [] ∧ t' = t ∧ r = .ok t := Iff.rfl

/-- A transcript of two programs in a row ends with the failure of the first, or is one of the
first followed by one of the second. -/
theorem yields_bind {p : Program ε α} {f : α → Program ε β} {r : Except ε β} :
    (p >>= f).Yields t es t' r ↔
      (∃ e, p.Yields t es t' (.error e) ∧ r = .error e) ∨
      ∃ a es₁ t₁ es₂, p.Yields t es₁ t₁ (.ok a) ∧ (f a).Yields t₁ es₂ t' r ∧ es = es₁ ++ es₂ := by
  show (p.bind f).Yields t es t' r ↔ _
  induction p generalizing t es with
  | done result =>
    cases result with
    | error e => simp [Program.bind, and_assoc]
    | ok a =>
      constructor
      · exact fun h => .inr ⟨a, [], t, es, ⟨rfl, rfl, rfl⟩, h, rfl⟩
      · rintro (⟨e, ⟨-, -, he⟩, -⟩ | ⟨b, es₁, t₁, es₂, ⟨rfl, rfl, hb⟩, h, rfl⟩)
        · cases he
        · cases hb
          exact h
  | send q next ih =>
    simp only [Program.bind, Yields, ih]
    constructor
    · rintro ⟨answer, rest, rfl, ⟨e, h, rfl⟩ | ⟨a, es₁, t₁, es₂, h₁, h₂, rfl⟩⟩
      · exact .inl ⟨e, ⟨answer, rest, rfl, h⟩, rfl⟩
      · exact .inr ⟨a, ⟨q, answer⟩ :: es₁, t₁, es₂, ⟨answer, es₁, rfl, h₁⟩, h₂, rfl⟩
    · rintro (⟨e, ⟨answer, rest, rfl, h⟩, rfl⟩ |
        ⟨a, es₁, t₁, es₂, ⟨answer, rest, rfl, h₁⟩, h₂, rfl⟩)
      · exact ⟨answer, rest, rfl, .inl ⟨e, h, rfl⟩⟩
      · exact ⟨answer, rest ++ es₂, rfl, .inr ⟨a, rest, t₁, es₂, h₁, h₂, rfl⟩⟩
  | print text next ih => exact ih
  | look next ih => exact ih t
  | change tree next ih => exact ih

/-- What is exchanged decides how the program ends. -/
theorem Yields.unique {p : Program ε α} {t₁ t₂ : Tree} {r₁ r₂ : Except ε α}
    (h₁ : p.Yields t es t₁ r₁) (h₂ : p.Yields t es t₂ r₂) : t₁ = t₂ ∧ r₁ = r₂ := by
  induction p generalizing t es with
  | done result => exact ⟨h₁.2.1.trans h₂.2.1.symm, h₁.2.2.trans h₂.2.2.symm⟩
  | send q next ih =>
    obtain ⟨answer, rest, rfl, h₁⟩ := h₁
    obtain ⟨answer', rest', hes, h₂⟩ := h₂
    obtain ⟨hx, rfl⟩ := List.cons.inj hes
    cases hx
    exact ih answer h₁ h₂
  | print text next ih => exact ih h₁ h₂
  | look next ih => exact ih t h₁ h₂
  | change tree next ih => exact ih h₁ h₂

theorem yields_files_bind {f : Tree → Program ε β} {r : Except ε β} :
    (files >>= f).Yields t es t' r ↔ (f t).Yields t es t' r := Iff.rfl

theorem yields_setFiles_bind {rest : Tree} {f : Unit → Program ε β} {r : Except ε β} :
    (setFiles rest >>= f).Yields t es t' r ↔ (f ()).Yields rest es t' r := Iff.rfl

theorem yields_writeLine_bind {text : String} {f : Unit → Program ε β} {r : Except ε β} :
    (writeLine text >>= f).Yields t es t' r ↔ (f ()).Yields t es t' r := Iff.rfl

/-- A program whose result is changed by a function has the same transcripts. -/
theorem yields_bind_done {p : Program ε α} {g : α → Except ε β} {r : Except ε β} :
    (p >>= fun a => done (g a)).Yields t es t' r ↔ ∃ r₀, p.Yields t es t' r₀ ∧ r = r₀.bind g := by
  rw [yields_bind]
  constructor
  · rintro (⟨e, h, rfl⟩ | ⟨a, es₁, t₁, es₂, h, ⟨rfl, rfl, rfl⟩, rfl⟩)
    · exact ⟨.error e, h, rfl⟩
    · exact ⟨.ok a, by rwa [List.append_nil], rfl⟩
  · rintro ⟨r₀, h, rfl⟩
    cases r₀ with
    | error e => exact .inl ⟨e, h, rfl⟩
    | ok a => exact .inr ⟨a, es, t', [], h, ⟨rfl, rfl, rfl⟩, (List.append_nil es).symm⟩

/-- A failure as a value has the transcripts of the program that may fail. -/
theorem yields_attempt {p : Program ε α} {r : Except δ (Except ε α)} :
    (p.attempt : Program δ _).Yields t es t' r ↔ ∃ r₀, p.Yields t es t' r₀ ∧ r = .ok r₀ := by
  induction p generalizing t es with
  | done result => simp [attempt, and_assoc]
  | send q next ih =>
    simp only [attempt, Yields, ih]
    constructor
    · rintro ⟨answer, rest, rfl, r₀, h, rfl⟩
      exact ⟨r₀, ⟨answer, rest, rfl, h⟩, rfl⟩
    · rintro ⟨r₀, ⟨answer, rest, rfl, h⟩, rfl⟩
      exact ⟨answer, rest, rfl, r₀, h, rfl⟩
  | print text next ih => exact ih
  | look next ih => exact ih t
  | change tree next ih => exact ih

/-- After an attempt a program goes on in any case. -/
theorem yields_attempt_bind {p : Program ε α} {f : Except ε α → Program δ β} {r : Except δ β} :
    (p.attempt >>= f).Yields t es t' r ↔ ∃ r₀ es₁ t₁ es₂,
      p.Yields t es₁ t₁ r₀ ∧ (f r₀).Yields t₁ es₂ t' r ∧ es = es₁ ++ es₂ := by
  rw [yields_bind]
  simp only [yields_attempt]
  constructor
  · rintro (⟨e, ⟨_, -, he⟩, -⟩ | ⟨a, es₁, t₁, es₂, ⟨r₀, h₁, ha⟩, h₂, rfl⟩)
    · cases he
    · cases ha
      exact ⟨a, es₁, t₁, es₂, h₁, h₂, rfl⟩
  · rintro ⟨r₀, es₁, t₁, es₂, h₁, h₂, rfl⟩
    exact .inr ⟨r₀, es₁, t₁, es₂, ⟨r₀, h₁, rfl⟩, h₂, rfl⟩

theorem yields_ofExcept_bind {result : Except ε α} {f : α → Program ε β} {r : Except ε β} :
    (ofExcept result >>= f).Yields t es t' r ↔
      (∃ e, result = .error e ∧ es = [] ∧ t' = t ∧ r = .error e) ∨
      ∃ a, result = .ok a ∧ (f a).Yields t es t' r := by
  cases result with
  | error e =>
    constructor
    · exact fun h => .inl ⟨e, rfl, h⟩
    · rintro (⟨_, he, h⟩ | ⟨_, ha, -⟩)
      · cases he
        exact h
      · cases ha
  | ok a =>
    constructor
    · exact fun h => .inr ⟨a, rfl, h⟩
    · rintro (⟨_, he, -⟩ | ⟨_, ha, h⟩)
      · cases he
      · cases ha
        exact h

theorem yields_mapError {f : ε → δ} {p : Program ε α} {r : Except δ α} :
    (p.mapError f).Yields t es t' r ↔ ∃ r₀, p.Yields t es t' r₀ ∧ r = r₀.mapError f := by
  show (p.attempt >>= fun result => done (result.mapError f) : Program δ α).Yields t es t' r ↔ _
  rw [yields_bind_done]
  constructor
  · rintro ⟨_, h, rfl⟩
    obtain ⟨r₀, h₀, rfl⟩ := yields_attempt.1 h
    exact ⟨r₀, h₀, rfl⟩
  · rintro ⟨r₀, h, rfl⟩
    exact ⟨.ok r₀, yields_attempt.2 ⟨r₀, h, rfl⟩, rfl⟩

/-! ## Programs of one exchange -/

/-- The program that makes one exchange; its result is a function of the answer. -/
def ask (q : Request) (outcome : Answer → Except ε α) : Program ε α :=
  send q fun answer => done (outcome answer)

@[simp] theorem yields_ask {q : Request} {outcome : Answer → Except ε α} {r : Except ε α} :
    (ask q outcome).Yields t es t' r ↔
      ∃ answer, es = [⟨q, answer⟩] ∧ t' = t ∧ r = outcome answer := by
  constructor
  · rintro ⟨answer, rest, rfl, rfl, rfl, rfl⟩
    exact ⟨answer, rfl, rfl, rfl⟩
  · rintro ⟨answer, rfl, rfl, rfl⟩
    exact ⟨answer, [], rfl, rfl, rfl, rfl⟩

theorem yields_ask_bind {q : Request} {outcome : Answer → Except ε α} {f : α → Program ε β}
    {r : Except ε β} :
    (ask q outcome >>= f).Yields t es t' r ↔ ∃ answer rest, es = ⟨q, answer⟩ :: rest ∧
      ((∃ e, outcome answer = .error e ∧ rest = [] ∧ t' = t ∧ r = .error e) ∨
        ∃ a, outcome answer = .ok a ∧ (f a).Yields t rest t' r) := by
  simp only [← yields_ofExcept_bind]
  exact Iff.rfl

theorem ask_bind_done (q : Request) (outcome : Answer → Except ε α) (g : α → Except ε β) :
    (ask q outcome >>= fun a => done (g a)) = ask q fun answer => (outcome answer).bind g := by
  show send q (fun answer => (done (outcome answer)).bind fun a => done (g a)) = _
  rw [ask]
  congr 1
  funext answer
  cases outcome answer <;> rfl

theorem ask_mapError (q : Request) (outcome : Answer → Except ε α) (f : ε → δ) :
    (ask q outcome).mapError f = ask q fun answer => (outcome answer).mapError f := rfl

/-! ## The transcript of a run -/

/-- The exchanges of a run with a server, in order. -/
def exchanges (server : Server) (w : World) : Program ε α → List Exchange
  | done _ => []
  | send q next =>
    let requests := w.requests ++ [q]
    ⟨q, server requests⟩ :: exchanges server { w with requests } (next (server requests))
  | print text next => exchanges server { w with output := w.output ++ text } next
  | look next => exchanges server w (next w.tree)
  | change tree next => exchanges server { w with tree } next

/-- A run follows a transcript. -/
theorem yields_run (server : Server) (w : World) (p : Program ε α) :
    p.Yields w.tree (p.exchanges server w) (p.run server w).2.tree (p.run server w).1 := by
  induction p generalizing w with
  | done result => exact ⟨rfl, rfl, rfl⟩
  | send q next ih => exact ⟨_, _, rfl, ih _ { w with requests := w.requests ++ [q] }⟩
  | print text next ih => exact ih { w with output := w.output ++ text }
  | look next ih => exact ih w.tree w
  | change tree next ih => exact ih { w with tree }

/-- The exchanges of two programs in a row are those of the first, then those of the second. -/
theorem exchanges_bind {server : Server} {w w' : World} {p : Program ε α} {a : α}
    (h : p.run server w = (.ok a, w')) (f : α → Program ε β) :
    (p >>= f).exchanges server w = p.exchanges server w ++ (f a).exchanges server w' := by
  show (p.bind f).exchanges server w = _
  induction p generalizing w with
  | done result =>
    cases h
    rfl
  | send q next ih => exact congrArg (_ :: ·) (ih _ h)
  | print text next ih => exact ih h
  | look next ih => exact ih _ h
  | change tree next ih => exact ih h

/-- A run that has a value for its result succeeds with it. -/
theorem eq_ok_of_toOption {result : Except ε α} {a : α} (h : result.toOption = some a) :
    result = .ok a := by
  cases result with
  | ok => exact congrArg Except.ok (Option.some.inj h)
  | error => cases h

/-- The log of a run is made of the requests of its exchanges. -/
theorem requests_run (server : Server) (w : World) (p : Program ε α) :
    (p.run server w).2.requests = w.requests ++ (p.exchanges server w).map (·.request) := by
  induction p generalizing w with
  | done result => exact (List.append_nil _).symm
  | send q next ih =>
    show ((next _).run server _).2.requests = _
    rw [ih, exchanges, List.map_cons, List.append_assoc]
    rfl
  | print text next ih => exact ih { w with output := w.output ++ text }
  | look next ih => exact ih w.tree w
  | change tree next ih => exact ih { w with tree }

/-- What is in the log of a run that began with none was exchanged in it. -/
theorem exists_exchange_of_any {server : Server} {w : World} {p : Program ε α}
    {kind : Request → Bool} (hw : w.requests = [])
    (h : (p.run server w).2.requests.any kind = true) :
    ∃ before q answer after, p.exchanges server w = before ++ ⟨q, answer⟩ :: after ∧
      kind q = true := by
  rw [requests_run, hw, List.nil_append] at h
  obtain ⟨q, hq, hkind⟩ := List.any_eq_true.1 h
  obtain ⟨⟨q, answer⟩, hx, rfl⟩ := List.mem_map.1 hq
  obtain ⟨before, after, hes⟩ := List.append_of_mem hx
  exact ⟨before, q, answer, after, hes, hkind⟩

/-- Every answer in a run is that of the server to the requests so far. -/
theorem answer_of_exchanges_eq {server : Server} {w : World} {p : Program ε α}
    {before after : List Exchange} {x : Exchange}
    (h : p.exchanges server w = before ++ x :: after) :
    x.answer = server (w.requests ++ before.map (·.request) ++ [x.request]) := by
  induction p generalizing w before with
  | done result => simp [exchanges] at h
  | send q next ih =>
    rw [exchanges] at h
    cases before with
    | nil =>
      obtain ⟨rfl, -⟩ := List.cons.inj h
      simp
    | cons y before =>
      obtain ⟨rfl, hrest⟩ := List.cons.inj h
      simpa using ih _ (w := { w with requests := w.requests ++ [q] }) hrest
  | print text next ih => exact ih (w := { w with output := w.output ++ text }) h
  | look next ih => exact ih _ h
  | change tree next ih => exact ih (w := { w with tree }) h

/-- A transcript with the answers of a server is that of the run with it, and ends as the run
does. -/
theorem Yields.eq_run {server : Server} {w : World} {p : Program ε α} {r : Except ε α}
    (h : p.Yields w.tree es t' r)
    (hanswers : ∀ before x after, es = before ++ x :: after →
      x.answer = server (w.requests ++ before.map (·.request) ++ [x.request])) :
    es = p.exchanges server w ∧ r = (p.run server w).1 := by
  induction p generalizing w es with
  | done result => exact ⟨h.1, h.2.2⟩
  | send q next ih =>
    obtain ⟨answer, rest, rfl, h⟩ := h
    have hanswer : answer = server (w.requests ++ [q]) := by
      simpa using hanswers [] ⟨q, answer⟩ rest rfl
    subst hanswer
    obtain ⟨rfl, hr⟩ := ih _ (w := { w with requests := w.requests ++ [q] }) h
      fun before x after hrest => by
        simpa using hanswers (⟨q, _⟩ :: before) x after (congrArg (_ :: ·) hrest)
    exact ⟨rfl, hr⟩
  | print text next ih => exact ih (w := { w with output := w.output ++ text }) h hanswers
  | look next ih => exact ih _ h hanswers
  | change tree next ih => exact ih (w := { w with tree }) h hanswers

/-! ## Programs that send requests of one kind only -/

/-- Every request that the program may send is of the kind `P`, and it leaves the files alone. -/
def Only (P : Request → Prop) : Program ε α → Prop
  | done _ => True
  | send q next => P q ∧ ∀ answer, (next answer).Only P
  | print _ next => next.Only P
  | look next => ∀ t, (next t).Only P
  | change _ _ => False

variable {P : Request → Prop}

theorem only_send {q : Request} {next : Answer → Program ε α} :
    (send q next).Only P ↔ P q ∧ ∀ answer, (next answer).Only P := Iff.rfl

theorem only_print {text : String} {next : Program ε α} :
    (print text next).Only P ↔ next.Only P := Iff.rfl

theorem only_look {next : Tree → Program ε α} :
    (look next).Only P ↔ ∀ t, (next t).Only P := Iff.rfl

theorem not_only_change {tree : Tree} {next : Program ε α} : ¬ (change tree next).Only P := id

@[simp] theorem only_done (r : Except ε α) : (done r).Only P := trivial

@[simp] theorem only_pure (a : α) : (pure a : Program ε α).Only P := trivial

@[simp] theorem only_fail (e : ε) : (fail e : Program ε α).Only P := trivial

@[simp] theorem only_ofExcept (r : Except ε α) : (ofExcept r).Only P := trivial

@[simp] theorem only_write (text : String) : (write text : Program ε Unit).Only P := trivial

@[simp] theorem only_writeLine (text : String) : (writeLine text : Program ε Unit).Only P := trivial

@[simp] theorem only_files : (files : Program ε Tree).Only P := fun _ => trivial

theorem only_ask {q : Request} (hq : P q) (outcome : Answer → Except ε α) :
    (ask q outcome).Only P := ⟨hq, fun _ => trivial⟩

theorem Only.bind {p : Program ε α} {f : α → Program ε β} (hp : p.Only P)
    (hf : ∀ a, (f a).Only P) : (p >>= f).Only P := by
  show (p.bind f).Only P
  induction p with
  | done r =>
    cases r with
    | error e => trivial
    | ok a => exact hf a
  | send q next ih => exact ⟨hp.1, fun answer => ih answer (hp.2 answer)⟩
  | print text next ih => exact ih hp
  | look next ih => exact fun t => ih t (hp t)
  | change tree next ih => exact hp.elim

theorem Only.attempt {p : Program ε α} (hp : p.Only P) : (p.attempt : Program δ _).Only P := by
  induction p with
  | done r => trivial
  | send q next ih => exact ⟨hp.1, fun answer => ih answer (hp.2 answer)⟩
  | print text next ih => exact ih hp
  | look next ih => exact fun t => ih t (hp t)
  | change tree next ih => exact hp.elim

theorem Only.mapError {p : Program ε α} (hp : p.Only P) (f : ε → δ) : (p.mapError f).Only P :=
  hp.attempt.bind fun _ => trivial

theorem Only.mono {Q : Request → Prop} {p : Program ε α} (hp : p.Only P)
    (h : ∀ q, P q → Q q) : p.Only Q := by
  induction p with
  | done r => trivial
  | send q next ih => exact ⟨h q hp.1, fun answer => ih answer (hp.2 answer)⟩
  | print text next ih => exact ih hp
  | look next ih => exact fun t => ih t (hp t)
  | change tree next ih => exact hp.elim

variable {p : Program ε α} {r : Except ε α}

/-- Such a program leaves the files as they were. -/
theorem Yields.tree_eq (h : p.Yields t es t' r) (hp : p.Only P) : t' = t := by
  induction p generalizing es with
  | done result => exact h.2.1
  | send q next ih =>
    obtain ⟨answer, rest, -, h⟩ := h
    exact ih answer h (hp.2 answer)
  | print text next ih => exact ih h hp
  | look next ih => exact ih t h (hp t)
  | change tree next ih => exact hp.elim

/-- All its requests are of the kind. -/
theorem Yields.forall_request (h : p.Yields t es t' r) (hp : p.Only P) :
    ∀ x ∈ es, P x.request := by
  induction p generalizing es with
  | done result =>
    rw [h.1]
    exact fun x hx => absurd hx List.not_mem_nil
  | send q next ih =>
    obtain ⟨answer, rest, rfl, h⟩ := h
    intro x hx
    rcases List.mem_cons.1 hx with rfl | hx
    · exact hp.1
    · exact ih answer h (hp.2 answer) x hx
  | print text next ih => exact ih h hp
  | look next ih => exact ih t h (hp t)
  | change tree next ih => exact hp.elim

-- From here on transcripts are taken apart by the lemmas above only: to unfold these two on a
-- long program is to evaluate the program.
attribute [irreducible] Yields Only

end Program

/-! ## Transcripts made of rounds -/

section

variable {ρ : Type} {parts : ρ → List Exchange} {x x' : Exchange} {round round' : ρ}

/-- An exchange of a transcript made of rounds lies in one of them. -/
theorem exists_round_of_flatMap_eq {rounds : List ρ} {before after : List Exchange}
    (h : rounds.flatMap parts = before ++ x :: after) :
    ∃ earlier round later first rest, rounds = earlier ++ round :: later ∧
      before = earlier.flatMap parts ++ first ∧ parts round = first ++ x :: rest ∧
      after = rest ++ later.flatMap parts := by
  induction rounds generalizing before with
  | nil => exact absurd h.symm (List.append_ne_nil_of_right_ne_nil _ (List.cons_ne_nil _ _))
  | cons round rounds ih =>
    rw [List.flatMap_cons] at h
    rcases List.append_eq_append_iff.1 h with ⟨before', rfl, h'⟩ | ⟨rest, hround, h'⟩
    · obtain ⟨earlier, round', later, first, rest, rfl, rfl, hround, rfl⟩ := ih h'
      exact ⟨round :: earlier, round', later, first, rest, rfl, by simp, hround, rfl⟩
    · cases rest with
      | nil =>
        obtain ⟨earlier, round', later, first, rest, rfl, hfirst, hround', rfl⟩ :=
          ih (show _ = [] ++ x :: after from h'.symm)
        refine ⟨round :: earlier, round', later, first, rest, rfl, ?_, hround', rfl⟩
        rw [List.append_nil] at hround
        rw [List.flatMap_cons, List.append_assoc, ← hfirst, List.append_nil, hround]
      | cons y rest =>
        obtain ⟨rfl, rfl⟩ := List.cons.inj h'
        exact ⟨[], round, rounds, before, rest, rfl, rfl, hround, rfl⟩

/-- It lies in no other. -/
theorem eq_of_flatMap_append_eq {earlier earlier' later later' : List ρ}
    {first first' rest rest' : List Exchange}
    (hrounds : earlier ++ round :: later = earlier' ++ round' :: later')
    (hround : parts round = first ++ x :: rest) (hround' : parts round' = first' ++ x' :: rest')
    (h : earlier.flatMap parts ++ first = earlier'.flatMap parts ++ first') :
    earlier = earlier' ∧ round = round' := by
  induction earlier generalizing earlier' with
  | nil =>
    cases earlier' with
    | nil => exact ⟨rfl, (List.cons.inj hrounds).1⟩
    | cons y ys =>
      obtain ⟨rfl, -⟩ := List.cons.inj hrounds
      have hlength := congrArg List.length h
      simp only [List.flatMap_nil, List.nil_append, List.flatMap_cons, hround, List.length_append,
        List.length_cons] at hlength
      omega
  | cons y ys ih =>
    cases earlier' with
    | nil =>
      obtain ⟨rfl, -⟩ := List.cons.inj hrounds
      have hlength := congrArg List.length h
      simp only [List.flatMap_nil, List.nil_append, List.flatMap_cons, hround', List.length_append,
        List.length_cons] at hlength
      omega
    | cons z zs =>
      obtain ⟨rfl, htail⟩ := List.cons.inj hrounds
      rw [List.flatMap_cons, List.flatMap_cons, List.append_assoc, List.append_assoc] at h
      obtain ⟨rfl, rfl⟩ := ih htail (List.append_cancel_left h)
      exact ⟨rfl, rfl⟩

variable {κ : Type} {key : ρ → κ} {conducted : ρ → Except ε Unit → Prop} {keys : List κ}
  {rounds : List ρ} {r : Except ε Unit}

/-- The rounds of a loop over `keys`: one for each key in order, until one fails, which is then the
last and gives its failure to the loop. -/
inductive Rounds (key : ρ → κ) (conducted : ρ → Except ε Unit → Prop) :
    List κ → List ρ → Except ε Unit → Prop where
  | finished : Rounds key conducted [] [] (.ok ())
  | failed {round : ρ} {keys : List κ} {e : ε} (hround : conducted round (.error e)) :
    Rounds key conducted (key round :: keys) [round] (.error e)
  | next {round : ρ} {keys : List κ} {rounds : List ρ} {r : Except ε Unit}
      (hround : conducted round (.ok ())) (hrounds : Rounds key conducted keys rounds r) :
    Rounds key conducted (key round :: keys) (round :: rounds) r

namespace Rounds

theorem keys_prefix (h : Rounds key conducted keys rounds r) : rounds.map key <+: keys := by
  induction h with
  | finished => exact List.prefix_rfl
  | failed => exact ⟨_, rfl⟩
  | next _ _ ih => exact List.cons_prefix_cons.2 ⟨rfl, ih⟩

theorem keys_eq (h : Rounds key conducted keys rounds (.ok ())) : rounds.map key = keys := by
  generalize hr : (.ok () : Except ε Unit) = r at h
  induction h with
  | finished => rfl
  | failed => cases hr
  | next _ _ ih => rw [List.map_cons, ih hr]

/-- Every round is conducted; one that is not the last has gone well, and the last decides how the
loop ends. -/
theorem conducted_of_eq {earlier later : List ρ} (h : Rounds key conducted keys rounds r)
    (hrounds : rounds = earlier ++ round :: later) :
    ∃ r₁, conducted round r₁ ∧ (later ≠ [] → r₁ = .ok ()) ∧ (later = [] → r = r₁) := by
  induction h generalizing earlier with
  | finished =>
    exact absurd hrounds.symm (List.append_ne_nil_of_right_ne_nil _ (List.cons_ne_nil _ _))
  | failed hround =>
    rcases List.singleton_eq_append_iff.1 hrounds with ⟨rfl, hlast⟩ | ⟨-, hlast⟩
    · obtain ⟨rfl, rfl⟩ := List.cons.inj hlast
      exact ⟨_, hround, fun h => absurd rfl h, fun _ => rfl⟩
    · cases hlast
  | @next first keys rounds r hround hrest ih =>
    cases earlier with
    | nil =>
      obtain ⟨rfl, rfl⟩ := List.cons.inj hrounds
      refine ⟨_, hround, fun _ => rfl, ?_⟩
      rintro rfl
      cases hrest
      rfl
    | cons y ys => exact ih (List.cons.inj hrounds).2

theorem exists_conducted (h : Rounds key conducted keys rounds r) (hround : round ∈ rounds) :
    ∃ r₁, conducted round r₁ := by
  obtain ⟨earlier, later, hrounds⟩ := List.append_of_mem hround
  obtain ⟨r₁, hr₁, -⟩ := h.conducted_of_eq hrounds
  exact ⟨r₁, hr₁⟩

theorem conducted_ok (h : Rounds key conducted keys rounds (.ok ())) (hround : round ∈ rounds) :
    conducted round (.ok ()) := by
  obtain ⟨earlier, later, hrounds⟩ := List.append_of_mem hround
  obtain ⟨r₁, hr₁, hnext, hlast⟩ := h.conducted_of_eq hrounds
  by_cases hlater : later = []
  · rw [hlast hlater]
    exact hr₁
  · rw [← hnext hlater]
    exact hr₁

/-- The failure of a loop is that of its last round. -/
theorem exists_last {e : ε} (h : Rounds key conducted keys rounds (.error e)) :
    ∃ earlier last, rounds = earlier ++ [last] ∧ conducted last (.error e) := by
  generalize hr : (.error e : Except ε Unit) = r at h
  induction h with
  | finished => cases hr
  | failed hround =>
    cases hr
    exact ⟨[], _, rfl, hround⟩
  | @next first _ _ _ _ _ ih =>
    obtain ⟨earlier, last, rfl, hlast⟩ := ih hr
    exact ⟨first :: earlier, last, rfl, hlast⟩

end Rounds

/-- A transcript of a loop is made of rounds if every transcript of its body is one. -/
theorem loop_of_yields {body : κ → Program ε Unit} {loop : List κ → Program ε Unit}
    (hnil : loop [] = pure ()) (hcons : ∀ k ks, loop (k :: ks) = body k >>= fun _ => loop ks)
    (hbody : ∀ k ∈ keys, ∀ es t' r, (body k).Yields t es t' r →
      t' = t ∧ ∃ round, key round = k ∧ es = parts round ∧ conducted round r)
    (h : (loop keys).Yields t es t' r) :
    t' = t ∧ ∃ rounds, es = rounds.flatMap parts ∧ Rounds key conducted keys rounds r := by
  induction keys generalizing es r with
  | nil =>
    rw [hnil] at h
    obtain ⟨rfl, rfl, rfl⟩ := Program.yields_pure.1 h
    exact ⟨rfl, [], rfl, .finished⟩
  | cons k ks ih =>
    rw [hcons] at h
    rcases Program.yields_bind.1 h with ⟨e, h₁, rfl⟩ | ⟨⟨⟩, es₁, t₁, es₂, h₁, h₂, rfl⟩
    · obtain ⟨rfl, round, rfl, rfl, hround⟩ := hbody k List.mem_cons_self _ _ _ h₁
      refine ⟨rfl, [round], ?_, .failed hround⟩
      rw [List.flatMap_cons, List.flatMap_nil, List.append_nil]
    · obtain ⟨rfl, round, rfl, rfl, hround⟩ := hbody k List.mem_cons_self _ _ _ h₁
      obtain ⟨rfl, rounds, rfl, hrest⟩ :=
        ih (fun k' hk' => hbody k' (List.mem_cons_of_mem _ hk')) h₂
      exact ⟨rfl, round :: rounds, rfl, .next hround hrest⟩

end

end ImagePipeline
