import ImagePipeline.Program
import Mathlib.Data.List.Forall2
import Mathlib.Order.Defs.Unbundled

/-!
# Programs in lockstep

Two programs are in lockstep if they take the same turns whatever they are answered: each sends a
request when the other does, prints the text that the other prints, looks at the files and changes
them as the other does, and they end alike.  Their requests need not be the same, but they are
related.

* `Agree`: one and the same error, or values that are related.
* `Program.Lockstep`: the relation, with one rule for each kind of node.
* `Lockstep.bind`, `Lockstep.attempt`, `Lockstep.mapError`: lockstep goes through what programs are
  put together with.
* `Lockstep.run`: with a server that answers related requests alike, the runs end alike and leave
  worlds that differ in their requests only.
-/

namespace ImagePipeline

variable {ε δ α α' β β' : Type}

/-- Two results in agreement: one and the same error, or values that are related. -/
inductive Agree (V : α → α' → Prop) : Except ε α → Except ε α' → Prop where
  | error (e : ε) : Agree V (.error e) (.error e)
  | ok {a : α} {a' : α'} (value : V a a') : Agree V (.ok a) (.ok a')

namespace Agree

variable {V : α → α' → Prop}

theorem eq {r r' : Except ε α} (h : Agree Eq r r') : r = r' := by
  cases h with
  | error e => rfl
  | ok value => rw [value]

theorem refl {V : α → α → Prop} [Std.Refl V] (r : Except ε α) : Agree V r r := by
  cases r with
  | error e => exact .error e
  | ok a => exact .ok (Std.Refl.refl a)

theorem mapError {r : Except ε α} {r' : Except ε α'} (f : ε → δ) (h : Agree V r r') :
    Agree V (r.mapError f) (r'.mapError f) := by
  cases h with
  | error e => exact .error (f e)
  | ok value => exact .ok value

end Agree

/-- Two worlds that differ in their requests only, and those are related. -/
structure World.Alike (R : Request → Request → Prop) (w w' : World) : Prop where
  requests : List.Forall₂ R w.requests w'.requests
  output : w.output = w'.output
  tree : w.tree = w'.tree

/-- A server that answers related requests alike. -/
def Server.Respects (server : Server) (R : Request → Request → Prop) : Prop :=
  ∀ log log', List.Forall₂ R log log' → server log = server log'

namespace Program

/-- Two programs that take the same turns, with requests and values that are related. -/
inductive Lockstep (R : Request → Request → Prop) (V : α → α' → Prop) :
    Program ε α → Program ε α' → Prop where
  | done {r : Except ε α} {r' : Except ε α'} (result : Agree V r r') :
    Lockstep R V (.done r) (.done r')
  | send {q q' : Request} {next : Answer → Program ε α} {next' : Answer → Program ε α'}
    (request : R q q') (rest : ∀ answer, Lockstep R V (next answer) (next' answer)) :
    Lockstep R V (.send q next) (.send q' next')
  | print (text : String) {next : Program ε α} {next' : Program ε α'}
    (rest : Lockstep R V next next') : Lockstep R V (.print text next) (.print text next')
  | look {next : Files.Tree → Program ε α} {next' : Files.Tree → Program ε α'}
    (rest : ∀ t, Lockstep R V (next t) (next' t)) : Lockstep R V (.look next) (.look next')
  | change (tree : Files.Tree) {next : Program ε α} {next' : Program ε α'}
    (rest : Lockstep R V next next') : Lockstep R V (.change tree next) (.change tree next')

namespace Lockstep

variable {R : Request → Request → Prop} {V : α → α' → Prop} {W : β → β' → Prop}
  {p : Program ε α} {p' : Program ε α'}

/-- A program is in lockstep with itself. -/
theorem refl [Std.Refl R] (p : Program ε α) : Lockstep R Eq p p := by
  induction p with
  | done r => exact .done (.refl r)
  | send q next ih => exact .send (Std.Refl.refl q) ih
  | print text next ih => exact .print text ih
  | look next ih => exact .look ih
  | change tree next ih => exact .change tree ih

theorem mono {V' : α → α' → Prop} (hV : ∀ a a', V a a' → V' a a') (h : Lockstep R V p p') :
    Lockstep R V' p p' := by
  induction h with
  | done result =>
    cases result with
    | error e => exact .done (.error e)
    | ok value => exact .done (.ok (hV _ _ value))
  | send request rest ih => exact .send request ih
  | print text rest ih => exact .print text ih
  | look rest ih => exact .look ih
  | change tree rest ih => exact .change tree ih

/-- What comes after programs in lockstep may use their values as far as these are related. -/
theorem bind {f : α → Program ε β} {f' : α' → Program ε β'} (h : Lockstep R V p p')
    (hf : ∀ a a', V a a' → Lockstep R W (f a) (f' a')) : Lockstep R W (p >>= f) (p' >>= f') := by
  show Lockstep R W (p.bind f) (p'.bind f')
  induction h with
  | done result =>
    cases result with
    | error e => exact .done (.error e)
    | ok value => exact hf _ _ value
  | send request rest ih => exact .send request ih
  | print text rest ih => exact .print text ih
  | look rest ih => exact .look ih
  | change tree rest ih => exact .change tree ih

/-- What comes after programs in lockstep that have one value. -/
theorem andThen {p p' : Program ε α} {f : α → Program ε β} {f' : α → Program ε β'}
    (h : Lockstep R Eq p p') (hf : ∀ a, Lockstep R W (f a) (f' a)) :
    Lockstep R W (p >>= f) (p' >>= f') := by
  refine h.bind ?_
  rintro a _ rfl
  exact hf a

/-- A program, then others in lockstep with its result. -/
theorem after [Std.Refl R] {p : Program ε α} {f f' : α → Program ε β}
    (hf : ∀ a, Lockstep R Eq (f a) (f' a)) : Lockstep R Eq (p >>= f) (p >>= f') :=
  (refl p).andThen hf

/-- A decision that both programs make alike. -/
theorem ite {c : Prop} {i i' : Decidable c} {q : Program ε α} {q' : Program ε α'}
    (hyes : c → Lockstep R V p p') (hno : ¬ c → Lockstep R V q q') :
    Lockstep R V (@ite _ c i p q) (@ite _ c i' p' q') := by
  by_cases h : c
  · rw [if_pos h, if_pos h]
    exact hyes h
  · rw [if_neg h, if_neg h]
    exact hno h

theorem attempt (h : Lockstep R V p p') :
    Lockstep R (Agree V) (p.attempt : Program δ _) (p'.attempt : Program δ _) := by
  induction h with
  | done result => exact .done (.ok result)
  | send request rest ih => exact .send request ih
  | print text rest ih => exact .print text ih
  | look rest ih => exact .look ih
  | change tree rest ih => exact .change tree ih

theorem attempt_eq {p p' : Program ε α} (h : Lockstep R Eq p p') :
    Lockstep R Eq (p.attempt : Program δ _) (p'.attempt : Program δ _) :=
  h.attempt.mono fun _ _ => Agree.eq

theorem mapError (f : ε → δ) (h : Lockstep R V p p') :
    Lockstep R V (p.mapError f) (p'.mapError f) := by
  have hattempt : Lockstep R (Agree V) (p.attempt : Program δ _) (p'.attempt : Program δ _) :=
    h.attempt
  exact hattempt.bind fun _ _ hresult => .done (hresult.mapError f)

/-- Programs in lockstep end alike with a server that answers related requests alike. -/
theorem run {server : Server} {w w' : World} (h : Lockstep R V p p') (hserver : server.Respects R)
    (hw : w.Alike R w') :
    Agree V (p.run server w).1 (p'.run server w').1 ∧
      (p.run server w).2.Alike R (p'.run server w').2 := by
  induction h generalizing w w' with
  | done result => exact ⟨result, hw⟩
  | @send q q' _ _ request rest ih =>
    -- the logs stay related, so the server gives both programs the answer to go on with
    have hlog : List.Forall₂ R (w.requests ++ [q]) (w'.requests ++ [q']) :=
      List.rel_append hw.requests (.cons request .nil)
    have hanswer := hserver _ _ hlog
    simp only [Program.run, ← hanswer]
    exact ih (server (w.requests ++ [q])) ⟨hlog, hw.output, hw.tree⟩
  | print text rest ih =>
    exact ih ⟨hw.requests, congrArg (· ++ text) hw.output, hw.tree⟩
  | look rest ih =>
    simp only [Program.run, ← hw.tree]
    exact ih w.tree hw
  | change tree rest ih => exact ih ⟨hw.requests, hw.output, rfl⟩

end Lockstep

end Program

end ImagePipeline
