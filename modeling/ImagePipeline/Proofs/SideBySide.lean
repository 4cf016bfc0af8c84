import ImagePipeline.Proofs.Transcript
import Mathlib.Logic.Function.Basic

/-!
# Programs side by side

Several programs talk to one server.  Whose turn it is comes from outside; in a turn a program goes
on until it has made a request and got the answer to it.  The server sees the requests of all of
them in one row, and every program sees only its own answers.

* `Program.step`: one turn of a program.
* `Program.together`: what is exchanged, and by whom, if the turns are given.
* `Program.together_replicate`: a program that has all the turns makes the exchanges of its run.
* `Program.answer_of_together_eq`: the answers are those of the server to the requests of all.
* `Program.exists_yields_together`: what one of the programs exchanges is the beginning of one of
  its transcripts, so whatever holds of all beginnings holds of it next to any others.
-/

namespace ImagePipeline.Program

variable {ε α ι : Type} {server : Server} {w w' : World} {P : Request → Prop}

/-- One turn of a program: an exchange with the server, the world after it, and what is left of the
program.  A program that has come to its end has none. -/
def step (server : Server) (w : World) :
    Program ε α → Option (Exchange × World × Program ε α)
  | done _ => none
  | send q next =>
    let requests := w.requests ++ [q]
    some (⟨q, server requests⟩, { w with requests }, next (server requests))
  | print text next => step server { w with output := w.output ++ text } next
  | look next => step server w (next w.tree)
  | change tree next => step server { w with tree } next

section

variable {p p' : Program ε α} {x : Exchange}

/-- A turn adds one request to the log, and its answer is that of the server to the log. -/
theorem requests_of_step (h : p.step server w = some (x, w', p')) :
    w'.requests = w.requests ++ [x.request] ∧ x.answer = server w'.requests := by
  induction p generalizing w with
  | done result => cases h
  | send q next ih =>
    cases h
    exact ⟨rfl, rfl⟩
  | print text next ih => exact ih (w := { w with output := w.output ++ text }) h
  | look next ih => exact ih _ h
  | change tree next ih => exact ih (w := { w with tree }) h

/-- A turn is the first exchange of a run. -/
theorem exchanges_of_step (h : p.step server w = some (x, w', p')) :
    p.exchanges server w = x :: p'.exchanges server w' := by
  induction p generalizing w with
  | done result => cases h
  | send q next ih =>
    cases h
    rfl
  | print text next ih => exact ih (w := { w with output := w.output ++ text }) h
  | look next ih => exact ih _ h
  | change tree next ih => exact ih (w := { w with tree }) h

theorem exchanges_of_step_eq_none (h : p.step server w = none) : p.exchanges server w = [] := by
  induction p generalizing w with
  | done result => rfl
  | send q next ih => cases h
  | print text next ih => exact ih (w := { w with output := w.output ++ text }) h
  | look next ih => exact ih _ h
  | change tree next ih => exact ih (w := { w with tree }) h

/-- A turn of a program that leaves the files alone is the first exchange of its transcripts. -/
theorem yields_of_step (hp : p.Only P) (h : p.step server w = some (x, w', p')) :
    p'.Only P ∧ w'.tree = w.tree ∧
      ∀ es t' r, p'.Yields w.tree es t' r → p.Yields w.tree (x :: es) t' r := by
  induction p generalizing w with
  | done result => cases h
  | send q next ih =>
    cases h
    exact ⟨(only_send.1 hp).2 _, rfl, fun es t' r hes => yields_send.2 ⟨_, es, rfl, hes⟩⟩
  | print text next ih =>
    obtain ⟨hp', htree, hyields⟩ := ih (w := { w with output := w.output ++ text })
      (only_print.1 hp) h
    exact ⟨hp', htree, fun es t' r hes => yields_print.2 (hyields es t' r hes)⟩
  | look next ih =>
    obtain ⟨hp', htree, hyields⟩ := ih _ (only_look.1 hp w.tree) h
    exact ⟨hp', htree, fun es t' r hes => yields_look.2 (hyields es t' r hes)⟩
  | change tree next ih => exact absurd hp not_only_change

end

variable [DecidableEq ι] {turns : List ι} {ps : ι → Program ε α} {i : ι}

/-- What is exchanged, and by whom, if the programs have the turns given, one after the other. -/
def together (server : Server) : List ι → World → (ι → Program ε α) → List (ι × Exchange)
  | [], _, _ => []
  | i :: turns, w, ps =>
    match (ps i).step server w with
    | none => together server turns w ps
    | some (x, w, p) => (i, x) :: together server turns w (Function.update ps i p)

theorem together_cons_of_none (h : (ps i).step server w = none) :
    together server (i :: turns) w ps = together server turns w ps := by
  rw [together, h]

theorem together_cons_of_some {x : Exchange} {p : Program ε α}
    (h : (ps i).step server w = some (x, w', p)) :
    together server (i :: turns) w ps =
      (i, x) :: together server turns w' (Function.update ps i p) := by
  rw [together, h]

/-- A program that has all the turns makes the exchanges of its run, one in every turn. -/
theorem together_replicate (server : Server) (n : Nat) (w : World) (ps : ι → Program ε α) (i : ι) :
    together server (List.replicate n i) w ps =
      (((ps i).exchanges server w).take n).map fun x => (i, x) := by
  induction n generalizing w ps with
  | zero => rfl
  | succ n ih =>
    rw [List.replicate_succ]
    cases hstep : (ps i).step server w with
    | none =>
      rw [together_cons_of_none hstep, ih, exchanges_of_step_eq_none hstep, List.take_nil,
        List.take_nil]
    | some turn =>
      rw [together_cons_of_some hstep, ih, Function.update_self, exchanges_of_step hstep]
      rfl

/-- Every answer is that of the server to the requests of all programs so far. -/
theorem answer_of_together_eq {before after : List (ι × Exchange)} {x : Exchange}
    (h : together server turns w ps = before ++ (i, x) :: after) :
    x.answer = server (w.requests ++ before.map (·.2.request) ++ [x.request]) := by
  induction turns generalizing w ps before with
  | nil => simp [together] at h
  | cons j turns ih =>
    cases hstep : (ps j).step server w with
    | none =>
      rw [together_cons_of_none hstep] at h
      exact ih h
    | some turn =>
      obtain ⟨y, w', p⟩ := turn
      rw [together_cons_of_some hstep] at h
      obtain ⟨hrequests, hanswer⟩ := requests_of_step hstep
      cases before with
      | nil =>
        obtain ⟨hy, -⟩ := List.cons.inj h
        cases hy
        rw [hanswer, hrequests]
        simp
      | cons y' before =>
        obtain ⟨rfl, hrest⟩ := List.cons.inj h
        rw [ih hrest, hrequests]
        simp

/-- The exchanges of one of the programs, in order. -/
def own (i : ι) (es : List (ι × Exchange)) : List Exchange :=
  (es.filter (·.1 = i)).map (·.2)

theorem own_cons_self (i : ι) (x : Exchange) (es : List (ι × Exchange)) :
    own i ((i, x) :: es) = x :: own i es := by
  simp [own]

theorem own_cons_of_ne {j : ι} (h : j ≠ i) (x : Exchange) (es : List (ι × Exchange)) :
    own i ((j, x) :: es) = own i es := by
  simp [own, h]

/-- Next to any others a program follows one of its transcripts, up to where its turns end. -/
theorem exists_yields_together (hps : ∀ i, (ps i).Only P) (server : Server) (turns : List ι)
    (w : World) (i : ι) :
    ∃ rest r, (ps i).Yields w.tree (own i (together server turns w ps) ++ rest) w.tree r := by
  induction turns generalizing w ps with
  | nil =>
    -- with no turns left the transcript is that of a run on its own
    have hrun := yields_run server w (ps i)
    rw [hrun.tree_eq (hps i)] at hrun
    exact ⟨_, _, hrun⟩
  | cons j turns ih =>
    cases hstep : (ps j).step server w with
    | none =>
      rw [together_cons_of_none hstep]
      exact ih hps w
    | some turn =>
      obtain ⟨x, w', p⟩ := turn
      obtain ⟨hp, htree, hyields⟩ := yields_of_step (hps j) hstep
      have hrest : ∀ k, (Function.update ps j p k).Only P := by
        intro k
        rcases eq_or_ne k j with rfl | hk
        · rwa [Function.update_self]
        · rw [Function.update_of_ne hk]
          exact hps k
      obtain ⟨rest, r, h⟩ := ih hrest w'
      rw [together_cons_of_some hstep]
      rw [htree] at h
      rcases eq_or_ne i j with rfl | hi
      · rw [Function.update_self] at h
        rw [own_cons_self]
        exact ⟨rest, r, hyields _ _ _ h⟩
      · rw [Function.update_of_ne hi] at h
        rw [own_cons_of_ne hi.symm]
        exact ⟨rest, r, h⟩

end ImagePipeline.Program
