import ImagePipeline.Proofs.ArchitectureTag
import ImagePipeline.Proofs.Publication

/-!
# The grammar of tags

A tag is one letter, digit or underscore and at most 127 characters that may be dots and hyphens as
well.  The check looks at bytes first, then at the beginning, then at each character; a text that
passes has only characters of one byte, so its bytes and its characters are as many.

* `IsTag`: the grammar, said of the characters of a text.
* `validateTag_eq_ok_iff`: the check accepts the grammar.
* `UnderTag`: a request to tag or to push has a parameter for the tag, and a tag in it.
* `run_publish_of_not_isTag`: a publication under a text that is no tag fails and sends nothing.
* `publish_under_tags`: the same for all requests of a publishing run.
-/

namespace ImagePipeline

open Program

/-- The characters with which a tag begins. -/
def IsTagStart (c : Char) : Prop :=
  ('A' ≤ c ∧ c ≤ 'Z') ∨ ('a' ≤ c ∧ c ≤ 'z') ∨ ('0' ≤ c ∧ c ≤ '9') ∨ c = '_'

instance : DecidablePred IsTagStart := fun _ => inferInstanceAs (Decidable (_ ∨ _))

/-- A tag: one character to begin with, and at most 127 more, which may be dots and hyphens
too. -/
def IsTag (tag : String) : Prop :=
  ∃ first rest, tag.toList = first :: rest ∧ IsTagStart first ∧ rest.length ≤ 127 ∧
    ∀ c ∈ rest, IsTagStart c ∨ c = '.' ∨ c = '-'

/-! ## The check -/

theorem isTagChar_iff {c : Char} : isTagChar c = true ↔ IsTagStart c ∨ c = '.' ∨ c = '-' := by
  have halphanum : c.isAlphanum = true ↔
      ('A' ≤ c ∧ c ≤ 'Z') ∨ ('a' ≤ c ∧ c ≤ 'z') ∨ ('0' ≤ c ∧ c ≤ '9') := by
    have hbetween (a b : Char) : (decide (a ≤ c) && decide (c ≤ b)) = true ↔ a ≤ c ∧ c ≤ b := by
      rw [Bool.and_eq_true, decide_eq_true_iff, decide_eq_true_iff]
    have hupper : c.isUpper = true ↔ 'A' ≤ c ∧ c ≤ 'Z' := decide_eq_true_iff
    have hlower : c.isLower = true ↔ 'a' ≤ c ∧ c ≤ 'z' := hbetween 'a' 'z'
    have hdigit : c.isDigit = true ↔ '0' ≤ c ∧ c ≤ '9' := hbetween '0' '9'
    show (c.isUpper || c.isLower || c.isDigit) = true ↔ _
    rw [Bool.or_eq_true, Bool.or_eq_true, hupper, hlower, hdigit, or_assoc]
  simp only [isTagChar, IsTagStart, Bool.or_eq_true, halphanum, decide_eq_true_eq]
  simp only [or_assoc, or_comm, or_left_comm]

theorem isTagStart_iff {c : Char} :
    IsTagStart c ↔ isTagChar c = true ∧ c ≠ '.' ∧ c ≠ '-' := by
  rw [isTagChar_iff]
  constructor
  · intro h
    refine ⟨.inl h, ?_, ?_⟩
    · rintro rfl
      revert h
      decide
    · rintro rfl
      revert h
      decide
  · rintro ⟨h | h | h, hdot, hhyphen⟩
    · exact h
    · exact absurd h hdot
    · exact absurd h hhyphen

theorem utf8Size_of_isTagChar {c : Char} (h : isTagChar c = true) : c.utf8Size = 1 := by
  have hascii : c.toNat ≤ 127 := by
    rcases isTagChar_iff.1 h with (⟨-, hc⟩ | ⟨-, hc⟩ | ⟨-, hc⟩ | rfl) | rfl | rfl
    · exact Nat.le_trans (show c.toNat ≤ 90 from hc) (by decide)
    · exact Nat.le_trans (show c.toNat ≤ 122 from hc) (by decide)
    · exact Nat.le_trans (show c.toNat ≤ 57 from hc) (by decide)
    · decide
    · decide
    · decide
  exact Char.utf8Size_eq_one_iff.2 hascii

/-- The bytes of characters of tags are as many as the characters. -/
theorem utf8ByteSize_eq_length {tag : String} (h : ∀ c ∈ tag.toList, isTagChar c = true) :
    tag.utf8ByteSize = tag.toList.length := by
  have hchars (cs : List Char) (hcs : ∀ c ∈ cs, isTagChar c = true) :
      (String.ofList cs).utf8ByteSize = cs.length := by
    induction cs with
    | nil => rfl
    | cons c cs ih =>
      rw [← List.singleton_append, String.ofList_append, String.utf8ByteSize_append,
        ← String.singleton_eq_ofList, String.utf8ByteSize_singleton,
        ih fun d hd => hcs d (List.mem_cons_of_mem _ hd),
        utf8Size_of_isTagChar (hcs c List.mem_cons_self), List.length_append,
        List.length_singleton]
  rw [← hchars tag.toList h, String.ofList_toList]

/-- The four checks one after the other. -/
theorem validateTag_eq_ok_iff_checks {tag : String} : validateTag tag = .ok () ↔
    tag.isEmpty = false ∧ tag.utf8ByteSize ≤ maxTagBytes ∧
      (tag.toList.head? ≠ some '.' ∧ tag.toList.head? ≠ some '-') ∧
      ∀ c ∈ tag.toList, isTagChar c = true := by
  unfold validateTag
  split
  next hempty => exact iff_of_false nofun fun h => nomatch hempty.symm.trans h.1
  next hempty =>
  rw [and_iff_right (Bool.eq_false_iff.2 hempty)]
  split
  next hbytes => exact iff_of_false nofun fun h => absurd h.1 (Nat.not_le.2 hbytes)
  next hbytes =>
  rw [and_iff_right (Nat.not_lt.1 hbytes)]
  split
  next hstart => exact iff_of_false nofun fun h => hstart.elim h.1.1 h.1.2
  next hstart =>
  rw [and_iff_right (not_or.1 hstart)]
  cases hfind : tag.toList.find? fun c => !isTagChar c with
  | some c =>
    refine iff_of_false nofun fun h => ?_
    have hbad := List.find?_some hfind
    rw [h c (List.mem_of_find?_eq_some hfind)] at hbad
    cases hbad
  | none => exact iff_of_true rfl fun c hc => by simpa using List.find?_eq_none.1 hfind c hc

/-- The check accepts the tags and no other texts. -/
theorem validateTag_eq_ok_iff {tag : String} : validateTag tag = .ok () ↔ IsTag tag := by
  rw [validateTag_eq_ok_iff_checks, IsTag, maxTagBytes]
  constructor
  · rintro ⟨hempty, hbytes, ⟨hdot, hhyphen⟩, hall⟩
    rw [utf8ByteSize_eq_length hall] at hbytes
    cases htag : tag.toList with
    | nil =>
      rw [String.toList_eq_nil_iff] at htag
      subst htag
      cases hempty
    | cons first rest =>
      rw [htag] at hbytes hdot hhyphen hall
      refine ⟨first, rest, rfl, isTagStart_iff.2 ⟨hall first List.mem_cons_self, ?_, ?_⟩,
        Nat.le_of_succ_le_succ hbytes, fun c hc => ?_⟩
      · exact fun h => hdot (congrArg some h)
      · exact fun h => hhyphen (congrArg some h)
      · exact isTagChar_iff.1 (hall c (List.mem_cons_of_mem _ hc))
  · rintro ⟨first, rest, htag, hfirst, hlength, hrest⟩
    have hall : ∀ c ∈ tag.toList, isTagChar c = true := by
      rw [htag]
      refine List.forall_mem_cons.2 ⟨(isTagStart_iff.1 hfirst).1, fun c hc => ?_⟩
      exact isTagChar_iff.2 (hrest c hc)
    rw [utf8ByteSize_eq_length hall, htag]
    refine ⟨?_, Nat.succ_le_succ hlength, ⟨?_, ?_⟩, htag ▸ hall⟩
    · rw [Bool.eq_false_iff]
      intro hempty
      rw [String.isEmpty_iff.1 hempty] at htag
      cases htag
    · exact fun h => (isTagStart_iff.1 hfirst).2.1 (Option.some.inj h)
    · exact fun h => (isTagStart_iff.1 hfirst).2.2 (Option.some.inj h)

/-- Any other text has a fault. -/
theorem exists_fault {tag : String} (h : ¬ IsTag tag) :
    ∃ fault, validateTag tag = .error (.invalidTag fault) := by
  rw [← validateTag_eq_ok_iff] at h
  unfold validateTag at h ⊢
  split
  next => exact ⟨_, rfl⟩
  next hempty =>
  split
  next => exact ⟨_, rfl⟩
  next hbytes =>
  split
  next => exact ⟨_, rfl⟩
  next hstart =>
  split
  next => exact ⟨_, rfl⟩
  next hfind =>
    rw [if_neg hempty, if_neg hbytes, if_neg hstart, hfind] at h
    exact absurd rfl h

/-- So of two texts that are not both tags, the first that is none has a fault. -/
theorem exists_fault_of_pair {tag tag' : String} (h : ¬ (IsTag tag ∧ IsTag tag')) :
    ∃ fault, (validateTag tag >>= fun _ => validateTag tag') = .error (.invalidTag fault) := by
  by_cases htag : IsTag tag
  · obtain ⟨fault, hfault⟩ := exists_fault fun htag' => h ⟨htag, htag'⟩
    rw [validateTag_eq_ok_iff.2 htag]
    exact ⟨fault, hfault⟩
  · obtain ⟨fault, hfault⟩ := exists_fault htag
    rw [hfault]
    exact ⟨fault, rfl⟩

/-! ## Publications -/

/-- A request of the engine to tag an image or to push it. -/
def EngineCall.SetsTag : EngineCall → Prop
  | .tagImage _ _ _ | .push _ _ _ => True
  | _ => False

/-- If the request is to tag or to push, it has a parameter for the tag, and that holds a tag. -/
def Request.UnderTag (q : Request) : Prop :=
  ∀ e c, q = .engine e c → c.SetsTag → ∃ tag, c.parameters.lookup "tag" = some tag ∧ IsTag tag

theorem Request.underTag_of_not_publishes {q : Request} (h : ¬ q.Publishes) : q.UnderTag := by
  rintro e c rfl hc
  cases c with
  | tagImage source repository tag => exact absurd trivial h
  | push repository tag credentials => exact absurd trivial h
  | _ => exact hc.elim

namespace Engine

variable {e : EngineEndpoint} {source : CredentialSource} {env : Environment}
  {repository localTag arch : String} {server : Server} {w : World} {t : Files.Tree}
  {es : List Exchange}

/-- Under a text that is no tag a publication fails and sends nothing. -/
theorem run_publish_of_not_isTag (h : ¬ (IsTag localTag ∧ IsTag arch)) :
    ∃ fault, (publish e source env repository localTag arch).run server w =
      (.error (.invalidTag fault), w) := by
  obtain ⟨fault, hfault⟩ := exists_fault_of_pair h
  refine ⟨fault, ?_⟩
  unfold publish
  cases hlocal : validateTag localTag with
  | error error =>
    rw [hlocal] at hfault
    cases hfault
    exact run_ofExcept_bind_of_error rfl
  | ok _ =>
    rw [hlocal] at hfault
    rw [run_ofExcept_bind_of_ok rfl]
    exact run_ofExcept_bind_of_error hfault

/-- So is what a publication exchanges. -/
theorem Publication.of_not_isTag {r : Except ImageError String}
    (hpublication : Publication e source env repository localTag arch t es r)
    (h : ¬ (IsTag localTag ∧ IsTag arch)) :
    es = [] ∧ ∃ fault, r = .error (.invalidTag fault) := by
  cases hpublication with
  | refused htags =>
    obtain ⟨fault, hfault⟩ := exists_fault_of_pair h
    obtain rfl := Except.error.inj (htags.symm.trans hfault)
    exact ⟨rfl, fault, rfl⟩
  | unnamed hlocal harch =>
    exact absurd ⟨validateTag_eq_ok_iff.1 hlocal, validateTag_eq_ok_iff.1 harch⟩ h
  | sent hlocal harch =>
    exact absurd ⟨validateTag_eq_ok_iff.1 hlocal, validateTag_eq_ok_iff.1 harch⟩ h

/-- Every request of a publication that is to tag or to push is under a tag. -/
theorem Publication.underTag {r : Except ImageError String}
    (h : Publication e source env repository localTag arch t es r) :
    ∀ x ∈ es, x.request.UnderTag := by
  have htagged (harch : validateTag arch = .ok ()) :
      (Request.engine e (.tagImage (tagged repository localTag) repository arch)).UnderTag := by
    rintro _ _ ⟨⟩ -
    exact ⟨arch, rfl, validateTag_eq_ok_iff.1 harch⟩
  intro x hx
  cases h with
  | refused => exact absurd hx List.not_mem_nil
  | unnamed _ harch =>
    obtain rfl := List.mem_singleton.1 hx
    exact htagged harch
  | sent _ harch _ hpushes =>
    rcases List.mem_append.1 hx with hx | hx
    · rcases List.mem_cons.1 hx with rfl | hx
      · exact htagged harch
      · obtain ⟨-, ⟨_, -, rfl, -⟩ | ⟨credentials, answer, -, rfl, -⟩⟩ :=
            (yields_push harch).1 hpushes
        · exact absurd hx List.not_mem_nil
        · obtain rfl := List.mem_singleton.1 hx
          rintro _ _ ⟨⟩ -
          exact ⟨arch, rfl, validateTag_eq_ok_iff.1 harch⟩
    · obtain rfl := List.mem_singleton.1 hx
      rintro _ _ ⟨⟩ ⟨⟩

end Engine

/-! ## Runs -/

namespace Command

open Engine

variable {e : EngineEndpoint} {s : Settings} {env : Environment} {user pr : String}
  {t : Files.Tree} {es : List Exchange}

/-- The tags under which a run finds its images, and under which it sends them. -/
abbrev TagsFit (s : Settings) (pr : String) : Prop :=
  IsTag (PullRequest.localTag s.pr.trigger pr) ∧ IsTag s.cpuArch

theorem Round.Conducted.underTag {round : Round} {r : Except Failure Unit}
    (h : round.Conducted e s env user pr t r) :
    ∀ x ∈ round.exchanges e s user pr, x.request.UnderTag := by
  intro x hx
  by_cases hpublishes : x.request.Publishes
  · obtain ⟨first, rest, hround⟩ := List.append_of_mem hx
    obtain ⟨sent, -, htransfer, -⟩ := h.split hround hpublishes
    have hmem : x ∈ round.transfer := htransfer ▸ List.mem_append_right _ List.mem_cons_self
    cases h with
    | stopped _ _ _ hnone => exact absurd (hnone ▸ hmem) List.not_mem_nil
    | withheld _ _ hnone => exact absurd (hnone ▸ hmem) List.not_mem_nil
    | passed _ _ hpublication => exact hpublication.underTag x hmem
  · exact Request.underTag_of_not_publishes hpublishes

/-- If the tags are none then a round changes no image; and if the gate lets the image pass, the
round fails for its tag. -/
theorem Round.Conducted.of_not_tagsFit {round : Round} {r : Except Failure Unit}
    (h : round.Conducted e s env user pr t r) (htags : ¬ TagsFit s pr) :
    round.transfer = [] ∧ ∀ v, round.Judged s user pr t v → v.publish = true →
      ∃ fault, r = .error (.image (.invalidTag fault)) := by
  cases h with
  | stopped hown _ _ hnone =>
    refine ⟨hnone, fun v hv => ?_⟩
    obtain ⟨hown', -⟩ := hv
    exact nomatch hown.symm.trans hown'
  | withheld hv hpublish hnone =>
    refine ⟨hnone, fun v hv' hpublish' => ?_⟩
    rw [hv'.unique hv, hpublish] at hpublish'
    cases hpublish'
  | passed _ _ hpublication =>
    obtain ⟨hnone, fault, rfl⟩ := hpublication.of_not_isTag htags
    exact ⟨hnone, fun _ _ _ => ⟨fault, rfl⟩⟩

/-- The failure of a round is the end of its run. -/
theorem of_not_tagsFit_of_rounds {kinds : List ImageKind} {rounds : List Round}
    {r : Except Failure Unit}
    (h : Rounds Round.kind (Round.Conducted e s env user pr t) kinds rounds r)
    (htags : ¬ TagsFit s pr) :
    (∀ x ∈ rounds.flatMap (Round.exchanges e s user pr), ¬ x.request.Publishes) ∧
      ∀ round ∈ rounds, ∀ v, round.Judged s user pr t v → v.publish = true →
        ∃ fault, r = .error (.image (.invalidTag fault)) := by
  refine ⟨fun x hx hpublishes => ?_, fun round hround v hv hpublish => ?_⟩
  · obtain ⟨round, hround, hxround⟩ := List.mem_flatMap.1 hx
    obtain ⟨r₁, hconducted⟩ := h.exists_conducted hround
    obtain ⟨first, rest, hsplit⟩ := List.append_of_mem hxround
    obtain ⟨sent, -, htransfer, -⟩ := hconducted.split hsplit hpublishes
    rw [(hconducted.of_not_tagsFit htags).1] at htransfer
    exact List.append_ne_nil_of_right_ne_nil _ (List.cons_ne_nil _ _) htransfer.symm
  · obtain ⟨earlier, later, hrounds⟩ := List.append_of_mem hround
    obtain ⟨r₁, hconducted, hnext, hlast⟩ := h.conducted_of_eq hrounds
    obtain ⟨fault, rfl⟩ := (hconducted.of_not_tagsFit htags).2 v hv hpublish
    refine ⟨fault, hlast ?_⟩
    by_cases hlater : later = []
    · exact hlater
    · cases hnext hlater

/-- **Nothing is published but under a tag.**  The check of tags accepts the grammar.  Under two
texts of which one is no tag a publication fails for the tag, and the log stays as it is.  In the
log of a publishing run, whatever its settings and the server, every request to tag or to push has
a tag in its parameter; and if the run has a text in place of a tag, nothing is tagged, pushed or
removed, and the first image that the gate lets pass makes the run fail for the tag. -/
theorem publish_under_tags :
    (∀ tag, validateTag tag = .ok () ↔ IsTag tag) ∧
    (∀ (e : EngineEndpoint) (source : CredentialSource) (env : Environment)
      (repository localTag arch : String) (server : Server) (w : World),
      ¬ (IsTag localTag ∧ IsTag arch) →
      ∃ fault, (Engine.publish e source env repository localTag arch).run server w =
        (.error (.invalidTag fault), w)) ∧
    ∀ (s : Settings) (env : Environment) (server : Server) (w : World),
      ∃ es : List Exchange,
        ((publish s env).run server w).2.requests = w.requests ++ es.map (·.request) ∧
        (∀ before x after, es = before ++ x :: after →
          x.answer = server (w.requests ++ before.map (·.request) ++ [x.request])) ∧
        (∀ x ∈ es, x.request.UnderTag) ∧
        ((es = [] ∧ ∃ failure, ((publish s env).run server w).1 = .error failure) ∨
          ∃ (user pr : String) (e : EngineEndpoint) (rounds : List Round),
            s.requireDockerhubUser = .ok user ∧ s.requirePrNumber = .ok pr ∧
            es = rounds.flatMap (Round.exchanges e s user pr) ∧
            rounds.map Round.kind <+: ImageKind.all ∧
            (¬ TagsFit s pr → (∀ x ∈ es, ¬ x.request.Publishes) ∧
              ∀ round ∈ rounds, ∀ v, round.Judged s user pr w.tree v → v.publish = true →
                ∃ fault, ((publish s env).run server w).1 =
                  .error (.image (.invalidTag fault)))) := by
  refine ⟨fun tag => validateTag_eq_ok_iff, fun _ _ _ _ _ _ _ _ h => run_publish_of_not_isTag h,
    fun s env server w => ?_⟩
  refine ⟨(publish s env).exchanges server w, requests_run server w _,
    fun _ _ _ h => answer_of_exchanges_eq h, ?_⟩
  have h := yields_run server w (publish s env)
  generalize ((publish s env).run server w).1 = result at h
  generalize (publish s env).exchanges server w = es at h
  have hnone {failure : Failure} (hes : es = []) (hresult : result = .error failure) :
      (∀ x ∈ es, x.request.UnderTag) ∧ es = [] ∧ ∃ failure, result = .error failure := by
    subst hes
    exact ⟨fun x hx => absurd hx List.not_mem_nil, rfl, failure, hresult⟩
  unfold publish at h
  rcases setting_of_yields h with ⟨failure, hresult, hes, -⟩ | ⟨user, huser, h₁⟩
  · exact (hnone hes hresult).imp_right .inl
  rcases setting_of_yields h₁ with ⟨failure, hresult, hes, -⟩ | ⟨pr, hpr, h₂⟩
  · exact (hnone hes hresult).imp_right .inl
  rcases connect_of_yields h₂ with ⟨failure, hresult, hes, -⟩ | ⟨e, he, h₃⟩
  · exact (hnone hes hresult).imp_right .inl
  rw [yields_writeLine_bind] at h₃
  obtain ⟨-, rounds, rfl, hrounds⟩ := rounds_of_yields h₃
  refine ⟨fun x hx => ?_, .inr ⟨user, pr, e, rounds, huser, hpr, rfl, hrounds.keys_prefix,
    of_not_tagsFit_of_rounds hrounds⟩⟩
  obtain ⟨round, hround, hxround⟩ := List.mem_flatMap.1 hx
  obtain ⟨r₁, hconducted⟩ := hrounds.exists_conducted hround
  exact hconducted.underTag x hxround

end Command

end ImagePipeline
