import ImagePipeline.Proofs.JobAddress
import ImagePipeline.Proofs.SchedulerTranscript
import ImagePipeline.Proofs.WrittenBase64
import Mathlib.Data.Option.Basic

/-!
# Requests that can be sent

Whether an address can be used depends on its scheme and its host.  The addresses of the scheduler
differ after the base only, so if one of them can be used, all can.  Its requests carry a user and
token in a form that headers can have, whatever these are.

* `Url.exists_isSome_read?`: whether an address can be used is decided by its base, as long as the
  step that comes first could be a host.
* `Fetch.sendable_of_request`, `Scheduler.sendable_of_request`: a request with no other header than
  that of its user can be sent.
* `Scheduler.exists_request`: if the executors can be asked for, so can everything else.
-/

namespace ImagePipeline

namespace Web.Url

variable {secure : Bool} {cs front step : List Char} {scheme : String}

/-! ## Hosts -/

/-- A step of a path that could be a host. -/
structure IsHostStep (step : List Char) : Prop where
  ne_nil : step ≠ []
  allowed : ∀ c ∈ step, isHostChar c = true

theorem IsHostStep.of_all (hne : step ≠ []) (hall : step.all isHostChar = true) :
    IsHostStep step :=
  ⟨hne, List.all_eq_true.1 hall⟩

theorem IsHostStep.ne_of_mem (h : IsHostStep step) {c d : Char} (hc : c ∈ step)
    (hd : isHostChar d = false) : c ≠ d := by
  rintro rfl
  rw [h.allowed c hc] at hd
  cases hd

theorem IsHostStep.toNat_gt (h : IsHostStep step) {c : Char} (hc : c ∈ step) :
    0x20 < c.toNat := by
  have hchar := h.allowed c hc
  unfold isHostChar isGraphic at hchar
  rw [Bool.and_eq_true, Bool.and_eq_true, decide_eq_true_iff] at hchar
  exact hchar.1.1

theorem isSome_readHost (h : IsHostStep step) : (readHost secure step).isSome = true := by
  have hspan : spanUntil [':'] step = (step, []) := by
    refine spanUntil_of_not_mem fun c hc => ?_
    simpa using h.ne_of_mem hc (by decide)
  have hall : step.all isHostChar = true := List.all_eq_true.2 h.allowed
  cases step with
  | nil => exact absurd rfl h.ne_nil
  | cons c rest =>
    have hbracket : c ≠ '[' := h.ne_of_mem List.mem_cons_self (by decide)
    unfold readHost
    split
    next hmatch =>
      split at hmatch
      next heq => exact absurd (List.cons.inj heq).1 hbracket
      next =>
        rw [hspan] at hmatch
        cases hmatch
        rw [hall]
        cases (c :: rest).head? == some '[' && (c :: rest).getLast? == some ']' <;> rfl

/-! ## Addresses after a base -/

/-- The characters of the beginning of an address that count. -/
def cleanStart (s : String) : List Char :=
  (s.toList.dropWhile fun c => decide (c.toNat ≤ 0x20)).filter fun c =>
    c ≠ '\t' && c ≠ '\n' && c ≠ '\r'

/-- The characters of the end of an address that count. -/
def cleanEnd (s : String) : List Char :=
  (s.toList.reverse.dropWhile fun c => decide (c.toNat ≤ 0x20)).reverse.filter fun c =>
    c ≠ '\t' && c ≠ '\n' && c ≠ '\r'

theorem dropWhile_append_cons {α : Type} {p : α → Bool} {a : α} (ha : p a = false)
    (front rest : List α) :
    (front ++ a :: rest).dropWhile p = front.dropWhile p ++ a :: rest := by
  have h := congrArg Prod.snd (span_append_cons ha front rest)
  simpa only [List.span_eq_takeWhile_dropWhile] using h

theorem dropWhile_append_slash (front rest : List Char) :
    (front ++ '/' :: rest).dropWhile (fun c => decide (c.toNat ≤ 0x20)) =
      front.dropWhile (fun c => decide (c.toNat ≤ 0x20)) ++ '/' :: rest :=
  dropWhile_append_cons (by decide) front rest

/-- What counts of an address is what counts of its base and of its end. -/
theorem clean_append (base rest : String) :
    clean (base ++ "/" ++ rest) = cleanStart base ++ '/' :: cleanEnd rest := by
  have hchars : (base ++ "/" ++ rest).toList = base.toList ++ '/' :: rest.toList := by simp
  rw [clean, hchars, dropWhile_append_slash, List.reverse_append, List.reverse_cons,
    List.append_assoc, List.singleton_append, dropWhile_append_slash, List.reverse_append,
    List.reverse_cons, List.reverse_reverse, List.append_assoc, List.singleton_append,
    List.filter_append, List.filter_cons, if_pos (by decide)]
  rfl

/-- A step that could be a host counts as a whole. -/
theorem cleanEnd_append {step : String} (hstep : IsHostStep step.toList) (rest : String) :
    cleanEnd (step ++ "/" ++ rest) = step.toList ++ '/' :: cleanEnd rest := by
  have hchars : (step ++ "/" ++ rest).toList = step.toList ++ '/' :: rest.toList := by simp
  have hkept : (step.toList.filter fun c => c ≠ '\t' && c ≠ '\n' && c ≠ '\r') = step.toList := by
    refine List.filter_eq_self.2 fun c hc => ?_
    simp [hstep.ne_of_mem hc (show isHostChar '\t' = false by decide),
      hstep.ne_of_mem hc (show isHostChar '\n' = false by decide),
      hstep.ne_of_mem hc (show isHostChar '\r' = false by decide)]
  rw [cleanEnd, hchars, List.reverse_append, List.reverse_cons, List.append_assoc,
    List.singleton_append, dropWhile_append_slash, List.reverse_append, List.reverse_cons,
    List.reverse_reverse, List.append_assoc, List.singleton_append, List.filter_append,
    List.filter_cons, if_pos (by decide), hkept]
  rfl

/-- A scheme ends before the first slash. -/
theorem exists_of_readScheme_append {front rest after : List Char}
    (h : readScheme (front ++ '/' :: rest) = some (scheme, after)) :
    ∃ mid, ∀ rest', readScheme (front ++ '/' :: rest') = some (scheme, mid ++ '/' :: rest') := by
  obtain ⟨left, hcs, hslash, hread⟩ := exists_of_readScheme h
  rcases List.append_eq_append_iff.1 hcs with ⟨mid, rfl, hmid⟩ | ⟨mid, rfl, hmid⟩
  · cases mid with
    | nil => cases hmid
    | cons c mid =>
      obtain ⟨rfl, -⟩ := List.cons.inj hmid
      exact absurd (List.mem_append_right front List.mem_cons_self) hslash
  · cases mid with
    | nil => cases hmid
    | cons c mid =>
      obtain ⟨rfl, -⟩ := List.cons.inj hmid
      exact ⟨mid, fun rest' => by rw [List.append_assoc, List.cons_append, hread]⟩

theorem isSome_readAuthority_eq {secure : Bool} {cs : List Char} {parts : List Char × List Char}
    (hspan : spanUntil ['/', '\\', '?', '#']
      (cs.dropWhile fun c => c = '/' || c = '\\') = parts) :
    (readAuthority secure cs).isSome =
      (readHost secure ((Text.splitChars '@' parts.1).getLast?.getD [])).isSome := by
  have h := congrArg Option.isSome (@map_path_readAuthority secure cs _ _ _ _ hspan rfl)
  rwa [Option.isSome_map, Option.isSome_map] at h

/-- Whether the part after the scheme can be read does not depend on what comes after the base, as
long as that could begin with a host. -/
theorem exists_isSome_readAuthority (secure : Bool) (cs : List Char) :
    ∃ usable : Bool, ∀ step rest, IsHostStep step →
      (readAuthority secure (cs ++ '/' :: (step ++ '/' :: rest))).isSome = usable := by
  cases hcs : cs.dropWhile fun c => c = '/' || c = '\\' with
  | cons c front =>
    -- The host stands in the base.
    obtain ⟨authority, tail, hparts⟩ : ∃ authority tail,
        spanUntil ['/', '\\', '?', '#'] (c :: front) = (authority, tail) := ⟨_, _, rfl⟩
    refine ⟨(readHost secure ((Text.splitChars '@' authority).getLast?.getD [])).isSome,
      fun step rest _ => ?_⟩
    have hspan : spanUntil ['/', '\\', '?', '#'] ((cs ++ '/' :: (step ++ '/' :: rest)).dropWhile
        fun c => c = '/' || c = '\\') = (authority, tail ++ '/' :: (step ++ '/' :: rest)) := by
      rw [List.dropWhile_append, hcs, if_neg (by simp), spanUntil, span_append_cons (by decide),
        ← spanUntil, hparts]
    rw [isSome_readAuthority_eq hspan]
  | nil =>
    -- The base has no host, so the step is the host.
    refine ⟨true, fun step rest hstep => ?_⟩
    have hne {d : Char} (hd : isHostChar d = false) : d ∉ step :=
      fun hmem => hstep.ne_of_mem hmem hd rfl
    have hdrop : ('/' :: (step ++ '/' :: rest)).dropWhile (fun c => c = '/' || c = '\\') =
        step ++ '/' :: rest := by
      rw [List.dropWhile_cons_of_pos (by decide)]
      cases step with
      | nil => exact absurd rfl hstep.ne_nil
      | cons c step =>
        refine List.dropWhile_cons_of_neg ?_
        simp [hstep.ne_of_mem List.mem_cons_self (show isHostChar '/' = false by decide),
          hstep.ne_of_mem List.mem_cons_self (show isHostChar '\\' = false by decide)]
    have hstops : spanUntil ['/', '\\', '?', '#'] step = (step, []) := by
      refine spanUntil_of_not_mem fun c hc hstop => ?_
      have hall : ['/', '\\', '?', '#'].all (fun c => !isHostChar c) = true := by decide
      exact hne (Bool.not_eq_true' _ ▸ List.all_eq_true.1 hall c hstop) hc
    have hspan : spanUntil ['/', '\\', '?', '#'] ((cs ++ '/' :: (step ++ '/' :: rest)).dropWhile
        fun c => c = '/' || c = '\\') = (step, '/' :: rest) := by
      rw [List.dropWhile_append, hcs, List.isEmpty_nil, if_pos rfl, hdrop, spanUntil,
        span_append_cons (by decide), ← spanUntil, hstops]
      rfl
    rw [isSome_readAuthority_eq hspan, Text.splitChars_of_not_mem (hne (by decide))]
    exact isSome_readHost hstep

/-- Whether an address can be used is decided by its base, as long as the step that comes first
could be a host. -/
theorem exists_isSome_read? (base : String) :
    ∃ usable : Bool, ∀ step rest : String, IsHostStep step.toList →
      (read? (base ++ "/" ++ (step ++ "/" ++ rest))).isSome = usable := by
  have hclean (step rest : String) (hstep : IsHostStep step.toList) :
      clean (base ++ "/" ++ (step ++ "/" ++ rest)) =
        cleanStart base ++ '/' :: (step.toList ++ '/' :: cleanEnd rest) := by
    rw [clean_append, cleanEnd_append hstep]
  have hread (step rest : String) (hstep : IsHostStep step.toList) :
      read? (base ++ "/" ++ (step ++ "/" ++ rest)) =
        (readScheme (cleanStart base ++ '/' :: (step.toList ++ '/' :: cleanEnd rest))).bind
          fun parts =>
            if parts.1 = "http" then readAuthority false parts.2
            else if parts.1 = "https" then readAuthority true parts.2
            else none := by
    rw [read?, hclean step rest hstep]
    rfl
  by_cases hscheme : ∃ rest scheme after,
      readScheme (cleanStart base ++ '/' :: rest) = some (scheme, after)
  · obtain ⟨rest, scheme, after, h⟩ := hscheme
    obtain ⟨mid, hmid⟩ := exists_of_readScheme_append h
    obtain ⟨usable, husable⟩ := exists_isSome_readAuthority (decide (scheme = "https")) mid
    refine ⟨decide (scheme = "http" ∨ scheme = "https") && usable, fun step rest hstep => ?_⟩
    rw [hread step rest hstep, hmid, Option.bind_some, ← husable _ (cleanEnd rest) hstep]
    by_cases hhttp : scheme = "http"
    · simp [hhttp]
    · by_cases hhttps : scheme = "https"
      · simp [hhttps]
      · simp [hhttp, hhttps]
  · refine ⟨false, fun step rest hstep => ?_⟩
    rw [hread step rest hstep]
    cases h : readScheme (cleanStart base ++ '/' :: (step.toList ++ '/' :: cleanEnd rest)) with
    | none => rfl
    | some parts => exact absurd ⟨_, _, _, h⟩ hscheme

end Web.Url

/-! ## Headers -/

namespace Web

/-- What is written of a user and password can stand in a header. -/
theorem isHeaderValue_basic (bytes : List UInt8) :
    isHeaderValue ("Basic " ++ String.ofList (Base64.encode bytes)) = true := by
  have hletters : ∀ n < 64, isHeaderValue (String.ofList [Base64.letter n]) = true := by decide
  rw [isHeaderValue, String.toList_append, List.all_append, Bool.and_eq_true]
  refine ⟨by decide, List.all_eq_true.2 fun c hc => ?_⟩
  rw [String.toList_ofList] at hc
  rcases Base64.mem_encode hc with rfl | ⟨n, hn, rfl⟩
  · decide
  · simpa [isHeaderValue] using hletters n hn

/-- A user and password can stand in a header whatever they are. -/
theorem Request.sendable_withBasicAuth {r : Request} (hr : r.sendable = true)
    (user password : String) : (r.withBasicAuth user password).sendable = true := by
  rw [withBasicAuth, withHeader, sendable, List.all_append, Bool.and_eq_true]
  refine ⟨hr, ?_⟩
  rw [List.all_cons, List.all_nil, Bool.and_true, Bool.and_eq_true]
  exact ⟨by decide, isHeaderValue_basic _⟩

end Web

/-- A request to an address can be sent as it is. -/
theorem Fetch.sendable_of_request {method : Web.Method} {url : String} {r : Web.Request}
    (h : Fetch.request method url = .ok r) : r.sendable = true := by
  unfold Fetch.request at h
  cases hread : Web.Url.read? url with
  | none =>
    rw [hread] at h
    cases h
  | some u =>
    rw [hread] at h
    cases hinfo : u.userInfo with
    | none =>
      simp only [hinfo] at h
      cases h
      rfl
    | some info =>
      simp only [hinfo] at h
      cases h
      exact Web.Request.sendable_withBasicAuth rfl _ _

namespace Scheduler

variable {s : Scheduler} {method : Web.Method} {url : String} {r : Web.Request}

/-- A request to the scheduler can be sent. -/
theorem sendable_of_request (h : s.request method url = .ok r) : r.sendable = true := by
  unfold request at h
  cases hr : Fetch.request method url with
  | error error =>
    rw [hr] at h
    cases h
  | ok r =>
    rw [hr] at h
    cases h
    exact Web.Request.sendable_withBasicAuth (Fetch.sendable_of_request hr) _ _

/-- There is a request for every address that can be used. -/
theorem exists_request_iff : (∃ r, s.request method url = .ok r) ↔
    (Web.Url.read? url).isSome = true := by
  unfold request Fetch.request
  cases hread : Web.Url.read? url with
  | none => exact ⟨nofun, nofun⟩
  | some u =>
    refine ⟨fun _ => rfl, fun _ => ?_⟩
    cases hinfo : u.userInfo with
    | none =>
      simp only [hinfo]
      exact ⟨_, rfl⟩
    | some info =>
      simp only [hinfo]
      exact ⟨_, rfl⟩

/-- In the address of a build a step comes first after the base that could be a host. -/
theorem exists_buildUrl_eq (s : Scheduler) (name : String) (number : Nat) :
    ∃ step rest, Web.Url.IsHostStep step.toList ∧ ∀ tail,
      s.buildUrl name number ++ ("/" ++ tail) =
        s.base ++ "/" ++ (step ++ "/" ++ (rest ++ tail)) := by
  cases hsteps : (Text.split '/' name).filter (· ≠ "") with
  | nil =>
    have hpath : jobPath name = "" := by
      rw [jobPath, hsteps]
      rfl
    refine ⟨Decimal.natText number, "", ⟨?_, fun c hc => ?_⟩, fun tail => ?_⟩
    · obtain ⟨d, -, rest, hdigits⟩ := Decimal.exists_natChars number
      rw [Decimal.natText, String.toList_ofList, hdigits]
      exact List.cons_ne_nil _ _
    · rw [Decimal.natText, String.toList_ofList] at hc
      obtain ⟨d, hd, rfl⟩ := Decimal.exists_of_mem_natChars hc
      have hdigits : ∀ d < 10, Web.Url.isHostChar (Decimal.digitChar d) = true := by decide
      exact hdigits d hd
    · rw [buildUrl, hpath]
      simp only [String.append_assoc, String.empty_append]
  | cons step steps =>
    refine ⟨"job", step ++ String.join (steps.map ("/job/" ++ ·)) ++ "/" ++
      Decimal.natText number ++ "/", .of_all (by decide) (by decide), fun tail => ?_⟩
    have hjob : ("/job/" : String) = "/" ++ ("job" ++ "/") := rfl
    have hpath : jobPath name =
        "/job/" ++ (step ++ String.join (steps.map ("/job/" ++ ·))) := by
      rw [jobPath, hsteps, List.map_cons, String.join_cons, String.append_assoc]
    rw [buildUrl, hpath, hjob]
    simp only [String.append_assoc]

/-- If the executors can be asked for, so can a build and a crumb, and a build can be stopped. -/
theorem exists_requests (h : s.request .get s.executorsUrl = .ok r) (name : String)
    (number : Nat) :
    (∃ r, s.request .get (s.buildUrl name number ++ "/api/json") = .ok r) ∧
      (∃ r, s.request .get (s.base ++ "/crumbIssuer/api/json") = .ok r) ∧
      ∃ r, s.request .post (s.stopUrl name number) = .ok r := by
  obtain ⟨usable, husable⟩ := Web.Url.exists_isSome_read? s.base
  have hexecutors : s.executorsUrl = s.base ++ "/" ++ ("computer" ++ "/" ++
      ("api/json?depth=2&tree=computer[executors[currentExecutable[number,url]],"
        ++ "oneOffExecutors[currentExecutable[number,url]]]")) := by
    rw [executorsUrl]
    simp only [String.append_assoc]
    rfl
  have hcrumb : s.base ++ "/crumbIssuer/api/json" =
      s.base ++ "/" ++ ("crumbIssuer" ++ "/" ++ "api/json") := by
    simp only [String.append_assoc]
    rfl
  obtain rfl : usable = true := by
    have hlist := exists_request_iff.1 ⟨r, h⟩
    rw [hexecutors, husable _ _ (.of_all (by decide) (by decide))] at hlist
    exact hlist
  obtain ⟨step, rest, hstep, hbuild⟩ := exists_buildUrl_eq s name number
  refine ⟨exists_request_iff.2 ?_, exists_request_iff.2 ?_, exists_request_iff.2 ?_⟩
  · exact (congrArg (fun url => (Web.Url.read? url).isSome) (hbuild "api/json")).trans
      (husable _ _ hstep)
  · rw [hcrumb]
    exact husable _ _ (.of_all (by decide) (by decide))
  · exact (congrArg (fun url => (Web.Url.read? url).isSome) (hbuild "stop")).trans
      (husable _ _ hstep)

end Scheduler

end ImagePipeline
