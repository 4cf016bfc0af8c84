import ImagePipeline.Proofs.TextPieces
import ImagePipeline.Web.Url
import Mathlib.Data.List.TakeDrop
import Mathlib.Data.List.TakeWhile

/-!
# Addresses as they go over the wire

An address is read into the form in which it is sent.  What is sent of a path whose characters are
all kept, and whose steps lead somewhere, is the path itself.

* `Url.percentEncode_of_keep`, `Url.length_lt_percentEncode`: percent-encoding leaves a text alone
  if it keeps every character, and makes it longer otherwise.
* `Url.IsWireStep`: the steps of a path that are sent as they are.
* `IsBase.exists_path_eq`: a path after a base is sent after a front that the base alone decides.
  So two such paths after one base are sent alike only if they are the same.
-/

namespace ImagePipeline.Web.Url

/-! ## Percent-encoding -/

variable {keep : Char → Bool} {c : Char} {cs : List Char}

theorem percentEncode_cons (keep : Char → Bool) (c : Char) (cs : List Char) :
    percentEncode keep (c :: cs) = (if keep c then [c]
      else (Text.encode (String.ofList [c])).flatMap percentByte) ++ percentEncode keep cs :=
  List.flatMap_cons

theorem percentEncode_of_keep (h : ∀ c ∈ cs, keep c = true) : percentEncode keep cs = cs := by
  induction cs with
  | nil => rfl
  | cons c cs ih =>
    rw [percentEncode_cons, if_pos (h c List.mem_cons_self),
      ih fun d hd => h d (List.mem_cons_of_mem c hd), List.singleton_append]

/-- The encoding of a character that is not kept. -/
theorem exists_percentEncode_cons (hc : keep c = false) (cs : List Char) :
    ∃ a b rest, percentEncode keep (c :: cs) = '%' :: a :: b :: rest ++ percentEncode keep cs := by
  rw [percentEncode_cons, hc, if_neg Bool.false_ne_true]
  cases hbytes : Text.encode (String.ofList [c]) with
  | nil =>
    have hdecode := Text.decode_encode (String.ofList [c])
    rw [hbytes] at hdecode
    have hempty : Text.decode [] = some "" := Text.decode_encode ""
    rw [hempty] at hdecode
    have hlists := congrArg (Option.map String.toList) hdecode
    simp at hlists
  | cons b bytes =>
    rw [List.flatMap_cons]
    exact ⟨_, _, _, rfl⟩

theorem length_le_percentEncode (keep : Char → Bool) (cs : List Char) :
    cs.length ≤ (percentEncode keep cs).length := by
  induction cs with
  | nil => exact Nat.le_refl _
  | cons c cs ih =>
    cases hc : keep c with
    | true =>
      rw [percentEncode_cons, hc, if_pos rfl, List.singleton_append, List.length_cons,
        List.length_cons]
      omega
    | false =>
      obtain ⟨a, b, rest, hcons⟩ := exists_percentEncode_cons hc cs
      rw [hcons]
      simp only [List.length_cons, List.length_append]
      omega

theorem length_lt_percentEncode (hmem : c ∈ cs) (hc : keep c = false) :
    cs.length < (percentEncode keep cs).length := by
  induction cs with
  | nil => cases hmem
  | cons d cs ih =>
    cases hd : keep d with
    | false =>
      obtain ⟨a, b, rest, hcons⟩ := exists_percentEncode_cons hd cs
      have hlength := length_le_percentEncode keep cs
      rw [hcons]
      simp only [List.length_cons, List.length_append]
      omega
    | true =>
      rcases List.mem_cons.1 hmem with rfl | hmem
      · rw [hc] at hd
        cases hd
      · rw [percentEncode_cons, hd, if_pos rfl, List.singleton_append, List.length_cons,
          List.length_cons]
        exact Nat.succ_lt_succ (ih hmem)

/-- The characters of an encoding: those that are kept, percent signs and hexadecimal digits. -/
theorem mem_percentEncode (h : c ∈ percentEncode keep cs) :
    (c ∈ cs ∧ keep c = true) ∨ c = '%' ∨ ∃ n < 16, c = hexDigit n := by
  rw [percentEncode, List.mem_flatMap] at h
  obtain ⟨d, hd, hc⟩ := h
  split at hc
  next hkeep =>
    obtain rfl := List.mem_singleton.1 hc
    exact .inl ⟨hd, hkeep⟩
  next =>
    obtain ⟨b, -, hb⟩ := List.mem_flatMap.1 hc
    have hbyte : b.toNat < 256 := b.toNat_lt
    simp only [percentByte, List.mem_cons, List.not_mem_nil, or_false] at hb
    rcases hb with rfl | rfl | rfl
    · exact .inr (.inl rfl)
    · exact .inr (.inr ⟨_, by omega, rfl⟩)
    · exact .inr (.inr ⟨_, Nat.mod_lt _ (by decide), rfl⟩)

/-! ## Paths -/

/-- A character that a path keeps on the wire. -/
def IsWireChar (c : Char) : Prop := keepInPath c = true ∧ c ≠ '\\'

/-- A step that leads somewhere. -/
def LeadsOn (step : List Char) : Prop := isDot step = false ∧ isDoubleDot step = false

/-- A step of a path that is sent as it is. -/
structure IsWireStep (step : List Char) : Prop where
  ne_nil : step ≠ []
  isWireChar : ∀ c ∈ step, IsWireChar c
  not_slash : '/' ∉ step
  leadsOn : LeadsOn step

theorem isWireChar_iff :
    IsWireChar c ↔ (0x20 < c.toNat ∧ c.toNat < 0x7F) ∧
      c ∉ "\"#<>?`\x7b\x7d".toList ∧ c ≠ '\\' := by
  rw [IsWireChar, keepInPath, isGraphic, Bool.and_eq_true, Bool.and_eq_true, decide_eq_true_iff,
    decide_eq_true_iff, Bool.not_eq_true', List.contains_eq_mem, decide_eq_false_iff_not, and_assoc]

theorem isWireChar_of_all (h : cs.all (fun c => keepInPath c && c != '\\') = true) :
    ∀ c ∈ cs, IsWireChar c := by
  intro c hc
  have htest := List.all_eq_true.1 h c hc
  rw [Bool.and_eq_true, bne_iff_ne] at htest
  exact htest

theorem IsWireChar.toNat_gt (h : IsWireChar c) : 0x20 < c.toNat := (isWireChar_iff.1 h).1.1

theorem IsWireChar.ne_of_mem {d : Char} (h : IsWireChar c)
    (hd : d ∈ "\"#<>?`\x7b\x7d".toList) : c ≠ d := by
  rintro rfl
  exact (isWireChar_iff.1 h).2.1 hd

theorem resolveSteps_of_leadsOn {steps done : List (List Char)}
    (h : ∀ step ∈ steps, LeadsOn step) : resolveSteps done steps = steps.reverse ++ done := by
  induction steps generalizing done with
  | nil => rfl
  | cons step rest ih =>
    obtain ⟨hdot, hdots⟩ := h step List.mem_cons_self
    have hrest := @ih (step :: done) fun step' hstep' => h step' (List.mem_cons_of_mem _ hstep')
    rw [List.reverse_cons, List.append_assoc, List.singleton_append, ← hrest]
    cases rest with
    | nil => simp [resolveSteps, hdots, hdot]
    | cons next rest => simp [resolveSteps, hdots, hdot]

/-- Steps that lead on leave alone whatever comes of the steps before them. -/
theorem exists_resolveSteps_append (first done : List (List Char)) :
    ∃ before, ∀ steps, steps ≠ [] → (∀ step ∈ steps, LeadsOn step) →
      resolveSteps done (first ++ steps) = steps.reverse ++ before := by
  induction first generalizing done with
  | nil => exact ⟨done, fun steps _ hsteps => resolveSteps_of_leadsOn hsteps⟩
  | cons step rest ih =>
    obtain ⟨before, hbefore⟩ := ih
      (if isDoubleDot step then done.tail else if isDot step then done else step :: done)
    refine ⟨before, fun steps hne hsteps => ?_⟩
    rw [← hbefore steps hne hsteps, List.cons_append, resolveSteps]
    · split
      · rfl
      · split <;> rfl
    · intro hnil
      exact hne (List.append_eq_nil_iff.1 hnil).2

/-- A path without backslashes is made of its steps. -/
theorem toList_pathFrom {cs : List Char} (hcs : '\\' ∉ cs) :
    (pathFrom [] cs).toList = '/' :: Text.joinChars '/'
      ((resolveSteps [] (Text.splitChars '/' cs)).map (percentEncode keepInPath)).reverse := by
  have hmap : (cs.map fun c => if c = '\\' then '/' else c) = cs := by
    refine (List.map_congr_left fun c hc => if_neg ?_).trans (List.map_id _)
    rintro rfl
    exact hcs hc
  rw [pathFrom, hmap, String.toList_ofList]

/-- A path whose steps lead on is sent as it is, after what is sent of the steps before it. -/
theorem exists_toList_pathFrom_append {cs : List Char} (hcs : '\\' ∉ cs) :
    ∃ front : List Char, ∀ rest : List Char, (∀ c ∈ rest, IsWireChar c) →
      (∀ step ∈ Text.splitChars '/' rest, LeadsOn step) →
      (pathFrom [] (cs ++ '/' :: rest)).toList = front ++ '/' :: rest := by
  obtain ⟨before, hbefore⟩ := exists_resolveSteps_append (Text.splitChars '/' cs) []
  refine ⟨(before.map (percentEncode keepInPath)).reverse.flatMap ('/' :: ·),
    fun rest hrest hsteps => ?_⟩
  have hslash : '\\' ∉ cs ++ '/' :: rest := by
    rw [List.mem_append, List.mem_cons, not_or, not_or]
    exact ⟨hcs, by decide, fun hmem => (hrest _ hmem).2 rfl⟩
  have hsent : (Text.splitChars '/' rest).map (percentEncode keepInPath) =
      Text.splitChars '/' rest := by
    refine (List.map_congr_left fun step hstep => ?_).trans (List.map_id _)
    exact percentEncode_of_keep fun c hc => (hrest c (Text.mem_of_mem_splitChars hstep hc)).1
  rw [toList_pathFrom hslash, Text.splitChars_append_cons,
    hbefore _ (Text.splitChars_ne_nil _ _) hsteps, List.map_append, List.reverse_append,
    List.map_reverse, List.reverse_reverse, hsent,
    Text.cons_joinChars_append _ _ (Text.splitChars_ne_nil _ _), Text.joinChars_splitChars]

/-- The same without steps before it. -/
theorem toList_pathFrom_of_leadsOn {rest : List Char} (hrest : ∀ c ∈ rest, IsWireChar c)
    (hsteps : ∀ step ∈ Text.splitChars '/' rest, LeadsOn step) :
    (pathFrom [] rest).toList = '/' :: rest := by
  have hsent : (Text.splitChars '/' rest).map (percentEncode keepInPath) =
      Text.splitChars '/' rest := by
    refine (List.map_congr_left fun step hstep => ?_).trans (List.map_id _)
    exact percentEncode_of_keep fun c hc => (hrest c (Text.mem_of_mem_splitChars hstep hc)).1
  rw [toList_pathFrom fun hmem => (hrest _ hmem).2 rfl, resolveSteps_of_leadsOn hsteps,
    List.append_nil, List.map_reverse, List.reverse_reverse, hsent, Text.joinChars_splitChars]

/-! ## Addresses after a base -/

/-- Characters that fail a test end the run of those that pass it. -/
theorem span_append_cons {α : Type} {p : α → Bool} {a : α} (ha : p a = false)
    (front rest : List α) :
    (front ++ a :: rest).span p = ((front.span p).1, (front.span p).2 ++ a :: rest) := by
  simp only [List.span_eq_takeWhile_dropWhile]
  induction front with
  | nil => simp [ha]
  | cons b front ih =>
    cases hb : p b with
    | true =>
      simp only [List.cons_append, List.takeWhile_cons, List.dropWhile_cons, hb, if_true]
      rw [Prod.mk.injEq] at ih
      rw [ih.1, ih.2]
    | false => simp [hb]

theorem spanUntil_of_not_mem {stops cs : List Char} (h : ∀ c ∈ cs, c ∉ stops) :
    spanUntil stops cs = (cs, []) := by
  rw [spanUntil, List.span_eq_takeWhile_dropWhile]
  have hall : ∀ c ∈ cs, (!stops.contains c) = true := by
    intro c hc
    simpa using h c hc
  exact Prod.ext (List.takeWhile_eq_self_iff.2 hall) (List.dropWhile_eq_nil_iff.2 hall)

/-- A text on the wire is read as it is. -/
theorem clean_eq {s : String} (h : ∀ c ∈ s.toList, IsWireChar c) : clean s = s.toList := by
  have hinner {cs : List Char} (hcs : ∀ c ∈ cs, IsWireChar c) :
      cs.dropWhile (fun c => decide (c.toNat ≤ 0x20)) = cs := by
    cases cs with
    | nil => rfl
    | cons c cs =>
      have hc := (hcs c List.mem_cons_self).toNat_gt
      exact List.dropWhile_cons_of_neg (by simp; omega)
  rw [clean, hinner h, hinner fun c hc => h c (List.mem_reverse.1 hc), List.reverse_reverse]
  refine List.filter_eq_self.2 fun c hc => ?_
  have hgt := (h c hc).toNat_gt
  have hne {d : Char} (hd : d.toNat ≤ 0x20) : c ≠ d := by
    rintro rfl
    omega
  simp [hne (show '\t'.toNat ≤ 0x20 by decide), hne (show '\n'.toNat ≤ 0x20 by decide),
    hne (show '\r'.toNat ≤ 0x20 by decide)]

/-- The scheme is cut off at the first colon, whatever comes after it.  No slash comes before. -/
theorem exists_of_readScheme {cs after : List Char} {scheme : String}
    (h : readScheme cs = some (scheme, after)) :
    ∃ front, cs = front ++ ':' :: after ∧ '/' ∉ front ∧
      ∀ rest, readScheme (front ++ ':' :: rest) = some (scheme, rest) := by
  unfold readScheme at h
  cases hcut : Text.cutChars ':' cs with
  | none =>
    rw [hcut] at h
    cases h
  | some parts =>
    obtain ⟨front, after'⟩ := parts
    obtain ⟨rfl, hfront⟩ := Text.cutChars_eq_some_iff.1 hcut
    rw [hcut] at h
    cases front with
    | nil => cases h
    | cons c more =>
      simp only [Option.bind_eq_bind, Option.bind_some] at h
      split at h
      next hscheme =>
        cases h
        refine ⟨c :: more, rfl, fun hslash => ?_, fun rest => ?_⟩
        · rw [Bool.and_eq_true, List.all_eq_true] at hscheme
          rcases List.mem_cons.1 hslash with rfl | hmore
          · exact absurd hscheme.1 (by decide)
          · exact absurd (hscheme.2 _ hmore) (by decide)
        · rw [readScheme, Text.cutChars_eq_some_iff.2 ⟨rfl, hfront⟩]
          exact if_pos hscheme
      next => cases h

/-- The path of an address after its scheme. -/
theorem map_path_readAuthority {secure : Bool} {cs authority tail path after : List Char}
    (hspan : spanUntil ['/', '\\', '?', '#']
      (cs.dropWhile fun c => c = '/' || c = '\\') = (authority, tail))
    (htail : spanUntil ['?', '#'] tail = (path, after)) :
    (readAuthority secure cs).map (·.path) =
      (readHost secure ((Text.splitChars '@' authority).getLast?.getD [])).map
        fun _ => pathFrom [] path.tail := by
  unfold readAuthority
  dsimp only
  rw [hspan]
  dsimp only
  rw [htail]
  cases readHost secure ((Text.splitChars '@' authority).getLast?.getD []) <;> rfl

/-- The base of addresses: an address without query and fragment, as it goes over the wire. -/
structure IsBase (base : String) : Prop where
  isWireChar : ∀ c ∈ base.toList, IsWireChar c
  isSome_read : (read? base).isSome = true

/-- The end of a path, from its slash on, that is sent as it is. -/
structure IsWireEnd (rest : List Char) : Prop where
  isWireChar : ∀ c ∈ rest, IsWireChar c
  leadsOn : ∀ step ∈ Text.splitChars '/' rest, LeadsOn step

theorem exists_readAuthority_append {secure : Bool} {cs : List Char}
    (hcs : ∀ c ∈ cs, IsWireChar c) (hread : (readAuthority secure cs).isSome = true) :
    ∃ front : List Char, ∀ rest, IsWireEnd rest → ∃ u,
      readAuthority secure (cs ++ '/' :: rest) = some u ∧ u.path.toList = front ++ '/' :: rest := by
  generalize hd : cs.dropWhile (fun c => c = '/' || c = '\\') = d
  have hdWire : ∀ c ∈ d, IsWireChar c :=
    fun c hc => hcs c ((List.dropWhile_sublist _).subset (hd ▸ hc))
  obtain ⟨authority, tail, hspan⟩ : ∃ authority tail,
      spanUntil ['/', '\\', '?', '#'] d = (authority, tail) := ⟨_, _, rfl⟩
  have hsplit : d = authority ++ tail := by
    rw [spanUntil, List.span_eq_takeWhile_dropWhile, Prod.mk.injEq] at hspan
    rw [← hspan.1, ← hspan.2, List.takeWhile_append_dropWhile]
  have hplain {text : List Char} (h : ∀ c ∈ text, IsWireChar c) :
      spanUntil ['?', '#'] text = (text, []) := by
    refine spanUntil_of_not_mem fun c hc => ?_
    simp only [List.mem_cons, List.not_mem_nil, or_false, not_or]
    exact ⟨(h c hc).ne_of_mem (by decide), (h c hc).ne_of_mem (by decide)⟩
  have htailWire : ∀ c ∈ tail, IsWireChar c :=
    fun c hc => hdWire c (hsplit ▸ List.mem_append_right _ hc)
  have hhost :
      (readHost secure ((Text.splitChars '@' authority).getLast?.getD [])).isSome = true := by
    have hpath := @map_path_readAuthority secure cs _ _ _ _ (hd ▸ hspan) (hplain htailWire)
    have hsome := congrArg Option.isSome hpath
    rw [Option.isSome_map, Option.isSome_map, hread] at hsome
    exact hsome.symm
  have hne : d ≠ [] := by
    rintro rfl
    obtain ⟨rfl, rfl⟩ := List.append_eq_nil_iff.1 hsplit.symm
    cases secure <;> cases hhost
  obtain ⟨front, hfront⟩ : ∃ front : List Char, ∀ rest, IsWireEnd rest →
      (pathFrom [] (tail ++ '/' :: rest).tail).toList = front ++ '/' :: rest := by
    cases tail with
    | nil => exact ⟨[], fun rest hrest => toList_pathFrom_of_leadsOn hrest.isWireChar hrest.leadsOn⟩
    | cons c tail =>
      have htail : '\\' ∉ tail := fun hmem => (htailWire _ (List.mem_cons_of_mem c hmem)).2 rfl
      obtain ⟨front, hfront⟩ := exists_toList_pathFrom_append htail
      exact ⟨front, fun rest hrest => hfront rest hrest.isWireChar hrest.leadsOn⟩
  refine ⟨front, fun rest hrest => ?_⟩
  have hlongSpan : spanUntil ['/', '\\', '?', '#']
      ((cs ++ '/' :: rest).dropWhile fun c => c = '/' || c = '\\') =
        (authority, tail ++ '/' :: rest) := by
    rw [List.dropWhile_append, hd, if_neg (by simpa using hne), spanUntil,
      span_append_cons (by decide), ← spanUntil, hspan]
  have hlongTail : ∀ c ∈ tail ++ '/' :: rest, IsWireChar c := by
    intro c hc
    rw [List.mem_append, List.mem_cons] at hc
    rcases hc with hc | rfl | hc
    · exact htailWire c hc
    · exact ⟨by decide, by decide⟩
    · exact hrest.isWireChar c hc
  have hpath := @map_path_readAuthority secure (cs ++ '/' :: rest) _ _ _ _ hlongSpan
    (hplain hlongTail)
  obtain ⟨host, hhost⟩ := Option.isSome_iff_exists.1 hhost
  rw [hhost, Option.map_some] at hpath
  obtain ⟨u, hu, hupath⟩ := Option.map_eq_some_iff.1 hpath
  exact ⟨u, hu, hupath ▸ hfront rest hrest⟩

/-- After a base, the end of a path is sent as it is, with a front that the base decides. -/
theorem IsBase.exists_path_eq {base : String} (hbase : IsBase base) :
    ∃ front : List Char, ∀ rest, IsWireEnd rest.toList → ∃ u,
      read? (base ++ "/" ++ rest) = some u ∧ u.path.toList = front ++ '/' :: rest.toList := by
  obtain ⟨hwire, hsome⟩ := hbase
  have hclean (rest : String) (hrest : IsWireEnd rest.toList) :
      clean (base ++ "/" ++ rest) = base.toList ++ '/' :: rest.toList := by
    have hchars : (base ++ "/" ++ rest).toList = base.toList ++ '/' :: rest.toList := by simp
    rw [clean_eq, hchars]
    intro c hc
    rw [hchars, List.mem_append, List.mem_cons] at hc
    rcases hc with hc | rfl | hc
    · exact hwire c hc
    · exact ⟨by decide, by decide⟩
    · exact hrest.isWireChar c hc
  rw [read?, clean_eq hwire] at hsome
  cases hscheme : readScheme base.toList with
  | none =>
    rw [hscheme] at hsome
    cases hsome
  | some parts =>
    obtain ⟨scheme, after⟩ := parts
    obtain ⟨front, hfront, -, hlong⟩ := exists_of_readScheme hscheme
    have hafter : ∀ c ∈ after, IsWireChar c := by
      intro c hc
      refine hwire c ?_
      rw [hfront]
      exact List.mem_append_right front (List.mem_cons_of_mem _ hc)
    rw [hscheme] at hsome
    simp only [Option.bind_eq_bind, Option.bind_some] at hsome
    have hread (rest : String) (hrest : IsWireEnd rest.toList) : read? (base ++ "/" ++ rest) =
        if scheme = "http" then readAuthority false (after ++ '/' :: rest.toList)
        else if scheme = "https" then readAuthority true (after ++ '/' :: rest.toList)
        else none := by
      rw [read?, hclean rest hrest, hfront, List.append_assoc, List.cons_append, hlong]
      rfl
    split at hsome
    next hhttp =>
      obtain ⟨front, hfront⟩ := exists_readAuthority_append hafter hsome
      refine ⟨front, fun rest hrest => ?_⟩
      rw [hread rest hrest, if_pos hhttp]
      exact hfront rest.toList hrest
    next hhttp =>
      split at hsome
      next hhttps =>
        obtain ⟨front, hfront⟩ := exists_readAuthority_append hafter hsome
        refine ⟨front, fun rest hrest => ?_⟩
        rw [hread rest hrest, if_neg hhttp, if_pos hhttps]
        exact hfront rest.toList hrest
      next => cases hsome

end ImagePipeline.Web.Url
