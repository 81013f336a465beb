import Difflore.Skills.Promotion
import Difflore.Skills.RepoCapture
import Difflore.Skills.Sanitizer

/-! # Does a capture store what private regions hold?

Two calls whose inputs differ only inside closed regions. The body and the examples are sanitized
before anything is compared or stored. The title is stored, hashed and made into the id as it came.
-/

namespace Difflore.Skills

open Foundation Text Infra Context Hook Observability

variable {clock : CallClock} {outcome : RememberOutcome} {input : RememberRuleInput}
  {after : RuleStore}

/-! ## Texts that differ inside their regions -/

theorem dropWhile_around {p : Char → Bool} {core : Text} (hcore : core.head?.any p = false)
    (hne : core ≠ []) (front back : Text) :
    (front ++ (core ++ back)).dropWhile p = front.dropWhile p ++ (core ++ back) := by
  have hkeep : (core ++ back).dropWhile p = core ++ back := by
    cases core with
    | nil => contradiction
    | cons c core =>
      have hc : p c = false := hcore
      rw [List.cons_append, List.dropWhile_cons_of_neg (by simp [hc])]
  rw [List.dropWhile_append, hkeep]
  split
  next hempty => rw [List.isEmpty_iff.mp hempty, List.nil_append]
  next => rfl

theorem trim_around {core : Text} (hne : core ≠ []) (hhead : core.head?.any isWhitespace = false)
    (hlast : core.getLast?.any isWhitespace = false) (front back : Text) :
    trim (front ++ (core ++ back)) = trimStart front ++ (core ++ trimEnd back) := by
  have hstart : trimStart (front ++ (core ++ back)) = trimStart front ++ (core ++ back) :=
    dropWhile_around hhead hne front back
  rw [trim, hstart, trimEnd, trimEnd, List.rdropWhile, List.rdropWhile]
  have hreverse : (trimStart front ++ (core ++ back)).reverse =
      back.reverse ++ (core.reverse ++ (trimStart front).reverse) := by simp
  rw [hreverse, dropWhile_around (by rwa [List.head?_reverse]) (by simpa using hne)]
  simp

theorem marks_of_tag {tag : Tag '<' '>'} {text : Text}
    (htext : toAsciiLowercase text = tag.symbols) :
    text.head? = some '<' ∧ text.getLast? = some '>' := by
  have hhead := congrArg List.head? htext
  have hlast := congrArg List.getLast? htext
  rw [toAsciiLowercase, List.head?_map] at hhead
  rw [toAsciiLowercase, List.getLast?_map, ← List.nil_append tag.symbols,
    tag.getLast?_append_symbols] at hlast
  obtain ⟨first, hfirst, hlowerFirst⟩ := Option.map_eq_some_iff.mp hhead
  obtain ⟨last, hlast, hlowerLast⟩ := Option.map_eq_some_iff.mp hlast
  rw [hfirst, hlast, (toLower_eq_iff (by decide)).mp hlowerFirst,
    (toLower_eq_iff (by decide)).mp hlowerLast]
  exact ⟨rfl, rfl⟩

theorem last_append_eq {s t : Text} {c : Char} (ht : t.getLast? = some c) :
    (s ++ t).getLast? = some c := by
  have hne : t ≠ [] := by
    rintro rfl
    contradiction
  rw [getLast?_append_of_ne_nil hne, ht]

theorem last_segments (segments : List Segment) {front : Text}
    (hfront : front.getLast? = some '>') :
    (front ++ segments.flatMap Segment.render).getLast? = some '>' := by
  induction segments generalizing front with
  | nil => simpa using hfront
  | cons segment rest ih =>
    rw [List.flatMap_cons, ← List.append_assoc]
    refine ih (last_append_eq ?_)
    rw [Segment.render]
    exact last_append_eq (last_append_eq (last_append_eq (marks_of_tag segment.closing_eq).2))

def Segment.trimStart (segment : Segment) : Segment :=
  { segment with
    before := Text.trimStart segment.before
    before_public := isPublic_of_infix (List.dropWhile_suffix _).isInfix segment.before_public }

theorem trim_renderSegments (segment : Segment) (rest : List Segment) (tail : Text) :
    trim (renderSegments (segment :: rest) tail) =
      renderSegments (Segment.trimStart segment :: rest) (trimEnd tail) := by
  obtain ⟨hopening, -⟩ := marks_of_tag segment.opening_eq
  obtain ⟨-, hclosing⟩ := marks_of_tag segment.closing_eq
  have hsplit : ∀ before end', before ++ (((segment.opening ++ (segment.content ++
    segment.closing)) ++
      rest.flatMap Segment.render) ++ end') = (before ++ (segment.opening ++ (segment.content ++
        segment.closing))) ++ rest.flatMap Segment.render ++ end' := by
    intro before end'
    simp only [List.append_assoc]
  have hlast := last_segments rest (last_append_eq (s := segment.opening)
    (last_append_eq (s := segment.content) hclosing))
  have hhead : ((segment.opening ++ (segment.content ++ segment.closing)) ++
      rest.flatMap Segment.render).head? = some '<' := by
    rw [List.append_assoc, List.head?_append, hopening]
    rfl
  rw [renderSegments, renderSegments, List.flatMap_cons, List.flatMap_cons, Segment.render,
    Segment.render, ← hsplit]
  refine (trim_around ?_ ?_ ?_ _ _).trans (hsplit (trimStart segment.before) _)
  · intro hnil
    rw [hnil] at hhead
    contradiction
  · rw [hhead]
    rfl
  · rw [hlast]
    rfl

theorem differInside_trim {first second : Text} (hinside : DifferInside first second) :
    DifferInside (Text.trim first) (Text.trim second) := by
  rcases hinside with rfl | ⟨segments, others, tail, htail, hframe, rfl, rfl⟩
  · exact .inl rfl
  · cases hframe with
    | nil => exact .inl rfl
    | @cons segment other rest otherRest hhead hrest =>
      rw [trim_renderSegments, trim_renderSegments]
      have hend : IsPublic (trimEnd tail) :=
        isPublic_of_infix (List.rdropWhile_prefix ..).isInfix htail
      refine .inr ⟨Segment.trimStart segment :: rest, Segment.trimStart other :: otherRest, _, hend,
        List.Forall₂.cons ⟨?_, hhead.kind, hhead.opening, hhead.closing⟩ hrest, rfl, rfl⟩
      exact congrArg trimStart hhead.before

theorem eq_of_trim_eq {first second : Text} (hinside : DifferInside first second)
    (htrim : Text.trim first = Text.trim second) : first = second := by
  rcases hinside with rfl | ⟨segments, others, tail, -, hframe, rfl, rfl⟩
  · rfl
  · cases hframe with
    | nil => rfl
    | @cons segment other rest otherRest hhead hrest =>
      rw [trim_renderSegments, trim_renderSegments] at htrim
      simp only [renderSegments, List.flatMap_cons, Segment.render, Segment.trimStart, hhead.before,
        List.append_assoc] at htrim ⊢
      have hinner := List.append_cancel_left htrim
      simp only [← List.append_assoc] at hinner ⊢
      have hregions := List.append_cancel_right hinner
      simp only [List.append_assoc] at hregions ⊢
      rw [← List.append_assoc segment.closing, ← List.append_assoc segment.content,
        ← List.append_assoc segment.opening, hregions]
      simp only [List.append_assoc]

structure InputsDifferInside (first second : RememberRuleInput) : Prop where
  title : DifferInside first.title second.title
  body : DifferInside first.body second.body
  badCode : Option.Rel DifferInside first.badCode second.badCode
  goodCode : Option.Rel DifferInside first.goodCode second.goodCode
  filePatterns : first.filePatterns = second.filePatterns
  kind : first.kind = second.kind
  category : first.category = second.category
  origin : first.origin = second.origin
  capturedByClient : first.capturedByClient = second.capturedByClient

/-- The clocks of two calls at the same moment; each draws its own suffix. -/
structure SameMoment (first second : CallClock) : Prop where
  now : first.now = second.now
  nowMs : first.nowMs = second.nowMs
  localDay : first.localDay = second.localDay

section Runs

variable {library : RememberLibrary}

theorem InputsDifferInside.sanitizedBody_eq {first second : RememberRuleInput}
    (hinside : InputsDifferInside first second) :
    sanitizedBody library first.body = sanitizedBody library second.body := by
  rw [sanitizedBody, sanitizedBody, sanitizeRememberText, sanitizeRememberText,
    (differInside_trim hinside.body).strip_eq]

theorem InputsDifferInside.newExamples_eq {first second : RememberRuleInput}
    (hinside : InputsDifferInside first second) (id origin : Text) :
    newExamples library first id origin = newExamples library second id origin := by
  unfold newExamples
  have hbad := hinside.badCode
  have hgood := hinside.goodCode
  revert hbad hgood
  generalize first.badCode = bad
  generalize second.badCode = bad'
  generalize first.goodCode = good
  generalize second.goodCode = good'
  intro hbad hgood
  cases hbad with
  | none => rfl
  | some hbad =>
    cases hgood with
    | none => rfl
    | some hgood => 
      simp only [sanitizeRememberText, hbad.strip_eq, hgood.strip_eq]
      rfl

end Runs

/-- The ids are one, or each ends with the suffix that its call drew. -/
def IdAlike (first second : CallClock) (id other : Text) : Prop :=
  id = other ∨ ∃ front, id = front ++ first.idSuffix ∧ other = front ++ second.idSuffix

structure RowAlike (first second : CallClock) (row other : SkillRow) : Prop where
  id : IdAlike first second row.id other.id
  name : row.name = other.name
  description : row.description = other.description
  contentHash : row.contentHash = other.contentHash

structure ExampleAlike (first second : CallClock) (row other : RuleExample) : Prop where
  skillId : IdAlike first second row.skillId other.skillId
  badCode : row.badCode = other.badCode
  goodCode : row.goodCode = other.goodCode
  source : row.source = other.source

structure StoresAlike (first second : CallClock) (store other : RuleStore) : Prop where
  skills : List.Forall₂ (RowAlike first second) store.skills.rows other.skills.rows
  examples : List.Forall₂ (ExampleAlike first second) store.examples other.examples

def NoBlankStored (store after : RuleStore) : Prop :=
  ∀ row ∈ after.skills.rows, row.description = [] →
    ∃ old ∈ store.skills.rows, old.id = row.id ∧ old.description = []

def meetsRow (library : RememberLibrary) (clock : CallClock) (input : RememberRuleInput)
    (status : RuleStatus) (sourceRepo : Option RepoScope) (store : RuleStore) : Bool :=
  (safeSlug (trim input.title)).any fun slug =>
    (findExisting library clock input status (sourceRepo.map RepoScope.value) slug
      (input.origin.getD conversation) (rememberSignatureHash library input) store.skills).isSome

section Writes

variable {first second : CallClock}

theorem KeepsContent.rowAlike {f : SkillRow → SkillRow}
    (hf : KeepsContent f) {g : SkillRow → SkillRow}
    (hg : KeepsContent g) (row : SkillRow) : RowAlike first second (f row) (g row) := by
  obtain ⟨confidence, updatedAt, heq⟩ := hf row
  obtain ⟨confidence', updatedAt', heq'⟩ := hg row
  rw [heq, heq']
  exact ⟨.inl rfl, rfl, rfl, rfl⟩

theorem rowAlike_refl (row : SkillRow) : RowAlike first second row row :=
  keepsContent_id.rowAlike keepsContent_id row

theorem exampleAlike_refl (row : RuleExample) : ExampleAlike first second row row :=
  ⟨.inl rfl, rfl, rfl, rfl⟩

theorem exampleAlike_newExamples (library : RememberLibrary) (input : RememberRuleInput)
    {id other : Text} (hid : IdAlike first second id other) (origin : Text) :
    List.Forall₂ (ExampleAlike first second) (newExamples library input id origin)
      (newExamples library input other origin) := by
  unfold newExamples
  cases input.badCode with
  | none => exact .nil
  | some bad =>
    cases input.goodCode with
    | none => exact .nil
    | some good =>
      dsimp only
      split
      · exact .cons ⟨hid, rfl, rfl, rfl⟩ .nil
      · exact .nil

theorem rows_apply {status : RuleStatus} {origin : Text} {rung : Rung} {store : RuleStore}
    (happly : rung.apply clock status origin store = .ok (after, outcome)) :
    (∃ f, KeepsContent f ∧ after.skills.rows = store.skills.rows.map f) ∧
      after.examples = store.examples := by
  cases rung with
  | matchedActive row =>
    obtain ⟨rfl, -⟩ := apply_matchedActive happly
    exact ⟨⟨id, keepsContent_id, (List.map_id _).symm⟩, rfl⟩
  | strengthen row reason windowHit =>
    obtain ⟨rfl, -⟩ := apply_strengthen happly
    exact ⟨⟨_, keepsContent_strengthened row.id clock.now, rows_strengthenRule ..⟩, rfl⟩

theorem examples_insertFresh {library : RememberLibrary} {status : RuleStatus} {origin : Text}
    {rule : RememberedRule} {store : RuleStore}
    (hinsert : insertFresh library clock input status origin rule store = .ok (after, outcome)) :
    after.examples = store.examples ++ newExamples library input rule.id origin := by
  unfold insertFresh at hinsert
  by_cases htaken : rule.id ∈ store.skills.keys
  · simp [htaken, bind, Except.bind, throw, throwThe, MonadExceptOf.throw] at hinsert
  · simp only [htaken, if_false, bind, Except.bind, pure, Except.pure] at hinsert
    split at hinsert
    · contradiction
    · obtain ⟨rfl, -⟩ := Prod.mk.inj (Except.ok.inj hinsert)
      rfl

end Writes

/-! ## Calls that differ inside regions -/

section Alike

variable {library : Library} {sha256Hex : Text → Text} {firstClock secondClock : CallClock}
  {first second : RememberRuleInput} {confidenceOverride : Option Rat} {status : RuleStatus}
  {sourceRepo : Option RepoScope} {sourceKind : Option Text} {store : RuleStore}

theorem InputsDifferInside.hash_eq {library : RememberLibrary}
    (hinside : InputsDifferInside first second) (htitle : first.title = second.title) :
    rememberSignatureHash library first = rememberSignatureHash library second := by
  rw [rememberSignatureHash, rememberSignatureHash, rememberRuleContentHash,
    rememberRuleContentHash, htitle, hinside.sanitizedBody_eq, hinside.filePatterns]

theorem InputsDifferInside.findExisting_eq {library : RememberLibrary}
    (hinside : InputsDifferInside first second) (hmoment : SameMoment firstClock secondClock)
    (htitle : first.title = second.title) (repo : Option Text) (slug origin contentHash : Text)
    (skills : SkillTable) :
    findExisting library firstClock first status repo slug origin contentHash skills =
      findExisting library secondClock second status repo slug origin contentHash skills := by
  simp only [findExisting, importRung, findSemanticPrReviewMatch, findInWindow, htitle,
    hinside.sanitizedBody_eq, hinside.filePatterns, hmoment.nowMs]

theorem meetsRow_eq {library : RememberLibrary} (hinside : InputsDifferInside first second)
    (hmoment : SameMoment firstClock secondClock) (htitle : first.title = second.title) :
    meetsRow library firstClock first status sourceRepo store =
      meetsRow library secondClock second status sourceRepo store := by
  simp only [meetsRow, hinside.findExisting_eq hmoment htitle, hinside.hash_eq htitle, htitle,
    hinside.origin]

/-- What an accepted call leaves: the rows it found, or these and a row of its own. -/
inductive Left (library : RememberLibrary) (clock : CallClock) (input : RememberRuleInput)
    (status : RuleStatus) (sourceRepo : Option RepoScope) (store after : RuleStore) : Prop
  | met (hmeets : meetsRow library clock input status sourceRepo store = true)
      (f : SkillRow → SkillRow) (hkeeps : KeepsContent f)
      (hrows : after.skills.rows = store.skills.rows.map f)
      (hexamples : after.examples = store.examples)
  | stored (hmeets : meetsRow library clock input status sourceRepo store = false)
      (slug : Text) (row : SkillRow) (hslug : safeSlug (trim input.title) = some slug)
      (hrows : after.skills.rows = store.skills.rows ++ [row])
      (hid : row.id = convIds ++ (slug ++ '-' :: clock.idSuffix))
      (hname : row.name = trim input.title)
      (hdescription : row.description = sanitizedBody library input.body)
      (hhash : row.contentHash = some (rememberSignatureHash library input))
      (hbody : trim input.body ≠ [])
      (hexamples : after.examples = store.examples ++
        newExamples library input row.id (input.origin.getD conversation))

theorem left_rememberInner {library : RememberLibrary}
    (hcall : rememberInner library clock input confidenceOverride status sourceRepo sourceKind
      store = .ok (after, outcome)) :
    Left library clock input status sourceRepo store after := by
  obtain ⟨hbody, slug, hslug, ⟨rung, hfind, happly⟩ | ⟨hnone, hinsert⟩⟩ := rememberInner_rows hcall
  · obtain ⟨⟨f, hkeeps, hrows⟩, hexamples⟩ := rows_apply happly
    refine .met ?_ f hkeeps hrows hexamples
    rw [meetsRow, hslug, Option.any_some, hfind, Option.isSome_some]
  · obtain ⟨hfresh, hskills, -⟩ := insertFresh_eq_ok hinsert
    refine .stored ?_ slug _ hslug (by rw [hskills, rows_rememberRule hfresh]) rfl rfl rfl rfl hbody
      (examples_insertFresh hinsert)
    rw [meetsRow, hslug, Option.any_some, hnone, Option.isSome_none]

theorem noBlankStored
    (hleft : Left (redacting library sha256Hex) clock input status sourceRepo store after) :
    NoBlankStored store after := by
  intro row hrow hblank
  cases hleft with
  | met _ f hkeeps hrows _ =>
    rw [hrows] at hrow
    obtain ⟨old, hold, rfl⟩ := List.mem_map.mp hrow
    obtain ⟨confidence, updatedAt, heq⟩ := hkeeps old
    rw [heq] at hblank ⊢
    exact ⟨old, hold, rfl, hblank⟩
  | stored _ slug new _ hrows _ _ hdescription _ hbody _ =>
    rw [hrows, List.mem_append, List.mem_singleton] at hrow
    rcases hrow with hold | rfl
    · exact ⟨row, hold, rfl, hblank⟩
    · rw [hdescription, sanitizedBody_eq_nil] at hblank
      contradiction

/-- Accepted calls whose inputs differ inside regions leave the same rules and examples, and no
rule without a description, exactly when their titles are one or when each of them finds a row. -/
theorem capture_hides_regions_iff {firstAfter secondAfter : RuleStore}
    {firstOutcome secondOutcome : RememberOutcome} (hmoment : SameMoment firstClock secondClock)
    (hinside : InputsDifferInside first second)
    (hfirst : rememberInner (redacting library sha256Hex) firstClock first confidenceOverride
      status sourceRepo sourceKind store = .ok (firstAfter, firstOutcome))
    (hsecond : rememberInner (redacting library sha256Hex) secondClock second confidenceOverride
      status sourceRepo sourceKind store = .ok (secondAfter, secondOutcome)) :
    (StoresAlike firstClock secondClock firstAfter secondAfter ∧ NoBlankStored store firstAfter ∧
        NoBlankStored store secondAfter) ↔
      (first.title = second.title ∨
        (meetsRow (redacting library sha256Hex) firstClock first status sourceRepo store = true ∧
          meetsRow (redacting library sha256Hex) secondClock second status sourceRepo store =
            true)) := by
  have hleft := left_rememberInner hfirst
  have hright := left_rememberInner hsecond
  rw [and_iff_left ⟨noBlankStored hleft, noBlankStored hright⟩]
  cases hleft with
  | met hmeets f hkeeps hrows hexamples =>
    cases hright with
    | met hmeets' f' hkeeps' hrows' hexamples' =>
      refine iff_of_true ⟨?_, ?_⟩ (.inr ⟨hmeets, hmeets'⟩)
      · rw [hrows, hrows', List.forall₂_map_left_iff, List.forall₂_map_right_iff]
        exact List.forall₂_same.mpr fun row _ => hkeeps.rowAlike hkeeps' row
      · rw [hexamples, hexamples']
        exact List.forall₂_same.mpr fun row _ => exampleAlike_refl row
    | stored hmeets' slug row hslug hrows' =>
      refine iff_of_false (fun halike => ?_) ?_
      · have hlength := halike.skills.length_eq
        simp [hrows, hrows'] at hlength
      · rintro (htitle | ⟨-, hmeets''⟩)
        · rw [meetsRow_eq hinside hmoment htitle, hmeets'] at hmeets
          contradiction
        · rw [hmeets'] at hmeets''
          contradiction
  | stored hmeets slug row hslug hrows hid hname hdescription hhash hbody hexamples =>
    cases hright with
    | met hmeets' f hkeeps hrows' =>
      refine iff_of_false (fun halike => ?_) ?_
      · have hlength := halike.skills.length_eq
        simp [hrows, hrows'] at hlength
      · rintro (htitle | ⟨hmeets'', -⟩)
        · rw [← meetsRow_eq hinside hmoment htitle, hmeets] at hmeets'
          contradiction
        · rw [hmeets] at hmeets''
          contradiction
    | stored hmeets' slug' row' hslug' hrows' hid' hname' hdescription' hhash' _ hexamples' =>
      have hrow : RowAlike firstClock secondClock row row' ↔ first.title = second.title := by
        constructor
        · intro halike
          exact eq_of_trim_eq hinside.title (by rw [← hname, ← hname', halike.name])
        · intro htitle
          obtain rfl : slug = slug' := by
            rw [htitle, hslug'] at hslug
            exact (Option.some.inj hslug).symm
          refine ⟨.inr ⟨convIds ++ (slug ++ ['-']), ?_, ?_⟩, ?_, ?_, ?_⟩
          · simp [hid]
          · simp [hid']
          · rw [hname, hname', htitle]
          · rw [hdescription, hdescription', hinside.sanitizedBody_eq]
          · rw [hhash, hhash', hinside.hash_eq htitle]
      rw [or_iff_left (by simp [hmeets]), ← hrow]
      constructor
      · intro halike
        have hlast := List.forall₂_drop store.skills.rows.length halike.skills
        rw [hrows, hrows', List.drop_left, List.drop_left] at hlast
        exact (List.forall₂_cons.mp hlast).1
      · intro halike
        refine ⟨?_, ?_⟩
        · rw [hrows, hrows']
          exact List.rel_append (List.forall₂_same.mpr fun row _ => rowAlike_refl row)
            (.cons halike .nil)
        · rw [hexamples, hexamples', ← hinside.newExamples_eq, hinside.origin]
          exact List.rel_append (List.forall₂_same.mpr fun row _ => exampleAlike_refl row)
            (exampleAlike_newExamples _ _ halike.id _)

end Alike

def regionDigest (text : Text) : Text :=
  if "<private>x" <:+: text then
    "bfd892803edddbf0e95788db36513af092bbf46cf1c003b625aafef4aa79ba56"
  else if "<private>y" <:+: text then
    "daa6c13e0b83a2c4f835966b99610eb9274a82a4c4c2c9d9dd6a2ca17d24092a"
  else "9537238b19ad4a4331473763e43d62cb2e289ffdb24230758b8f5aa4bd8e14de"

def withRegion (before : Text) (c : Char) : Text := before ++ ("<private>" ++ ([c] ++ "</private>"))

theorem differInside_withRegion {before : Text} {c d : Char}
    (hbefore : '<' ∉ toAsciiLowercase before) (hc : '<' ∉ toAsciiLowercase [c])
    (hd : '<' ∉ toAsciiLowercase [d]) :
    DifferInside (withRegion before c) (withRegion before d) := by
  refine .inr ⟨[shortRegion before hbefore [c] hc], [shortRegion before hbefore [d] hd], [],
    free_nil, .cons ⟨rfl, rfl, rfl, rfl⟩ .nil, ?_, ?_⟩
  · simp [renderSegments, Segment.render, shortRegion, withRegion]
  · simp [renderSegments, Segment.render, shortRegion, withRegion]

def namedInput (c : Char) : RememberRuleInput :=
  { conversationInput with title := withRegion ['a'] c }

/-- The names of the rules are the titles, with what their regions hold. -/
theorem title_keeps_region : InputsDifferInside (namedInput 'x') (namedInput 'y') ∧
      ∃ firstAfter firstOutcome secondAfter secondOutcome,
        rememberInner (redacting oneTag regionDigest) noon (namedInput 'x') none .active none none
          newStore = .ok (firstAfter, firstOutcome) ∧
        rememberInner (redacting oneTag regionDigest) noon (namedInput 'y') none .active none none
          newStore = .ok (secondAfter, secondOutcome) ∧
        ¬ StoresAlike noon noon firstAfter secondAfter := by
  refine ⟨⟨differInside_withRegion (by decide) (by decide) (by decide), .inl rfl, .none, .none,
    rfl, rfl, rfl, rfl, rfl⟩, ?_⟩
  have hnames : ∀ c ∈ ['x', 'y'], (rememberInner (redacting oneTag regionDigest) noon (namedInput c)
      none .active none none newStore).toOption.map
        (fun result => result.1.skills.rows.map SkillRow.name) = some [withRegion ['a'] c] := by
    simp only [List.forall_mem_cons]
    refine ⟨by decide +kernel, by decide +kernel, by simp⟩
  have hfirst := hnames 'x' (by simp)
  have hsecond := hnames 'y' (by simp)
  cases hcall : rememberInner (redacting oneTag regionDigest) noon (namedInput 'x') none .active none
      none newStore with
  | error err => simp [hcall, Except.toOption] at hfirst
  | ok first =>
    cases hcall' : rememberInner (redacting oneTag regionDigest) noon (namedInput 'y') none .active
        none none newStore with
    | error err => simp [hcall', Except.toOption] at hsecond
    | ok second =>
      rw [hcall] at hfirst
      rw [hcall'] at hsecond
      refine ⟨_, _, _, _, rfl, rfl, fun halike => ?_⟩
      have hsame : first.1.skills.rows.map SkillRow.name =
          second.1.skills.rows.map SkillRow.name := by
        rw [← List.forall₂_eq_eq_eq, List.forall₂_map_left_iff, List.forall₂_map_right_iff]
        exact halike.skills.imp fun _ _ => RowAlike.name
      have hdiffer : withRegion ['a'] 'x' ≠ withRegion ['a'] 'y' := by decide
      have hregions : [withRegion ['a'] 'x'] = [withRegion ['a'] 'y'] :=
        (Option.some.inj hfirst).symm.trans (hsame.trans (Option.some.inj hsecond))
      exact hdiffer (List.cons.inj hregions).1

def describedInput (c : Char) : RememberRuleInput :=
  { conversationInput with title := ['a'], body := withRegion "b " c }

theorem capture_hides_regions_iff_body : ∃ firstAfter firstOutcome secondAfter secondOutcome,
      rememberInner (redacting oneTag regionDigest) noon (describedInput 'x') none .active none none
        newStore = .ok (firstAfter, firstOutcome) ∧
      rememberInner (redacting oneTag regionDigest) noon (describedInput 'y') none .active none none
        newStore = .ok (secondAfter, secondOutcome) ∧
      StoresAlike noon noon firstAfter secondAfter := by
  have hinside : InputsDifferInside (describedInput 'x') (describedInput 'y') :=
    ⟨.inl rfl, differInside_withRegion (by decide) (by decide) (by decide), .none, .none,
      rfl, rfl, rfl, rfl, rfl⟩
  have haccepted : ∀ c ∈ ['x', 'y'], (rememberInner (redacting oneTag regionDigest) noon
      (describedInput c) none .active none none newStore).toOption.isSome = true := by
    simp only [List.forall_mem_cons]
    refine ⟨by decide +kernel, by decide +kernel, by simp⟩
  have hfirst := haccepted 'x' (by simp)
  have hsecond := haccepted 'y' (by simp)
  cases hcall : rememberInner (redacting oneTag regionDigest) noon (describedInput 'x') none .active
      none none newStore with
  | error err => simp [hcall, Except.toOption] at hfirst
  | ok first =>
    cases hcall' : rememberInner (redacting oneTag regionDigest) noon (describedInput 'y') none
        .active none none newStore with
    | error err => simp [hcall', Except.toOption] at hsecond
    | ok second =>
      exact ⟨_, _, _, _, rfl, rfl, ((capture_hides_regions_iff ⟨rfl, rfl, rfl⟩ hinside hcall
        hcall').mpr (.inl rfl)).1⟩

end Difflore.Skills
