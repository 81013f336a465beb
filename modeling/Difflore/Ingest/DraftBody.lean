import Difflore.Export.Render
import Difflore.Foundation.Occurrence
import Difflore.Ingest.Ids
import Difflore.Ingest.LocalCandidates

/-! # Reading the body of a draft back

The body of a draft lists a rule, its evidence and what the reviewer said, each behind a label.
A reader looks for the labels anywhere in the body.
-/

namespace Difflore.Ingest

open Foundation Text Export

/-! ## The body -/

/-- The texts a body is assembled from. All but the excerpt are one line each. -/
structure DraftParts where
  statement : Text
  source : Text
  commentUrl : Option Text
  path : Text
  related : List Text
  excerpt : Text
  statement_line : '\n' ∉ statement
  source_line : '\n' ∉ source
  commentUrl_line : ∀ url ∈ commentUrl, '\n' ∉ url
  path_line : '\n' ∉ path
  related_line : ∀ other ∈ related, '\n' ∉ other

namespace DraftParts

variable (parts : DraftParts)

def url : Option Text := parts.commentUrl.filter fun url => trim url ≠ []

def file : Option Text := if trim parts.path = [] then none else some parts.path

def body : Text := "Rule:\n" ++ (parts.statement ++ (sourceEvidenceMarker ++ ('\n' ::
    (line "Source: " parts.source ++
    (parts.url.elim [] (line "Comment: ") ++
    (parts.file.elim [] (line "File: ") ++
    ((relatedFilesBodyLine (parts.path :: parts.related)).getD [] ++
    ("\nReviewer said:\n" ++ parts.excerpt))))))))

theorem candidateBody_eq_body (reading : ReviewReading) (item : ReviewItem)
    (comment : ReviewComment) (sourceRepo directive : Text) {scopePaths : List Text}
    (hstatement : parts.statement = reading.ruleStatement directive)
    (hsource : parts.source = (if trim sourceRepo = [] then item.repoFullName else sourceRepo) ++
      '#' :: item.prNumber.elim ['?'] decimal)
    (hurl : parts.commentUrl = comment.commentUrl) (hrelated : parts.related = scopePaths.drop 1)
    (hexcerpt : parts.excerpt =
      truncateChars 1200 (reading.evidenceExcerpt comment.content directive)) :
    candidateBody reading item comment sourceRepo directive parts.path scopePaths = parts.body := by
  have hfile : (if trim parts.path = [] then [] else line "File: " parts.path) =
      parts.file.elim [] (line "File: ") := by
    rw [file]
    split <;> rfl
  have hlisted : relatedFilesBodyLine scopePaths =
      relatedFilesBodyLine (parts.path :: parts.related) := by
    rw [relatedFilesBodyLine, relatedFilesBodyLine, hrelated, List.drop_one, List.drop_one,
      List.tail_cons]
  rw [candidateBody, body, hfile, hlisted, hstatement, hsource, hexcerpt, url, hurl]

end DraftParts

structure CandidateSourceProof where
  source : Option Text
  commentUrl : Option Text
  file : Option Text
  excerpt : Option Text

def CandidateSourceProof.hasAny (proof : CandidateSourceProof) : Bool :=
  proof.source.isSome || proof.commentUrl.isSome || proof.file.isSome || proof.excerpt.isSome

def fieldOf (label line : Text) : Option Text := (stripPrefix label (trim line)).map trim

def descriptionField (description label : Text) : Option Text :=
  ((Text.lines description).findSome? (fieldOf label)).filter (· ≠ [])

def excerptLimit : Nat := 500

def cutExcerpt (value : Text) : Text :=
  if excerptLimit < value.length then value.take excerptLimit ++ "..."
  else value

def quoteLabel : Text := "Reviewer said:"

def reviewerExcerpt (description : Text) : Option Text :=
  (((splitOnce quoteLabel description).map fun (_, body) => trim body).filter (· ≠ [])).map
    cutExcerpt

def readSourceProof (description : Text) : CandidateSourceProof where
  source := descriptionField description "Source:"
  commentUrl := descriptionField description "Comment:"
  file := descriptionField description "File:"
  excerpt := reviewerExcerpt description

def parseCandidateSourceProof (description : Text) : Option CandidateSourceProof :=
  if (readSourceProof description).hasAny then some (readSourceProof description) else none

def CutFrom (found text : Text) : Prop := ∃ start, start <+: text ∧
    (found = start ∨ (start.length = excerptLimit ∧ found = start ++ "..."))

/-- A reader gets the statement, the source, the URL, the file and the start of the excerpt. -/
structure RoundTrip (parts : DraftParts) : Prop where
  drafted : parseCandidateDraftedRule parts.body =
    some (normalizeLegacyPathPrefixedRule parts.statement)
  proof : ∃ proof, parseCandidateSourceProof parts.body = some proof ∧
    proof.source = some parts.source ∧ proof.commentUrl = parts.url ∧ proof.file = parts.file ∧
    CutFrom (proof.excerpt.getD []) parts.excerpt

def evidenceLabel : Text := "Source evidence:"

/-- The statement says something, and all of it in front of a label of the evidence. -/
def StatementClear (statement : Text) : Prop :=
  match beforeFirst evidenceLabel statement with
  | none => trim statement ≠ []
  | some front => trim front ≠ [] ∧
      normalizeLegacyPathPrefixedRule front = normalizeLegacyPathPrefixedRule statement

/-- The statement does not begin with the label, or says the same behind it. A field that the
body has is trimmed and not blank; one that it lacks is not in the excerpt. -/
def FieldClear (parts : DraftParts) (label : Text) (own : Option Text) : Prop :=
  match fieldOf label parts.statement, own with
  | some value, _ => (some value).filter (· ≠ []) = own
  | none, some text => trim text = text ∧ text ≠ []
  | none, none => descriptionField parts.excerpt label = none

namespace DraftParts

variable (parts : DraftParts)

def labelLines : List Text :=
  ("Source: ".toList ++ parts.source) :: ((parts.url.map ("Comment: ".toList ++ ·)).toList ++
    ((parts.file.map ("File: ".toList ++ ·)).toList ++
      (((relatedFilesBodyLine (parts.path :: parts.related)).map List.dropLast).toList ++ [[]])))

def headerLines : List Text :=
  ["Rule:".toList, parts.statement, [], "Source evidence:".toList] ++ parts.labelLines

def header : Text := unlines parts.headerLines

/-- No label of the excerpt stands in front of it, and it begins with no white space; or it opens
with what stands behind such a label. -/
def QuoteClear : Prop :=
  match afterFirst quoteLabel parts.header with
  | none => trimStart parts.excerpt = parts.excerpt ∨ trim parts.excerpt = []
  | some behind =>
    (trim (behind ++ (quoteLabel ++ '\n' :: parts.excerpt))).take excerptLimit <+:
      parts.excerpt

structure Unambiguous : Prop where
  statement : StatementClear parts.statement
  source : FieldClear parts "Source:" (some parts.source)
  comment : FieldClear parts "Comment:" parts.url
  file : FieldClear parts "File:" parts.file
  quote : parts.QuoteClear

end DraftParts

/-! ## Lines and labels -/

section Lines

variable {label value : Text}

theorem trim_stripCr (line : Text) : trim (stripCr line) = trim line := by
  unfold stripCr
  split
  next hlast =>
    obtain ⟨front, rfl⟩ := List.getLast?_eq_some_iff.mp hlast
    rw [List.dropLast_concat, trim_concat_of_isWhitespace (by decide)]
  next => rfl

theorem fieldOf_stripCr (label line : Text) :
    fieldOf label (stripCr line) = fieldOf label line := by
  rw [fieldOf, trim_stripCr, fieldOf]

theorem head?_trim_cons {c : Char} (hc : isWhitespace c = false) (rest : Text) :
    (trim (c :: rest)).head? = some c := by
  have hstart : trimStart (c :: rest) = c :: rest := by
    rw [trimStart, List.dropWhile_cons_of_neg (by simp [hc])]
  have hne : trim (c :: rest) ≠ [] := trim_ne_nil_of_mem (.head _) hc
  obtain ⟨dropped, hdropped⟩ : trim (c :: rest) <+: c :: rest := by
    rw [trim, hstart]
    exact List.rdropWhile_prefix ..
  obtain ⟨d, tail, htrim⟩ := List.exists_cons_of_ne_nil hne
  rw [htrim, List.cons_append, List.cons.injEq] at hdropped
  rw [htrim, List.head?_cons, hdropped.1]

theorem fieldOf_of_head_ne {c d : Char} {tail : Text} (hne : d ≠ c)
    (hc : isWhitespace c = false) (rest : Text) : fieldOf (d :: tail) (c :: rest) = none := by
  have hhead := head?_trim_cons hc rest
  have hnone : stripPrefix (d :: tail) (trim (c :: rest)) = none := by
    rw [stripPrefix_eq_none]
    rintro ⟨behind, hbehind⟩
    rw [← hbehind, List.cons_append, List.head?_cons, Option.some.injEq] at hhead
    exact hne hhead
  rw [fieldOf, hnone, Option.map_none]

theorem fieldOf_labelled (hhead : ∀ c ∈ label.head?, isWhitespace c = false)
    (hlast : ∀ c ∈ label.getLast?, isWhitespace c = false) (hne : label ≠ [])
    (value : Text) : fieldOf label (label ++ ' ' :: value) = some (trim value) := by
  have hlabel : trim label = label := trim_of_ends hhead hlast
  by_cases hblank : ∀ c ∈ ' ' :: value, isWhitespace c = true
  · have hvalue : trim value = [] := by
      have htrim := trim_append_blank [] fun c hc => hblank c (.tail _ hc)
      exact htrim
    have hstrip : stripPrefix label label = some [] := by
      simpa using stripPrefix_append label []
    rw [fieldOf, trim_append_blank label hblank, hlabel, hvalue, hstrip]
    rfl
  · have hend : trimEnd (' ' :: value) ≠ [] := by
      rwa [trimEnd, ne_eq, List.rdropWhile_eq_nil_iff]
    obtain ⟨c, rest, rfl⟩ := List.exists_cons_of_ne_nil hne
    have hc := hhead c rfl
    have hstart : trimStart (c :: rest ++ ' ' :: value) = c :: rest ++ ' ' :: value := by
      rw [List.cons_append, trimStart, List.dropWhile_cons_of_neg (by simp [hc])]
    have htrim : trim (c :: rest ++ ' ' :: value) = c :: rest ++ trimEnd (' ' :: value) := by
      rw [trim, hstart, trimEnd_append hend]
    rw [fieldOf, htrim, stripPrefix_append, Option.map_some, trim_trimEnd,
      trim_cons_of_isWhitespace (by decide)]

end Lines

namespace DraftParts

variable (parts : DraftParts)

theorem related_cases : relatedFilesBodyLine (parts.path :: parts.related) = none ∨
      ∃ value, '\n' ∉ value ∧ relatedFilesBodyLine (parts.path :: parts.related) =
        some (line "Related files: " value) := by
  have hshown : ∀ shown, shown ⊆ parts.related → '\n' ∉ ", ".toList.intercalate shown := by
    intro shown hsubset hmem
    induction shown with
    | nil => simp at hmem
    | cons first rest ih =>
      by_cases hrest : rest = []
      · rw [hrest, List.intercalate_singleton] at hmem
        exact parts.related_line first (hsubset (.head _)) hmem
      · rw [List.intercalate_cons_of_ne_nil hrest, List.mem_append, List.mem_append] at hmem
        rcases hmem with (hfirst | hsep) | htail
        · exact parts.related_line first (hsubset (.head _)) hfirst
        · exact absurd hsep (by decide)
        · exact ih (fun _ hin => hsubset (.tail _ hin)) htail
  unfold relatedFilesBodyLine
  dsimp only [List.drop_succ_cons, List.drop_zero]
  split
  · exact .inl rfl
  · right
    have htake := hshown _ (List.take_subset relatedFilesBodyLimit parts.related)
    split
    · exact ⟨_, htake, rfl⟩
    · refine ⟨_, ?_, rfl⟩
      rw [List.mem_append, List.mem_append, List.mem_append, not_or, not_or, not_or]
      refine ⟨htake, by decide, fun hdigit => ?_, by decide⟩
      exact absurd (isDigit_of_mem_toDigits hdigit) (by decide)

theorem newline_not_mem_headerLines : ∀ line ∈ parts.headerLines, '\n' ∉ line := by
  have hlabelled : ∀ label text : Text, '\n' ∉ label → '\n' ∉ text → '\n' ∉ label ++ text := by
    intro label text hlabel htext hmem
    exact (List.mem_append.mp hmem).elim hlabel htext
  intro line hline
  simp only [headerLines, labelLines, List.mem_append, List.mem_cons, Option.mem_toList,
    Option.map_eq_some_iff, List.not_mem_nil, or_false] at hline
  rcases hline with (rfl | rfl | rfl | rfl) | rfl | ⟨url, hurl, rfl⟩ | ⟨file, hfile, rfl⟩ |
    ⟨related, hrelated, rfl⟩ | rfl
  · decide
  · exact parts.statement_line
  · decide
  · decide
  · exact hlabelled _ _ (by decide) parts.source_line
  · exact hlabelled _ _ (by decide)
      (parts.commentUrl_line url (Option.filter_eq_some_iff.mp hurl).1)
  · unfold DraftParts.file at hfile
    obtain ⟨-, hpath⟩ := Option.ite_none_left_eq_some.mp hfile
    exact hlabelled _ _ (by decide) (Option.some.inj hpath ▸ parts.path_line)
  · rcases parts.related_cases with hnone | ⟨value, hvalue, hsome⟩
    · rw [hnone] at hrelated
      contradiction
    · rw [hsome, Option.some.injEq] at hrelated
      rw [← hrelated, line, ← List.append_assoc, List.dropLast_concat]
      exact hlabelled _ _ (by decide) hvalue
  · exact List.not_mem_nil

theorem body_eq : parts.body = parts.header ++ (quoteLabel ++ '\n' :: parts.excerpt) := by
  have hbody : parts.body = "Rule:".toList ++ ('\n' :: (parts.statement ++ ('\n' :: '\n' ::
      ("Source evidence:".toList ++ ('\n' :: (line "Source: ".toList parts.source ++
        (parts.url.elim [] (line "Comment: ".toList) ++
        (parts.file.elim [] (line "File: ") ++
        ((relatedFilesBodyLine (parts.path :: parts.related)).getD [] ++
          ('\n' :: (quoteLabel ++ '\n' :: parts.excerpt))))))))))) := rfl
  have hcons : ∀ line rest, unlines (line :: rest) = line ++ '\n' :: unlines rest := by
    intro line rest
    rw [unlines, List.flatMap_cons, List.append_assoc]
    rfl
  have hrelated : (relatedFilesBodyLine (parts.path :: parts.related)).getD [] =
      unlines ((relatedFilesBodyLine (parts.path :: parts.related)).map
        List.dropLast).toList := by
    rcases parts.related_cases with hnone | ⟨value, -, hsome⟩
    · rw [hnone]
      rfl
    · rw [hsome, Option.getD_some, Option.map_some, Option.toList_some, hcons, line,
        ← List.append_assoc, List.dropLast_concat]
      rfl
  have hfield : ∀ (label : Text) (own : Option Text), own.elim [] (line label) =
      unlines (own.map (label ++ ·)).toList := by
    intro label own
    cases own with
    | none => rfl
    | some text =>
      rw [Option.elim_some, Option.map_some, Option.toList_some, hcons, List.append_assoc]
      rfl
  rw [hbody, hrelated, hfield, hfield, header, headerLines, labelLines]
  generalize quoteLabel = label, "Rule:".toList = rule, "Source evidence:".toList = evidence,
    "Source: ".toList = source, "Comment: ".toList = comment, "File: ".toList = file
  simp only [line, unlines_append, hcons, List.append_assoc, List.cons_append, List.nil_append]
  rfl

end DraftParts

structure FieldLabel (label : Text) : Prop where
  head : ∃ c tail, label = c :: tail ∧ c ≠ 'R' ∧ isWhitespace c = false
  last : ∀ c ∈ label.getLast?, isWhitespace c = false
  evidence : fieldOf label "Source evidence:" = none

theorem FieldLabel.of_rule {label : Text} (hlabel : FieldLabel label) (rest : Text) :
    fieldOf label ('R' :: rest) = none := by
  obtain ⟨c, tail, rfl, hne, -⟩ := hlabel.head
  exact fieldOf_of_head_ne hne (by decide) rest

theorem FieldLabel.labelled {label : Text} (hlabel : FieldLabel label) (value : Text) :
    fieldOf label (label ++ ' ' :: value) = some (trim value) := by
  obtain ⟨c, tail, rfl, -, hc⟩ := hlabel.head
  exact fieldOf_labelled (by simpa using hc) hlabel.last (List.cons_ne_nil _ _) value

namespace DraftParts

variable (parts : DraftParts)

theorem descriptionField_body {label : Text} (hlabel : FieldLabel label) :
    descriptionField parts.body label =
      (((fieldOf label parts.statement).or (parts.labelLines.findSome? (fieldOf label))).or
        ((Text.lines parts.excerpt).findSome? (fieldOf label))).filter (· ≠ []) := by
  have hlines : Text.lines parts.body =
      (parts.headerLines ++ [quoteLabel]).map stripCr ++ Text.lines parts.excerpt := by
    have hbody : parts.body = unlines (parts.headerLines ++ [quoteLabel]) ++ parts.excerpt := by
      rw [body_eq, header, unlines_append]
      simp [unlines]
    rw [hbody, lines_unlines_append]
    intro line hline
    rcases List.mem_append.mp hline with hheader | hquote
    · exact parts.newline_not_mem_headerLines line hheader
    · rw [List.mem_singleton.mp hquote]
      decide
  have hempty : fieldOf label [] = none := by
    obtain ⟨c, tail, rfl, -⟩ := hlabel.head
    rfl
  have hstrip : fieldOf label ∘ stripCr = fieldOf label := by
    funext line
    exact fieldOf_stripCr label line
  rw [descriptionField, hlines, List.findSome?_append, List.findSome?_map, hstrip,
    List.findSome?_append]
  have hquote : [quoteLabel].findSome? (fieldOf label) = none := by
    rw [List.findSome?_singleton]
    exact hlabel.of_rule _
  have hfirst : parts.headerLines.findSome? (fieldOf label) =
      (fieldOf label parts.statement).or (parts.labelLines.findSome? (fieldOf label)) := by
    have hrule : fieldOf label "Rule:".toList = none := hlabel.of_rule _
    rw [headerLines, List.findSome?_append]
    simp only [List.findSome?_cons, hrule, hempty, hlabel.evidence, List.findSome?_nil]
    cases fieldOf label parts.statement <;> rfl
  rw [hquote, Option.or_none, hfirst]

theorem fieldClear_iff {label : Text} {own : Option Text} (hlabel : FieldLabel label)
    (hown : parts.labelLines.findSome? (fieldOf label) = own.map trim) :
    descriptionField parts.body label = own ↔ FieldClear parts label own := by
  rw [parts.descriptionField_body hlabel, hown]
  unfold FieldClear
  cases fieldOf label parts.statement with
  | some value => rfl
  | none =>
    cases own with
    | none => rfl
    | some text =>
      rw [Option.map_some, Option.none_or, Option.some_or, Option.filter_some]
      constructor
      · intro hfilter
        obtain ⟨hne, htext⟩ := Option.ite_none_right_eq_some.mp hfilter
        obtain htrim := Option.some.inj htext
        exact ⟨htrim, by simpa [htrim] using hne⟩
      · rintro ⟨htrim, hne⟩
        rw [htrim, if_pos (by simpa using hne)]

end DraftParts

/-! ## The statement -/

theorem infix_append_newline_iff {label : Text} (hne : label ≠ []) (hlabel : '\n' ∉ label)
    (s t : Text) : label <:+: s ++ '\n' :: t ↔ label <:+: s ∨ label <:+: t := by
  have htail : '\n' ∉ label.tail := fun hmem => hlabel (List.mem_of_mem_tail hmem)
  have hstart : ¬ label <+: '\n' :: t := by
    obtain ⟨c, tail, rfl⟩ := List.exists_cons_of_ne_nil hne
    rw [List.cons_prefix_cons]
    rintro ⟨rfl, -⟩
    exact hlabel (.head _)
  rw [(cleanCut_of_head htail s t).infix_append_iff, List.infix_cons_iff, or_iff_right hstart]

theorem cleanCut_label {label : Text} (hhead : ∀ c ∈ label.head?, c ∉ label.tail) (s t : Text) :
    CleanCut label s (label ++ t) := by
  cases label with
  | nil =>
    intro x y hx _ hparts
    exact absurd (List.append_eq_nil_iff.mp hparts.symm).1 hx
  | cons c tail => exact cleanCut_of_head (hhead c rfl) s (tail ++ t)

theorem evidenceLabel_head : ∀ c ∈ evidenceLabel.head?, c ∉ evidenceLabel.tail := by
  intro c hc
  obtain rfl : 'S' = c := Option.some.inj hc
  decide

theorem parse_of_front {description after : Text} (front : Text)
    (hafter : descriptionSectionAfter description "Rule:" = some after)
    (hfront : trim ((beforeFirst evidenceLabel after).getD after) = trim front)
    (hline : '\n' ∉ front) : parseCandidateDraftedRule description = if trim front = [] then none
      else some (normalizeLegacyPathPrefixedRule front) := by
  have hfront' : trim ((beforeFirst "Source evidence:" after).getD after) = trim front := hfront
  rw [parseCandidateDraftedRule, hafter, Option.bind_some]
  dsimp only
  rw [hfront']
  split
  next => rfl
  next hne =>
    have htrimmed : '\n' ∉ trim front := fun hmem => hline (mem_of_mem_trim hmem)
    have hlines : Text.lines (trim front) = [trim front] := by
      rw [Text.lines, linesFrom_of_newline_not_mem htrimmed (.inl hne)]
      rfl
    rw [hlines, List.intercalate_singleton, normalizeLegacyPathPrefixedRule, trim_trim,
      normalizeLegacyPathPrefixedRule]

theorem beforeFirst_isPrefix {needle s front : Text}
    (hfront : beforeFirst needle s = some front) : front <+: s := by
  induction s generalizing front with
  | nil =>
    rw [beforeFirst] at hfront
    obtain ⟨-, heq⟩ := Option.ite_none_right_eq_some.mp hfront
    exact Option.some.inj heq ▸ List.prefix_refl _
  | cons c rest ih =>
    rw [beforeFirst] at hfront
    split at hfront
    next => exact Option.some.inj hfront ▸ List.nil_prefix
    next =>
      obtain ⟨later, hlater, rfl⟩ := Option.map_eq_some_iff.mp hfront
      exact List.cons_prefix_cons.mpr ⟨rfl, ih hlater⟩

theorem statementClear_iff (parts : DraftParts) : parseCandidateDraftedRule parts.body =
        some (normalizeLegacyPathPrefixedRule parts.statement) ↔
      StatementClear parts.statement := by
  obtain ⟨rest, hbody⟩ : ∃ rest, parts.body = "Rule:" ++ ('\n' ::
      (parts.statement ++ (['\n', '\n'] ++ (evidenceLabel ++ rest)))) := by
    obtain ⟨rest, hrest⟩ : ∃ rest, parts.body =
        "Rule:\n" ++ (parts.statement ++ (sourceEvidenceMarker ++ rest)) := ⟨_, rfl⟩
    have hrule : "Rule:\n" = "Rule:" ++ ['\n'] := rfl
    have hevidence : sourceEvidenceMarker = ['\n', '\n'] ++ evidenceLabel := rfl
    rw [hrule, hevidence, List.append_assoc, List.append_assoc] at hrest
    exact ⟨rest, hrest⟩
  have hafter : descriptionSectionAfter parts.body "Rule:" = some ('\n' ::
      (parts.statement ++ (['\n', '\n'] ++ (evidenceLabel ++ rest)))) := by
    have hstart : trimStart parts.body = parts.body := by
      rw [hbody]
      exact List.dropWhile_cons_of_neg (by decide)
    rw [descriptionSectionAfter, hstart, hbody, stripPrefix_append]
  have hskip : ∀ {s front : Text}, beforeFirst evidenceLabel s = some front →
      beforeFirst evidenceLabel ('\n' :: s) = some ('\n' :: front) := by
    intro s front hfront
    have hstart : ¬ evidenceLabel <+: '\n' :: s := by
      change ¬ 'S' :: _ <+: _
      rw [List.cons_prefix_cons]
      rintro ⟨heq, -⟩
      exact absurd heq (by decide)
    rw [beforeFirst, if_neg hstart, hfront, Option.map_some]
  have hspace : isWhitespace '\n' = true := by decide
  unfold StatementClear
  cases hcut : beforeFirst evidenceLabel parts.statement with
  | none =>
    have hnone : ¬ evidenceLabel <:+: parts.statement ++ ['\n', '\n'] := by
      rw [infix_append_newline_iff (by decide) (by decide), not_or]
      exact ⟨beforeFirst_eq_none.mp hcut, by decide⟩
    have hfront := hskip (beforeFirst_append (by decide)
      (cleanCut_label evidenceLabel_head _ rest) hnone)
    rw [List.append_assoc] at hfront
    rw [parse_of_front parts.statement hafter ?_ parts.statement_line]
    · split
      next hblank => simp [hblank]
      next hne => simp [hne]
    · rw [hfront, Option.getD_some, trim_cons_of_isWhitespace hspace]
      exact trim_append_blank _ (by simp [hspace])
  | some front =>
    have hfront := hskip (beforeFirst_append_of_some hcut
      (['\n', '\n'] ++ (evidenceLabel ++ rest)))
    have hline : '\n' ∉ front := fun hmem =>
      parts.statement_line ((beforeFirst_isPrefix hcut).subset hmem)
    rw [parse_of_front front hafter ?_ hline]
    · split
      next hblank => simp [hblank]
      next hne => simp [hne]
    · rw [hfront, Option.getD_some, trim_cons_of_isWhitespace hspace]

theorem cutFrom_nil (text : Text) : CutFrom [] text := ⟨[], List.nil_prefix, .inl rfl⟩

theorem cutFrom_cutExcerpt {value text : Text} :
    CutFrom (cutExcerpt value) text ↔ value.take excerptLimit <+: text := by
  unfold cutExcerpt
  split
  next hlong =>
    have hlength : (value.take excerptLimit).length = excerptLimit := by
      rw [List.length_take, Nat.min_eq_left hlong.le]
    constructor
    · rintro ⟨start, hstart, hwhole | ⟨-, hcut⟩⟩
      · exact (List.prefix_append _ _).trans (hwhole ▸ hstart)
      · rw [List.append_cancel_right hcut]
        exact hstart
    · intro hstart
      exact ⟨_, hstart, .inr ⟨hlength, rfl⟩⟩
  next hshort =>
    rw [List.take_of_length_le (Nat.not_lt.mp hshort)]
    constructor
    · rintro ⟨start, hstart, rfl | ⟨hlength, rfl⟩⟩
      · exact hstart
      · rw [List.length_append, hlength] at hshort
        exact absurd (Nat.lt_add_of_pos_right (by decide)) hshort
    · intro hstart
      exact ⟨value, hstart, .inl rfl⟩

theorem cutFrom_reviewerExcerpt {description behind text : Text}
    (hbehind : afterFirst quoteLabel description = some behind) :
    CutFrom ((reviewerExcerpt description).getD []) text ↔
      (trim behind).take excerptLimit <+: text := by
  have hfront : beforeFirst quoteLabel description ≠ none := by
    rw [ne_eq, beforeFirst_eq_none, ← afterFirst_eq_none, hbehind]
    exact Option.some_ne_none _
  obtain ⟨front, hfront⟩ := Option.ne_none_iff_exists'.mp hfront
  have hsplit : splitOnce quoteLabel description = some (front, behind) := by
    rw [splitOnce, hfront, Option.bind_some, hbehind, Option.map_some]
  rw [reviewerExcerpt, hsplit, Option.map_some, Option.filter_some]
  by_cases hblank : trim behind = []
  · simp [hblank, cutFrom_nil]
  · simp [hblank, cutFrom_cutExcerpt]

theorem take_trim_prefix_iff (text : Text) : (trim text).take excerptLimit <+: text ↔
      trimStart text = text ∨ trim text = [] := by
  constructor
  · intro hstart
    by_cases hblank : trim text = []
    · exact .inr hblank
    · left
      obtain ⟨c, rest, htrim⟩ := List.exists_cons_of_ne_nil hblank
      have hc := head_trim text c (by rw [htrim]; rfl)
      obtain ⟨behind, hbehind⟩ := hstart
      have hhead : text = c :: (rest.take 499 ++ behind) := by
        rw [← hbehind, htrim]
        rfl
      rw [hhead, trimStart, List.dropWhile_cons_of_neg (by simp [hc])]
  · rintro (hstart | hblank)
    · rw [trim, hstart]
      exact (List.take_prefix _ _).trans (List.rdropWhile_prefix ..)
    · rw [hblank]
      exact List.nil_prefix

theorem quoteLabel_head : ∀ c ∈ quoteLabel.head?, c ∉ quoteLabel.tail := by
  intro c hc
  obtain rfl := Option.some.inj hc
  decide

theorem quoteClear_iff (parts : DraftParts) :
    CutFrom ((reviewerExcerpt parts.body).getD []) parts.excerpt ↔ parts.QuoteClear := by
  unfold DraftParts.QuoteClear
  cases hheader : afterFirst quoteLabel parts.header with
  | none =>
    have hbehind : afterFirst quoteLabel parts.body = some ('\n' :: parts.excerpt) := by
      rw [parts.body_eq]
      exact afterFirst_append_needle (by decide) (cleanCut_label quoteLabel_head _ _)
        (afterFirst_eq_none.mp hheader)
    rw [cutFrom_reviewerExcerpt hbehind, trim_cons_of_isWhitespace (by decide),
      take_trim_prefix_iff]
  | some behind =>
    have hbehind := afterFirst_append_of_some hheader (quoteLabel ++ '\n' :: parts.excerpt)
    rw [← parts.body_eq] at hbehind
    exact cutFrom_reviewerExcerpt hbehind

/-! ## The round trip -/

theorem last_colon {label : Text} (hlast : label.getLast? = some ':') :
    ∀ c ∈ label.getLast?, isWhitespace c = false := by
  intro c hc
  obtain rfl := Option.some.inj (hlast.symm.trans hc)
  decide

theorem fieldLabel_source : FieldLabel "Source:" :=
  ⟨⟨_, _, rfl, by decide, by decide⟩, last_colon rfl, by decide⟩

theorem fieldLabel_comment : FieldLabel "Comment:" :=
  ⟨⟨_, _, rfl, by decide, by decide⟩, last_colon rfl, by decide⟩

theorem fieldLabel_file : FieldLabel "File:" :=
  ⟨⟨_, _, rfl, by decide, by decide⟩, last_colon rfl, by decide⟩

namespace DraftParts

variable (parts : DraftParts)

theorem findSome?_labelLines :
    parts.labelLines.findSome? (fieldOf "Source:".toList) = some (trim parts.source) ∧
      parts.labelLines.findSome? (fieldOf "Comment:".toList) = parts.url.map trim ∧
      parts.labelLines.findSome? (fieldOf "File:".toList) = parts.file.map trim := by
  have hsource : ∀ value, fieldOf "Source:".toList ("Source: ".toList ++ value) =
      some (trim value) := fieldLabel_source.labelled
  have hcomment : ∀ value, fieldOf "Comment:".toList ("Comment: ".toList ++ value) =
      some (trim value) := fieldLabel_comment.labelled
  have hfile : ∀ value, fieldOf "File:".toList ("File: ".toList ++ value) =
      some (trim value) := fieldLabel_file.labelled
  have hother : ∀ {label : Text} {own : Option Text} {start : Text}, (∀ value,
      fieldOf label (start ++ value) = none) →
        (own.map (start ++ ·)).toList.findSome? (fieldOf label) = none := by
    intro label own start hnone
    cases own with
    | none => rfl
    | some value => simp [hnone]
  have hrelated : ∀ {label : Text}, FieldLabel label →
      ((relatedFilesBodyLine (parts.path :: parts.related)).map
        List.dropLast).toList.findSome? (fieldOf label) = none := by
    intro label hlabel
    rcases parts.related_cases with hnone | ⟨value, -, hsome⟩
    · rw [hnone]
      rfl
    · rw [hsome, Option.map_some, Option.toList_some, List.findSome?_singleton, line,
        ← List.append_assoc, List.dropLast_concat]
      exact hlabel.of_rule _
  have hcommentSource : ∀ value, fieldOf "Comment:".toList ("Source: ".toList ++ value) = none :=
    fun value => fieldOf_of_head_ne (by decide) (by decide) _
  have hcommentFile : ∀ value, fieldOf "Comment:".toList ("File: ".toList ++ value) = none :=
    fun value => fieldOf_of_head_ne (by decide) (by decide) _
  have hfileSource : ∀ value, fieldOf "File:".toList ("Source: ".toList ++ value) = none :=
    fun value => fieldOf_of_head_ne (by decide) (by decide) _
  have hfileComment : ∀ value, fieldOf "File:".toList ("Comment: ".toList ++ value) = none :=
    fun value => fieldOf_of_head_ne (by decide) (by decide) _
  have hblank : ∀ {label : Text}, FieldLabel label → fieldOf label [] = none := by
    intro label hlabel
    obtain ⟨c, tail, rfl, -⟩ := hlabel.head
    rfl
  have hcomment' := hblank fieldLabel_comment
  have hfile' := hblank fieldLabel_file
  refine ⟨?_, ?_, ?_⟩
  · simp only [labelLines, List.findSome?_cons, hsource]
  · simp only [labelLines, List.findSome?_cons, List.findSome?_append, hcommentSource,
      hother hcommentFile, hrelated fieldLabel_comment, hcomment', List.findSome?_nil]
    cases parts.url with
    | none => rfl
    | some url =>
      rw [Option.map_some, Option.toList_some, List.findSome?_singleton, hcomment]
      rfl
  · simp only [labelLines, List.findSome?_cons, List.findSome?_append, hfileSource,
      hother hfileComment, hrelated fieldLabel_file, hfile', List.findSome?_nil]
    cases parts.file with
    | none => rfl
    | some file =>
      rw [Option.map_some, Option.toList_some, List.findSome?_singleton, hfile]
      rfl

end DraftParts

theorem roundTrip_fields {parts : DraftParts} : RoundTrip parts ↔
      parseCandidateDraftedRule parts.body =
          some (normalizeLegacyPathPrefixedRule parts.statement) ∧
        descriptionField parts.body "Source:" = some parts.source ∧
        descriptionField parts.body "Comment:" = parts.url ∧
        descriptionField parts.body "File:" = parts.file ∧
        CutFrom ((reviewerExcerpt parts.body).getD []) parts.excerpt := by
  constructor
  · rintro ⟨hdrafted, proof, hparse, hfields⟩
    rw [parseCandidateSourceProof] at hparse
    obtain ⟨-, hproof⟩ := Option.ite_none_right_eq_some.mp hparse
    obtain rfl := Option.some.inj hproof
    exact ⟨hdrafted, hfields⟩
  · rintro ⟨hdrafted, hsource, hfields⟩
    refine ⟨hdrafted, readSourceProof parts.body, ?_, hsource, hfields⟩
    have hsome : (readSourceProof parts.body).source = some parts.source := hsource
    have hany : (readSourceProof parts.body).hasAny = true := by
      rw [CandidateSourceProof.hasAny, hsome]
      rfl
    rw [parseCandidateSourceProof, if_pos hany]

/-- A body is read back as what it was assembled from exactly if no text is taken for a label, or
nothing is lost by it. -/
theorem roundTrip_iff (parts : DraftParts) : RoundTrip parts ↔ parts.Unambiguous := by
  obtain ⟨hsource, hcomment, hfile⟩ := parts.findSome?_labelLines
  have hsourceClear : descriptionField parts.body "Source:" = some parts.source ↔
      FieldClear parts "Source:" (some parts.source) :=
    parts.fieldClear_iff fieldLabel_source hsource
  rw [roundTrip_fields, statementClear_iff, hsourceClear,
    parts.fieldClear_iff fieldLabel_comment hcomment, parts.fieldClear_iff fieldLabel_file hfile,
    quoteClear_iff]
  exact ⟨fun ⟨hstatement, hsource, hcomment, hfile, hquote⟩ =>
      ⟨hstatement, hsource, hcomment, hfile, hquote⟩,
    fun ⟨hstatement, hsource, hcomment, hfile, hquote⟩ =>
      ⟨hstatement, hsource, hcomment, hfile, hquote⟩⟩

/-- The parts of a body with a statement and nothing else that could be taken for a label. -/
def plainParts (statement : String) (hline : '\n' ∉ statement.toList) : DraftParts where
  statement := statement.toList
  source := "acme/app#7"
  commentUrl := none
  path := "src/main.rs"
  related := []
  excerpt := "Please log it."
  statement_line := hline
  source_line := by decide
  commentUrl_line := by simp
  path_line := by decide
  related_line := by simp

/-- A statement that names a label is cut, gives the source, or opens the excerpt. -/
theorem not_roundTrip : ¬ RoundTrip (plainParts "Write Source evidence: to the log." (by decide)) ∧
      ¬ RoundTrip (plainParts "Source: every query must be bound." (by decide)) ∧
      ¬ RoundTrip (plainParts "Print Reviewer said: before a quote." (by decide)) := by
  refine ⟨fun htrip => ?_, fun htrip => ?_, fun htrip => ?_⟩
  · exact absurd (roundTrip_fields.mp htrip).1 (by decide)
  · exact absurd (roundTrip_fields.mp htrip).2.1 (by decide)
  · have hquote := (quoteClear_iff _).mp (roundTrip_fields.mp htrip).2.2.2.2
    have hbehind : afterFirst quoteLabel (plainParts
        "Print Reviewer said: before a quote." (by decide)).header =
          some (" before a quote.\n\nSource evidence:\nSource: acme/app#7\n".toList ++
            "File: src/main.rs\n\n".toList) := by decide
    rw [DraftParts.QuoteClear, hbehind] at hquote
    exact absurd hquote (by decide)

end Difflore.Ingest
