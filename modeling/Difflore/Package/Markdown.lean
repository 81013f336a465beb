import Difflore.Foundation.Occurrence
import Difflore.Package.Rules

/-! # Rule files

What is read back from the file of a rule: its metadata, the first line of its name, and
its description with LF line ends.
-/

namespace Difflore.Package

open Foundation Text Infra Context Export

theorem head?_markdownCommentSafeJson (json : Text) :
    (markdownCommentSafeJson json).head? = json.head? := by
  fun_cases markdownCommentSafeJson json with
  | case1 rest => rfl
  | case2 c rest => rfl
  | case3 => rfl

theorem dashes_of_markdownCommentSafeJson {json tail : Text}
    (hjson : markdownCommentSafeJson json = '-' :: '>' :: tail) :
    ∃ behind, json = '-' :: '>' :: behind := by
  fun_cases markdownCommentSafeJson json with
  | case1 rest =>
    have hescaped : escapedMetaEnd = ['-', '-', '\\', 'u', '0', '0', '3', 'e'] := by decide
    rw [markdownCommentSafeJson, hescaped] at hjson
    cases hjson
  | case2 c rest hne =>
    rw [markdownCommentSafeJson.eq_2 c rest hne, List.cons.injEq] at hjson
    obtain ⟨hc, hrest⟩ := hjson
    have hhead := head?_markdownCommentSafeJson rest
    rw [hrest] at hhead
    obtain ⟨behind, hbehind⟩ := List.head?_eq_some_iff.mp hhead.symm
    exact ⟨behind, by rw [hc, hbehind]⟩
  | case3 => cases hjson

theorem not_infix_markdownCommentSafeJson (json : Text) :
    ¬ mdMetaEnd <:+: markdownCommentSafeJson json := by
  fun_induction markdownCommentSafeJson json with
  | case1 rest ih =>
    have hends : escapedMetaEnd = "--\\u003" ++ ['e'] := rfl
    have hcut : CleanCut mdMetaEnd escapedMetaEnd (markdownCommentSafeJson rest) := by
      rw [hends]
      exact cleanCut_of_last (by decide) _ _
    rw [hcut.infix_append_iff, not_or]
    exact ⟨by decide, ih⟩
  | case2 c rest hne ih =>
    rw [List.infix_cons_iff, not_or]
    refine ⟨?_, ih⟩
    -- A comment end at the front would be there in the text as well.
    rintro ⟨tail, htail⟩
    obtain ⟨behind, hbehind⟩ := dashes_of_markdownCommentSafeJson (List.cons.inj htail).2.symm
    exact hne behind (List.cons.inj htail).1.symm hbehind
  | case3 => decide

/-! ## Title and body -/

theorem rulePrefix_nonblank (rest : Text) : trim (titlePrefix ++ rest) ≠ [] :=
  trim_ne_nil_of_mem (.head _) (by decide)

theorem trim_titleLine {first : Text} (hfirst : trim first ≠ []) :
    trim (titlePrefix ++ first) = titlePrefix ++ trimEnd first := by
  have hend : trimEnd first ≠ [] := by
    intro hnil
    rw [← trim_trimEnd, hnil] at hfirst
    exact hfirst rfl
  rw [← trimEnd_append hend titlePrefix]
  rfl

theorem parseMarkdownTitleAndBody_eq {first more : Text} (hline : '\n' ∉ first)
    (hfirst : trim first ≠ []) (relativePath : Text) :
    parseMarkdownTitleAndBody (titlePrefix ++ (first ++ '\n' :: more)) relativePath =
      let description := trim (['\n'].intercalate (Text.lines more))
      if description = [] then .error (fileError "has an empty body" relativePath)
      else .ok (trim first, description) := by
  have hheading : '\n' ∉ titlePrefix ++ first := by
    simp [titlePrefix, hline]
  have hlines : Text.lines (titlePrefix ++ (first ++ '\n' :: more)) =
      stripCr (titlePrefix ++ first) :: Text.lines more := by
    rw [← List.append_assoc, Text.lines, linesFrom_append hheading]
    rfl
  have hnonblank : ¬ trim (stripCr (titlePrefix ++ first)) = [] := by
    rw [Text.trim_stripCr]
    exact rulePrefix_nonblank first
  have hstrip : stripPrefix titlePrefix (trim (stripCr (titlePrefix ++ first))) =
      some (trimEnd first) := by
    rw [Text.trim_stripCr, trim_titleLine hfirst, stripPrefix,
      if_pos (List.prefix_append _ _), List.drop_left]
  rw [parseMarkdownTitleAndBody, hlines, List.dropWhile_cons_of_neg (by simpa using hnonblank)]
  simp only [hstrip, trim_trimEnd, if_neg hfirst]

theorem exists_firstLine {name : Text} (hname : trim name ≠ []) (rest : Text) :
    ∃ first more, '\n' ∉ first ∧ trim first ≠ [] ∧
      trim name ++ '\n' :: rest = first ++ '\n' :: more := by
  by_cases hline : '\n' ∈ trim name
  · obtain ⟨first, more, heq, hfirst⟩ := List.eq_append_cons_of_mem hline
    refine ⟨first, more ++ '\n' :: rest, hfirst, ?_, ?_⟩
    case refine_2 => rw [heq, List.append_assoc, List.cons_append]
    have hhead := head_trim name
    rw [heq] at hhead
    cases first with
    | nil => exact absurd (hhead '\n' rfl) (by decide)
    | cons c tail => exact trim_ne_nil_of_mem (.head _) (hhead c rfl)
  · exact ⟨trim name, rest, hline, by rwa [trim_trim], rfl⟩

theorem title_of_parse {name rest relativePath title description : Text} (hname : trim name ≠ [])
    (hparse : parseMarkdownTitleAndBody (titlePrefix ++ (trim name ++ '\n' :: rest))
      relativePath = .ok (title, description)) : '\n' ∉ title ∧ trim title = title := by
  obtain ⟨first, more, hline, hfirst, heq⟩ := exists_firstLine hname rest
  rw [heq, parseMarkdownTitleAndBody_eq hline hfirst] at hparse
  simp only at hparse
  split at hparse
  next => cases hparse
  next =>
    obtain ⟨rfl, _⟩ := Prod.mk.inj (Except.ok.inj hparse)
    exact ⟨fun hmem => hline (mem_of_mem_trim hmem), trim_trim first⟩

theorem parse_oneLine {name description : Text} (hname : trim name ≠ [])
    (hline : '\n' ∉ trim name) (hdescription : trim description ≠ []) (relativePath : Text) :
    parseMarkdownTitleAndBody (titlePrefix ++ (trim name ++ '\n' ::
        ('\n' :: (trim description ++ ['\n'])))) relativePath =
      .ok (trim name, crlfToLf (trim description)) := by
  have hcr : (trim description).getLast? ≠ some '\r' := by
    intro hlast
    have hspace := getLast_trim description '\r' hlast
    contradiction
  have hlines : Text.lines ('\n' :: (trim description ++ ['\n'])) =
      [] :: Text.lines (trim description ++ ['\n']) := by
    rw [Text.lines, Text.linesFrom, if_pos rfl]
    rfl
  have hbody : trim (['\n'].intercalate (Text.lines ('\n' ::
      (trim description ++ ['\n'])))) = crlfToLf (trim description) := by
    rw [hlines, List.intercalate_cons_of_ne_nil (lines_ended_ne_nil _),
      intercalate_lines hcr, List.nil_append, List.singleton_append,
      trim_cons_of_isWhitespace (by decide), trim_crlfToLf]
  have hne : crlfToLf (trim description) ≠ [] := by
    intro hnil
    have hlast := Text.getLast?_crlfToLf (trim description)
    rw [hnil, List.getLast?_nil, eq_comm, List.getLast?_eq_none_iff] at hlast
    exact hdescription hlast
  have hfirst : trim (trim name) ≠ [] := by rwa [trim_trim]
  rw [parseMarkdownTitleAndBody_eq hline hfirst]
  simp only [hbody, if_neg hne, trim_trim]

variable {formats : Formats}

def metaText (formats : Formats) (rule : PackageRule) : Text :=
  '\n' :: (markdownCommentSafeJson (formats.printMeta (.fromRule rule)) ++ ['\n'])

def bodyText (rule : PackageRule) : Text :=
  titlePrefix ++ (trim rule.name ++ '\n' :: ('\n' :: (trim rule.description ++ ['\n'])))

theorem renderRuleMarkdown_eq (rule : PackageRule) : renderRuleMarkdown formats rule =
      mdMetaStart ++ (metaText formats rule ++ (mdMetaEnd ++ ('\n' :: '\n' :: bodyText rule))) := by
  have hheading : "\n\n# " = '\n' :: '\n' :: titlePrefix := by decide
  have hblank : "\n\n" = ['\n', '\n'] := by decide
  simp [renderRuleMarkdown, metaText, bodyText, hheading, hblank]

theorem beforeFirst_metaText (rule : PackageRule) (rest : Text) :
    beforeFirst mdMetaEnd (metaText formats rule ++ (mdMetaEnd ++ rest)) =
      some (metaText formats rule) := by
  have hne : mdMetaEnd ≠ [] := by decide
  have hnewline : '\n' ∉ mdMetaEnd := by decide
  have hends : metaText formats rule =
      ('\n' :: markdownCommentSafeJson (formats.printMeta (.fromRule rule))) ++ ['\n'] := by
    rw [metaText, List.cons_append]
  have hcut : CleanCut mdMetaEnd (metaText formats rule) (mdMetaEnd ++ rest) := by
    rw [hends]
    exact cleanCut_of_last hnewline _ _
  have hfree : ¬ mdMetaEnd <:+: metaText formats rule := by
    rw [hends, (cleanCut_of_head (by decide) _ _).infix_append_iff, List.infix_cons_iff]
    rintro ((hstart | hin) | hend)
    · obtain ⟨tail, htail⟩ := hstart
      cases htail
    · exact not_infix_markdownCommentSafeJson _ hin
    · exact absurd hend (by decide)
  exact beforeFirst_append hne hcut hfree

def PackageRule.shown (rule : PackageRule) (relativePath name description : Text) : PackageRule :=
  { rule with
    schemaVersion := ruleSchemaVersion
    version := packageVersion
    name
    description
    path := some relativePath }

theorem validateRuleMeta_fromRule (rule : PackageRule) (relativePath : Text) :
    validateRuleMeta (.fromRule rule) relativePath =
      if trim rule.id = [] then .error (fileError "has an empty id" relativePath)
      else .ok () := by
  rfl

theorem parseRuleMarkdown_render {rule : PackageRule}
    (hmeta : formats.parseMeta (trim (metaText formats rule)) = .ok (.fromRule rule))
    (relativePath : Text) :
    parseRuleMarkdown formats (renderRuleMarkdown formats rule) relativePath =
      if trim rule.id = [] then .error (fileError "has an empty id" relativePath)
      else (parseMarkdownTitleAndBody (bodyText rule) relativePath).map fun shown =>
        (rule.shown relativePath shown.1 shown.2).withHash formats := by
  have hstart : mdMetaStart ≠ [] := by decide
  have hdrop : ((metaText formats rule ++ (mdMetaEnd ++ ('\n' :: '\n' :: bodyText rule))).drop
      ((metaText formats rule).length + mdMetaEnd.length)).dropWhile (· ∈ ['\r', '\n']) =
        bodyText rule := by
    rw [← List.append_assoc, ← List.length_append, List.drop_left]
    simp [bodyText, titlePrefix]
  rw [parseRuleMarkdown, renderRuleMarkdown_eq, afterFirst_append hstart]
  simp only [beforeFirst_metaText, hmeta, hdrop, validateRuleMeta_fromRule, Except.mapError,
    bind, Except.bind, pure, Except.pure]
  by_cases hid : trim rule.id = []
  · simp only [if_pos hid]
  · simp only [if_neg hid]
    cases parseMarkdownTitleAndBody (bodyText rule) relativePath with
    | error err => rfl
    | ok shown => rfl

end Difflore.Package
