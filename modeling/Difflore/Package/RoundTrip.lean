import Difflore.Package.Import
import Difflore.Package.Markdown

/-! # Writing a package and reading it back

The rules of a written package are read back as they were exported, except for what a rule
file cannot show: a name of several lines, white space at the ends of a name or a
description, and CRLF line ends.
-/

namespace Difflore.Package

open Foundation Text Infra Context Export

variable {formats : Formats}

variable {disk : Disk} {file : Text}

theorem slash_not_mem_slugifyFrom {out value : Text} {lastDash : Bool} (hout : '/' ∉ out) :
    '/' ∉ slugifyFrom out lastDash value := by
  induction value generalizing out lastDash with
  | nil => exact hout
  | cons c rest ih =>
    have hnext : '/' ∉ (if c.isAlphanum then out ++ [c.toLower]
        else if lastDash then out else out ++ ['-']) := by
      split
      next halphanum =>
        rw [List.mem_append, not_or, List.mem_singleton, eq_comm, toLower_eq_iff (by decide)]
        refine ⟨hout, ?_⟩
        rintro rfl
        contradiction
      next =>
        split
        next => exact hout
        next => simp [hout]
    unfold slugifyFrom
    generalize (if c.isAlphanum then out ++ [c.toLower]
      else if lastDash then out else out ++ ['-']) = next at hnext ⊢
    simp only
    split
    next => exact hnext
    next => exact ih hnext

theorem slash_not_mem_slugify (value : Text) : '/' ∉ slugify value := by
  intro hmem
  have hinner := (List.dropWhile_sublist _).subset ((List.rdropWhile_prefix ..).subset hmem)
  exact slash_not_mem_slugifyFrom List.not_mem_nil hinner

theorem slash_not_mem_ruleFileName (index : Nat) (rule : CollectedRule) :
    '/' ∉ ruleFileName index rule := by
  have hdigits : '/' ∉ threeDigits (index + 1) := by
    rw [threeDigits, List.mem_append, not_or]
    refine ⟨fun hmem => ?_, fun hmem => ?_⟩
    · have hzero := List.eq_of_mem_replicate hmem
      contradiction
    · have hdigit := Nat.isDigit_of_mem_toDigits (by decide) (by decide) hmem
      contradiction
  have hslug : '/' ∉ slugOrId rule.name rule.id := by
    unfold slugOrId
    simp only
    split
    next => exact slash_not_mem_slugify _
    next => exact slash_not_mem_slugify _
  rw [ruleFileName, List.mem_append, List.mem_cons, List.mem_append]
  simp [hdigits, hslug]

def rulePath (file : Text) : Text := rulesDir ++ '/' :: file

theorem packageRelativePath_rulePath (hslash : '/' ∉ file) (hdash : '-' ∈ file) :
    packageRelativePath (rulePath file) = .ok [rulesDir, file] := by
  have hsplit : (rulePath file).splitOn '/' = [rulesDir, file] := by
    have hjoin : rulePath file = ['/'].intercalate [rulesDir, file] := by
      rw [rulePath, List.intercalate_cons_of_ne_nil (List.cons_ne_nil _ _),
        List.intercalate_singleton, List.append_assoc, List.singleton_append]
    have hnames : ∀ name ∈ [rulesDir, file], '/' ∉ name := by
      intro name hname
      rcases List.mem_cons.mp hname with rfl | hfile
      · decide
      · rwa [List.mem_singleton.mp hfile]
    rw [hjoin]
    exact List.splitOn_intercalate '/' hnames (List.cons_ne_nil _ _)
  have hempty : file ≠ [] := by
    rintro rfl
    contradiction
  have hdot : file ≠ dot := by
    rintro rfl
    contradiction
  have hdotDot : file ≠ dotDot := by
    rintro rfl
    contradiction
  have hhead : (rulePath file).head? = some 'r' := rfl
  have hcomponents : components (rulePath file) = [.normal rulesDir, .normal file] := by
    have hrules : rulesDir ≠ [] ∧ rulesDir ≠ dot ∧ rulesDir ≠ dotDot := by decide
    rw [components, hsplit, hhead]
    simp [hempty, hdot, hdotDot, hrules]
  rw [packageRelativePath, hhead, hcomponents]
  rfl

/-! ## The directory -/

def FiledAt (rule : PackageRule) (file : Text) : Prop :=
  rule.path = some (rulePath file) ∧ '/' ∉ file ∧ '-' ∈ file

theorem FiledAt.relative {rule : PackageRule} (hfiled : FiledAt rule file) :
    packageRelativePath (rulePath file) = .ok [rulesDir, file] :=
  packageRelativePath_rulePath hfiled.2.1 hfiled.2.2

theorem rulePath_injective {other : Text} (hpath : rulePath file = rulePath other) : file = other :=
  (List.cons.inj (List.append_cancel_left hpath)).2

theorem writeRule_eq {rule : PackageRule} (hfiled : FiledAt rule file) (disk : Disk) :
    writeRule formats disk rule =
      .ok (disk.write [rulesDir, file] (renderRuleMarkdown formats rule)) := by
  rw [writeRule, hfiled.1]
  simp only [hfiled.relative]
  rfl

theorem foldlM_writeRule {rules : List PackageRule}
    (hfiled : ∀ rule ∈ rules, ∃ file, FiledAt rule file)
    (hnames : (rules.map PackageRule.path).Nodup) (disk : Disk) :
    ∃ written, rules.foldlM (writeRule formats) disk = .ok written ∧
      (∀ rule ∈ rules, ∀ file, FiledAt rule file →
        written [rulesDir, file] = some (renderRuleMarkdown formats rule)) ∧
      ∀ path, (∀ rule ∈ rules, ∀ file, FiledAt rule file → path ≠ [rulesDir, file]) →
        written path = disk path := by
  induction rules generalizing disk with
  | nil => exact ⟨disk, rfl, fun _ hmem => absurd hmem List.not_mem_nil, fun _ _ => rfl⟩
  | cons rule rest ih =>
    obtain ⟨file, hfile⟩ := hfiled rule (.head _)
    rw [List.map_cons, List.nodup_cons] at hnames
    obtain ⟨written, hwrite, hrest, hother⟩ := ih
      (fun other hother => hfiled other (.tail _ hother)) hnames.2
      (disk.write [rulesDir, file] (renderRuleMarkdown formats rule))
    have hdistinct : ∀ other ∈ rest, ∀ otherFile, FiledAt other otherFile → otherFile ≠ file := by
      rintro other hmem _ hotherFile rfl
      apply hnames.1
      rw [hfile.1, ← hotherFile.1]
      exact List.mem_map_of_mem hmem
    refine ⟨written, ?_, ?_, ?_⟩
    · rw [List.foldlM_cons, writeRule_eq hfile]
      exact hwrite
    · intro other hmem otherFile hotherFile
      rcases List.mem_cons.mp hmem with rfl | htail
      · have hsame : otherFile = file :=
          rulePath_injective (Option.some.inj (hotherFile.1.symm.trans hfile.1))
        subst hsame
        rw [hother _ fun later hlater laterFile hlaterFile hpath =>
          hdistinct later hlater laterFile hlaterFile (by simpa using hpath.symm)]
        simp [Disk.write]
      · exact hrest other htail otherFile hotherFile
    · intro path hpath
      rw [hother path fun later hlater => hpath later (.tail _ hlater),
        Disk.write, if_neg (hpath rule (.head _) file hfile)]

def MetaReadBack (formats : Formats) (rule : PackageRule) : Prop :=
  formats.parseMeta (trim (metaText formats rule)) = .ok (.fromRule rule)

theorem readRule_eq {rule : PackageRule} (hfiled : FiledAt rule file)
    (hmeta : MetaReadBack formats rule)
    (hfile : disk [rulesDir, file] = some (renderRuleMarkdown formats rule)) :
    readRule formats disk rule = if trim rule.id = [] then
        .error (fileError "has an empty id" (rulePath file))
      else (parseMarkdownTitleAndBody (bodyText rule) (rulePath file)).map fun shown =>
        (rule.shown (rulePath file) shown.1 shown.2).withHash formats := by
  rw [readRule, hfiled.1]
  simp only [hfiled.relative, Disk.read, hfile, parseRuleMarkdown_render hmeta, bind, Except.bind]
  by_cases hid : trim rule.id = []
  · simp only [if_pos hid]
  · simp only [if_neg hid]
    cases parseMarkdownTitleAndBody (bodyText rule) (rulePath file) with
    | error err => rfl
    | ok shown =>
      simp [Except.map, PackageRule.withHash, PackageRule.shown, pure, Except.pure, ruleHash,
        RuleHashMaterial.fromRule]

theorem mapM_eq_self {α ε : Type} {f : α → Except ε α} {xs : List α}
    (hf : ∀ x ∈ xs, f x = .ok x) : xs.mapM f = .ok xs := by
  induction xs with
  | nil => rfl
  | cons x rest ih =>
    rw [List.mapM_cons, hf x (.head _), ih fun y hy => hf y (.tail _ hy)]
    rfl

theorem exists_of_mapM {α β ε : Type} {f : α → Except ε β} {xs : List α} {ys : List β}
    (hall : xs.mapM f = .ok ys) {x : α} (hx : x ∈ xs) : ∃ y ∈ ys, f x = .ok y := by
  induction xs generalizing ys with
  | nil => contradiction
  | cons first rest ih =>
    rw [List.mapM_cons] at hall
    cases hfirst : f first with
    | error err => simp [hfirst, bind, Except.bind] at hall
    | ok y =>
      cases hrest : rest.mapM f with
      | error err => simp [hfirst, hrest, bind, Except.bind] at hall
      | ok others =>
        simp only [hfirst, hrest, bind, Except.bind, pure, Except.pure, Except.ok.injEq]
          at hall
        subst hall
        rcases List.mem_cons.mp hx with rfl | htail
        · exact ⟨y, .head _, hfirst⟩
        · obtain ⟨found, hfound, hread⟩ := ih hrest htail
          exact ⟨found, .tail _ hfound, hread⟩

structure Shown (row : SkillRow) : Prop where
  oneLine : '\n' ∉ row.name
  name : trim row.name = row.name
  description : trim row.description = row.description
  lineEnds : ¬ crlf <:+: row.description

def Lossless (format : PackageFormat) (row : SkillRow) : Prop :=
  trim row.id ≠ [] ∧ (format = .markdown → Shown row)

/-- A package, written and read back unedited, is the package that was exported. Importing
it into the same table finds no field changed. -/
def ReadsBack (formats : Formats) (format : PackageFormat) (package : MemoryPackage)
    (skills : SkillTable) : Prop :=
  ∃ target parsed, writePackage formats package format = .ok target ∧
    readPackage formats target = .ok parsed ∧ parsed.changedSinceExport = false ∧
    parsed.package.rules.map PackageRule.id = package.rules.map PackageRule.id ∧
    (∀ rule ∈ parsed.package.rules, ∀ row ∈ skills.find rule.id,
      changedFields formats row rule = []) ∧
    ∀ repoScopes dryRun time, ∃ report,
      importPackage formats repoScopes dryRun time parsed skills = .ok (skills, report) ∧
        report.updates = []

structure Exports (formats : Formats) (row : SkillRow) (rule : PackageRule) : Prop where
  schemaVersion : rule.schemaVersion = ruleSchemaVersion
  version : rule.version = packageVersion
  id : rule.id = row.id
  name : rule.name = row.name
  description : rule.description = row.description
  checkPrompt : rule.checkPrompt = row.checkPrompt
  filePatterns : rule.filePatterns = (row.filePatterns.bind formats.jsonStrings).getD []
  hashed : rule.withHash formats = rule

section Export

variable {rows : List SkillRow} {format : PackageFormat}

def exportedRules (formats : Formats) (format : PackageFormat) (rows : List SkillRow) :
    List PackageRule :=
  packageRules formats format (rows.map (collectedRule formats.toLibrary))

theorem mem_exportedRules {rule : PackageRule} :
    rule ∈ exportedRules formats format rows ↔ ∃ (index : Nat) (hindex : index < rows.length),
      (packageRuleFromExport format index (collectedRule formats.toLibrary rows[index])).withHash
        formats = rule := by
  simp [exportedRules, packageRules, List.mem_mapIdx]

theorem exports_packageRule (index : Nat) (row : SkillRow) : Exports formats row
      ((packageRuleFromExport format index (collectedRule formats.toLibrary row)).withHash
        formats) :=
  ⟨rfl, rfl, rfl, rfl, rfl, rfl, rfl, rfl⟩

theorem exists_row {rule : PackageRule} (hrule : rule ∈ exportedRules formats format rows) :
    ∃ row ∈ rows, Exports formats row rule := by
  obtain ⟨index, hindex, rfl⟩ := mem_exportedRules.mp hrule
  exact ⟨rows[index], List.getElem_mem hindex, exports_packageRule index _⟩

theorem exists_exported {row : SkillRow} (hrow : row ∈ rows) :
    ∃ rule ∈ exportedRules formats format rows, Exports formats row rule := by
  obtain ⟨index, hindex, rfl⟩ := List.getElem_of_mem hrow
  exact ⟨_, mem_exportedRules.mpr ⟨index, hindex, rfl⟩, exports_packageRule index _⟩

theorem filedAt_exported {rule : PackageRule}
    (hrule : rule ∈ exportedRules formats .markdown rows) : ∃ file, FiledAt rule file := by
  obtain ⟨index, hindex, rfl⟩ := mem_exportedRules.mp hrule
  refine ⟨ruleFileName index (collectedRule formats.toLibrary rows[index]), ?_,
    slash_not_mem_ruleFileName _ _, ?_⟩
  · simp [PackageRule.withHash, packageRuleFromExport, rulePath]
  · simp [ruleFileName]

theorem ids_exportedRules : (exportedRules formats format rows).map PackageRule.id =
    rows.map SkillRow.id := by
  apply List.ext_getElem
  · simp [exportedRules, packageRules]
  · intro index hleft hright
    simp [exportedRules, packageRules, PackageRule.withHash, packageRuleFromExport, collectedRule]

theorem Exports.unchanged {row : SkillRow} {rule : PackageRule}
    (hexports : Exports formats row rule) : changedFields formats row rule = [] := by
  rw [changedFields_eq_nil]
  refine ⟨hexports.name.symm, hexports.description.symm, by rw [hexports.checkPrompt], ?_⟩
  rw [hexports.filePatterns, parseFilePatterns]
  cases row.filePatterns.bind formats.jsonStrings with
  | none => rfl
  | some patterns => rfl

theorem Exports.shown {row : SkillRow} {rule : PackageRule} (hexports : Exports formats row rule)
    (hfiled : FiledAt rule file) :
    (rule.shown (rulePath file) rule.name rule.description).withHash formats = rule := by
  have hsame : rule.shown (rulePath file) rule.name rule.description = rule := by
    rw [PackageRule.shown, ← hexports.schemaVersion, ← hexports.version, ← hfiled.1]
  rw [hsame, hexports.hashed]

end Export

/-! ## Both formats -/

theorem readJsonPackage_packageJson {package : MemoryPackage}
    (hpackage : formats.parsePackage (packageJson formats package) = .ok package)
    (hhashed : ∀ rule ∈ package.rules, rule.withHash formats = rule) :
    readJsonPackage formats (packageJson formats package) =
      .ok ⟨package, packageHash formats package.manifest package.rules⟩ := by
  have hfilled : package.rules.map (PackageRule.fillHash formats) = package.rules := by
    conv => rhs; rw [← List.map_id package.rules]
    apply List.map_congr_left
    intro rule hrule
    rw [PackageRule.fillHash, id_eq, hhashed rule hrule, ite_self]
  rw [readJsonPackage, hpackage]
  simp only [bind, Except.bind, hfilled, pure, Except.pure]

theorem writeMarkdownDir_spec {package : MemoryPackage}
    (hfiled : ∀ rule ∈ package.rules, ∃ file, FiledAt rule file)
    (hfiles : (package.rules.map PackageRule.path).Nodup) :
    ∃ disk, writeMarkdownDir formats package = .ok disk ∧
      disk [manifestFile] = some (packageJson formats package) ∧
      ∀ rule ∈ package.rules, ∀ file, FiledAt rule file →
        disk [rulesDir, file] = some (renderRuleMarkdown formats rule) := by
  obtain ⟨disk, hwrite, hrules, hother⟩ := foldlM_writeRule hfiled hfiles
    (Disk.write (fun _ => none) [manifestFile] (packageJson formats package))
  refine ⟨disk, hwrite, ?_, hrules⟩
  rw [hother [manifestFile] fun _ _ _ _ hpath => absurd (congrArg List.length hpath) (by simp),
    Disk.write, if_pos rfl]

theorem readMarkdownPackage_eq {package : MemoryPackage}
    (hpackage : formats.parsePackage (packageJson formats package) = .ok package)
    (hmanifest : disk [manifestFile] = some (packageJson formats package)) :
    readMarkdownPackage formats disk = (package.rules.mapM (readRule formats disk)).map fun rules =>
      ⟨{ package with rules }, packageHash formats package.manifest rules⟩ := by
  rw [readMarkdownPackage, Disk.read, hmanifest]
  simp only [hpackage, bind, Except.bind]
  cases package.rules.mapM (readRule formats disk) with
  | error err => rfl
  | ok rules => rfl

theorem readRule_shown {row : SkillRow} {rule : PackageRule} (hexports : Exports formats row rule)
    (hfiled : FiledAt rule file) (hmeta : MetaReadBack formats rule)
    (hfile : disk [rulesDir, file] = some (renderRuleMarkdown formats rule))
    (hid : trim row.id ≠ []) (hname : trim row.name ≠ [])
    (hdescription : trim row.description ≠ []) (hshown : Shown row) :
    readRule formats disk rule = .ok rule := by
  have hruleId : trim rule.id ≠ [] := hexports.id ▸ hid
  have hline : '\n' ∉ trim rule.name := by
    rw [hexports.name, hshown.name]
    exact hshown.oneLine
  have hbody := parse_oneLine (hexports.name ▸ hname) hline (hexports.description ▸ hdescription)
    (rulePath file)
  have hdescriptionShown : crlfToLf (trim rule.description) = rule.description := by
    rw [hexports.description, hshown.description, crlfToLf_eq_self_iff]
    exact hshown.lineEnds
  have hnameShown : trim rule.name = rule.name := by rw [hexports.name, hshown.name]
  rw [hdescriptionShown, hnameShown] at hbody
  rw [readRule_eq hfiled hmeta hfile, if_neg hruleId, bodyText, hnameShown, hbody, Except.map,
    hexports.shown hfiled]

theorem id_of_readRule {rule found : PackageRule} (hread : readRule formats disk rule = .ok found) :
    found.id = rule.id := by
  unfold readRule at hread
  split at hread
  next => cases hread
  next relative _ =>
    cases hpath : packageRelativePath relative with
    | error err => simp [hpath, bind, Except.bind] at hread
    | ok path =>
      cases hraw : disk.read path with
      | error err => simp [hpath, hraw, bind, Except.bind] at hread
      | ok raw =>
        cases hparsed : parseRuleMarkdown formats raw relative with
        | error err => simp [hpath, hraw, hparsed, bind, Except.bind] at hread
        | ok parsed =>
          simp only [hpath, hraw, hparsed, bind, Except.bind] at hread
          split at hread
          next => cases hread
          next hid =>
            obtain rfl := Except.ok.inj hread
            exact not_not.mp hid

theorem shown_of_readRule {row : SkillRow} {rule found : PackageRule}
    (hexports : Exports formats row rule) (hfiled : FiledAt rule file)
    (hmeta : MetaReadBack formats rule)
    (hfile : disk [rulesDir, file] = some (renderRuleMarkdown formats rule))
    (hname : trim row.name ≠ []) (hdescription : trim row.description ≠ [])
    (hread : readRule formats disk rule = .ok found)
    (hunchanged : changedFields formats row found = []) : Shown row := by
  have hruleName : trim rule.name ≠ [] := hexports.name ▸ hname
  have hruleDescription : trim rule.description ≠ [] := hexports.description ▸ hdescription
  obtain ⟨hsameName, hsameDescription, _⟩ := (changedFields_eq_nil formats).mp hunchanged
  rw [readRule_eq hfiled hmeta hfile] at hread
  split at hread
  next => cases hread
  next =>
    cases hbody : parseMarkdownTitleAndBody (bodyText rule) (rulePath file) with
    | error err => simp [hbody, Except.map] at hread
    | ok shown =>
      rw [hbody, Except.map] at hread
      obtain rfl := Except.ok.inj hread
      have hnameShown : row.name = shown.1 := hsameName
      have hdescriptionShown : row.description = shown.2 := hsameDescription
      obtain ⟨htitle, htrimmed⟩ := title_of_parse hruleName hbody
      rw [← hnameShown] at htitle htrimmed
      have hline : '\n' ∉ trim rule.name := by
        rwa [hexports.name, htrimmed]
      have honeLine := parse_oneLine hruleName hline hruleDescription (rulePath file)
      rw [← bodyText, hbody] at honeLine
      have hlf : row.description = crlfToLf (trim row.description) :=
        calc row.description = shown.2 := hdescriptionShown
          _ = crlfToLf (trim rule.description) := congrArg Prod.snd (Except.ok.inj honeLine)
          _ = crlfToLf (trim row.description) := by rw [hexports.description]
      have hdescriptionTrimmed : trim row.description = row.description := by
        have htrim := trim_crlfToLf row.description
        rwa [← hlf] at htrim
      refine ⟨htitle, htrimmed, hdescriptionTrimmed, ?_⟩
      rw [hdescriptionTrimmed] at hlf
      exact (crlfToLf_eq_self_iff _).mp hlf.symm

/-! ## Reading an export back -/

section Export

variable {rows : List SkillRow} {skills : SkillTable} {format : PackageFormat}
  {package : MemoryPackage}

structure PackageOf (formats : Formats) (format : PackageFormat) (rows : List SkillRow)
    (package : MemoryPackage) : Prop where
  schemaVersion : package.schemaVersion = packageSchemaVersion
  version : package.version = packageVersion
  hashAlgorithm : package.manifest.hashAlgorithm = Package.hashAlgorithm
  ruleCount : package.manifest.ruleCount = package.rules.length
  rules : package.rules = exportedRules formats format rows
  hash : package.hash = packageHash formats package.manifest package.rules

theorem packageOf_buildPackage (version exportedAt : Text) (repoScopes : List Text)
    (totalRules : Nat) : PackageOf formats format rows (buildPackage formats version exportedAt
      (rows.map (collectedRule formats.toLibrary)) repoScopes totalRules format) :=
  ⟨rfl, rfl, rfl, rfl, rfl, rfl⟩

theorem find_exported (hrows : rows.Subperm skills.rows) {row : SkillRow} (hrow : row ∈ rows)
    {rule : PackageRule} (hexports : Exports formats row rule) :
    skills.find rule.id = some row :=
  KeyedTable.find_eq_some.mpr ⟨hrows.subset hrow, hexports.id.symm⟩

theorem PackageOf.hashed (hof : PackageOf formats format rows package) :
    ∀ rule ∈ package.rules, rule.withHash formats = rule := by
  intro rule hrule
  rw [hof.rules] at hrule
  obtain ⟨row, _, hexports⟩ := exists_row hrule
  exact hexports.hashed

theorem PackageOf.valid (hof : PackageOf formats format rows package)
    (hnodup : (rows.map SkillRow.id).Nodup) (hids : ∀ row ∈ rows, trim row.id ≠ [])
    (hnames : ∀ row ∈ rows, trim row.name ≠ [])
    (hdescriptions : ∀ row ∈ rows, trim row.description ≠ []) :
    validatePackage package = .ok () := by
  rw [validatePackage_eq_ok]
  refine ⟨hof.schemaVersion, hof.version, hof.hashAlgorithm, hof.ruleCount, ?_, ?_⟩
  · rwa [hof.rules, ids_exportedRules]
  · intro rule hrule
    rw [hof.rules] at hrule
    obtain ⟨row, hrow, hexports⟩ := exists_row hrule
    rw [validateRule_eq_ok, hexports.id, hexports.name, hexports.description]
    exact ⟨hexports.schemaVersion, hexports.version, hids row hrow, hnames row hrow,
      hdescriptions row hrow⟩

theorem readsBack_of_read (hof : PackageOf formats format rows package)
    (hrows : rows.Subperm skills.rows) (hvalid : validatePackage package = .ok ()) {target : Target}
    (hwrite : writePackage formats package format = .ok target)
    (hread : readPackage formats target =
      .ok ⟨package, packageHash formats package.manifest package.rules⟩) :
    ReadsBack formats format package skills := by
  have hunchanged : ∀ rule ∈ package.rules, ∀ row ∈ skills.find rule.id,
      changedFields formats row rule = [] := by
    intro rule hrule row hfind
    rw [hof.rules] at hrule
    obtain ⟨exported, hexported, hexports⟩ := exists_row hrule
    rw [find_exported hrows hexported hexports, Option.mem_some_iff] at hfind
    exact hfind ▸ hexports.unchanged
  refine ⟨target, _, hwrite, hread, ?_, rfl, hunchanged, ?_⟩
  · simp [ParsedPackage.changedSinceExport, hof.hash]
  · intro repoScopes dryRun time
    have hidle : ∀ rule ∈ package.rules,
        (plannedIn formats repoScopes skills rule).updates = false := by
      intro rule hrule
      rw [← Bool.not_eq_true]
      intro hupdates
      obtain ⟨row, hfind, _, hchanged⟩ := exists_row_of_updates hupdates
      exact hchanged (hunchanged rule hrule row hfind)
    refine ⟨_, importPackage_eq_ok.mpr ⟨hvalid, _,
      importRules_unwritten fun rule hrule => .inr (hidle rule hrule), rfl⟩, ?_⟩
    rw [updates_importReport, List.map_eq_nil_iff, List.filter_eq_nil_iff]
    intro rule hrule
    rw [hidle rule hrule]
    exact Bool.false_ne_true

theorem ReadsBack.id_ne_nil (hreads : ReadsBack formats format package skills)
    (hof : PackageOf formats format rows package) {row : SkillRow} (hrow : row ∈ rows) :
    trim row.id ≠ [] := by
  obtain ⟨target, parsed, _, _, _, hids, _, himport⟩ := hreads
  obtain ⟨report, hreport, _⟩ := himport [] true ⟨[], 0⟩
  obtain ⟨hvalid, _⟩ := importPackage_eq_ok.mp hreport
  obtain ⟨_, _, _, _, _, hrules⟩ := validatePackage_eq_ok.mp hvalid
  have hmem : row.id ∈ parsed.package.rules.map PackageRule.id := by
    rw [hids, hof.rules, ids_exportedRules]
    exact List.mem_map_of_mem hrow
  obtain ⟨rule, hrule, hid⟩ := List.mem_map.mp hmem
  rw [← hid]
  exact (validateRule_eq_ok.mp (hrules rule hrule)).2.2.1

theorem nodup_ids (hrows : rows.Subperm skills.rows) : (rows.map SkillRow.id).Nodup := by
  obtain ⟨kept, hperm, hsub⟩ := hrows
  rw [← (hperm.map SkillRow.id).nodup_iff]
  exact skills.nodup.sublist (hsub.map SkillRow.id)

theorem PackageOf.filed (hof : PackageOf formats .markdown rows package) :
    ∀ rule ∈ package.rules, ∃ file, FiledAt rule file := by
  intro rule hrule
  rw [hof.rules] at hrule
  exact filedAt_exported hrule

theorem PackageOf.readMarkdown (hof : PackageOf formats .markdown rows package)
    (hpackage : formats.parsePackage (packageJson formats package) = .ok package)
    (hmeta : ∀ rule ∈ package.rules, MetaReadBack formats rule)
    (hfiles : (package.rules.map PackageRule.path).Nodup)
    (hnames : ∀ row ∈ rows, trim row.name ≠ [])
    (hdescriptions : ∀ row ∈ rows, trim row.description ≠ [])
    (hlossless : ∀ row ∈ rows, Lossless .markdown row) :
    ∃ disk, writeMarkdownDir formats package = .ok disk ∧ readMarkdownPackage formats disk =
      .ok ⟨package, packageHash formats package.manifest package.rules⟩ := by
  obtain ⟨disk, hwrite, hmanifest, hrules⟩ := writeMarkdownDir_spec hof.filed hfiles
  refine ⟨disk, hwrite, ?_⟩
  have hread : package.rules.mapM (readRule formats disk) = .ok package.rules := by
    apply mapM_eq_self
    intro rule hrule
    obtain ⟨file, hfile⟩ := hof.filed rule hrule
    obtain ⟨row, hrow, hexports⟩ := exists_row (hof.rules ▸ hrule)
    obtain ⟨hid, hshown⟩ := hlossless row hrow
    exact readRule_shown hexports hfile (hmeta rule hrule) (hrules rule hrule file hfile) hid
      (hnames row hrow) (hdescriptions row hrow) (hshown rfl)
  rw [readMarkdownPackage_eq hpackage hmanifest, hread]
  rfl

theorem ReadsBack.shown (hreads : ReadsBack formats .markdown package skills)
    (hof : PackageOf formats .markdown rows package) (hrows : rows.Subperm skills.rows)
    (hpackage : formats.parsePackage (packageJson formats package) = .ok package)
    (hnames : ∀ row ∈ rows, trim row.name ≠ [])
    (hdescriptions : ∀ row ∈ rows, trim row.description ≠ [])
    (hmeta : ∀ rule ∈ package.rules, MetaReadBack formats rule)
    (hfiles : (package.rules.map PackageRule.path).Nodup) {row : SkillRow} (hrow : row ∈ rows) :
    Shown row := by
  obtain ⟨target, parsed, htarget, hread, _, _, hunchanged, _⟩ := hreads
  obtain ⟨disk, hwrite, hmanifest, hrules⟩ := writeMarkdownDir_spec hof.filed hfiles
  rw [writePackage, hwrite, Except.map, Except.ok.injEq] at htarget
  subst htarget
  rw [readPackage, readMarkdownPackage_eq hpackage hmanifest] at hread
  cases hall : package.rules.mapM (readRule formats disk) with
  | error err => simp [hall, Except.map] at hread
  | ok rules =>
    rw [hall, Except.map, Except.ok.injEq] at hread
    subst hread
    obtain ⟨rule, hexported, hexports⟩ := exists_exported hrow
    have hrule : rule ∈ package.rules := hof.rules ▸ hexported
    obtain ⟨found, hfound, hone⟩ := exists_of_mapM hall hrule
    obtain ⟨file, hfile⟩ := hof.filed rule hrule
    have hid : found.id = rule.id := id_of_readRule hone
    have hfind : row ∈ skills.find found.id := hid ▸ find_exported hrows hrow hexports
    exact shown_of_readRule hexports hfile (hmeta rule hrule) (hrules rule hrule file hfile)
      (hnames row hrow) (hdescriptions row hrow) hone (hunchanged found hfound row hfind)

end Export

/-- The package of the rows of a table, read back unedited, is the package that was
exported and changes no field, if and only if every row has an id and, in a directory, is
shown by its rule file. -/
theorem buildPackage_readsBack_iff {rows : List SkillRow} {skills : SkillTable}
    (hrows : rows.Subperm skills.rows) (hnames : ∀ row ∈ rows, trim row.name ≠ [])
    (hdescriptions : ∀ row ∈ rows, trim row.description ≠ []) {version exportedAt : Text}
    {repoScopes : List Text} {totalRules : Nat} {format : PackageFormat} {package : MemoryPackage}
    (hbuild : buildPackage formats version exportedAt (rows.map (collectedRule formats.toLibrary))
      repoScopes totalRules format = package)
    (hpackage : formats.parsePackage (packageJson formats package) = .ok package)
    (hmeta : ∀ rule ∈ package.rules, MetaReadBack formats rule)
    (hfiles : format = .markdown → (package.rules.map PackageRule.path).Nodup) :
    ReadsBack formats format package skills ↔ ∀ row ∈ rows, Lossless format row := by
  have hof : PackageOf formats format rows package := by
    rw [← hbuild]
    exact packageOf_buildPackage version exportedAt repoScopes totalRules
  constructor
  · intro hreads row hrow
    refine ⟨hreads.id_ne_nil hof hrow, ?_⟩
    rintro rfl
    exact hreads.shown hof hrows hpackage hnames hdescriptions hmeta (hfiles rfl) hrow
  · intro hlossless
    have hids : ∀ row ∈ rows, trim row.id ≠ [] := fun row hrow => (hlossless row hrow).1
    have hvalid := hof.valid (nodup_ids hrows) hids hnames hdescriptions
    cases format with
    | json =>
      exact readsBack_of_read hof hrows hvalid rfl
        (readJsonPackage_packageJson hpackage hof.hashed)
    | markdown =>
      obtain ⟨disk, hwrite, hread⟩ := hof.readMarkdown hpackage hmeta (hfiles rfl)
        hnames hdescriptions hlossless
      have htarget : writePackage formats package .markdown = .ok (.directory disk) := by
        rw [writePackage, hwrite, Except.map]
      exact readsBack_of_read hof hrows hvalid htarget hread

/-- A row under a name, as it is written in JSON, and the digests of its rule and package. -/
structure Sample where
  name : Text
  jsonName : Text
  file : Text
  ruleDigest : Text
  packageDigest : Text

def sampleTime : Text := "2026-01-01T00:00:00Z"

def Sample.ruleJson (sample : Sample) : Text :=
  "\x7b\"schemaVersion\":\"difflore.rule.v1\",\"version\":1,\"id\":\"r\",\"name\":" ++
    (sample.jsonName ++
      (",\"description\":\"d\",\"type\":\"t\",\"source\":\"local\",\"origin\":\"manual\"" ++
        (",\"sourceRepo\":null,\"checkPrompt\":null,\"filePatterns\":[],\"path\":\"" ++
          (rulePath sample.file ++ "\"\x7d".toList))))

def Sample.packageMaterialJson (sample : Sample) : Text :=
  "\x7b\"schemaVersion\":\"difflore.rule-package.v1\",\"version\":1,\"manifest\":" ++
    ("\x7b\"packageId\":\"difflore-rules-6f7be047a274\",\"exportedAtUtc\":\"" ++ (sampleTime ++
        ("\",\"diffloreVersion\":\"1\",\"format\":\"markdown\",\"repoScopes\":[]," ++
          ("\"ruleCount\":1,\"totalRules\":1,\"truncated\":false,\"hashAlgorithm\":" ++
            ("\"sha1\"\x7d,\"rules\":[" ++ (sample.ruleJson ++ "]\x7d".toList))))))

def Sample.metaJson (sample : Sample) : Text := ['\n'].intercalate
    ["\x7b".toList, "  \"schemaVersion\": \"difflore.rule.v1\",", "  \"version\": 1,",
      "  \"id\": \"r\",", "  \"type\": \"t\",", "  \"source\": \"local\",",
      "  \"origin\": \"manual\",", "  \"filePatterns\": [],",
      "  \"hash\": \"sha1:" ++ (sample.ruleDigest ++ "\""), "\x7d".toList]

def Sample.rule (sample : Sample) : PackageRule where
  schemaVersion := ruleSchemaVersion
  version := packageVersion
  id := ['r']
  name := sample.name
  description := ['d']
  ruleType := ['t']
  source := localSource
  origin := "manual"
  sourceRepo := none
  checkPrompt := none
  filePatterns := []
  hash := "sha1:" ++ sample.ruleDigest
  path := some (rulePath sample.file)

def Sample.package (sample : Sample) : MemoryPackage where
  schemaVersion := packageSchemaVersion
  version := packageVersion
  hash := "sha1:" ++ sample.packageDigest
  manifest :=
    { packageId := "difflore-rules-6f7be047a274"
      exportedAtUtc := sampleTime
      diffloreVersion := ['1']
      format := .markdown
      repoScopes := []
      ruleCount := 1
      totalRules := 1
      truncated := false
      hashAlgorithm }
  rules := [sample.rule]

def Sample.packageJson (sample : Sample) : Text := ['\n'].intercalate
    ["\x7b".toList, "  \"schemaVersion\": \"difflore.rule-package.v1\",", "  \"version\": 1,",
      "  \"hash\": \"sha1:" ++ (sample.packageDigest ++ "\","),
      "  \"manifest\": \x7b".toList, "    \"packageId\": \"difflore-rules-6f7be047a274\",",
      "    \"exportedAtUtc\": \"" ++ (sampleTime ++ "\","),
      "    \"diffloreVersion\": \"1\",", "    \"format\": \"markdown\",",
      "    \"repoScopes\": [],", "    \"ruleCount\": 1,",
      "    \"totalRules\": 1,", "    \"truncated\": false,",
      "    \"hashAlgorithm\": \"sha1\"", "  \x7d,".toList, "  \"rules\": [",
      "    \x7b".toList, "      \"schemaVersion\": \"difflore.rule.v1\",",
      "      \"version\": 1,", "      \"id\": \"r\",",
      "      \"name\": " ++ (sample.jsonName ++ ","),
      "      \"description\": \"d\",", "      \"type\": \"t\",",
      "      \"source\": \"local\",", "      \"origin\": \"manual\",",
      "      \"filePatterns\": [],",
      "      \"hash\": \"sha1:" ++ (sample.ruleDigest ++ "\","),
      "      \"path\": \"" ++ (rulePath sample.file ++ "\""), "    \x7d".toList,
      "  ]", "\x7d".toList]

def Sample.recorded (sample : Sample) : Formats where
  jsonStrings _ := some []
  printStrings _ := emptyListJson
  sha1Hex input :=
    if input = sampleTime then "6f7be047a27479afaf632c37e1c6f87e3eae5b9b"
    else if input = sample.ruleJson then sample.ruleDigest
    else sample.packageDigest
  redactSecrets input := input
  sha256Hex _ := []
  printPackage _ := sample.packageJson
  parsePackage _ := .ok sample.package
  printMeta _ := sample.metaJson
  parseMeta _ := .ok (.fromRule sample.rule)
  printRuleMaterial _ := sample.ruleJson
  printPackageMaterial _ _ := sample.packageMaterialJson

def Sample.row (sample : Sample) : SkillRow where
  id := ['r']
  name := sample.name
  source := localSource
  version := firstVersion
  description := ['d']
  skillType := ['t']
  installedAt := []
  updatedAt := []

def Sample.skills (sample : Sample) : SkillTable := KeyedTable.empty.insertOrIgnore sample.row

def oneLineName : Sample where
  name := ['n']
  jsonName := "\"n\""
  file := "001-n.md"
  ruleDigest := "f1a993a1e0b3b60dca8e36c1403cbbfee60f61a9"
  packageDigest := "c364565afe05b9a95011b8611b50be130a573393"

theorem buildPackage_readsBack_iff_oneLine :
    ReadsBack oneLineName.recorded .markdown oneLineName.package oneLineName.skills ∧
      (ReadsBack oneLineName.recorded .markdown oneLineName.package oneLineName.skills ↔
        ∀ row ∈ [oneLineName.row], Lossless .markdown row) := by
  have hrows : [oneLineName.row].Subperm oneLineName.skills.rows := List.Subperm.refl _
  have hbuild : buildPackage oneLineName.recorded ['1'] sampleTime
      ([oneLineName.row].map (collectedRule oneLineName.recorded.toLibrary)) [] 1 .markdown =
        oneLineName.package := by decide +kernel
  have hnonblank : ∀ row ∈ [oneLineName.row], trim row.name ≠ [] := by decide
  have hdescribed : ∀ row ∈ [oneLineName.row], trim row.description ≠ [] := by decide
  have hmeta : ∀ rule ∈ oneLineName.package.rules, MetaReadBack oneLineName.recorded rule := by
    intro rule hrule
    obtain rfl := List.mem_singleton.mp hrule
    rfl
  have hiff := buildPackage_readsBack_iff hrows hnonblank hdescribed hbuild rfl hmeta
    fun _ => List.nodup_singleton _
  refine ⟨hiff.mpr ?_, hiff⟩
  intro row hrow
  obtain rfl := List.mem_singleton.mp hrow
  refine ⟨by decide, fun _ => ⟨by decide, by decide, by decide, ?_⟩⟩
  rw [← crlfToLf_eq_self_iff]
  decide

def twoLineName : Sample where
  name := ['a', '\n', 'b']
  jsonName := "\"a\\nb\""
  file := "001-a-b.md"
  ruleDigest := "aa7946be9af92d95f973049f6f1f47688da92eeb"
  packageDigest := "01d883d9c9c04d074d9e5e6c609466b99a8e6168"

/-- The fields that differ from the table after a package was written and read back. -/
def changesReadBack (formats : Formats) (format : PackageFormat) (package : MemoryPackage)
    (skills : SkillTable) : Option (List (List ChangedField)) :=
  match (writePackage formats package format).bind (readPackage formats) with
  | .ok parsed => some (parsed.package.rules.map fun rule =>
    (skills.find rule.id).elim [] fun row => changedFields formats row rule)
  | .error _ => none

/-- A name of two lines is not read back. -/
theorem twoLineName_changes : buildPackage twoLineName.recorded ['1'] sampleTime
        ([twoLineName.row].map (collectedRule twoLineName.recorded.toLibrary)) [] 1 .markdown =
        twoLineName.package ∧
      changesReadBack twoLineName.recorded .markdown twoLineName.package twoLineName.skills =
        some [[.name, .description]] ∧
      ¬ ReadsBack twoLineName.recorded .markdown twoLineName.package twoLineName.skills := by
  have hchanges : changesReadBack twoLineName.recorded .markdown twoLineName.package
      twoLineName.skills = some [[.name, .description]] := by decide +kernel
  refine ⟨by decide +kernel, hchanges, ?_⟩
  rintro ⟨target, parsed, hwrite, hread, _, _, hunchanged, _⟩
  have hnone : ∀ changed ∈ parsed.package.rules.map fun rule =>
      (twoLineName.skills.find rule.id).elim [] fun row =>
        changedFields twoLineName.recorded row rule, changed = [] := by
    intro changed hmem
    obtain ⟨rule, hrule, rfl⟩ := List.mem_map.mp hmem
    cases hfind : twoLineName.skills.find rule.id with
    | none => rfl
    | some row => exact hunchanged rule hrule row hfind
  rw [changesReadBack, hwrite, Except.bind, hread, Option.some.injEq] at hchanges
  rw [hchanges] at hnone
  exact absurd (hnone _ (.head _)) (List.cons_ne_nil _ _)

end Difflore.Package
