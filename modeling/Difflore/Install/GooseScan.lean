import Difflore.Install.GooseYaml

/-! # Scanning a Goose config

What the loops over the lines of a config have in common: the line end does not
matter to them, the first entry cuts the lines in two, and the number of entries
is the sum over the parts.
-/

namespace Difflore.Install

open Foundation Text

/-! ## The line end does not matter -/

theorem isWhitespace_of_isEol {c : Char} (hc : isEol c) : isWhitespace c = true := by
  simp only [isEol, Bool.or_eq_true, decide_eq_true_eq] at hc
  rcases hc with rfl | rfl <;> decide

theorem ne_space_of_isEol {c : Char} (hc : isEol c) : c ≠ ' ' := by
  rintro rfl
  simp [isEol] at hc

section LineEnd

variable {line : Text} {c : Char}

theorem indentOf_concat (hc : c ≠ ' ') (line : Text) : indentOf (line ++ [c]) = indentOf line := by
  unfold indentOf
  rw [List.takeWhile_append]
  split
  next hall => simpa [hc] using hall.symm
  next => rfl

theorem trimEol_concat (hc : isEol c) (line : Text) : trimEol (line ++ [c]) = trimEol line :=
  List.rdropWhile_concat_pos _ _ _ hc

theorem blank_concat (hc : isEol c) (line : Text) : blank (line ++ [c]) = blank line := by
  unfold blank
  rw [trim_concat_of_isWhitespace (isWhitespace_of_isEol hc)]

theorem blank_iff : blank line ↔ ∀ c ∈ line, isWhitespace c = true := by
  simp only [blank, decide_eq_true_eq]
  constructor
  · intro hblank c hmem
    by_contra hc
    exact trim_ne_nil_of_mem hmem (by simpa using hc) hblank
  · intro hall
    have hstart : trimStart line = [] := List.dropWhile_eq_nil_iff.mpr hall
    rw [trim, hstart]
    rfl

theorem trimStart_concat_of_not_blank (hline : ¬ blank line) (c : Char) :
    trimStart (line ++ [c]) = trimStart line ++ [c] := by
  unfold trimStart
  rw [List.dropWhile_append, if_neg]
  rw [List.isEmpty_iff, List.dropWhile_eq_nil_iff]
  exact fun hall => hline (blank_iff.mpr hall)

theorem mcpChildIndentFromLine_concat (hc : isEol c) (line : Text) :
    mcpChildIndentFromLine (line ++ [c]) = mcpChildIndentFromLine line := by
  unfold mcpChildIndentFromLine
  rw [blank_concat hc, indentOf_concat (ne_space_of_isEol hc)]
  by_cases hline : blank line
  · simp [hline]
  · have hne : trimStart line ≠ [] := by
      intro hnil
      exact hline (blank_iff.mpr (List.dropWhile_eq_nil_iff.mp hnil))
    obtain ⟨first, rest, hfirst⟩ := List.exists_cons_of_ne_nil hne
    rw [trimStart_concat_of_not_blank hline, hfirst]
    rfl

theorem topLevelKeyAndTail_concat (hc : isEol c) (line : Text) :
    topLevelKeyAndTail (line ++ [c]) = topLevelKeyAndTail line := by
  unfold topLevelKeyAndTail
  rw [trimEol_concat hc, indentOf_concat (ne_space_of_isEol hc)]

theorem isIndentedKey_concat (hc : isEol c) (line key : Text) (indent : Nat) :
    isIndentedKey (line ++ [c]) key indent = isIndentedKey line key indent := by
  unfold isIndentedKey
  rw [trimEol_concat hc]

end LineEnd

theorem apply_stripEol {β : Type} {f : Text → β}
    (hf : ∀ line c, isEol c → f (line ++ [c]) = f line) (line : Text) :
    f (stripEol line) = f line := by
  unfold stripEol
  split
  next hlast =>
    obtain ⟨body, rfl⟩ := List.getLast?_eq_some_iff.mp hlast
    rw [List.dropLast_concat, hf _ _ rfl]
    rcases stripCr_cases body with hsame | hcr
    · rw [← hsame]
    · conv_rhs => rw [hcr, hf _ _ rfl]
  next => rfl

theorem next_concat (scan : Scan) (line : Text) (c : Char) (hc : isEol c) :
    scan.next (line ++ [c]) = scan.next line := by
  unfold Scan.next topLevelKey topLevelBlockKey
  rw [topLevelKeyAndTail_concat hc, mcpChildIndentFromLine_concat hc]

theorem atEntry_concat (scan : Scan) (line : Text) (c : Char) (hc : isEol c) :
    scan.atEntry (line ++ [c]) = scan.atEntry line := by
  unfold Scan.atEntry topLevelKey
  rw [topLevelKeyAndTail_concat hc]
  congr 2
  funext indent
  exact isIndentedKey_concat hc line diffloreKey indent

theorem belongs_concat (indent : Nat) (line : Text) (c : Char) (hc : isEol c) :
    belongs indent (line ++ [c]) = belongs indent line := by
  unfold belongs
  rw [blank_concat hc, indentOf_concat (ne_space_of_isEol hc)]

@[simp] theorem next_stripEol (scan : Scan) (line : Text) :
    scan.next (stripEol line) = scan.next line := apply_stripEol (next_concat scan) line

@[simp] theorem atEntry_stripEol (scan : Scan) (line : Text) :
    scan.atEntry (stripEol line) = scan.atEntry line :=
  apply_stripEol (atEntry_concat scan) line

@[simp] theorem belongs_stripEol (indent : Nat) (line : Text) :
    belongs indent (stripEol line) = belongs indent line :=
  apply_stripEol (belongs_concat indent) line

@[simp] theorem trimEol_stripEol (line : Text) : trimEol (stripEol line) = trimEol line :=
  apply_stripEol (fun line _ hc => trimEol_concat hc line) line

@[simp] theorem blank_stripEol (line : Text) : blank (stripEol line) = blank line :=
  apply_stripEol (fun line _ hc => blank_concat hc line) line

@[simp] theorem topLevelKeyAndTail_stripEol (line : Text) :
    topLevelKeyAndTail (stripEol line) = topLevelKeyAndTail line :=
  apply_stripEol (fun line _ hc => topLevelKeyAndTail_concat hc line) line

@[simp] theorem topLevelKey_stripEol (line : Text) :
    topLevelKey (stripEol line) = topLevelKey line := by
  rw [topLevelKey, topLevelKeyAndTail_stripEol, topLevelKey]

@[simp] theorem topLevelBlockKey_stripEol (line : Text) :
    topLevelBlockKey (stripEol line) = topLevelBlockKey line := by
  rw [topLevelBlockKey, topLevelKeyAndTail_stripEol, topLevelBlockKey]

@[simp] theorem mcpChildIndentFromLine_stripEol (line : Text) :
    mcpChildIndentFromLine (stripEol line) = mcpChildIndentFromLine line :=
  apply_stripEol (fun line _ hc => mcpChildIndentFromLine_concat hc line) line

theorem hasEntry_map_stripEol (lines : List Text) (scan : Scan) :
    hasEntry scan (lines.map stripEol) = hasEntry scan lines := by
  induction lines generalizing scan with
  | nil => rfl
  | cons line rest ih => simp [hasEntry, ih]

theorem entryLines_map_stripEol (lines : List Text) (scan : Scan) :
    entryLines scan (lines.map stripEol) = (entryLines scan lines).map stripEol := by
  induction lines generalizing scan with
  | nil => rfl
  | cons line rest ih =>
    simp only [List.map_cons, entryLines, next_stripEol, atEntry_stripEol]
    split
    next =>
      rw [List.map_cons, List.takeWhile_map]
      congr 3
      funext next
      exact belongs_stripEol _ next
    next => exact ih (scan.next line)

theorem firstChildIndent_map_stripEol (lines : List Text) (inMcpServers : Bool) :
    firstChildIndent inMcpServers (lines.map stripEol) = firstChildIndent inMcpServers lines := by
  induction lines generalizing inMcpServers with
  | nil => rfl
  | cons line rest ih =>
    simp only [List.map_cons, firstChildIndent, topLevelKey_stripEol, topLevelBlockKey_stripEol,
      mcpChildIndentFromLine_stripEol, ih]

theorem yamlHas_eq (yaml : Text) :
    yamlHasDiffloreUnderMcpServers yaml = hasEntry .start (splitInclusive yaml) := by
  rw [yamlHasDiffloreUnderMcpServers, lines_eq_map_splitInclusive, hasEntry_map_stripEol]

theorem diffloreBlockLines_eq (yaml : Text) : diffloreBlockLines yaml =
      (entryLines .start (splitInclusive yaml)).map stripEol := by
  rw [diffloreBlockLines, lines_eq_map_splitInclusive, entryLines_map_stripEol]

theorem mcpChildIndent_eq (yaml : Text) :
    mcpChildIndent yaml = firstChildIndent false (splitInclusive yaml) := by
  rw [mcpChildIndent, lines_eq_map_splitInclusive, firstChildIndent_map_stripEol]

theorem hasTopLevelMcpServers_iff {yaml : Text} : hasTopLevelMcpServers yaml ↔
      ∃ line ∈ splitInclusive yaml, topLevelKey line = some mcpServers := by
  simp [hasTopLevelMcpServers, lines_eq_map_splitInclusive]

/-! ## Where the first entry stands -/

def Scan.run (scan : Scan) (lines : List Text) : Scan := lines.foldl Scan.next scan

@[simp] theorem run_nil (scan : Scan) : scan.run [] = scan := rfl

@[simp] theorem run_cons (scan : Scan) (line : Text) (rest : List Text) :
    scan.run (line :: rest) = (scan.next line).run rest := rfl

theorem run_append (scan : Scan) (first second : List Text) :
    scan.run (first ++ second) = (scan.run first).run second := List.foldl_append

/-- Number of entries at child indentation in all `mcpServers:` mappings. -/
def countEntries (scan : Scan) : List Text → Nat
  | [] => 0
  | line :: rest =>
    (if (scan.next line).atEntry line then 1 else 0) + countEntries (scan.next line) rest

theorem countEntries_append (first second : List Text) (scan : Scan) :
    countEntries scan (first ++ second) =
      countEntries scan first + countEntries (scan.run first) second := by
  induction first generalizing scan with
  | nil => simp [countEntries]
  | cons line rest ih =>
    rw [List.cons_append, countEntries, countEntries, ih, run_cons]
    omega

theorem countEntries_map_stripEol (lines : List Text) (scan : Scan) :
    countEntries scan (lines.map stripEol) = countEntries scan lines := by
  induction lines generalizing scan with
  | nil => rfl
  | cons line rest ih => simp [countEntries, ih]

theorem hasEntry_iff {scan : Scan} {lines : List Text} :
    hasEntry scan lines ↔ 0 < countEntries scan lines := by
  induction lines generalizing scan with
  | nil => simp [hasEntry, countEntries]
  | cons line rest ih =>
    rw [hasEntry, countEntries, Bool.or_eq_true, ih]
    split
    next hentry =>
      simp only [hentry, true_or, true_iff]
      omega
    next hentry => simp [hentry]

/-- The lines in front of the first entry, its key, its indentation and what follows. -/
structure FirstEntry (scan : Scan) (lines pre : List Text) (line : Text) (post : List Text)
    (indent : Nat) : Prop where
  split : lines = pre ++ line :: post
  before : countEntries scan pre = 0
  entry : ((scan.run pre).next line).atEntry line
  child : ((scan.run pre).next line).childIndent = some indent

theorem exists_firstEntry {scan : Scan} {lines : List Text} (hentry : hasEntry scan lines) :
    ∃ pre line post indent, FirstEntry scan lines pre line post indent := by
  induction lines generalizing scan with
  | nil => contradiction
  | cons line rest ih =>
    by_cases hline : (scan.next line).atEntry line
    · have hchild : ((scan.next line).childIndent.any (isIndentedKey line diffloreKey)) := by
        simp only [Scan.atEntry, Bool.and_eq_true] at hline
        exact hline.2
      obtain ⟨indent, hindent, _⟩ := (Option.any_eq_true _ _).mp hchild
      exact ⟨[], line, rest, indent, rfl, rfl, hline, hindent⟩
    · rw [hasEntry, Bool.or_eq_true, or_iff_right hline] at hentry
      obtain ⟨pre, key, post, indent, hfirst⟩ := ih hentry
      refine ⟨line :: pre, key, post, indent, ?_, ?_, hfirst.entry, hfirst.child⟩
      · rw [hfirst.split, List.cons_append]
      · rw [countEntries, if_neg hline, hfirst.before]

namespace FirstEntry

variable {scan : Scan} {lines pre post : List Text} {line : Text} {indent : Nat}

theorem scanned (hfirst : FirstEntry scan lines pre line post indent) {α : Type}
    (f : Scan → List Text → α) {found : Scan → Text → List Text → α} (skip : Text → α → α)
    (hscan : ∀ scan line rest, f scan (line :: rest) =
      if (scan.next line).atEntry line then found scan line rest
      else skip line (f (scan.next line) rest)) :
    f scan lines = pre.foldr skip (found (scan.run pre) line post) := by
  obtain ⟨rfl, hbefore, hentry, hchild⟩ := hfirst
  induction pre generalizing scan with
  | nil => exact (hscan ..).trans (if_pos hentry)
  | cons first pre ih =>
    rw [countEntries, Nat.add_eq_zero_iff] at hbefore
    have hnot : ¬ (scan.next first).atEntry first := by
      intro hfirst
      simp [hfirst] at hbefore
    rw [List.cons_append, hscan, if_neg hnot, ih hbefore.2 hentry hchild]
    rfl

theorem foldr_skip {α : Type} (lines : List Text) (found : α) :
    lines.foldr (fun _ found => found) found = found := by
  induction lines with
  | nil => rfl
  | cons _ _ ih => exact ih

theorem foldr_map_cons (lines kept : List Text) :
    lines.foldr (fun line => Option.map (line :: ·)) (some kept) = some (lines ++ kept) := by
  induction lines with
  | nil => rfl
  | cons _ _ ih =>
    rw [List.foldr_cons, ih]
    rfl

section

variable (hfirst : FirstEntry scan lines pre line post indent)
include hfirst

theorem spliceEntry_eq (replacement : Nat → Text) :
    spliceEntry replacement scan lines =
      some (pre ++ replacement indent :: post.dropWhile (belongs indent)) := by
  rw [hfirst.scanned (spliceEntry replacement) (fun line => Option.map (line :: ·))
    fun _ _ _ => rfl, hfirst.child]
  exact foldr_map_cons pre _

theorem entryLines_eq :
    entryLines scan lines = line :: post.takeWhile (belongs indent) := by
  rw [hfirst.scanned entryLines (fun _ found => found) fun _ _ _ => rfl, foldr_skip, hfirst.child]
  rfl

theorem countEntries_eq :
    countEntries scan lines = 1 + countEntries ((scan.run pre).next line) post := by
  rw [hfirst.split, countEntries_append, hfirst.before, countEntries, if_pos hfirst.entry]
  omega

theorem hasEntry : hasEntry scan lines := by
  rw [hasEntry_iff, hfirst.countEntries_eq]
  omega

theorem state :
    (scan.run pre).next line = ⟨true, some indent⟩ := by
  have hentry := hfirst.entry
  simp only [Scan.atEntry, Bool.and_eq_true] at hentry
  cases hstate : (scan.run pre).next line with
  | mk inMcpServers childIndent =>
    have hchild := hfirst.child
    rw [hstate] at hchild hentry
    obtain rfl : childIndent = some indent := hchild
    obtain rfl : inMcpServers = true := hentry.1.2
    rfl

end

end FirstEntry

/-! ## Lines below a key -/

/-- As `apply_stripEol`, for all line ends at once. -/
theorem apply_trimEol {β : Type} {f : Text → β}
    (hf : ∀ line c, isEol c → f (line ++ [c]) = f line) (line : Text) :
    f (trimEol line) = f line := by
  induction line using List.reverseRecOn with
  | nil => rfl
  | append_singleton line c ih =>
    by_cases hc : isEol c
    · rw [trimEol_concat hc, ih, hf line c hc]
    · rw [trimEol, List.rdropWhile_concat_neg _ _ _ hc]

theorem indentOf_trimEol (line : Text) : indentOf (trimEol line) = indentOf line :=
  apply_trimEol (fun line _ hc => indentOf_concat (ne_space_of_isEol hc) line) line

theorem blank_trimEol (line : Text) : blank (trimEol line) = blank line :=
  apply_trimEol (fun line _ hc => blank_concat hc line) line

theorem mcpChildIndentFromLine_trimEol (line : Text) :
    mcpChildIndentFromLine (trimEol line) = mcpChildIndentFromLine line :=
  apply_trimEol (fun line _ hc => mcpChildIndentFromLine_concat hc line) line

theorem topLevelKeyAndTail_of_indent {line : Text} (hindent : indentOf line ≠ 0) :
    topLevelKeyAndTail line = none := by
  simp [topLevelKeyAndTail, hindent]

theorem topLevelKey_of_indent {line : Text} (hindent : indentOf line ≠ 0) :
    topLevelKey line = none := by
  rw [topLevelKey, topLevelKeyAndTail_of_indent hindent, Option.map_none]

theorem topLevelKey_of_blank {line : Text} (hblank : blank line) : topLevelKey line = none := by
  have hcontent : trimStart (trimEol line) = [] := by
    rw [← blank_trimEol] at hblank
    exact List.dropWhile_eq_nil_iff.mpr (blank_iff.mp hblank)
  simp [topLevelKey, topLevelKeyAndTail, hcontent]

theorem topLevelKey_of_belongs {line : Text} {indent : Nat} (hline : belongs indent line) :
    topLevelKey line = none := by
  rw [belongs, Bool.or_eq_true, decide_eq_true_eq] at hline
  rcases hline with hblank | hdeeper
  · exact topLevelKey_of_blank hblank
  · exact topLevelKey_of_indent (by omega)

theorem indentOf_of_isIndentedKey {line key : Text} {indent : Nat}
    (hkey : isIndentedKey line key indent) : indentOf line = indent := by
  simp only [isIndentedKey, Bool.and_eq_true, decide_eq_true_eq] at hkey
  rw [← indentOf_trimEol, hkey.1]

theorem eq_replicate_append (line : Text) :
    line = List.replicate (indentOf line) ' ' ++ line.drop (indentOf line) := by
  have htake : line.takeWhile (· = ' ') = List.replicate (indentOf line) ' ' := by
    apply List.eq_replicate_of_mem
    intro c hc
    simpa using List.mem_takeWhile_imp hc
  have hsplit := List.takeWhile_append_dropWhile (p := (· = ' ')) (l := line)
  rw [htake] at hsplit
  conv_lhs => rw [← hsplit]
  congr 1
  have hdrop := congrArg (List.drop (indentOf line)) hsplit
  rwa [List.drop_left' (List.length_replicate ..)] at hdrop

theorem indentOf_replicate_append (indent : Nat) {c : Char} (hc : c ≠ ' ') (rest : Text) :
    indentOf (List.replicate indent ' ' ++ c :: rest) = indent := by
  unfold indentOf
  rw [List.takeWhile_append_of_pos, List.takeWhile_cons_of_neg (by simpa using hc)]
  · simp
  · intro space hmem
    simpa using List.eq_of_mem_replicate hmem

/-- An indented line whose first character is no `#` and no white space is a child. -/
theorem mcpChildIndentFromLine_indented {indent : Nat} (hpos : 0 < indent) {c : Char} (rest : Text)
    (hspace : isWhitespace c = false) (hcomment : c ≠ '#') :
    mcpChildIndentFromLine (List.replicate indent ' ' ++ c :: rest) = some indent := by
  have hstart : trimStart (List.replicate indent ' ' ++ c :: rest) = c :: rest := by
    unfold trimStart
    rw [List.dropWhile_append_of_pos, List.dropWhile_cons_of_neg (by simp [hspace])]
    intro space hmem
    rw [List.eq_of_mem_replicate hmem]
    decide
  have hblank : blank (List.replicate indent ' ' ++ c :: rest) = false := by
    rw [← Bool.not_eq_true, blank_iff]
    intro hall
    rw [hall c (by simp)] at hspace
    contradiction
  have hindent : indentOf (List.replicate indent ' ' ++ c :: rest) = indent := by
    apply indentOf_replicate_append
    rintro rfl
    contradiction
  unfold mcpChildIndentFromLine
  rw [hstart, hblank, hindent]
  simp [hpos, Ne.symm hcomment]

theorem mcpChildIndentFromLine_of_isIndentedKey {line : Text} {indent : Nat} (hpos : 0 < indent)
    (hkey : isIndentedKey line diffloreKey indent) : mcpChildIndentFromLine line = some indent := by
  simp only [isIndentedKey, Bool.and_eq_true, decide_eq_true_eq, List.isPrefixOf_iff_prefix] at hkey
  obtain ⟨rest, hrest⟩ := hkey.2
  rw [← mcpChildIndentFromLine_trimEol, eq_replicate_append (trimEol line), hkey.1, ← hrest]
  exact mcpChildIndentFromLine_indented hpos _ (by decide) (by decide)

theorem blank_of_mcpChildIndentFromLine {line : Text} {indent : Nat}
    (hchild : mcpChildIndentFromLine line = some indent) :
    blank line = false ∧ indentOf line = indent ∧ 0 < indent := by
  unfold mcpChildIndentFromLine at hchild
  split at hchild
  next => contradiction
  next hplain =>
    obtain ⟨hpos, hindent⟩ := Option.ite_none_right_eq_some.mp hchild
    obtain rfl := Option.some.inj hindent
    refine ⟨?_, rfl, hpos⟩
    simp only [Bool.or_eq_true, not_or, Bool.not_eq_true] at hplain
    exact hplain.1

def Scan.Positive (scan : Scan) : Prop := ∀ indent ∈ scan.childIndent, 0 < indent

theorem positive_start : Scan.start.Positive := by simp [Scan.Positive, Scan.start]

theorem positive_next {scan : Scan} (hscan : scan.Positive) (line : Text) :
    (scan.next line).Positive := by
  unfold Scan.next
  split
  next => simp [Scan.Positive]
  next =>
    split
    next => exact fun indent hindent => (blank_of_mcpChildIndentFromLine hindent).2.2
    next => exact hscan

theorem positive_run {scan : Scan} (hscan : scan.Positive) (lines : List Text) :
    (scan.run lines).Positive := by
  induction lines generalizing scan with
  | nil => exact hscan
  | cons line rest ih => exact ih (positive_next hscan line)

/-! ## Entries of a part -/

theorem atEntry_eq_false_of_indent {scan : Scan} {line : Text}
    (hindent : ∀ indent ∈ scan.childIndent, indentOf line ≠ indent) :
    scan.atEntry line = false := by
  rw [← Bool.not_eq_true, Scan.atEntry, Bool.and_eq_true]
  rintro ⟨_, hany⟩
  obtain ⟨indent, hmem, hkey⟩ := (Option.any_eq_true _ _).mp hany
  exact hindent indent hmem (indentOf_of_isIndentedKey hkey)

theorem atEntry_eq_false_of_blank {scan : Scan} (hscan : scan.Positive) {line : Text}
    (hblank : blank line) : scan.atEntry line = false := by
  rw [← Bool.not_eq_true, Scan.atEntry, Bool.and_eq_true]
  rintro ⟨_, hany⟩
  obtain ⟨indent, hmem, hkey⟩ := (Option.any_eq_true _ _).mp hany
  have hchild := mcpChildIndentFromLine_of_isIndentedKey (hscan indent hmem) hkey
  rw [(blank_of_mcpChildIndentFromLine hchild).1] at hblank
  contradiction

theorem run_belongs {indent : Nat} (hpos : 0 < indent) {lines : List Text}
    (hlines : ∀ line ∈ lines, belongs indent line) :
    Scan.run ⟨true, some indent⟩ lines = ⟨true, some indent⟩ ∧
      countEntries ⟨true, some indent⟩ lines = 0 := by
  have hscan : Scan.Positive ⟨true, some indent⟩ := by simpa [Scan.Positive] using hpos
  induction lines with
  | nil => exact ⟨rfl, rfl⟩
  | cons line rest ih =>
    have hline := hlines line (.head _)
    have hnext : Scan.next ⟨true, some indent⟩ line = ⟨true, some indent⟩ := by
      simp [Scan.next, topLevelKey_of_belongs hline]
    have hentry : Scan.atEntry ⟨true, some indent⟩ line = false := by
      rw [belongs, Bool.or_eq_true, decide_eq_true_eq] at hline
      rcases hline with hblank | hdeeper
      · exact atEntry_eq_false_of_blank hscan hblank
      · apply atEntry_eq_false_of_indent
        rintro _ ⟨⟩
        omega
    obtain ⟨hrun, hcount⟩ := ih fun line hmem => hlines line (.tail _ hmem)
    rw [run_cons, countEntries, hnext, hentry, hrun, hcount]
    exact ⟨rfl, rfl⟩

theorem run_outside {lines : List Text}
    (hlines : ∀ line ∈ lines, topLevelKey line ≠ some mcpServers)
    {scan : Scan} (hscan : scan.inMcpServers = false) :
    (scan.run lines).inMcpServers = false ∧ countEntries scan lines = 0 := by
  induction lines generalizing scan with
  | nil => exact ⟨hscan, rfl⟩
  | cons line rest ih =>
    have hnext : (scan.next line).inMcpServers = false := by
      unfold Scan.next
      split
      next key hkey =>
        have hne : key ≠ mcpServers := fun heq => hlines line (.head _) (heq ▸ hkey)
        simp [hne]
      next => simp [hscan]
    have hentry : (scan.next line).atEntry line = false := by simp [Scan.atEntry, hnext]
    obtain ⟨hrun, hcount⟩ := ih (fun line hmem => hlines line (.tail _ hmem)) hnext
    rw [run_cons, countEntries, hentry, hcount]
    exact ⟨hrun, rfl⟩

def sectionChild : List Text → Option Nat
  | [] => none
  | line :: rest =>
    if (topLevelKey line).isSome then none
    else (mcpChildIndentFromLine line).or (sectionChild rest)

theorem sectionChild_cons {line : Text} {rest : List Text} (hkey : topLevelKey line = none) :
    sectionChild (line :: rest) = (mcpChildIndentFromLine line).or (sectionChild rest) := by
  simp [sectionChild, hkey]

theorem countEntries_childIndent {indent : Nat} (hpos : 0 < indent) {lines : List Text}
    (hchild : ∀ first ∈ sectionChild lines, first = indent) :
    countEntries ⟨true, some indent⟩ lines = countEntries ⟨true, none⟩ lines := by
  induction lines with
  | nil => rfl
  | cons line rest ih =>
    rw [countEntries, countEntries]
    cases hkey : topLevelKey line with
    | some key => simp [Scan.next, Scan.atEntry, hkey]
    | none =>
      rw [sectionChild_cons hkey] at hchild
      cases hline : mcpChildIndentFromLine line with
      | some first =>
        obtain rfl : first = indent := hchild first (by simp [hline])
        simp [Scan.next, hkey, hline]
      | none =>
        rw [hline, Option.none_or] at hchild
        have hplain : isIndentedKey line diffloreKey indent = false := by
          rw [← Bool.not_eq_true]
          intro hentry
          rw [mcpChildIndentFromLine_of_isIndentedKey hpos hentry] at hline
          contradiction
        simp [Scan.next, Scan.atEntry, hkey, hline, hplain, ih hchild]

theorem firstChildIndent_of_sectionChild {lines : List Text} {indent : Nat}
    (hchild : sectionChild lines = some indent) : firstChildIndent true lines = some indent := by
  induction lines with
  | nil => contradiction
  | cons line rest ih =>
    unfold sectionChild at hchild
    split at hchild
    next => contradiction
    next hkey =>
      rw [Option.not_isSome_iff_eq_none] at hkey
      simp only [firstChildIndent, hkey, if_true]
      cases hline : mcpChildIndentFromLine line with
      | some first =>
        rw [hline, Option.some_or] at hchild
        rw [Option.some_or, hchild]
      | none =>
        rw [hline, Option.none_or] at hchild
        rw [Option.none_or, ih hchild]

theorem firstChildIndent_pos {lines : List Text} {inMcpServers : Bool} {indent : Nat}
    (hchild : firstChildIndent inMcpServers lines = some indent) : 0 < indent := by
  induction lines generalizing inMcpServers with
  | nil => contradiction
  | cons line rest ih =>
    unfold firstChildIndent at hchild
    split at hchild
    next => exact ih hchild
    next =>
      split at hchild
      next =>
        rcases Option.or_eq_some_iff.mp hchild with hline | ⟨_, hrest⟩
        · exact (blank_of_mcpChildIndentFromLine hline).2.2
        · exact ih hrest
      next => exact ih hchild

theorem firstChildIndent_outside {lines rest : List Text}
    (hlines : ∀ line ∈ lines, topLevelKey line ≠ some mcpServers) :
    firstChildIndent false (lines ++ rest) = firstChildIndent false rest := by
  induction lines with
  | nil => rfl
  | cons line lines ih =>
    have hrest := ih fun line hmem => hlines line (.tail _ hmem)
    rw [List.cons_append, firstChildIndent]
    split
    next key hkey =>
      have hne : key ≠ mcpServers := fun heq => hlines line (.head _) (heq ▸ hkey)
      simpa [hne] using hrest
    next => simpa using hrest

def nonBlank (lines : List Text) : List Text := lines.filter (!blank ·)

theorem nonBlank_append (first second : List Text) :
    nonBlank (first ++ second) = nonBlank first ++ nonBlank second := List.filter_append ..

theorem nonBlank_eq_nil {lines : List Text} (hlines : ∀ line ∈ lines, blank line) :
    nonBlank lines = [] :=
  List.filter_eq_nil_iff.mpr fun line hline => by simp [hlines line hline]

def outsideEntry (scan : Scan) : List Text → List Text
  | [] => []
  | line :: rest =>
    if (scan.next line).atEntry line then
      rest.dropWhile (belongs ((scan.next line).childIndent.getD 2))
    else line :: outsideEntry (scan.next line) rest

def entryIndent (scan : Scan) : List Text → Option Nat
  | [] => none
  | line :: rest =>
    if (scan.next line).atEntry line then (scan.next line).childIndent
    else entryIndent (scan.next line) rest

theorem outsideEntry_map_stripEol (lines : List Text) (scan : Scan) :
    outsideEntry scan (lines.map stripEol) = (outsideEntry scan lines).map stripEol := by
  induction lines generalizing scan with
  | nil => rfl
  | cons line rest ih =>
    simp only [List.map_cons, outsideEntry, next_stripEol, atEntry_stripEol]
    split
    next =>
      rw [List.dropWhile_map]
      congr 2
      funext next
      exact belongs_stripEol _ next
    next => rw [List.map_cons, ih]

theorem entryIndent_map_stripEol (lines : List Text) (scan : Scan) :
    entryIndent scan (lines.map stripEol) = entryIndent scan lines := by
  induction lines generalizing scan with
  | nil => rfl
  | cons line rest ih => simp only [List.map_cons, entryIndent, next_stripEol, atEntry_stripEol, ih]

theorem outsideEntry_of_countEntries {scan : Scan} {lines : List Text}
    (hcount : countEntries scan lines = 0) : outsideEntry scan lines = lines := by
  induction lines generalizing scan with
  | nil => rfl
  | cons line rest ih =>
    rw [countEntries, Nat.add_eq_zero_iff] at hcount
    have hnot : ¬ (scan.next line).atEntry line := by
      intro hline
      simp [hline] at hcount
    rw [outsideEntry, if_neg hnot, ih hcount.2]

namespace FirstEntry

variable {scan : Scan} {lines pre post : List Text} {line : Text} {indent : Nat}

section

variable (hfirst : FirstEntry scan lines pre line post indent)
include hfirst

theorem outsideEntry_eq :
    outsideEntry scan lines = pre ++ post.dropWhile (belongs indent) := by
  rw [hfirst.scanned outsideEntry List.cons fun _ _ _ => rfl, hfirst.child,
    List.foldr_cons_eq_append']
  rfl

theorem entryIndent_eq :
    entryIndent scan lines = some indent := by
  rw [hfirst.scanned entryIndent (fun _ found => found) fun _ _ _ => rfl, foldr_skip, hfirst.child]

theorem state_before :
    ∃ childIndent, scan.run pre = ⟨true, childIndent⟩ ∧ ∀ first ∈ childIndent, first = indent := by
  have hstate := hfirst.state
  have hentry := hfirst.entry
  simp only [Scan.atEntry, Bool.and_eq_true, decide_eq_true_eq] at hentry
  cases hrun : scan.run pre with
  | mk inMcpServers childIndent =>
    rw [hrun] at hstate
    simp only [Scan.next, hentry.1.1] at hstate
    split at hstate
    next hnone =>
      simp only [Bool.and_eq_true, Option.isNone_iff_eq_none] at hnone
      obtain ⟨rfl, rfl⟩ := hnone
      exact ⟨none, rfl, by simp⟩
    next =>
      obtain ⟨rfl, rfl⟩ := Scan.mk.inj hstate
      exact ⟨some indent, rfl, by simp⟩

end

theorem pos (hfirst : FirstEntry .start lines pre line post indent) : 0 < indent :=
  positive_next (positive_run positive_start pre) line indent hfirst.child

theorem countEntries_dropWhile (hfirst : FirstEntry .start lines pre line post indent) :
    countEntries .start lines =
      1 + countEntries ⟨true, some indent⟩ (post.dropWhile (belongs indent)) := by
  have hbelongs : ∀ line ∈ post.takeWhile (belongs indent), belongs indent line :=
    fun line hline => List.mem_takeWhile_imp hline
  obtain ⟨hrun, hcount⟩ := run_belongs hfirst.pos hbelongs
  rw [hfirst.countEntries_eq, hfirst.state]
  conv_lhs => rw [← List.takeWhile_append_dropWhile (p := belongs indent) (l := post)]
  rw [countEntries_append, hcount, hrun, Nat.zero_add]

end FirstEntry

end Difflore.Install
