import Difflore.Install.GooseAppend

/-! # Server entries of a Goose config

The children of the `mcpServers:` mappings, and what dropping empty headers does
to them. A header looks empty if the next line that is not blank is not indented;
it is empty if its mapping has no child.
-/

namespace Difflore.Install

open Foundation Text

variable {lines : List Text} {scan : Scan} {line : Text}

/-! ## Server entries -/

/-- The line is a child of the mapping; `scan` has already read it. -/
def Scan.atServer (scan : Scan) (line : Text) : Bool :=
  topLevelKey line = none && scan.inMcpServers && scan.childIndent.isSome &&
    mcpChildIndentFromLine line = scan.childIndent

def serverEntries (scan : Scan) : List Text → List Text
  | [] => []
  | line :: rest =>
    if (scan.next line).atServer line then line :: serverEntries (scan.next line) rest
    else serverEntries (scan.next line) rest

def diffloreLine (line : Text) : Bool := isIndentedKey line diffloreKey (indentOf line)

/-- The server entries without the first `difflore` one. -/
def otherServers (lines : List Text) : List Text := (serverEntries .start lines).eraseP diffloreLine

theorem serverEntries_append (first second : List Text) (scan : Scan) :
    serverEntries scan (first ++ second) =
      serverEntries scan first ++ serverEntries (scan.run first) second := by
  induction first generalizing scan with
  | nil => rfl
  | cons line rest ih =>
    rw [List.cons_append, serverEntries, serverEntries, ih, run_cons]
    split <;> rfl

theorem atServer_iff : scan.atServer line ↔ topLevelKey line = none ∧ scan.inMcpServers ∧
      ∃ indent, scan.childIndent = some indent ∧ mcpChildIndentFromLine line = some indent := by
  simp only [Scan.atServer, Bool.and_eq_true, decide_eq_true_eq, and_assoc,
    Option.isSome_iff_exists]
  constructor
  · intro ⟨hkey, hin, ⟨indent, hindent⟩, hline⟩
    exact ⟨hkey, hin, indent, hindent, hline.trans hindent⟩
  · intro ⟨hkey, hin, indent, hindent, hline⟩
    exact ⟨hkey, hin, ⟨indent, hindent⟩, hline.trans hindent.symm⟩

/-- Of the server entries, those under `difflore` are the entries that are counted. -/
theorem atEntry_of_atServer (hserver : scan.atServer line) (hline : diffloreLine line) :
    scan.atEntry line := by
  obtain ⟨hkey, hin, indent, hindent, hchild⟩ := atServer_iff.mp hserver
  have heq := (blank_of_mcpChildIndentFromLine hchild).2.1
  rw [diffloreLine, heq] at hline
  simp [Scan.atEntry, hkey, hin, hindent, hline]

theorem atServer_of_atEntry (hscan : scan.Positive) (hentry : scan.atEntry line) :
    scan.atServer line ∧ diffloreLine line := by
  simp only [Scan.atEntry, Bool.and_eq_true, decide_eq_true_eq, and_assoc] at hentry
  obtain ⟨hkey, hin, hany⟩ := hentry
  obtain ⟨indent, hmem, hline⟩ := (Option.any_eq_true _ _).mp hany
  constructor
  · apply atServer_iff.mpr
    exact ⟨hkey, hin, indent, hmem,
      mcpChildIndentFromLine_of_isIndentedKey (hscan indent hmem) hline⟩
  · rw [diffloreLine, indentOf_of_isIndentedKey hline]
    exact hline

theorem not_diffloreLine_of_countEntries (hcount : countEntries scan lines = 0) :
    ∀ line ∈ serverEntries scan lines, ¬ diffloreLine line := by
  induction lines generalizing scan with
  | nil => simp [serverEntries]
  | cons first rest ih =>
    rw [countEntries, Nat.add_eq_zero_iff] at hcount
    intro line hline hdifflore
    rw [serverEntries] at hline
    split at hline
    next hserver =>
      rcases List.mem_cons.mp hline with rfl | hmem
      · simp [atEntry_of_atServer hserver hdifflore] at hcount
      · exact ih hcount.2 line hmem hdifflore
    next => exact ih hcount.2 line hline hdifflore

theorem serverEntries_belongs {indent : Nat} (hlines : ∀ line ∈ lines, belongs indent line) :
    serverEntries ⟨true, some indent⟩ lines = [] := by
  induction lines with
  | nil => rfl
  | cons line rest ih =>
    have hline := hlines line (.head _)
    have hnext : Scan.next ⟨true, some indent⟩ line = ⟨true, some indent⟩ := by
      simp [Scan.next, topLevelKey_of_belongs hline]
    have hserver : ¬ Scan.atServer ⟨true, some indent⟩ line := by
      intro hserver
      obtain ⟨_, _, _, ⟨⟩, hchild⟩ := atServer_iff.mp hserver
      obtain ⟨hblank, hindent, _⟩ := blank_of_mcpChildIndentFromLine hchild
      simp [belongs, hblank, hindent] at hline
    rw [serverEntries, hnext, if_neg hserver]
    exact ih fun other hmem => hlines other (.tail _ hmem)

theorem serverEntries_childIndent {indent : Nat}
    (hchild : ∀ first ∈ sectionChild lines, first = indent) :
    serverEntries ⟨true, none⟩ lines = serverEntries ⟨true, some indent⟩ lines := by
  induction lines with
  | nil => rfl
  | cons line rest ih =>
    rw [serverEntries, serverEntries]
    cases hkey : topLevelKey line with
    | some key => simp [Scan.next, Scan.atServer, hkey]
    | none =>
      rw [sectionChild_cons hkey] at hchild
      cases hline : mcpChildIndentFromLine line with
      | some first =>
        obtain rfl : first = indent := hchild first (by simp [hline])
        simp [Scan.next, hkey, hline]
      | none =>
        rw [hline, Option.none_or] at hchild
        simp [Scan.next, Scan.atServer, hkey, hline, ih hchild]

theorem serverEntries_of_sectionChild (hempty : sectionChild lines = none) (first second : Scan) :
    serverEntries first lines = serverEntries second lines := by
  induction lines generalizing first second with
  | nil => rfl
  | cons line rest ih =>
    rw [serverEntries, serverEntries]
    cases hkey : topLevelKey line with
    | some key => simp [Scan.next, Scan.atServer, hkey]
    | none =>
      rw [sectionChild, hkey, if_neg (by simp), Option.or_eq_none_iff] at hempty
      have hserver : ∀ scan : Scan, ¬ (scan.next line).atServer line := by
        intro scan hserver
        obtain ⟨_, _, _, _, hchild⟩ := atServer_iff.mp hserver
        rw [hempty.1] at hchild
        contradiction
      rw [if_neg (hserver first), if_neg (hserver second)]
      exact ih hempty.2 _ _

def headersHold : List Text → Bool
  | [] => true
  | line :: rest => (!emptyHeader line rest || (sectionChild rest).isNone) && headersHold rest

/-- `left` is `lines` without some headers that have no server entry under them. -/
inductive HeadersDropped : List Text → List Text → Prop
  | nil : HeadersDropped [] []
  | keep {lines left : List Text} (line : Text) (hrest : HeadersDropped lines left) :
      HeadersDropped (line :: lines) (line :: left)
  | drop {lines left : List Text} {line : Text} (hkey : topLevelKey line = some mcpServers)
      (hempty : sectionChild lines = none) (hrest : HeadersDropped lines left) :
      HeadersDropped (line :: lines) left

theorem HeadersDropped.refl (lines : List Text) : HeadersDropped lines lines := by
  induction lines with
  | nil => exact .nil
  | cons line rest ih => exact .keep line ih

theorem trimEnd_trimEol (line : Text) : trimEnd (trimEol line) = trimEnd line :=
  apply_trimEol (fun _ _ hc => List.rdropWhile_concat_pos _ _ _ (isWhitespace_of_isEol hc)) line

theorem topLevelKey_of_emptyHeader {rest : List Text} (hheader : emptyHeader line rest) :
    topLevelKey line = some mcpServers := by
  simp only [emptyHeader, Bool.and_eq_true, decide_eq_true_eq] at hheader
  rw [← topLevelKey_trimEnd, ← trimEnd_trimEol, hheader.1.2]
  decide

theorem headersDropped_dropEmptyHeaders (hhold : headersHold lines) :
    HeadersDropped lines (dropEmptyHeaders lines) := by
  induction lines with
  | nil => exact .nil
  | cons line rest ih =>
    simp only [headersHold, Bool.and_eq_true, Bool.or_eq_true, Bool.not_eq_true',
      Option.isNone_iff_eq_none] at hhold
    rw [dropEmptyHeaders]
    split
    next hheader =>
      have hempty : sectionChild rest = none := by simpa [hheader] using hhold.1
      exact .drop (topLevelKey_of_emptyHeader hheader) hempty (ih hhold.2)
    next => exact .keep line (ih hhold.2)

theorem HeadersDropped.serverEntries_eq {left : List Text} (hdropped : HeadersDropped lines left)
    (scan : Scan) : serverEntries scan left = serverEntries scan lines := by
  induction hdropped generalizing scan with
  | nil => rfl
  | keep line _ ih => rw [serverEntries, serverEntries, ih]
  | @drop lines left line hkey hempty _ ih =>
    have hserver : ¬ (scan.next line).atServer line := by
      intro hserver
      rw [(atServer_iff.mp hserver).1] at hkey
      contradiction
    rw [ih, serverEntries, if_neg hserver]
    exact serverEntries_of_sectionChild hempty _ _

theorem dropEmptyHeaders_sublist (lines : List Text) : (dropEmptyHeaders lines).Sublist lines := by
  induction lines with
  | nil => exact .slnil
  | cons line rest ih =>
    rw [dropEmptyHeaders]
    split
    next => exact ih.cons line
    next => exact ih.cons_cons line

def visible (lines : List Text) : List Text := nonBlank (lines.map stripEol)

theorem visible_append (first second : List Text) :
    visible (first ++ second) = visible first ++ visible second := by
  rw [visible, List.map_append, nonBlank_append, visible, visible]

theorem visible_cons_of_blank (hblank : blank line) (rest : List Text) :
    visible (line :: rest) = visible rest := by
  rw [visible, nonBlank, List.map_cons, List.filter_cons, blank_stripEol, hblank, visible, nonBlank]
  rfl

theorem visible_cons_of_not_blank (hblank : ¬ blank line) (rest : List Text) :
    visible (line :: rest) = stripEol line :: visible rest := by
  rw [Bool.not_eq_true] at hblank
  rw [visible, nonBlank, List.map_cons, List.filter_cons, blank_stripEol, hblank, visible, nonBlank]
  rfl

theorem visible_splitInclusive (s : Text) :
    visible (splitInclusive s) = nonBlank (Text.lines s) := by
  rw [visible, lines_eq_map_splitInclusive]

theorem sectionChild_visible (lines : List Text) :
    sectionChild (visible lines) = sectionChild lines := by
  induction lines with
  | nil => rfl
  | cons line rest ih =>
    by_cases hblank : blank line
    · have hnone : mcpChildIndentFromLine line = none := by
        simp [mcpChildIndentFromLine, hblank]
      rw [visible_cons_of_blank hblank, ih, sectionChild, topLevelKey_of_blank hblank, hnone]
      rfl
    · rw [visible_cons_of_not_blank hblank, sectionChild, sectionChild, topLevelKey_stripEol,
        mcpChildIndentFromLine_stripEol, ih]

@[simp] theorem indentOf_stripEol (line : Text) : indentOf (stripEol line) = indentOf line :=
  apply_stripEol (fun line _ hc => indentOf_concat (ne_space_of_isEol hc) line) line

theorem indented_visible (lines : List Text) :
    ((visible lines).find? fun next => !blank next).any (fun next => decide (0 < indentOf next)) =
      (lines.find? fun next => !blank next).any (fun next => decide (0 < indentOf next)) := by
  induction lines with
  | nil => rfl
  | cons line rest ih =>
    by_cases hblank : blank line
    · rw [visible_cons_of_blank hblank, ih, List.find?_cons_of_neg (by simp [hblank])]
    · rw [visible_cons_of_not_blank hblank, List.find?_cons_of_pos (by simpa using hblank),
        List.find?_cons_of_pos (by simpa using hblank)]
      simp

theorem emptyHeader_visible (line : Text) (rest : List Text) :
    emptyHeader (stripEol line) (visible rest) = emptyHeader line rest := by
  rw [emptyHeader, trimEol_stripEol, indented_visible, emptyHeader]

theorem emptyHeader_of_blank (hblank : blank line) (rest : List Text) :
    emptyHeader line rest = false := by
  rw [← Bool.not_eq_true]
  intro hheader
  have hkey := topLevelKey_of_emptyHeader hheader
  rw [topLevelKey_of_blank hblank] at hkey
  contradiction

theorem headersHold_visible (lines : List Text) :
    headersHold (visible lines) = headersHold lines := by
  induction lines with
  | nil => rfl
  | cons line rest ih =>
    by_cases hblank : blank line
    · rw [visible_cons_of_blank hblank, ih, headersHold, emptyHeader_of_blank hblank]
      simp
    · rw [visible_cons_of_not_blank hblank, headersHold, headersHold, emptyHeader_visible,
        sectionChild_visible, ih]

theorem visible_dropEmptyHeaders (lines : List Text) :
    visible (dropEmptyHeaders lines) = dropEmptyHeaders (visible lines) := by
  induction lines with
  | nil => rfl
  | cons line rest ih =>
    by_cases hblank : blank line
    · rw [visible_cons_of_blank hblank, ← ih, dropEmptyHeaders, emptyHeader_of_blank hblank,
        if_neg Bool.false_ne_true, visible_cons_of_blank hblank]
    · rw [visible_cons_of_not_blank hblank, dropEmptyHeaders, dropEmptyHeaders, emptyHeader_visible]
      split
      next => exact ih
      next => rw [visible_cons_of_not_blank hblank, ih]

theorem dropEmptyHeaders_added (hlines : ∀ line ∈ lines, topLevelKey line ≠ some mcpServers) :
    dropEmptyHeaders (lines ++ [mcpServersHeader]) = lines := by
  induction lines with
  | nil => decide
  | cons line rest ih =>
    have hheader : ¬ emptyHeader line (rest ++ [mcpServersHeader]) := fun hheader =>
      hlines line (.head _) (topLevelKey_of_emptyHeader hheader)
    rw [List.cons_append, dropEmptyHeaders, if_neg hheader,
      ih fun other hmem => hlines other (.tail _ hmem)]

end Difflore.Install
