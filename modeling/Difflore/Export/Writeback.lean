import Difflore.Export.Render
import Difflore.Foundation.Marker

/-! # Writing the block back

The block is appended to a file that has none, and replaces the one it finds
between the markers. Files whose markers are doubled, unpaired or not ours are
left alone.
-/

namespace Difflore.Export

open Foundation Text

/-! ## The engine -/

def contentHashField : Text := "content-hash:"

def generatedBlockSentinel : Text := "AUTO-GENERATED by difflore export"

inductive WriteAction where
  | created
  | updated
  | unchanged
  | skipped
  deriving DecidableEq

structure WriteOutcome where
  action : WriteAction
  reason : Option Text

def WriteOutcome.ok (action : WriteAction) : WriteOutcome := ⟨action, none⟩

def WriteOutcome.skip (reason : Text) : WriteOutcome := ⟨.skipped, some reason⟩

structure MarkerBlockWrite where
  path : Text
  block : Text
  contentHash : Text
  dryRun : Bool

inductive Target where
  | missing
  | symlink
  | directory
  | unstattable (error : Text)
  | unreadable (error : Text)
  | file (content : Text)

/-- The value of the `content-hash:` field of a block header. -/
def embeddedContentHash (block : Text) : Option Text :=
  (afterFirst contentHashField block).bind fun after =>
    let hash := trim
      ((trimStart after).takeWhile fun c => !(isWhitespace c || c = '|'))
    if hash = [] then none else some hash

inductive Plan where
  | skip (reason : Text)
  | unchanged
  | write (content : Text)

def appendBlock (req : MarkerBlockWrite) (existing : Text) : Text :=
  let sep := if existing.getLast? = some '\n' || existing = [] then [] else ['\n']
  existing ++ (sep ++ ('\n' :: (req.block ++ ['\n'])))

def quoted (s : Text) : Text := "`" ++ (s ++ "`")

def multipleMarkersReason (path : Text) (beginCount endCount : Nat) : Text :=
  path ++ (" has multiple DiffLore markers (" ++ (Nat.toDigits 10 beginCount ++
    ("x " ++ (quoted beginMarker ++ (", " ++ (Nat.toDigits 10 endCount ++
    ("x " ++ (quoted endMarker ++
    ("); refusing to rewrite to avoid clobbering content — " ++
    "keep exactly one marker pair and re-run")))))))))

def foreignMarkersReason (path : Text) : Text :=
  path ++ (" contains " ++ (quoted beginMarker ++ (" / " ++ (quoted endMarker ++
    (" but no DiffLore-generated block between them (missing the " ++
    (quoted generatedBlockSentinel ++
    " header); refusing to overwrite — these look like markers in your own content"))))))

def corruptedReason (path : Text) : Text :=
  path ++ ((" has a corrupted DiffLore section (BEGIN/END marker mismatch); " ++
    "fix or delete the ") ++
    (quoted beginMarker ++ (" / " ++ (quoted endMarker ++ " lines and re-run"))))

/-- Replace what stands from the one index to the end of the marker at the other. -/
def regenerate (req : MarkerBlockWrite) (existing : Text) (beginIdx endIdx : Nat) : Plan :=
  let blockEnd := endIdx + endMarker.length
  let existingBlock := (existing.take blockEnd).drop beginIdx
  if ¬ generatedBlockSentinel <:+: existingBlock then .skip (foreignMarkersReason req.path)
  else if embeddedContentHash existingBlock = some req.contentHash then .unchanged
  else .write (existing.take beginIdx ++ (req.block ++ existing.drop blockEnd))

def planFound (req : MarkerBlockWrite) (existing : Text) : Option Nat → Option Nat → Plan
  | none, none => .write (appendBlock req existing)
  | some beginIdx, some endIdx =>
    if beginIdx < endIdx then regenerate req existing beginIdx endIdx
    else .skip (corruptedReason req.path)
  | _, _ => .skip (corruptedReason req.path)

def plan (req : MarkerBlockWrite) (existing : Text) : Plan :=
  let beginCount := countMatches beginMarker existing
  let endCount := countMatches endMarker existing
  if 1 < beginCount ∨ 1 < endCount then
    .skip (multipleMarkersReason req.path beginCount endCount)
  else planFound req existing (find beginMarker existing) (find endMarker existing)

/-- The atomic write, unless this is a dry run; `disk` is how the write ends. -/
def writeTarget (disk : Except Text Unit) (req : MarkerBlockWrite) (start : Target)
    (action : WriteAction) (content : Text) : Except Text (WriteOutcome × Target) :=
  if req.dryRun then .ok (.ok action, start)
  else disk.map fun _ => (.ok action, .file content)

def symlinkReason (path : Text) : Text :=
  path ++ (" is a symlink; refusing to write through it (it may point at another " ++
    "agent's instructions file). Re-point or remove the symlink and re-run.")

def upsertMarkerBlock (disk : Except Text Unit) (start : Target) (req : MarkerBlockWrite) :
    Except Text (WriteOutcome × Target) :=
  match start with
  | .symlink => .ok (.skip (symlinkReason req.path), start)
  | .directory => .ok (.skip (req.path ++ " is a directory, not a file"), start)
  | .missing => writeTarget disk req start .created (req.block ++ ['\n'])
  | .unstattable error =>
    .error ("failed to stat " ++ (req.path ++ (": " ++ error)))
  | .unreadable error =>
    .ok (.skip ("could not read " ++ (req.path ++ (" as UTF-8 text (" ++
      (error ++ "); refusing to rewrite it")))), start)
  | .file existing =>
    match plan req existing with
    | .skip reason => .ok (.skip reason, start)
    | .unchanged => .ok (.ok .unchanged, start)
    | .write content => writeTarget disk req start .updated content

theorem angles_differ : '<' ≠ '>' := by decide

def beginTag : Tag '<' '>' where
  body := "!-- BEGIN DIFFLORE RULES --"
  left_ne_right := angles_differ
  left_not_mem := by decide
  right_not_mem := by decide

def endTag : Tag '<' '>' where
  body := "!-- END DIFFLORE RULES --"
  left_ne_right := angles_differ
  left_not_mem := by decide
  right_not_mem := by decide

theorem symbols_beginTag : beginTag.symbols = beginMarker := by decide

theorem symbols_endTag : endTag.symbols = endMarker := by decide

theorem markers_differ : beginTag.symbols ≠ endTag.symbols := by decide

abbrev markers : List (Tag '<' '>') := [beginTag, endTag]

abbrev Managed := Sectioned beginTag endTag

def Generated (file : Managed) : Prop := generatedBlockSentinel <:+: file.block

variable {req : MarkerBlockWrite} {existing : Text}

theorem plan_multiple {tag : Tag '<' '>'} (htag : tag ∈ markers)
    (hmany : 1 < countMatches tag.symbols existing) :
    ∃ reason, plan req existing = .skip reason := by
  refine ⟨_, if_pos ?_⟩
  rcases List.mem_cons.mp htag with rfl | htag
  · exact .inl (symbols_beginTag ▸ hmany)
  · obtain rfl := List.mem_singleton.mp htag
    exact .inr (symbols_endTag ▸ hmany)

theorem plan_sectioned (file : Managed) : plan req file.text =
      if ¬ generatedBlockSentinel <:+: file.block then .skip (foreignMarkersReason req.path)
      else if embeddedContentHash file.block = some req.contentHash then .unchanged
      else .write (file.before ++ (req.block ++ file.after)) := by
  have hbegin := file.countMatches_text markers_differ (.head _)
  have hend := file.countMatches_text markers_differ (.tail _ (.head _))
  have hfindBegin := file.find_opening
  have hfindEnd := file.find_closing markers_differ
  rw [symbols_beginTag] at hbegin hfindBegin
  rw [symbols_endTag] at hend hfindEnd
  have hlt : file.before.length <
      file.before.length + (beginTag.symbols.length + file.inner.length) := by
    have hpos := List.length_pos_iff.mpr beginTag.symbols_ne_nil
    omega
  have hblockEnd : file.before.length + (beginTag.symbols.length + file.inner.length) +
      endMarker.length = (file.before ++ file.block).length := by
    rw [← symbols_endTag, Sectioned.block, enclose]
    simp only [List.length_append]
    omega
  have htext : file.text = (file.before ++ file.block) ++ file.after := by
    rw [Sectioned.text, List.append_assoc]
  unfold plan
  rw [hbegin, hend, if_neg (by omega), hfindBegin, hfindEnd, planFound, if_pos hlt, regenerate,
    hblockEnd, htext, List.take_left, List.drop_left, List.drop_left, List.append_assoc,
    List.take_left]

theorem plan_generated {file : Managed} (hfile : Generated file) : plan req file.text =
      if embeddedContentHash file.block = some req.contentHash then .unchanged
      else .write (file.before ++ (req.block ++ file.after)) :=
  (plan_sectioned file).trans (if_neg (not_not.mpr hfile))

theorem plan_foreign {file : Managed} (hfile : ¬ Generated file) :
    plan req file.text = .skip (foreignMarkersReason req.path) :=
  (plan_sectioned file).trans (if_pos hfile)

theorem accepted_cases (haccepted : ∀ reason, plan req existing ≠ .skip reason) :
    Free markers existing ∧ plan req existing = .write (appendBlock req existing) ∨
      ∃ file : Managed, file.text = existing ∧ Generated file := by
  by_cases hcount : 1 < countMatches beginMarker existing ∨ 1 < countMatches endMarker existing
  · exact absurd (if_pos hcount) (haccepted _)
  · have hplan : plan req existing =
        planFound req existing (find beginMarker existing) (find endMarker existing) :=
      if_neg hcount
    cases hbegin : find beginMarker existing with
    | none =>
      cases hend : find endMarker existing with
      | none =>
        refine .inl ⟨free_pair ?_ ?_, by rw [hplan, hbegin, hend]; rfl⟩
        · rw [symbols_beginTag]
          exact find_eq_none_iff.mp hbegin
        · rw [symbols_endTag]
          exact find_eq_none_iff.mp hend
      | some endIdx =>
        exact absurd (by rw [hplan, hbegin, hend]; rfl) (haccepted (corruptedReason req.path))
    | some beginIdx =>
      cases hend : find endMarker existing with
      | none =>
        exact absurd (by rw [hplan, hbegin, hend]; rfl) (haccepted (corruptedReason req.path))
      | some endIdx =>
        rw [hbegin, hend] at hplan
        by_cases hlt : beginIdx < endIdx
        · have hatMost : ∀ tag ∈ markers, countMatches tag.symbols existing ≤ 1 := by
            intro tag htag
            rcases List.mem_cons.mp htag with rfl | htag
            · rw [symbols_beginTag]
              omega
            · rw [List.mem_singleton.mp htag, symbols_endTag]
              omega
          obtain ⟨file, rfl⟩ := Sectioned.exists_of_find markers_differ hatMost
            (symbols_beginTag ▸ hbegin) (symbols_endTag ▸ hend) hlt
          refine .inr ⟨file, rfl, ?_⟩
          by_contra hforeign
          exact absurd (plan_foreign hforeign) (haccepted _)
        · exact absurd (hplan.trans (if_neg hlt)) (haccepted _)

end Difflore.Export
