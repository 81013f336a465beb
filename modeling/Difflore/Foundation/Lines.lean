import Difflore.Foundation.Text

/-! # Lines of a text

Reading splits at line feeds and drops one carriage return in front of each.
Writing ends every line with a line feed. Read back, written lines are the same
up to that carriage return.
-/

namespace Difflore.Foundation.Text

def stripCr (line : Text) : Text :=
  if line.getLast? = some '\r' then line.dropLast else line

theorem stripCr_concat (line : Text) : stripCr (line ++ ['\r']) = line := by
  simp [stripCr]

theorem stripCr_of_getLast? {line : Text} (hline : line.getLast? ≠ some '\r') :
    stripCr line = line := if_neg hline

theorem stripCr_cases (line : Text) : line = stripCr line ∨ line = stripCr line ++ ['\r'] := by
  unfold stripCr
  split
  next hcr =>
    obtain ⟨start, rfl⟩ := List.getLast?_eq_some_iff.mp hcr
    exact .inr (by simp)
  next => exact .inl rfl

theorem trim_stripCr (line : Text) : trim (stripCr line) = trim line := by
  rcases stripCr_cases line with heq | heq
  · rw [← heq]
  · conv_rhs => rw [heq]
    exact (trim_concat_of_isWhitespace (by decide)).symm

theorem stripCr_append {start : Text} (hstart : start.getLast? ≠ some '\r') (rest : Text) :
    stripCr (start ++ rest) = start ++ stripCr rest := by
  rcases List.eq_nil_or_concat rest with rfl | ⟨init, c, rfl⟩
  · rw [List.append_nil, stripCr_of_getLast? hstart]
    exact (List.append_nil _).symm
  · rw [List.concat_eq_append]
    by_cases hc : c = '\r'
    · subst hc
      rw [stripCr_concat, ← List.append_assoc, stripCr_concat]
    · rw [stripCr_of_getLast? (by simpa using hc), stripCr_of_getLast? (by simpa using hc)]

theorem prefix_stripCr_iff {start line : Text} (hstart : start.getLast? ≠ some '\r') :
    start <+: stripCr line ↔ start <+: line := by
  rcases stripCr_cases line with heq | heq
  · rw [← heq]
  · conv_rhs => rw [heq]
    rw [List.prefix_concat_iff, or_iff_right]
    rintro rfl
    exact hstart List.getLast?_concat

theorem newline_not_mem_stripCr {line : Text} (hline : '\n' ∉ line) : '\n' ∉ stripCr line := by
  unfold stripCr
  split
  next => exact fun hmem => hline (List.mem_of_mem_dropLast hmem)
  next => exact hline

/-- The lines of a text; `current` is the reverse of the line being read. A last
line without a line feed keeps its carriage return. -/
def linesFrom (current : Text) : Text → List Text
  | [] => if current = [] then [] else [current.reverse]
  | c :: rest =>
    if c = '\n' then stripCr current.reverse :: linesFrom [] rest
    else linesFrom (c :: current) rest

def lines (s : Text) : List Text := linesFrom [] s

def unlines (ls : List Text) : Text := ls.flatMap (· ++ ['\n'])

theorem linesFrom_append {line : Text} (hline : '\n' ∉ line) (rest current : Text) :
    linesFrom current (line ++ '\n' :: rest) = stripCr (current.reverse ++ line) :: lines rest := by
  induction line generalizing current with
  | nil => simp [linesFrom, lines]
  | cons c line ih =>
    have hc : c ≠ '\n' := fun heq => hline (heq ▸ (.head _))
    have hrest : '\n' ∉ line := fun hmem => hline (.tail _ hmem)
    rw [List.cons_append, linesFrom, if_neg hc, ih hrest]
    simp

theorem lines_unlines {ls : List Text} (hls : ∀ line ∈ ls, '\n' ∉ line) :
    lines (unlines ls) = ls.map stripCr := by
  induction ls with
  | nil => rfl
  | cons line rest ih =>
    have hrest : ∀ line ∈ rest, '\n' ∉ line :=
      fun line hmem => hls line (.tail _ hmem)
    have hread := linesFrom_append (hls line (.head _)) (unlines rest) []
    unfold unlines at hread ⊢
    rw [List.flatMap_cons, List.append_assoc, List.singleton_append, lines, hread,
      List.map_cons, ← ih hrest]
    rfl

theorem unlines_append (ls rest : List Text) : unlines (ls ++ rest) = unlines ls ++ unlines rest :=
  List.flatMap_append

theorem unlines_flatMap {α : Type} (items : List α) (f : α → List Text) :
    (items.flatMap fun item => unlines (f item)) = unlines (items.flatMap f) := by
  unfold unlines
  rw [List.flatMap_assoc]

theorem unlines_injective {ls rest : List Text} (hls : ∀ line ∈ ls, '\n' ∉ line)
    (hrest : ∀ line ∈ rest, '\n' ∉ line) (heq : unlines ls = unlines rest) : ls = rest := by
  induction ls generalizing rest with
  | nil =>
    cases rest with
    | nil => rfl
    | cons other others => simp [unlines] at heq
  | cons line tail ih =>
    cases rest with
    | nil => simp [unlines] at heq
    | cons other others =>
      have hline := hls line (.head _)
      have hother := hrest other (.head _)
      unfold unlines at heq
      rw [List.flatMap_cons, List.flatMap_cons, List.append_assoc, List.append_assoc,
        List.singleton_append, List.singleton_append] at heq
      have hcut := congrArg (List.takeWhile (· ≠ '\n')) heq
      rw [List.takeWhile_append_of_pos
          (by simpa using fun c hc => ne_of_mem_of_not_mem hc hline),
        List.takeWhile_append_of_pos
          (by simpa using fun c hc => ne_of_mem_of_not_mem hc hother)]
        at hcut
      simp only [ne_eq, not_true, decide_false, Bool.false_eq_true, not_false_eq_true,
        List.takeWhile_cons_of_neg, List.append_nil] at hcut
      subst hcut
      have htail := List.cons.inj (List.append_cancel_left heq)
      rw [ih (fun line hmem => hls line (.tail _ hmem))
        (fun line hmem => hrest line (.tail _ hmem)) htail.2]

theorem newline_not_mem_lines {s line : Text} (hline : line ∈ lines s) : '\n' ∉ line := by
  have hfrom : ∀ current : Text, '\n' ∉ current → ∀ line ∈ linesFrom current s, '\n' ∉ line := by
    clear hline
    induction s with
    | nil =>
      intro current hcurrent line hmem
      unfold linesFrom at hmem
      split at hmem
      next => contradiction
      next =>
        rw [List.mem_singleton] at hmem
        subst hmem
        simpa using hcurrent
    | cons c rest ih =>
      intro current hcurrent line hmem
      unfold linesFrom at hmem
      split at hmem
      next =>
        rcases List.mem_cons.mp hmem with rfl | hmem
        · exact newline_not_mem_stripCr (by simpa using hcurrent)
        · exact ih [] (by simp) line hmem
      next hc =>
        exact ih (c :: current) (by simp [Ne.symm hc, hcurrent]) line hmem
  exact hfrom [] (by simp) line hline

/-! ## Lines with their line feeds -/

/-- `split_inclusive('\n')`; `current` is the reverse of the line being read. -/
def splitInclusiveFrom (current : Text) : Text → List Text
  | [] => if current = [] then [] else [current.reverse]
  | c :: rest =>
    if c = '\n' then (c :: current).reverse :: splitInclusiveFrom [] rest
    else splitInclusiveFrom (c :: current) rest

def splitInclusive (s : Text) : List Text := splitInclusiveFrom [] s

/-- A line without its line feed and the carriage return in front of that. -/
def stripEol (line : Text) : Text :=
  if line.getLast? = some '\n' then stripCr line.dropLast else line

def Ended (line : Text) : Prop := ∃ body : Text, '\n' ∉ body ∧ line = body ++ ['\n']

/-- The lines of a text with their line feeds. Only the last may lack one. -/
inductive Inclusive : List Text → Prop
  | nil : Inclusive []
  | last {line : Text} (hne : line ≠ []) (hline : '\n' ∉ line) : Inclusive [line]
  | cons {line : Text} {rest : List Text} (hended : Ended line) (htail : Inclusive rest) :
      Inclusive (line :: rest)

theorem stripEol_ended (body : Text) : stripEol (body ++ ['\n']) = stripCr body := by
  simp [stripEol]

theorem stripEol_of_newline_not_mem {line : Text} (hline : '\n' ∉ line) : stripEol line = line :=
  if_neg fun hlast => hline (List.mem_of_getLast? hlast)

theorem linesFrom_eq_map_splitInclusiveFrom (s : Text) {current : Text}
    (hcurrent : '\n' ∉ current) :
    linesFrom current s = (splitInclusiveFrom current s).map stripEol := by
  induction s generalizing current with
  | nil =>
    unfold linesFrom splitInclusiveFrom
    split
    next => rfl
    next =>
      rw [List.map_singleton, stripEol_of_newline_not_mem]
      rwa [List.mem_reverse]
  | cons c rest ih =>
    unfold linesFrom splitInclusiveFrom
    split
    next hc =>
      rw [List.map_cons, hc, List.reverse_cons, stripEol_ended, ih List.not_mem_nil]
    next hc =>
      apply ih
      rw [List.mem_cons, not_or]
      exact ⟨Ne.symm hc, hcurrent⟩

theorem lines_eq_map_splitInclusive (s : Text) : lines s = (splitInclusive s).map stripEol :=
  linesFrom_eq_map_splitInclusiveFrom s List.not_mem_nil

theorem flatten_splitInclusiveFrom (s current : Text) :
    (splitInclusiveFrom current s).flatten = current.reverse ++ s := by
  induction s generalizing current with
  | nil =>
    unfold splitInclusiveFrom
    split
    next hcurrent => simp [hcurrent]
    next => simp
  | cons c rest ih =>
    unfold splitInclusiveFrom
    split
    next hc => simp [ih]
    next => simp [ih]

@[simp] theorem flatten_splitInclusive (s : Text) : (splitInclusive s).flatten = s :=
  flatten_splitInclusiveFrom s []

theorem inclusive_splitInclusiveFrom (s : Text) {current : Text} (hcurrent : '\n' ∉ current) :
    Inclusive (splitInclusiveFrom current s) := by
  induction s generalizing current with
  | nil =>
    unfold splitInclusiveFrom
    split
    next => exact .nil
    next hne => exact .last (by simpa using hne) (by simpa using hcurrent)
  | cons c rest ih =>
    unfold splitInclusiveFrom
    split
    next hc =>
      refine .cons ⟨current.reverse, by simpa using hcurrent, ?_⟩ (ih List.not_mem_nil)
      rw [hc, List.reverse_cons]
    next hc =>
      apply ih
      rw [List.mem_cons, not_or]
      exact ⟨Ne.symm hc, hcurrent⟩

theorem inclusive_splitInclusive (s : Text) : Inclusive (splitInclusive s) :=
  inclusive_splitInclusiveFrom s List.not_mem_nil

theorem splitInclusiveFrom_append {body : Text} (hbody : '\n' ∉ body) (current rest : Text) :
    splitInclusiveFrom current (body ++ '\n' :: rest) =
      (current.reverse ++ (body ++ ['\n'])) :: splitInclusive rest := by
  induction body generalizing current with
  | nil => simp [splitInclusiveFrom, splitInclusive]
  | cons c body ih =>
    rw [List.mem_cons, not_or] at hbody
    rw [List.cons_append, splitInclusiveFrom, if_neg (Ne.symm hbody.1), ih hbody.2]
    simp

theorem splitInclusive_append {line : Text} (hline : Ended line) (rest : Text) :
    splitInclusive (line ++ rest) = line :: splitInclusive rest := by
  obtain ⟨body, hbody, rfl⟩ := hline
  rw [List.append_assoc, List.singleton_append]
  exact splitInclusiveFrom_append hbody [] rest

theorem splitInclusiveFrom_of_newline_not_mem {line : Text} (hline : '\n' ∉ line)
    (current : Text) (hne : current ++ line ≠ []) :
    splitInclusiveFrom current line = [current.reverse ++ line] := by
  induction line generalizing current with
  | nil =>
    rw [List.append_nil] at hne
    simp [splitInclusiveFrom, hne]
  | cons c line ih =>
    rw [List.mem_cons, not_or] at hline
    rw [splitInclusiveFrom, if_neg (Ne.symm hline.1), ih hline.2 _ (by simp)]
    simp

namespace Inclusive

variable {ls rest : List Text} {line : Text}

theorem splitInclusive_flatten (hls : Inclusive ls) : splitInclusive ls.flatten = ls := by
  induction hls with
  | nil => rfl
  | last hne hline =>
    rw [List.flatten_singleton]
    exact splitInclusiveFrom_of_newline_not_mem hline [] hne
  | cons hended _ ih => rw [List.flatten_cons, splitInclusive_append hended, ih]

theorem append (hls : ∀ line ∈ ls, Ended line) (hrest : Inclusive rest) :
    Inclusive (ls ++ rest) := by
  induction ls with
  | nil => exact hrest
  | cons line ls ih =>
    exact .cons (hls line (.head _))
      (ih fun other hother => hls other (.tail _ hother))

theorem tail (hls : Inclusive (line :: rest)) : Inclusive rest := by
  cases hls with
  | last => exact .nil
  | cons _ htail => exact htail

theorem of_append (hls : Inclusive (ls ++ rest)) : Inclusive rest := by
  induction ls with
  | nil => exact hls
  | cons line ls ih => exact ih hls.tail

theorem ended_of_append (hls : Inclusive (ls ++ line :: rest)) : ∀ other ∈ ls, Ended other := by
  induction ls with
  | nil => simp
  | cons first ls ih =>
    intro other hother
    rcases List.mem_cons.mp hother with rfl | hmem
    · generalize hfollowing : ls ++ line :: rest = following at hls
      rw [List.cons_append, hfollowing] at hls
      cases hls with
      | last => simp at hfollowing
      | cons hended _ => exact hended
    · exact ih hls.tail other hmem

theorem sublist {left : List Text} (hls : Inclusive ls) (hleft : left.Sublist ls) :
    Inclusive left := by
  induction hleft with
  | slnil => exact .nil
  | cons _ _ ih => exact ih hls.tail
  | @cons_cons left ls line hleft ih =>
    cases hls with
    | last hne hline =>
      rw [List.sublist_nil.mp hleft]
      exact .last hne hline
    | cons hended htail => exact .cons hended (ih htail)

end Inclusive

/-! ## Line ends of a text

Joining the lines of a text turns every CRLF into LF. A text that has no CRLF stays as it
is, and the ends of a text that has no white space there stay where they are.
-/

def crlf : Text := ['\r', '\n']

theorem crlfToLf_cons {c : Char} {rest : Text} (hc : ¬ (c = '\r' ∧ rest.head? = some '\n')) :
    crlfToLf (c :: rest) = c :: crlfToLf rest := by
  rw [crlfToLf]
  rintro tail rfl rfl
  exact hc ⟨rfl, rfl⟩

theorem crlfToLf_eq_self_iff (s : Text) : crlfToLf s = s ↔ ¬ crlf <:+: s := by
  fun_induction crlfToLf s with
  | case1 rest ih =>
    refine iff_of_false (by simp) (not_not.mpr ?_)
    exact ⟨[], rest, rfl⟩
  | case2 c rest hne ih =>
    have hstart : ¬ crlf <+: c :: rest := by
      rintro ⟨tail, htail⟩
      obtain ⟨rfl, rfl⟩ := List.cons.inj htail
      exact hne tail rfl rfl
    rw [List.infix_cons_iff, not_or, ← ih, List.cons.injEq]
    simp [hstart]
  | case3 => simp [crlf]

theorem getLast?_crlfToLf (s : Text) : (crlfToLf s).getLast? = s.getLast? := by
  fun_induction crlfToLf s with
  | case1 rest ih =>
    cases rest with
    | nil => rfl
    | cons c tail => simp [List.getLast?_cons, ih]
  | case2 c rest _ ih => rw [List.getLast?_cons, List.getLast?_cons, ih]
  | case3 => rfl

theorem head?_crlfToLf {s : Text} (hs : s.head? ≠ some '\r') : (crlfToLf s).head? = s.head? := by
  fun_cases crlfToLf s with
  | case1 rest => simp at hs
  | case2 c rest => rfl
  | case3 => rfl

theorem trim_crlfToLf (s : Text) : trim (crlfToLf (trim s)) = crlfToLf (trim s) := by
  have hcr : (trim s).head? ≠ some '\r' := by
    intro hhead
    have hspace := head_trim s '\r' hhead
    contradiction
  apply trim_of_ends
  · rw [head?_crlfToLf hcr]
    exact head_trim s
  · rw [getLast?_crlfToLf]
    exact getLast_trim s

theorem crlfToLf_of_newline_not_mem {line : Text} (hline : '\n' ∉ line) : crlfToLf line = line := by
  rw [crlfToLf_eq_self_iff]
  exact fun hcrlf => hline (hcrlf.subset (.tail _ (.head _)))

theorem stripCr_cons_cons (c d : Char) (tail : Text) :
    stripCr (c :: d :: tail) = c :: stripCr (d :: tail) := by
  unfold stripCr
  rw [List.getLast?_cons_cons, List.dropLast_cons_cons]
  split <;> rfl

theorem crlfToLf_append {line : Text} (hline : '\n' ∉ line) (rest : Text) :
    crlfToLf (line ++ '\n' :: rest) = stripCr line ++ '\n' :: crlfToLf rest := by
  induction line with
  | nil => simp [crlfToLf, stripCr]
  | cons c tail ih =>
    have htail : '\n' ∉ tail := fun hmem => hline (.tail _ hmem)
    cases tail with
    | nil =>
      by_cases hc : c = '\r'
      · subst hc
        simp [crlfToLf, stripCr]
      · rw [List.singleton_append, crlfToLf_cons (by simp [hc]), crlfToLf_cons (by simp)]
        simp [stripCr, hc]
    | cons d tail =>
      have hd : d ≠ '\n' := fun heq => htail (heq ▸ (.head _))
      rw [List.cons_append, crlfToLf_cons (by simp [hd]), ih htail, stripCr_cons_cons,
        List.cons_append]

theorem lines_ended_ne_nil (s : Text) : lines (s ++ ['\n']) ≠ [] := by
  by_cases hmem : '\n' ∈ s
  · obtain ⟨line, rest, rfl, hline⟩ := List.eq_append_cons_of_mem hmem
    rw [List.append_assoc, List.cons_append, lines, linesFrom_append hline]
    exact List.cons_ne_nil _ _
  · rw [lines, linesFrom_append hmem]
    exact List.cons_ne_nil _ _

theorem intercalate_lines {s : Text} (hs : s.getLast? ≠ some '\r') :
    ['\n'].intercalate (lines (s ++ ['\n'])) = crlfToLf s := by
  induction hlength : s.length using Nat.strong_induction_on generalizing s with
  | _ n ih =>
    by_cases hmem : '\n' ∈ s
    · obtain ⟨line, rest, rfl, hline⟩ := List.eq_append_cons_of_mem hmem
      have hrest : rest.getLast? ≠ some '\r' := by
        intro hcr
        apply hs
        rw [List.getLast?_append, List.getLast?_cons, hcr]
        rfl
      have hshorter : rest.length < n := by
        rw [← hlength, List.length_append, List.length_cons]
        omega
      rw [List.append_assoc, List.cons_append, lines, linesFrom_append hline, List.reverse_nil,
        List.nil_append, List.intercalate_cons_of_ne_nil (lines_ended_ne_nil rest),
        ih rest.length hshorter hrest rfl, crlfToLf_append hline, List.append_assoc,
        List.singleton_append]
    · have hlines := linesFrom_append hmem [] []
      rw [lines, hlines, lines, linesFrom, if_pos rfl, List.reverse_nil, List.nil_append,
        stripCr_of_getLast? hs, List.intercalate_singleton, crlfToLf_of_newline_not_mem hmem]

end Difflore.Foundation.Text
