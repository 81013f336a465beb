import Difflore.Hook.PrivateRegions

/-! # Nested regions

Tags that are well nested form a tree. Stripping does not follow it: a region ends with the
first closing tag of its kind, also when that belongs to a region inside it.
-/

namespace Difflore.Hook

open Foundation Text

variable {fuel : Nat} {nested : Nested} {kind : RegionKind} {x y : Text}

/-! ## Well nested texts -/

def closings : List (Tag '<' '>') := RegionKind.all.map RegionKind.closing

def privateTags : List (Tag '<' '>') := openings ++ closings

theorem RegionKind.closing_mem (kind : RegionKind) : kind.closing ∈ privateTags :=
  List.mem_append_right _ (List.mem_map_of_mem kind.mem_all)

theorem RegionKind.closing_symbols_ne {other : RegionKind} (hne : other ≠ kind) :
    other.closing.symbols ≠ kind.closing.symbols := by
  cases kind <;> cases other <;> first | contradiction | decide

theorem RegionKind.opening_ne_closing (kind other : RegionKind) :
    kind.opening.symbols ≠ other.closing.symbols := by
  cases kind <;> cases other <;> decide

structure Piece where
  text : Text
  free : Free privateTags (toAsciiLowercase text)

structure ClosingTag where
  kind : RegionKind
  text : Text
  lower : toAsciiLowercase text = kind.closing.symbols

structure TagPair extends ClosingTag where
  opening : Text
  opening_lower : toAsciiLowercase opening = kind.opening.symbols

/-- A text with well nested tags: text up to the first region, the region, and what follows. -/
inductive Nested where
  | plain (piece : Piece)
  | region (before : Piece) (tags : TagPair) (content rest : Nested)

namespace Nested

def text : Nested → Text
  | plain piece => piece.text
  | region before tags content rest =>
    before.text ++ (tags.opening ++ (content.text ++ (tags.text ++ rest.text)))

def redacted : Nested → Text
  | plain piece => piece.text
  | region before _ _ rest => before.text ++ (privateRedaction ++ rest.redacted)

def HasKind (kind : RegionKind) : Nested → Prop
  | plain _ => False
  | region _ tags content rest => tags.kind = kind ∨ content.HasKind kind ∨ rest.HasKind kind

def NoneInOwn : Nested → Prop
  | plain _ => True
  | region _ tags content rest => ¬ content.HasKind tags.kind ∧ rest.NoneInOwn

end Nested

theorem Piece.isPublic (piece : Piece) : IsPublic piece.text :=
  fun tag htag => piece.free tag (List.mem_append_left _ htag)

theorem Piece.not_closing (piece : Piece) (kind : RegionKind) :
    ¬ kind.closing.symbols <:+: toAsciiLowercase piece.text :=
  piece.free kind.closing kind.closing_mem

theorem infix_around_tag {tag other : Tag '<' '>'} : tag.symbols <:+: x ++ (other.symbols ++ y) ↔
      tag.symbols <:+: x ∨ tag.symbols <:+: other.symbols ∨ tag.symbols <:+: y := by
  rw [(tag.cleanCut_symbols_append other).infix_append_iff,
    (tag.cleanCut_symbols other).infix_append_iff]

theorem Nested.infix_closing (hoccurs : kind.closing.symbols <:+: toAsciiLowercase nested.text) :
    nested.HasKind kind := by
  induction nested with
  | plain piece => exact piece.not_closing kind hoccurs
  | region before tags content rest ihcontent ihrest =>
    simp only [text, toAsciiLowercase_append, tags.opening_lower, tags.lower] at hoccurs
    rcases infix_around_tag.mp hoccurs with hin | hin | hin
    · exact absurd hin (before.not_closing kind)
    · exact absurd hin
        (kind.closing.not_infix_symbols (RegionKind.opening_ne_closing tags.kind kind).symm)
    · rcases infix_around_tag.mp hin with hin | hin | hin
      · exact .inr (.inl (ihcontent hin))
      · left
        by_contra hne
        exact kind.closing.not_infix_symbols (RegionKind.closing_symbols_ne (Ne.symm hne)) hin
      · exact .inr (.inr (ihrest hin))

theorem fence_privateRedaction : Fence privateTags (toAsciiLowercase privateRedaction) := by
  decide

theorem Nested.free_redacted (nested : Nested) :
    Free privateTags (toAsciiLowercase nested.redacted) := by
  induction nested with
  | plain piece => exact piece.free
  | region before tags content rest _ ihrest =>
    simp only [redacted, toAsciiLowercase_append]
    exact fence_privateRedaction.free_iff.mpr ⟨before.free, ihrest⟩

/-- The region as a round of the scan sees it: its content ends with the first closing tag. -/
def TagPair.segment (tags : TagPair) (before : Piece) (content : Text) (closing : ClosingTag)
    (hkind : closing.kind = tags.kind)
    (hclosed : ¬ tags.kind.closing.symbols <:+: toAsciiLowercase content) : Segment where
  before := before.text
  kind := tags.kind
  opening := tags.opening
  content
  closing := closing.text
  before_public := before.isPublic
  opening_eq := tags.opening_lower
  closing_eq := hkind ▸ closing.lower
  content_closed := hclosed

theorem stripPrivateFrom_region (before : Piece) (tags : TagPair) {content : Nested}
    (hown : ¬ content.HasKind tags.kind) (rest : Text) (fuel : Nat) :
    stripPrivateFrom (fuel + 1)
        (before.text ++ (tags.opening ++ (content.text ++ (tags.text ++ rest)))) =
      before.text ++ (privateRedaction ++ stripPrivateFrom fuel rest) := by
  have hround := stripPrivateFrom_segment
    (tags.segment before content.text tags.toClosingTag rfl (mt Nested.infix_closing hown))
    rest fuel
  simpa only [Segment.render, TagPair.segment, List.append_assoc] using hround

theorem TagPair.opening_pos (tags : TagPair) : 0 < tags.opening.length := by
  rw [← length_toAsciiLowercase, tags.opening_lower]
  exact List.length_pos_of_ne_nil tags.kind.opening.symbols_ne_nil

theorem Nested.strip_of_noneInOwn (hown : nested.NoneInOwn) (hfuel : nested.text.length ≤ fuel) :
    stripPrivateFrom fuel nested.text = nested.redacted := by
  induction nested generalizing fuel with
  | plain piece =>
    cases fuel with
    | zero => rfl
    | succ fuel =>
      rw [text, stripPrivateFrom, nextPrivateOpenTag_of_public piece.isPublic]
      rfl
  | region before tags content rest _ ihrest =>
    simp only [text, List.length_append] at hfuel
    have hpos := tags.opening_pos
    cases fuel with
    | zero => omega
    | succ fuel =>
      rw [text, stripPrivateFrom_region before tags hown.1, ihrest hown.2 (by omega)]
      rfl

theorem candidates_shift (hx : Free openings x)
    (hcut : ∀ tag ∈ openings, CleanCut tag.symbols x y) :
    (privateTagPairs.filterMap fun (opening, closing) =>
      (find opening (x ++ y)).map fun start => (start, opening, closing)) =
      (privateTagPairs.filterMap fun (opening, closing) =>
        (find opening y).map fun start => (start, opening, closing)).map
          fun found => (x.length + found.1, found.2) := by
  rw [List.map_filterMap, privateTagPairs_eq]
  apply List.filterMap_congr
  intro pair hpair
  obtain ⟨kind, _, rfl⟩ := List.mem_map.mp hpair
  have hmem : kind.opening ∈ openings := List.mem_map_of_mem kind.mem_all
  dsimp only
  rw [find_append (hcut _ hmem) (hx _ hmem), Option.map_map, Option.map_map]
  rfl

theorem earliest_shift (n : Nat) (candidates : List (Nat × Text × Text))
    (best : Option (Nat × Text × Text)) :
    (candidates.map fun found => (n + found.1, found.2)).foldl
      (fun best candidate => match best with
        | none => some candidate
        | some found => if candidate.1 < found.1 then some candidate else some found)
      (best.map fun found => (n + found.1, found.2)) =
    (candidates.foldl
      (fun best candidate => match best with
        | none => some candidate
        | some found => if candidate.1 < found.1 then some candidate else some found)
      best).map fun found => (n + found.1, found.2) := by
  induction candidates generalizing best with
  | nil => rfl
  | cons candidate rest ih =>
    rw [List.map_cons, List.foldl_cons, List.foldl_cons, ← ih]
    congr 1
    cases best with
    | none => rfl
    | some found =>
      by_cases hless : candidate.1 < found.1
      · simp [hless]
      · simp [hless]

theorem nextPrivateOpenTag_shift (hx : Free openings x)
    (hcut : ∀ tag ∈ openings, CleanCut tag.symbols x y) :
    nextPrivateOpenTag (x ++ y) =
      (nextPrivateOpenTag y).map fun found => (x.length + found.1, found.2) := by
  rw [nextPrivateOpenTag, candidates_shift hx hcut]
  exact earliest_shift _ _ none

theorem stripPrivateFrom_append (hx : IsPublic x) (hcut : ∀ tag ∈ openings,
      CleanCut tag.symbols (toAsciiLowercase x) (toAsciiLowercase y)) (fuel : Nat) :
    stripPrivateFrom fuel (x ++ y) = x ++ stripPrivateFrom fuel y := by
  cases fuel with
  | zero => rfl
  | succ fuel =>
    rw [stripPrivateFrom, stripPrivateFrom, toAsciiLowercase_append,
      nextPrivateOpenTag_shift hx hcut, length_toAsciiLowercase]
    cases nextPrivateOpenTag (toAsciiLowercase y) with
    | none => rfl
    | some found =>
      obtain ⟨start, opening, closing⟩ := found
      simp only [Option.map_some, List.take_length_add_append, Nat.add_assoc,
        List.drop_length_add_append, List.append_assoc]

/-! ## A region in one of its kind -/

inductive Dangling : Text → Prop where
  | last (nested : Nested) : Dangling nested.text
  | closed (nested : Nested) (closing : ClosingTag) {rest : Text} (hrest : Dangling rest) :
      Dangling (nested.text ++ (closing.text ++ rest))

theorem Dangling.append {text : Text} (hdangling : Dangling text) (closing : ClosingTag)
    {rest : Text} (hrest : Dangling rest) : Dangling (text ++ (closing.text ++ rest)) := by
  induction hdangling with
  | last nested => exact .closed nested closing hrest
  | closed nested inner _ ih =>
    rw [List.append_assoc, List.append_assoc]
    exact .closed nested inner ih

theorem Nested.exists_closing (hkind : nested.HasKind kind) :
    ∃ (content : Text) (closing : ClosingTag) (rest : Text), closing.kind = kind ∧
      ¬ kind.closing.symbols <:+: toAsciiLowercase content ∧ Dangling rest ∧
      nested.text = content ++ (closing.text ++ rest) := by
  induction nested with
  | plain => contradiction
  | region before tags content rest ihcontent ihrest =>
    have hopening : ¬ kind.closing.symbols <:+: tags.kind.opening.symbols :=
      kind.closing.not_infix_symbols (RegionKind.opening_ne_closing tags.kind kind).symm
    -- What stands in front of the region's content has no closing tag.
    have hfront : ∀ {inner : Text}, ¬ kind.closing.symbols <:+: toAsciiLowercase inner →
        ¬ kind.closing.symbols <:+:
          toAsciiLowercase (before.text ++ (tags.opening ++ inner)) := by
      intro inner hinner hin
      rw [toAsciiLowercase_append, toAsciiLowercase_append, tags.opening_lower] at hin
      rcases infix_around_tag.mp hin with hin | hin | hin
      · exact before.not_closing kind hin
      · exact hopening hin
      · exact hinner hin
    by_cases hcontent : content.HasKind kind
    · obtain ⟨inner, closing, more, hclosing, hinner, hmore, htext⟩ := ihcontent hcontent
      refine ⟨before.text ++ (tags.opening ++ inner), closing, more ++ (tags.text ++ rest.text),
        hclosing, hfront hinner, hmore.append tags.toClosingTag (.last rest), ?_⟩
      simp [text, htext]
    · have hclosed : ¬ kind.closing.symbols <:+: toAsciiLowercase content.text :=
        mt infix_closing hcontent
      by_cases hown : tags.kind = kind
      · refine ⟨before.text ++ (tags.opening ++ content.text), tags.toClosingTag, rest.text,
          hown, hfront hclosed, .last rest, ?_⟩
        simp [text]
      · have hrest : rest.HasKind kind := by
          rcases hkind with hown' | hcontent' | hrest
          · exact absurd hown' hown
          · exact absurd hcontent' hcontent
          · exact hrest
        obtain ⟨inner, closing, more, hclosing, hinner, hmore, htext⟩ := ihrest hrest
        refine ⟨before.text ++ (tags.opening ++ (content.text ++ (tags.text ++ inner))), closing,
          more, hclosing, hfront ?_, hmore, ?_⟩
        · intro hin
          rw [toAsciiLowercase_append, toAsciiLowercase_append, tags.lower] at hin
          rcases infix_around_tag.mp hin with hin | hin | hin
          · exact hclosed hin
          · exact kind.closing.not_infix_symbols
              (RegionKind.closing_symbols_ne (Ne.symm hown)) hin
          · exact hinner hin
        · simp [text, htext]

def ShowsTag (text : Text) : Prop :=
  ∃ kind : RegionKind, kind.closing.symbols <:+: toAsciiLowercase text

theorem ShowsTag.append {text : Text} (hshows : ShowsTag text) (before : Text) :
    ShowsTag (before ++ text) := by
  obtain ⟨kind, hin⟩ := hshows
  refine ⟨kind, ?_⟩
  rw [toAsciiLowercase_append]
  exact hin.trans (List.suffix_append _ _).isInfix

theorem ClosingTag.isPublic_append (closing : ClosingTag) (piece : Piece) :
    IsPublic (piece.text ++ closing.text) := by
  intro tag htag
  obtain ⟨kind, _, rfl⟩ := List.mem_map.mp htag
  rw [toAsciiLowercase_append, closing.lower, ← List.append_nil closing.kind.closing.symbols]
  intro hin
  rcases infix_around_tag.mp hin with hin | hin | hin
  · exact piece.isPublic _ htag hin
  · exact kind.opening.not_infix_symbols (RegionKind.opening_ne_closing kind _) hin
  · exact kind.opening.symbols_ne_nil (List.eq_nil_of_infix_nil hin)

/-- Every dangling text shows a tag when that many rounds are left. -/
def ShowsDangling (fuel : Nat) : Prop :=
  ∀ (nested : Nested) (closing : ClosingTag) (rest : Text), Dangling rest →
    (nested.text ++ (closing.text ++ rest)).length ≤ fuel →
      ShowsTag (stripPrivateFrom fuel (nested.text ++ (closing.text ++ rest)))

theorem showsTag_of_round (hshows : ShowsDangling fuel) (before : Piece) {tags : TagPair}
    {content : Nested} (hown : content.HasKind tags.kind) {rest : Text} (hrest : Dangling rest)
    (hfuel : (content.text ++ (tags.text ++ rest)).length ≤ fuel) :
    ShowsTag (stripPrivateFrom (fuel + 1)
      (before.text ++ (tags.opening ++ (content.text ++ (tags.text ++ rest))))) := by
  obtain ⟨inner, first, more, hfirst, hinner, hmore, htext⟩ := Nested.exists_closing hown
  have hround := stripPrivateFrom_segment (tags.segment before inner first hfirst hinner)
    (more ++ (tags.text ++ rest)) fuel
  simp only [Segment.render, TagPair.segment, List.append_assoc] at hround
  simp only [htext, List.length_append] at hfuel
  rw [htext, List.append_assoc, List.append_assoc, hround]
  apply ShowsTag.append
  apply ShowsTag.append
  cases hmore with
  | last nested =>
    apply hshows nested tags.toClosingTag rest hrest
    simp only [List.length_append]
    omega
  | closed nested second hlast =>
    rw [List.append_assoc, List.append_assoc]
    apply hshows nested second _ (hlast.append tags.toClosingTag hrest)
    simp only [List.length_append] at hfuel ⊢
    omega

theorem showsDangling (fuel : Nat) : ShowsDangling fuel := by
  -- A round leaves a shorter text of the same form.
  induction fuel with
  | zero =>
    intro nested closing rest _ hfuel
    have hclosing := congrArg List.length closing.lower
    have hpos := List.length_pos_of_ne_nil closing.kind.closing.symbols_ne_nil
    simp only [length_toAsciiLowercase, List.length_append] at hclosing hfuel
    omega
  | succ fuel ih =>
    intro nested closing rest hrest hfuel
    cases nested with
    | plain piece =>
      have hcut : ∀ tag ∈ openings, CleanCut tag.symbols
          (toAsciiLowercase (piece.text ++ closing.text)) (toAsciiLowercase rest) := by
        intro tag _
        rw [toAsciiLowercase_append, closing.lower]
        exact tag.cleanCut_append_symbols _
      rw [Nested.text, ← List.append_assoc,
        stripPrivateFrom_append (closing.isPublic_append piece) hcut]
      refine ⟨closing.kind, ?_⟩
      rw [toAsciiLowercase_append, toAsciiLowercase_append, closing.lower]
      exact ⟨_, _, rfl⟩
    | region before tags content after =>
      have hpos := tags.opening_pos
      simp only [Nested.text, List.length_append] at hfuel
      simp only [Nested.text, List.append_assoc]
      by_cases hown : content.HasKind tags.kind
      · apply showsTag_of_round ih before hown (.closed after closing hrest)
        simp only [List.length_append]
        omega
      · rw [stripPrivateFrom_region before tags hown]
        apply ShowsTag.append
        apply ShowsTag.append
        apply ih after closing rest hrest
        simp only [List.length_append]
        omega

theorem Nested.showsTag_of_inOwn (hown : ¬ nested.NoneInOwn) (hfuel : nested.text.length ≤ fuel) :
    ShowsTag (stripPrivateFrom fuel nested.text) := by
  induction nested generalizing fuel with
  | plain => exact absurd trivial hown
  | region before tags content rest _ ihrest =>
    have hpos := tags.opening_pos
    simp only [text, List.length_append] at hfuel
    obtain ⟨fuel, rfl⟩ : ∃ n, fuel = n + 1 := ⟨fuel - 1, by omega⟩
    by_cases hcontent : content.HasKind tags.kind
    · apply showsTag_of_round (showsDangling fuel) before hcontent (.last rest)
      simp only [List.length_append]
      omega
    · rw [text, stripPrivateFrom_region before tags hcontent]
      apply ShowsTag.append
      apply ShowsTag.append
      exact ihrest (fun hrest => hown ⟨hcontent, hrest⟩) (by omega)

/-- Stripping puts a marker for each outermost region, and keeps the rest in order, if and only
if no region outermost in the text has one of its own kind inside. -/
theorem stripPrivateTaggedRegions_nested_iff (nested : Nested) :
    stripPrivateTaggedRegions nested.text = nested.redacted ↔ nested.NoneInOwn := by
  refine ⟨fun hstrip => ?_, fun hown => nested.strip_of_noneInOwn hown le_rfl⟩
  by_contra hown
  obtain ⟨kind, hin⟩ := nested.showsTag_of_inOwn hown le_rfl
  rw [← stripPrivateTaggedRegions, hstrip] at hin
  exact nested.free_redacted kind.closing kind.closing_mem hin

def letter (c : Char) (hc : '<' ∉ toAsciiLowercase [c]) : Piece := ⟨[c], free_of_left_not_mem hc⟩

theorem lower_closePrivate :
    toAsciiLowercase "</private>" = RegionKind.priv.closing.symbols := by decide

theorem lower_openPrivate :
    toAsciiLowercase "<private>" = RegionKind.priv.opening.symbols := by decide

def privateTagPair : TagPair where
  kind := .priv
  text := "</private>"
  lower := lower_closePrivate
  opening := "<private>"
  opening_lower := lower_openPrivate

def privateInPrivate : Nested := .region ⟨[], free_nil⟩ privateTagPair
    (.region (letter 'a' (by decide)) privateTagPair (.plain (letter 'b' (by decide)))
      (.plain (letter 'c' (by decide))))
    (.plain ⟨[], free_nil⟩)

/-- The letter behind the inner region comes out. -/
theorem inner_close_ends_region :
    stripPrivateTaggedRegions privateInPrivate.text = privateRedaction ++ "c</private>" ∧
      stripPrivateTaggedRegions privateInPrivate.text ≠ privateInPrivate.redacted := by
  decide

end Difflore.Hook
