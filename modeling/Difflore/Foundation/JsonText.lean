import Difflore.Foundation.Text

/-! # The grammar of JSON texts

Which texts are JSON values. What stands for a number or a literal is any run of letters, digits,
signs and points, so that every JSON text is one here. The brackets of a value close where a scan
that knows about strings sees its depth come back, and nowhere before.
-/

namespace Difflore.Foundation.JsonText

variable {c : Char} {floor : Int} {scan final : Scan} {s t : Text}

def isBlank (c : Char) : Bool := c = ' ' || c = '\t' || c = '\n' || c = '\r'

abbrev Blank (s : Text) : Prop := ∀ c ∈ s, isBlank c = true

def isScalar (c : Char) : Bool := c.isAlphanum || c = '+' || c = '-' || c = '.'

/-- The characters between the quotes of a string, of which no one is a control character. -/
inductive StringBody : Text → Prop
  | nil : StringBody []
  | plain {c : Char} {rest : Text} (hquote : c ≠ '"') (hbackslash : c ≠ '\\')
      (hcontrol : 32 ≤ c.toNat) (hrest : StringBody rest) : StringBody (c :: rest)
  | escape {c : Char} {rest : Text} (hcontrol : 32 ≤ c.toNat) (hrest : StringBody rest) :
      StringBody ('\\' :: c :: rest)

/-- A value, a value with blanks around it, a member of an object, its members, and the items of
an array. -/
inductive Form
  | value
  | element
  | member
  | members
  | items (count : Nat)

inductive Reads : Form → Text → Prop
  | scalar {s : Text} (hne : s ≠ []) (hs : ∀ c ∈ s, isScalar c = true) : Reads .value s
  | string {body : Text} (hbody : StringBody body) : Reads .value ('"' :: (body ++ ['"']))
  | emptyObject {body : Text} (hbody : Blank body) : Reads .value ('{' :: (body ++ ['}']))
  | object {body : Text} (hbody : Reads .members body) : Reads .value ('{' :: (body ++ ['}']))
  | emptyArray {body : Text} (hbody : Blank body) : Reads .value ('[' :: (body ++ [']']))
  | array {n : Nat} {body : Text} (hbody : Reads (.items n) body) :
      Reads .value ('[' :: (body ++ [']']))
  | element {before s after : Text} (hbefore : Blank before) (hs : Reads .value s)
      (hafter : Blank after) : Reads .element (before ++ (s ++ after))
  | member {before key after s : Text} (hbefore : Blank before) (hkey : StringBody key)
      (hafter : Blank after) (hs : Reads .element s) :
      Reads .member (before ++ (('"' :: (key ++ ['"'])) ++ (after ++ (':' :: s))))
  | lastMember {s : Text} (hs : Reads .member s) : Reads .members s
  | moreMembers {s rest : Text} (hs : Reads .member s) (hrest : Reads .members rest) :
      Reads .members (s ++ (',' :: rest))
  | lastItem {s : Text} (hs : Reads .element s) : Reads (.items 1) s
  | moreItems {n : Nat} {s rest : Text} (hs : Reads .element s) (hrest : Reads (.items n) rest) :
      Reads (.items (n + 1)) (s ++ (',' :: rest))

def IsObject (s : Text) : Prop :=
  ∃ body, (Blank body ∨ Reads .members body) ∧ s = '{' :: (body ++ ['}'])

inductive Bracket
  | brace
  | square
  deriving DecidableEq

def Bracket.opening : Bracket → Char
  | .brace => '{'
  | .square => '['

def Bracket.closing : Bracket → Char
  | .brace => '}'
  | .square => ']'

structure Scan where
  depth : Int
  inString : Bool
  escape : Bool

def Scan.at (depth : Int) : Scan := ⟨depth, false, false⟩

def Scan.within (depth : Int) : Scan := ⟨depth, true, false⟩

namespace Bracket

variable (kind : Bracket)

def step (scan : Scan) (c : Char) : Scan :=
  if scan.inString then
    if scan.escape then { scan with escape := false }
    else if c = '\\' then { scan with escape := true }
    else if c = '"' then { scan with inString := false }
    else scan
  else if c = '"' then { scan with inString := true }
  else if c = kind.opening then { scan with depth := scan.depth + 1 }
  else if c = kind.closing then { scan with depth := scan.depth - 1 }
  else scan

/-- A scan that stops below a floor and at a line feed inside a string. -/
def above (floor : Int) (scan : Scan) (c : Char) : Option Scan :=
  if (kind.step scan c).depth < floor || (scan.inString && c = '\n') then none
  else some (kind.step scan c)

def run (floor : Int) (scan : Scan) (s : Text) : Option Scan := s.foldlM (kind.above floor) scan

variable {kind}

theorem run_cons (floor : Int) (scan : Scan) (c : Char) (rest : Text) :
    kind.run floor scan (c :: rest) =
      (kind.above floor scan c).bind fun next => kind.run floor next rest := List.foldlM_cons

theorem run_append (floor : Int) (scan : Scan) (s t : Text) : kind.run floor scan (s ++ t) =
      (kind.run floor scan s).bind fun next => kind.run floor next t := List.foldlM_append

theorem above_eq_some {next : Scan} (habove : kind.above floor scan c = some next) :
    next = kind.step scan c ∧ floor ≤ next.depth ∧ ¬ (scan.inString = true ∧ c = '\n') := by
  rw [above] at habove
  split at habove
  · contradiction
  next hstays =>
    rw [Bool.or_eq_true, not_or, decide_eq_true_iff, Bool.and_eq_true, decide_eq_true_iff] at hstays
    rw [← Option.some.inj habove]
    exact ⟨rfl, Int.not_lt.mp hstays.1, hstays.2⟩

/-! ## Texts that keep the depth -/

/-- The text leaves the scan where it was, and never lets it go below. -/
def Level (kind : Bracket) (s : Text) : Prop :=
  ∀ floor depth, floor ≤ depth → kind.run floor (.at depth) s = some (.at depth)

theorem Level.append (hs : Level kind s) (ht : Level kind t) : Level kind (s ++ t) := by
  intro floor depth hdepth
  rw [run_append, hs floor depth hdepth]
  exact ht floor depth hdepth

def Neutral (c : Char) : Prop := c ≠ '"' ∧ c ≠ '{' ∧ c ≠ '}' ∧ c ≠ '[' ∧ c ≠ ']'

theorem Neutral.step (hc : Neutral c) (depth : Int) : kind.step (.at depth) c = .at depth := by
  obtain ⟨hquote, hbrace, hbrace', hsquare, hsquare'⟩ := hc
  cases kind with
  | brace => simp [Bracket.step, Scan.at, opening, closing, hquote, hbrace, hbrace']
  | square => simp [Bracket.step, Scan.at, opening, closing, hquote, hsquare, hsquare']

theorem level_of_neutral (hs : ∀ c ∈ s, Neutral c) : Level kind s := by
  intro floor depth hdepth
  induction s with
  | nil => rfl
  | cons c rest ih =>
    rw [List.forall_mem_cons] at hs
    have hstep : kind.above floor (.at depth) c = some (.at depth) := by
      rw [above, hs.1.step]
      simp [Scan.at, Int.not_lt.mpr hdepth]
    rw [run_cons, hstep]
    exact ih hs.2

theorem level_singleton (hc : Neutral c) : Level kind [c] :=
  level_of_neutral fun _ hmem => List.mem_singleton.mp hmem ▸ hc

theorem level_of_blank (hs : Blank s) : Level kind s := by
  refine level_of_neutral fun c hc => ?_
  have hblank := hs c hc
  simp only [isBlank, Bool.or_eq_true, decide_eq_true_eq] at hblank
  rcases hblank with ((rfl | rfl) | rfl) | rfl <;> exact ⟨by decide, by decide, by decide,
    by decide, by decide⟩

theorem level_of_scalar (hs : ∀ c ∈ s, isScalar c = true) : Level kind s := by
  refine level_of_neutral fun c hc => ?_
  have hscalar := hs c hc
  refine ⟨?_, ?_, ?_, ?_, ?_⟩ <;> rintro rfl <;> exact absurd hscalar (by decide)

theorem run_stringBody {body : Text} (hbody : StringBody body) {depth : Int}
    (hdepth : floor ≤ depth) :
    kind.run floor (.within depth) body = some (.within depth) := by
  induction hbody with
  | nil => rfl
  | @plain c rest hquote hbackslash hcontrol _ ih =>
    have hline : c ≠ '\n' := fun hc => absurd hcontrol (by rw [hc]; decide)
    have hstep : kind.above floor (.within depth) c = some (.within depth) := by
      simp [above, step, Scan.within, hquote, hbackslash, hline, hdepth]
    rw [run_cons, hstep]
    exact ih
  | @escape c rest hcontrol _ ih =>
    have hline : c ≠ '\n' := fun hc => absurd hcontrol (by rw [hc]; decide)
    have hstep : kind.above floor (.within depth) '\\' = some ⟨depth, true, true⟩ := by
      simp [above, step, Scan.within, hdepth]
    have hescaped : kind.above floor ⟨depth, true, true⟩ c = some (.within depth) := by
      simp [above, step, Scan.within, hline, hdepth]
    rw [run_cons, hstep, Option.bind_some, run_cons, hescaped]
    exact ih

theorem level_of_string {body : Text} (hbody : StringBody body) :
    Level kind ('"' :: (body ++ ['"'])) := by
  intro floor depth hdepth
  have hopen : kind.above floor (.at depth) '"' = some (.within depth) := by
    simp [above, step, Scan.at, Scan.within, hdepth]
  have hclose : kind.above floor (.within depth) '"' = some (.at depth) := by
    simp [above, step, Scan.at, Scan.within, hdepth]
  rw [run_cons, hopen, Option.bind_some, run_append, run_stringBody hbody hdepth,
    Option.bind_some, run_cons, hclose]
  rfl

theorem Level.enclose {body : Text} (hbody : Level kind body) (other : Bracket) :
    Level kind (other.opening :: (body ++ [other.closing])) := by
  by_cases hkind : kind = other
  · subst hkind
    intro floor depth hdepth
    have hopen : kind.above floor (.at depth) kind.opening = some (.at (depth + 1)) := by
      have hquote : kind.opening ≠ '"' := by cases kind <;> decide
      simp [above, step, Scan.at, hquote, Int.le_add_one hdepth]
    have hclose : kind.above floor (.at (depth + 1)) kind.closing = some (.at depth) := by
      have hquote : kind.closing ≠ '"' := by cases kind <;> decide
      have hopening : kind.closing ≠ kind.opening := by cases kind <;> decide
      simp [above, step, Scan.at, hquote, hopening, hdepth]
    rw [run_cons, hopen, Option.bind_some, run_append,
      hbody floor (depth + 1) (Int.le_add_one hdepth), Option.bind_some, run_cons, hclose]
    rfl
  · intro floor depth hdepth
    have hopen : kind.above floor (.at depth) other.opening = some (.at depth) := by
      cases kind <;> cases other <;>
        simp_all [above, step, Scan.at, opening, closing]
    have hclose : kind.above floor (.at depth) other.closing = some (.at depth) := by
      cases kind <;> cases other <;>
        simp_all [above, step, Scan.at, opening, closing]
    rw [run_cons, hopen, Option.bind_some, run_append, hbody floor depth hdepth,
      Option.bind_some, run_cons, hclose]
    rfl

theorem level_of_reads {form : Form} (hs : Reads form s) : Level kind s := by
  have hcomma : Level kind [','] := level_singleton ⟨by decide, by decide, by decide, by decide,
    by decide⟩
  have hcolon : Level kind [':'] := level_singleton ⟨by decide, by decide, by decide, by decide,
    by decide⟩
  induction hs with
  | scalar _ hs => exact level_of_scalar hs
  | string hbody => exact level_of_string hbody
  | emptyObject hbody => exact (level_of_blank hbody).enclose .brace
  | object _ ih => exact ih.enclose .brace
  | emptyArray hbody => exact (level_of_blank hbody).enclose .square
  | array _ ih => exact ih.enclose .square
  | element hbefore _ hafter ih =>
    exact (level_of_blank hbefore).append (ih.append (level_of_blank hafter))
  | member hbefore hkey hafter _ ih =>
    exact (level_of_blank hbefore).append ((level_of_string hkey).append
      ((level_of_blank hafter).append (hcolon.append ih)))
  | lastMember _ ih => exact ih
  | moreMembers _ _ ih ihrest => exact ih.append (hcomma.append ihrest)
  | lastItem _ ih => exact ih
  | moreItems _ _ ih ihrest => exact ih.append (hcomma.append ihrest)

end Bracket

theorem IsObject.body (hs : IsObject s) :
    ∃ body, Bracket.Level .brace body ∧ s = '{' :: (body ++ ['}']) := by
  obtain ⟨body, hbody, rfl⟩ := hs
  exact ⟨body, hbody.elim Bracket.level_of_blank Bracket.level_of_reads, rfl⟩

end Difflore.Foundation.JsonText
