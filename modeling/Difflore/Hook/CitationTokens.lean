import Difflore.Foundation.Runs
import Difflore.Hook.Scan

/-! # Citation tokens

A token names a rule by its place in the serve and by four digits of the hash of its id. The
scan takes in the hexadecimal digits behind every `df:N-`. A token that directly follows one
begins with two of them and is not read.
-/

namespace Difflore.Hook

open Foundation Text

variable {c : Char} {position : Nat} {prev : Option Char} {digits before after : Text}

def Stands (before : Text) : Prop := before.getLast?.any Char.isAlphanum = false

/-- The digits of a number from one on that a `usize` holds. -/
def IsPosition (digits : Text) (position : Nat) : Prop :=
  digits.all Char.isDigit = true ∧ (parseUsize digits).filter (0 < ·) = some position

def bareHead (digits : Text) : Text := "df:" ++ (digits ++ ['-'])

def TokenAt (before after : Text) (position : Nat) (fingerprint : Text) : Prop :=
  ∃ digits rest, after = bareHead digits ++ (fingerprint ++ rest) ∧ Stands before ∧
    IsPosition digits position ∧ fingerprint.length = 4 ∧ fingerprint.all isHexDigit = true ∧
    rest.head?.any isHexDigit = false

theorem bareHead_append (digits tail : Text) :
    bareHead digits ++ tail = "df:" ++ (digits ++ '-' :: tail) := by
  simp [bareHead]

theorem readFingerprint_bareHead (hprev : prev.any Char.isAlphanum = false)
    (hdigits : IsPosition digits position) (tail : Text) :
    readFingerprint prev (bareHead digits ++ tail) =
      some (4 + digits.length + (tail.takeWhile isHexDigit).length,
        if (tail.takeWhile isHexDigit).length = 4 then some (position, tail.takeWhile isHexDigit)
        else none) := by
  have htake : (digits ++ '-' :: tail).takeWhile Char.isDigit = digits :=
    takeWhile_append_of_head hdigits.1 rfl
  have hdash : stripPrefix ['-'] ('-' :: tail) = some tail := stripPrefix_append ['-'] tail
  unfold readFingerprint
  rw [bareHead_append, stripPrefix_append]
  simp only [hprev, htake, List.drop_left, hdash, hdigits.2, Bool.false_eq_true, if_false]

/-- A reading takes in nothing, or no more than the digits behind `df:`, or a bare head and
the hexadecimal digits behind it. -/
theorem readFingerprint_cases (prev : Option Char) (s : Text) : readFingerprint prev s = none ∨
      (∃ taken digits tail, readFingerprint prev s = some (taken, none) ∧
        s = "df:" ++ (digits ++ tail) ∧ digits.all Char.isDigit = true ∧
        taken ≤ 3 + digits.length) ∨
      (prev.any Char.isAlphanum = false ∧
        ∃ digits position tail, s = bareHead digits ++ tail ∧ IsPosition digits position) := by
  cases hstrip : stripPrefix "df:" s with
  | none =>
    left
    unfold readFingerprint
    rw [hstrip]
  | some rest =>
    right
    obtain rfl := stripPrefix_eq_some hstrip
    by_cases hprev : prev.any Char.isAlphanum = true
    · refine .inl ⟨3, [], rest, ?_, rfl, rfl, Nat.le_refl 3⟩
      unfold readFingerprint
      simp only [hstrip, hprev, if_true]
    · rw [Bool.not_eq_true] at hprev
      have hall : (rest.takeWhile Char.isDigit).all Char.isDigit = true :=
        List.all_eq_true.mpr fun c hc => List.mem_takeWhile_imp hc
      have hsplit : rest = rest.takeWhile Char.isDigit ++
          rest.drop (rest.takeWhile Char.isDigit).length := by
        rw [drop_length_takeWhile, List.takeWhile_append_dropWhile]
      cases hdash : stripPrefix ['-'] (rest.drop (rest.takeWhile Char.isDigit).length) with
      | none =>
        refine .inl ⟨_, rest.takeWhile Char.isDigit, _, ?_,
          congrArg ("df:".toList ++ ·) hsplit, hall, Nat.le_refl _⟩
        unfold readFingerprint
        simp only [hstrip, hprev, hdash, Bool.false_eq_true, if_false]
      | some after =>
        cases hposition : (parseUsize (rest.takeWhile Char.isDigit)).filter (0 < ·) with
        | none =>
          refine .inl ⟨_, rest.takeWhile Char.isDigit, _, ?_,
            congrArg ("df:".toList ++ ·) hsplit, hall, Nat.le_refl _⟩
          unfold readFingerprint
          simp only [hstrip, hprev, hdash, hposition, Bool.false_eq_true, if_false]
        | some position =>
          refine .inr ⟨hprev, _, position, after, ?_, hall, hposition⟩
          rw [bareHead_append]
          conv_lhs => rw [hsplit, stripPrefix_eq_some hdash]
          rfl

theorem readFingerprint_eq_some_iff {fingerprint : Text} :
    (readFingerprint before.getLast? after).bind Prod.snd = some (position, fingerprint) ↔
      TokenAt before after position fingerprint := by
  constructor
  · intro hread
    rcases readFingerprint_cases before.getLast? after with
      hnone | ⟨taken, digits, tail, hsome, _⟩ | ⟨hprev, digits, position', tail, rfl, hdigits⟩
    · rw [hnone] at hread
      contradiction
    · rw [hsome] at hread
      contradiction
    · rw [readFingerprint_bareHead hprev hdigits] at hread
      obtain ⟨hlength, heq⟩ := Option.ite_none_right_eq_some.mp hread
      obtain ⟨rfl, rfl⟩ := Prod.mk.inj (Option.some.inj heq)
      refine ⟨digits, tail.dropWhile isHexDigit, ?_, hprev, hdigits, hlength,
        List.all_eq_true.mpr fun c hc => List.mem_takeWhile_imp hc, head_dropWhile isHexDigit tail⟩
      rw [List.takeWhile_append_dropWhile]
  · rintro ⟨digits, rest, rfl, hstands, hdigits, hlength, hall, hrest⟩
    rw [readFingerprint_bareHead hstands hdigits, takeWhile_append_of_head hall hrest]
    simp [hlength]

theorem isAlphanum_of_isHexDigit (hc : isHexDigit c = true) : c.isAlphanum = true := by
  rw [isHexDigit_iff] at hc
  rw [isAlphanum_iff]
  omega

/-! ## Bare heads swallow tokens -/

theorem length_bareHead (digits : Text) : (bareHead digits).length = digits.length + 4 := by
  simp [bareHead]

/-- Where a longer text starts and ends inside one that has the character only in front, no
later part begins with it. -/
theorem head_ne_of_append_eq (w tail : Text) {between : Text}
    (heq : (c :: w) ++ tail = between ++ c :: after) (hbetween : between ≠ []) (hw : c ∉ w) :
    (c :: w).length ≤ between.length := by
  rcases List.append_eq_append_iff.mp heq with ⟨more, rfl, _⟩ | ⟨more, hmore, hafter⟩
  · simp
  · cases more with
    | nil => rw [hmore, List.append_nil]
    | cons first more =>
      obtain rfl := (List.cons.inj hafter).1
      cases between with
      | nil => contradiction
      | cons d between =>
        rw [(List.cons.inj hmore).2] at hw
        simp at hw

theorem d_not_mem_digits (hdigits : digits.all Char.isDigit = true) : 'd' ∉ digits := by
  intro hd
  have := List.all_eq_true.mp hdigits 'd' hd
  contradiction

theorem bareHead_of_jumpsOver {between : Text}
    (hjump : JumpsOver readFingerprint prev between ('d' :: after)) (hstands : Stands between) :
    prev.any Char.isAlphanum = false ∧
      ∃ digits position, between = bareHead digits ∧ IsPosition digits position := by
  obtain ⟨hne, hlength⟩ := hjump
  have hpos : 0 < between.length := List.length_pos_iff.mpr hne
  unfold reach at hlength
  rcases readFingerprint_cases prev (between ++ 'd' :: after) with
    hnone | ⟨taken, digits, tail, hsome, heq, hdigits, htaken⟩ |
      ⟨hprev, digits, position, tail, heq, hdigits⟩
  · rw [hnone] at hlength
    dsimp only at hlength
    omega
  · -- the digits behind `df:` have no place to begin a token
    rw [hsome] at hlength
    have hd : 'd' ∉ 'f' :: ':' :: digits := by
      simp [d_not_mem_digits hdigits]
    have hlong := head_ne_of_append_eq ('f' :: ':' :: digits) tail heq.symm hne hd
    simp only [List.length_cons] at hlong
    dsimp only at hlength
    omega
  · refine ⟨hprev, digits, position, ?_, hdigits⟩
    rw [heq, readFingerprint_bareHead hprev hdigits] at hlength
    have hd : 'd' ∉ 'f' :: ':' :: (digits ++ ['-']) := by
      simp [d_not_mem_digits hdigits.1]
    have hlong := head_ne_of_append_eq ('f' :: ':' :: (digits ++ ['-'])) tail heq.symm
      hne hd
    obtain ⟨more, rfl⟩ : bareHead digits <+: between :=
      List.prefix_of_prefix_length_le ⟨tail, heq.symm⟩ ⟨'d' :: after, rfl⟩ hlong
    rw [List.append_assoc, List.append_cancel_left_eq] at heq
    cases hmore : more.getLast? with
    | none => rw [List.getLast?_eq_none_iff.mp hmore, List.append_nil]
    | some c =>
      -- what lies behind the head is hexadecimal, and the place would not stand
      exfalso
      have hstart : more <+: tail.takeWhile isHexDigit := by
        refine List.prefix_of_prefix_length_le ⟨'d' :: after, heq⟩ (List.takeWhile_prefix _) ?_
        simp only [List.length_append, length_bareHead] at hlength
        omega
      have hhex : isHexDigit c = true :=
        List.mem_takeWhile_imp (hstart.subset (List.mem_of_getLast? hmore))
      have hlast : (bareHead digits ++ more).getLast? = some c := by
        rw [List.getLast?_append, hmore]
        rfl
      rw [Stands, hlast, Option.any_some] at hstands
      rw [isAlphanum_of_isHexDigit hhex] at hstands
      contradiction

theorem jumpsOver_bareHead (hprev : prev.any Char.isAlphanum = false)
    (hdigits : IsPosition digits position) (after : Text) :
    JumpsOver readFingerprint prev (bareHead digits) ('d' :: after) := by
  refine ⟨List.cons_ne_nil _ _, ?_⟩
  unfold reach
  rw [readFingerprint_bareHead hprev hdigits, length_bareHead,
    List.takeWhile_cons_of_pos (by decide), List.length_cons]
  dsimp only
  omega

theorem readsAt_iff_no_bareHead (hstands : Stands before) (after : Text) :
    ReadsAt readFingerprint ('d' :: after) none 0 before ↔ ¬ ∃ first digits position,
      before = first ++ bareHead digits ∧ Stands first ∧ IsPosition digits position ∧
      ReadsAt readFingerprint (bareHead digits ++ 'd' :: after) none 0 first := by
  rw [readsAt_iff_not_jumpsOver, not_iff_not]
  constructor
  · rintro ⟨first, between, rfl, hreads, hjump⟩
    have hbetween : Stands between := by
      unfold Stands at hstands ⊢
      rwa [List.getLast?_append_of_ne_nil _ hjump.1] at hstands
    obtain ⟨hfirst, digits, position, rfl, hdigits⟩ := bareHead_of_jumpsOver hjump hbetween
    rw [lastOr_none] at hfirst
    exact ⟨first, digits, position, rfl, hfirst, hdigits, hreads⟩
  · rintro ⟨first, digits, position, rfl, hfirst, hdigits, hreads⟩
    refine ⟨first, bareHead digits, rfl, hreads, jumpsOver_bareHead ?_ hdigits after⟩
    rwa [lastOr_none]

/-- The bare heads that stand one behind the other at the end of a text. -/
inductive HeadsBefore : Nat → Text → Prop
  | clear {before : Text} (hclear : ∀ first digits position, Stands first →
      IsPosition digits position → before ≠ first ++ bareHead digits) : HeadsBefore 0 before
  | head {k position : Nat} {first digits : Text} (hfirst : HeadsBefore k first)
      (hstands : Stands first) (hdigits : IsPosition digits position) :
      HeadsBefore (k + 1) (first ++ bareHead digits)

theorem exists_headsBefore (before : Text) : ∃ k, HeadsBefore k before := by
  by_cases hends : ∃ first digits position, Stands first ∧ IsPosition digits position ∧
      before = first ++ bareHead digits
  · obtain ⟨first, digits, position, hstands, hdigits, hbefore⟩ := hends
    have hshorter : first.length < before.length := by
      rw [hbefore, List.length_append, length_bareHead]
      omega
    obtain ⟨k, hfirst⟩ := exists_headsBefore first
    exact ⟨k + 1, hbefore ▸ .head hfirst hstands hdigits⟩
  · refine ⟨0, .clear fun first digits position hstands hdigits hbefore => ?_⟩
    exact hends ⟨first, digits, position, hstands, hdigits, hbefore⟩
termination_by before.length

theorem append_bareHead_inj {first second digits' : Text} (hdigits : digits.all Char.isDigit = true)
    (hdigits' : digits'.all Char.isDigit = true)
    (heq : first ++ bareHead digits = second ++ bareHead digits') :
    first = second ∧ digits = digits' := by
  have hcancel : (first ++ ['d', 'f', ':']) ++ digits = (second ++ ['d', 'f', ':']) ++ digits' := by
    have hdash : ((first ++ ['d', 'f', ':']) ++ digits) ++ ['-'] =
        ((second ++ ['d', 'f', ':']) ++ digits') ++ ['-'] := by
      simpa [bareHead] using heq
    exact List.append_cancel_right hdash
  have hrun : ∀ (front : Text) {run : Text}, run.all Char.isDigit = true →
      ((front ++ ['d', 'f', ':']) ++ run).rtakeWhile Char.isDigit = run := by
    intro front run hrun
    rw [List.rtakeWhile, List.reverse_append, List.reverse_append,
      takeWhile_append_of_head (by simpa using hrun) rfl, List.reverse_reverse]
  have hsame : digits = digits' := by
    rw [← hrun first hdigits, hcancel, hrun second hdigits']
  subst hsame
  exact ⟨List.append_cancel_right (List.append_cancel_right hcancel), rfl⟩

theorem readsAt_iff_even {k : Nat} (hheads : HeadsBefore k before) (hstands : Stands before)
    (after : Text) :
    ReadsAt readFingerprint ('d' :: after) none 0 before ↔ Even k := by
  induction hheads generalizing after with
  | clear hclear =>
    rw [readsAt_iff_no_bareHead hstands]
    refine iff_of_true ?_ Even.zero
    rintro ⟨first, digits, position, hbefore, hfirst, hdigits, _⟩
    exact hclear first digits position hfirst hdigits hbefore
  | @head k position first digits hfirst hstandsFirst hdigits ih =>
    have hfront : bareHead digits ++ 'd' :: after =
        'd' :: ('f' :: ':' :: (digits ++ ['-']) ++ 'd' :: after) := rfl
    rw [readsAt_iff_no_bareHead hstands, Nat.even_add_one, not_iff_not, ← ih hstandsFirst]
    constructor
    · rintro ⟨first', digits', position', heq, _, hdigits', hreads⟩
      obtain ⟨rfl, rfl⟩ := append_bareHead_inj hdigits.1 hdigits'.1 heq
      exact hreads
    · intro hreads
      exact ⟨first, digits, position, rfl, hstandsFirst, hdigits, hreads⟩

theorem mem_ruleFingerprintsFromCitationText_iff {text fingerprint : Text} :
    (position, fingerprint) ∈ ruleFingerprintsFromCitationText text ↔
      ∃ before after k, toAsciiLowercase text = before ++ after ∧
        TokenAt before after position fingerprint ∧ HeadsBefore k before ∧ Even k := by
  unfold ruleFingerprintsFromCitationText
  rw [mem_scanFrom_iff]
  constructor
  · rintro ⟨before, c, rest, hsplit, hreads, hread⟩
    rw [lastOr_none] at hread
    obtain ⟨digits, tail, hafter, hstands, _⟩ := readFingerprint_eq_some_iff.mp hread
    obtain ⟨k, hheads⟩ := exists_headsBefore before
    obtain rfl : 'd' = c := (List.cons.inj hafter).1.symm
    exact ⟨before, _, k, hsplit, readFingerprint_eq_some_iff.mp hread, hheads,
      (readsAt_iff_even hheads hstands rest).mp hreads⟩
  · rintro ⟨before, after, k, hsplit, htoken, hheads, heven⟩
    have hparts := htoken
    obtain ⟨digits, tail, hafter, hstands, _⟩ := hparts
    obtain ⟨rest, rfl⟩ : ∃ rest, after = 'd' :: rest := ⟨_, hafter⟩
    refine ⟨before, 'd', rest, hsplit, (readsAt_iff_even hheads hstands rest).mpr heven, ?_⟩
    rw [lastOr_none]
    exact readFingerprint_eq_some_iff.mpr htoken

end Difflore.Hook
