import Difflore.Context.RememberHash
import Difflore.Hook.NestedRegions
import Difflore.Observability.SecretLaws

/-! # The composed sanitizer

Stored text goes through the removal of private regions, the redaction of secrets and trimming. The
removal leaves no opening tag and the redaction makes none. White space stays inside, so a second
pass is a second redaction.
-/

namespace Difflore.Skills

open Foundation Text Hook Context Observability

structure Trimmed (s : Text) : Prop where
  head : s.head?.any isWhitespace = false
  last : s.getLast?.any isWhitespace = false

theorem any_eq_false_iff {p : Char → Bool} {c : Option Char} :
    c.any p = false ↔ ∀ d ∈ c, p d = false := by
  cases c <;> simp

theorem Trimmed.trim_eq {s : Text} (hs : Trimmed s) : trim s = s :=
  trim_of_ends (any_eq_false_iff.mp hs.head) (any_eq_false_iff.mp hs.last)

theorem trimmed_trim (s : Text) : Trimmed (trim s) :=
  ⟨any_eq_false_iff.mpr (head_trim s), any_eq_false_iff.mpr (getLast_trim s)⟩

theorem last_append {s t : Text} {p : Char → Bool} (hs : t = [] → s.getLast?.any p = false)
    (ht : t.getLast?.any p = false) : (s ++ t).getLast?.any p = false := by
  cases t with
  | nil => simpa using hs rfl
  | cons c t => rwa [getLast?_append_of_ne_nil (by simp)]

theorem last_of_append {s t : Text} {p : Char → Bool} (hst : (s ++ t).getLast?.any p = false) :
    t.getLast?.any p = false := by
  cases t with
  | nil => rfl
  | cons c t => rwa [getLast?_append_of_ne_nil (by simp)] at hst

/-! ## The removal of regions -/

theorem foldl_earliest {candidates : List (Nat × Text × Text)}
    {best : Option (Nat × Text × Text)} {found : Nat × Text × Text}
    (hfound : candidates.foldl (fun best candidate => match best with
      | none => some candidate
      | some found => if candidate.1 < found.1 then some candidate else some found) best =
        some found) :
    (found ∈ candidates ∨ best = some found) ∧ (∀ candidate ∈ candidates, found.1 ≤ candidate.1) ∧
      ∀ first ∈ best, found.1 ≤ first.1 := by
  induction candidates generalizing best with
  | nil =>
    obtain rfl : best = some found := hfound
    simp
  | cons candidate rest ih =>
    rw [List.foldl_cons] at hfound
    obtain ⟨hmem, hall, hbest⟩ := ih hfound
    cases best with
    | none =>
      have hcandidate := hbest candidate rfl
      refine ⟨?_, List.forall_mem_cons.mpr ⟨hcandidate, hall⟩, by simp⟩
      rcases hmem with hmem | hmem
      · exact .inl (.tail _ hmem)
      · exact .inl (Option.some.inj hmem ▸ (.head _) ..)
    | some first =>
      by_cases hless : candidate.1 < first.1
      · simp only [hless, if_true] at hmem hbest
        have hcandidate := hbest candidate rfl
        refine ⟨?_, List.forall_mem_cons.mpr ⟨hcandidate, hall⟩, ?_⟩
        · rcases hmem with hmem | hmem
          · exact .inl (.tail _ hmem)
          · exact .inl (Option.some.inj hmem ▸ (.head _) ..)
        · intro other hother
          obtain rfl := Option.some.inj hother
          omega
      · simp only [hless, if_false] at hmem hbest
        have hfirst := hbest first rfl
        refine ⟨?_, List.forall_mem_cons.mpr ⟨by omega, hall⟩, ?_⟩
        · exact hmem.imp (List.mem_cons_of_mem _) id
        · intro other hother
          obtain rfl := Option.some.inj hother
          exact hfirst

theorem nextPrivateOpenTag_spec {text : Text} {start : Nat} {opening closing : Text}
    (hnext : nextPrivateOpenTag text = some (start, opening, closing)) :
    (∃ kind : RegionKind, opening = kind.opening.symbols ∧ find opening text = some start) ∧
      ∀ tag ∈ openings, ∀ n, find tag.symbols text = some n → start ≤ n := by
  rw [nextPrivateOpenTag, privateTagPairs_eq] at hnext
  obtain ⟨hmem, hall, -⟩ := foldl_earliest hnext
  have hmem := hmem.resolve_right (by simp)
  obtain ⟨pair, hpair, hfind⟩ := List.mem_filterMap.mp hmem
  obtain ⟨kind, -, rfl⟩ := List.mem_map.mp hpair
  obtain ⟨n, hn, heq⟩ := Option.map_eq_some_iff.mp hfind
  obtain ⟨rfl, rfl, rfl⟩ : n = start ∧ kind.opening.symbols = opening ∧
      kind.closing.symbols = closing := by simpa using heq
  refine ⟨⟨kind, rfl, hn⟩, fun tag htag m hm => ?_⟩
  obtain ⟨other, -, rfl⟩ := List.mem_map.mp htag
  have hcandidate := hall (m, other.opening.symbols, other.closing.symbols)
    (List.mem_filterMap.mpr ⟨_, List.mem_map_of_mem other.mem_all, by simp [hm]⟩)
  exact hcandidate

theorem foldl_earliest_eq_none {candidates : List (Nat × Text × Text)}
    {best : Option (Nat × Text × Text)}
    (hnone : candidates.foldl (fun best candidate => match best with
      | none => some candidate
      | some found => if candidate.1 < found.1 then some candidate else some found) best = none) :
    candidates = [] ∧ best = none := by
  induction candidates generalizing best with
  | nil => exact ⟨rfl, hnone⟩
  | cons candidate rest ih =>
    rw [List.foldl_cons] at hnone
    have hfirst := (ih hnone).2
    cases best with
    | none => contradiction
    | some first =>
      by_cases hless : candidate.1 < first.1 <;> simp [hless] at hfirst

theorem isPublic_of_nextPrivateOpenTag {text : Text}
    (hnext : nextPrivateOpenTag (toAsciiLowercase text) = none) : IsPublic text := by
  rw [nextPrivateOpenTag, privateTagPairs_eq] at hnext
  intro tag htag
  obtain ⟨kind, hkind, rfl⟩ := List.mem_map.mp htag
  rw [← find_eq_none_iff]
  have hempty := List.filterMap_eq_nil_iff.mp (foldl_earliest_eq_none hnext).1 _
    (List.mem_map_of_mem hkind)
  simpa using hempty

theorem fence_openings : Fence openings (toAsciiLowercase privateRedaction) := by decide

theorem free_take {text : Text} {start : Nat}
    (hfirst : ∀ tag ∈ openings, ∀ n, find tag.symbols text = some n → start ≤ n) :
    Free openings (text.take start) := by
  intro tag htag hin
  obtain ⟨n, hn, hfind⟩ := find_of_infix (t := text.drop start) hin
  rw [List.take_append_drop] at hfind
  have hle := hfirst tag htag n hfind
  have hpos := List.length_pos_of_ne_nil tag.symbols_ne_nil
  have hlength := List.length_take_le start text
  omega

theorem isPublic_stripPrivateFrom {fuel : Nat} {input : Text} (hfuel : input.length ≤ fuel) :
    IsPublic (stripPrivateFrom fuel input) := by
  induction fuel generalizing input with
  | zero =>
    obtain rfl := List.eq_nil_of_length_eq_zero (Nat.le_zero.mp hfuel)
    exact free_nil
  | succ fuel ih =>
    rw [stripPrivateFrom]
    cases hnext : nextPrivateOpenTag (toAsciiLowercase input) with
    | none => exact isPublic_of_nextPrivateOpenTag hnext
    | some found =>
      obtain ⟨start, opening, closing⟩ := found
      obtain ⟨⟨kind, rfl, -⟩, hfirst⟩ := nextPrivateOpenTag_spec hnext
      have hpos := List.length_pos_of_ne_nil kind.opening.symbols_ne_nil
      simp only [IsPublic, toAsciiLowercase_append]
      refine fence_openings.free_iff.mpr ⟨?_, ih ?_⟩
      · rw [toAsciiLowercase, List.map_take]
        exact free_take hfirst
      · split
        · simp only [List.length_drop]
          omega
        · exact Nat.zero_le _

theorem isPublic_of_infix {part text : Text} (hpart : part <:+: text) (htext : IsPublic text) :
    IsPublic part := fun tag htag hin => htext tag htag (hin.trans (hpart.map Char.toLower))

theorem isPublic_strip (text : Text) : IsPublic (stripPrivateTaggedRegions text) :=
  isPublic_stripPrivateFrom le_rfl

theorem strip_of_isPublic {text : Text} (hpublic : IsPublic text) :
    stripPrivateTaggedRegions text = text := by
  rw [stripPrivateTaggedRegions]
  cases hlength : text.length with
  | zero => rfl
  | succ fuel => rw [stripPrivateFrom, nextPrivateOpenTag_of_public hpublic]

theorem head_stripPrivateFrom {p : Char → Bool} (hmark : p '[' = false) (fuel : Nat) {input : Text}
    (hinput : input.head?.any p = false) : (stripPrivateFrom fuel input).head?.any p = false := by
  cases fuel with
  | zero => exact hinput
  | succ fuel =>
    rw [stripPrivateFrom]
    cases nextPrivateOpenTag (toAsciiLowercase input) with
    | none => exact hinput
    | some found =>
      obtain ⟨start, opening, closing⟩ := found
      simp only [List.head?_append, List.head?_take]
      split
      · exact hmark
      · cases hhead : input.head? with
        | none => exact hmark
        | some c => rwa [hhead] at hinput

theorem last_stripPrivateFrom {p : Char → Bool} (hmark : p ']' = false) (fuel : Nat) {input : Text}
    (hinput : input.getLast?.any p = false) :
    (stripPrivateFrom fuel input).getLast?.any p = false := by
  induction fuel generalizing input with
  | zero => exact hinput
  | succ fuel ih =>
    rw [stripPrivateFrom]
    cases nextPrivateOpenTag (toAsciiLowercase input) with
    | none => exact hinput
    | some found =>
      obtain ⟨start, opening, closing⟩ := found
      -- the rest is an end of the input
      have hdrop : ∀ n, (input.drop n).getLast?.any p = false := fun n =>
        last_of_append (s := input.take n) (by rwa [List.take_append_drop])
      have hmarker : privateRedaction.getLast?.any p = false := hmark
      simp only
      rw [← List.append_assoc]
      refine last_append (fun _ => last_append (fun hnil => ?_) hmarker) (ih ?_)
      · contradiction
      · split
        · rw [List.drop_drop]
          exact hdrop _
        · rfl

theorem stripPrivateFrom_eq_nil {fuel : Nat} {input : Text} :
    stripPrivateFrom fuel input = [] ↔ input = [] := by
  cases fuel with
  | zero => rfl
  | succ fuel =>
    rw [stripPrivateFrom]
    cases hnext : nextPrivateOpenTag (toAsciiLowercase input) with
    | none => rfl
    | some found =>
      constructor
      · intro hnil
        have hmarker := (List.append_eq_nil_iff.mp (List.append_eq_nil_iff.mp hnil).2).1
        contradiction
      · rintro rfl
        have hnone : nextPrivateOpenTag (toAsciiLowercase []) = none := by decide
        rw [hnone] at hnext
        contradiction

theorem Trimmed.strip {s : Text} (hs : Trimmed s) : Trimmed (stripPrivateTaggedRegions s) :=
  ⟨head_stripPrivateFrom (by decide) _ hs.head, last_stripPrivateFrom (by decide) _ hs.last⟩

theorem strip_eq_nil {s : Text} : stripPrivateTaggedRegions s = [] ↔ s = [] :=
  stripPrivateFrom_eq_nil

/-- A redacted text is the original, or what stands in front of the first secret, the placeholder
and the redacted rest. -/
theorem redaction_induction {P : Text → Text → Prop} (hself : ∀ s, P s s)
    (hcut : ∀ front gone rest out closing, (∀ c ∈ closing, isQuote c = true) → gone ≠ [] →
      P rest out → P (front ++ (gone ++ rest))
        (front ++ (secretRedactionPlaceholder ++ (Option.toList closing ++ out))))
    (prev : Option Char) (s : Text) : P s (redactFrom prev 0 s) := by
  induction hn : s.length using Nat.strong_induction_on generalizing prev s with
  | _ n ih =>
    rcases nextSecret_spec prev s with ⟨-, hsame⟩ | ⟨front, back, -, hfound⟩
    · rw [hsame]
      exact hself s
    · obtain ⟨gone, rest, closing, next, hback, hgone, hclosing, hredacted⟩ := hfound.redacted
      have hs : s = front ++ (gone ++ rest) := by rw [hfound.eq, hback]
      have hpos := List.length_pos_of_ne_nil hgone
      rw [hredacted, hs]
      refine hcut front gone rest _ closing hclosing hgone (ih _ ?_ next rest rfl)
      rw [← hn, hs, List.length_append, List.length_append]
      omega

theorem fence_placeholder :
    Fence openings (toAsciiLowercase secretRedactionPlaceholder) := by decide

theorem left_not_mem_quote {closing : Option Char} (hclosing : ∀ c ∈ closing, isQuote c = true) :
    '<' ∉ toAsciiLowercase (Option.toList closing) := by
  cases closing with
  | none => decide
  | some c =>
    have hc := hclosing c rfl
    simp only [isQuote, Bool.or_eq_true, decide_eq_true_eq] at hc
    rcases hc with (rfl | rfl) | rfl <;> decide

theorem isPublic_redactFrom (prev : Option Char) (s : Text) (hs : IsPublic s) :
    IsPublic (redactFrom prev 0 s) := by
  revert hs
  refine redaction_induction (P := fun s out => IsPublic s → IsPublic out)
    (fun _ hs => hs) ?_ prev s
  intro front gone rest out closing hclosing _ ih hs
  have hfront : IsPublic front := isPublic_of_infix (List.prefix_append _ _).isInfix hs
  have hrest : IsPublic rest := by
    rw [← List.append_assoc] at hs
    exact isPublic_of_infix (List.suffix_append _ _).isInfix hs
  simp only [IsPublic, toAsciiLowercase_append]
  exact fence_placeholder.free_iff.mpr ⟨hfront,
    (free_append_of_left_not_mem (left_not_mem_quote hclosing)).mpr (ih hrest)⟩

theorem redactFrom_eq_nil {prev : Option Char} {s : Text} : redactFrom prev 0 s = [] ↔ s = [] := by
  refine redaction_induction (P := fun s out => out = [] ↔ s = []) (fun _ => Iff.rfl) ?_ prev s
  intro front gone rest out closing _ hgone _
  have hplaceholder : secretRedactionPlaceholder ≠ [] := by decide
  simp [hgone, hplaceholder]

theorem Trimmed.redactFrom {prev : Option Char} {s : Text} (hs : Trimmed s) :
    Trimmed (redactFrom prev 0 s) := by
  constructor
  · refine redaction_induction (P := fun s out => s.head?.any isWhitespace = false →
      out.head?.any isWhitespace = false) (fun _ hs => hs) ?_ prev s hs.head
    intro front gone rest out closing _ _ _ hhead
    cases front with
    | nil => rfl
    | cons c front => exact hhead
  · refine redaction_induction (P := fun s out => s.getLast?.any isWhitespace = false →
      out.getLast?.any isWhitespace = false) (fun _ hs => hs) ?_ prev s hs.last
    intro front gone rest out closing hclosing _ ih hlast
    have hplaceholder : secretRedactionPlaceholder.getLast?.any isWhitespace = false := by
      decide
    rw [← List.append_assoc, ← List.append_assoc]
    refine last_append (fun _ => ?_) (ih (last_of_append (last_of_append hlast)))
    refine last_append (fun _ => last_append (fun hnil => ?_) hplaceholder) ?_
    · contradiction
    · cases closing with
      | none => rfl
      | some c => exact not_isWhitespace_of_isQuote (hclosing c rfl)

def redacting (library : Library) (sha256Hex : Text → Text) : RememberLibrary :=
  { library with
    redactSecrets := Observability.redactSecrets
    sha256Hex }

section Sanitizer

variable (library : Library) (sha256Hex : Text → Text)

theorem trimmed_redacted (body : Text) :
    Trimmed (redactSecrets (stripPrivateTaggedRegions (trim body))) :=
  (trimmed_trim body).strip.redactFrom

theorem sanitizedBody_redacting (body : Text) : sanitizedBody (redacting library sha256Hex) body =
    redactSecrets (stripPrivateTaggedRegions (trim body)) :=
  (trimmed_redacted body).trim_eq

theorem sanitizedBody_eq_nil {body : Text} :
    sanitizedBody (redacting library sha256Hex) body = [] ↔ trim body = [] := by
  rw [sanitizedBody_redacting, redactSecrets, redactFrom_eq_nil, strip_eq_nil]

theorem sanitizedBody_sanitizedBody (body : Text) :
    sanitizedBody (redacting library sha256Hex) (sanitizedBody (redacting library sha256Hex) body) =
      redactSecrets (redactSecrets (stripPrivateTaggedRegions (trim body))) := by
  have hpublic : IsPublic (redactSecrets (stripPrivateTaggedRegions (trim body))) :=
    isPublic_redactFrom none _ (isPublic_strip _)
  rw [sanitizedBody_redacting, sanitizedBody_redacting, (trimmed_redacted body).trim_eq,
    strip_of_isPublic hpublic]

end Sanitizer

end Difflore.Skills
