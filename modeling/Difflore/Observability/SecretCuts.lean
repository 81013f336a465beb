import Difflore.Observability.SecretScan

/-! # Text in front of a secret

The redacted text agrees with the original up to the next secret. Only a run that ends just
there is read in another way than before.
-/

namespace Difflore.Observability

open Foundation

variable {prev : Option Char} {s front back rest value : Text}

/-- How many characters the loop copies before the next placeholder. -/
def nextSecret : Option Char → Text → Option Nat
  | _, [] => none
  | prev, c :: rest =>
    match secretAt prev (c :: rest) with
    | some found => some found.kept
    | none => (nextSecret (some c) rest).map (· + 1)

structure Cut (prev : Option Char) (s front back : Text) : Prop where
  eq : s = front ++ back
  redacted : ∃ gone rest closing next, back = gone ++ rest ∧ gone ≠ [] ∧
    (∀ c ∈ closing, isQuote c = true) ∧
    redactFrom prev 0 s = front ++ (secretRedactionPlaceholder ++
      (Option.toList closing ++ redactFrom next 0 rest))
  edge : atWordBoundary (lastOr prev front) = true

theorem Cut.mark (hcut : Cut prev s front back) :
    ∃ tail, redactFrom prev 0 s = front ++ '‹' :: tail := by
  obtain ⟨gone, rest, closing, next, -, -, -, hredacted⟩ := hcut.redacted
  exact ⟨_, hredacted⟩

theorem atWordBoundary_iff : atWordBoundary prev = true ↔ prev.any isWordChar = false := by
  cases prev <;> simp [atWordBoundary]

theorem nextSecret_spec (prev : Option Char) (s : Text) :
    (nextSecret prev s = none ∧ redactFrom prev 0 s = s) ∨
      ∃ front back, nextSecret prev s = some front.length ∧ Cut prev s front back := by
  induction s generalizing prev with
  | nil => exact .inl ⟨rfl, rfl⟩
  | cons c rest ih =>
    cases hfound : secretAt prev (c :: rest) with
    | some found =>
      obtain ⟨hboundary, lead, gone, after, htaken⟩ := exists_taken hfound
      refine .inr ⟨lead, gone ++ after, ?_, htaken.eq, ⟨gone, after, found.closing, _, rfl,
        htaken.gone_ne, htaken.closing, htaken.redactFrom hfound⟩, ?_⟩
      · rw [nextSecret, hfound, ← htaken.kept]
      · rcases htaken.lead_parts with rfl | ⟨name, separator, hparts⟩
        · exact hboundary
        · obtain ⟨d, hd⟩ := List.getLast?_isSome.mpr hparts.separator_ne |> Option.isSome_iff_exists.mp
          have hsep := List.all_eq_true.mp hparts.separator_all d (List.mem_of_getLast? hd)
          have hsegment := not_isSegmentChar_of_isSeparator hsep
          rw [atWordBoundary_iff, hparts.eq, lastOr_append,
            lastOr_of_ne_nil hparts.separator_ne, hd]
          exact (Bool.or_eq_false_iff.mp hsegment).1
    | none =>
      rw [nextSecret, hfound, redactFrom_plain hfound]
      rcases ih (some c) with ⟨hnext, hself⟩ | ⟨front, back, hnext, hcut⟩
      · exact .inl ⟨by rw [hnext]; rfl, by rw [hself]⟩
      · obtain ⟨gone, after, closing, next, hback, hgone, hclosing, hredacted⟩ := hcut.redacted
        refine .inr ⟨c :: front, back, by rw [hnext]; rfl, by rw [hcut.eq]; rfl,
          ⟨gone, after, closing, next, hback, hgone, hclosing, ?_⟩, ?_⟩
        · rw [redactFrom_plain hfound, hredacted]
          rfl
        · rw [lastOr_cons]
          exact hcut.edge

theorem Cut.last (hcut : Cut prev s front back) : front.getLast?.any isWordChar = false := by
  cases front with
  | nil => rfl
  | cons c front =>
    have hedge := hcut.edge
    rwa [lastOr_of_ne_nil (by simp), atWordBoundary_iff] at hedge

/-- A character of an identifier, as the dotted and the plain form allow it. -/
def isIdentifierChar (c : Char) : Bool := isWordChar c || c = '$'

theorem all_of_isJsIdentifier {segment : Text} (hsegment : isJsIdentifier segment = true) :
    segment ≠ [] ∧ segment.all isIdentifierChar = true := by
  cases segment with
  | nil => contradiction
  | cons c rest =>
    refine ⟨by simp, ?_⟩
    simp only [isJsIdentifier, Bool.and_eq_true, Bool.or_eq_true, List.all_eq_true,
      decide_eq_true_eq] at hsegment
    simp only [List.all_cons, isIdentifierChar, isWordChar, Char.isAlphanum, Bool.and_eq_true,
      Bool.or_eq_true, List.all_eq_true, decide_eq_true_eq] at hsegment ⊢
    tauto

theorem all_of_wordIdentifierTail {seenDigit : Bool}
    (hrest : wordIdentifierTail seenDigit rest = true) : rest.all isIdentifierChar = true := by
  induction rest generalizing seenDigit with
  | nil => rfl
  | cons c rest ih =>
    rw [wordIdentifierTail] at hrest
    rw [List.all_cons, Bool.and_eq_true]
    by_cases hdigit : c.isDigit = true
    · rw [if_pos hdigit] at hrest
      exact ⟨by simp [isIdentifierChar, isWordChar, Char.isAlphanum, hdigit], ih hrest⟩
    · rw [if_neg hdigit] at hrest
      obtain ⟨-, hrest⟩ : seenDigit = false ∧ _ := by simpa using hrest
      obtain ⟨hletter, hrest⟩ := hrest
      refine ⟨?_, ih hrest⟩
      simp only [isIdentifierChar, isWordChar, Char.isAlphanum, Bool.or_eq_true, decide_eq_true_eq]
      tauto

theorem all_of_isWordIdentifier (hvalue : isWordIdentifier value = true) :
    value.all isIdentifierChar = true := by
  cases value with
  | nil => rfl
  | cons c rest =>
    simp only [isWordIdentifier, Bool.and_eq_true] at hvalue
    rw [List.all_cons, all_of_wordIdentifierTail hvalue.2, Bool.and_true]
    have hc := hvalue.1
    simp only [isIdentifierChar, isWordChar, Char.isAlphanum, Bool.or_eq_true,
      decide_eq_true_eq] at hc ⊢
    tauto

theorem any_getLast_of_all {p : Char → Bool} {word : Text} (hne : word ≠ [])
    (hword : word.all p = true) : word.getLast?.any p = true := by
  rw [List.getLast?_eq_some_getLast hne]
  exact List.all_eq_true.mp hword _ (List.getLast_mem hne)

theorem last_of_segments (hs : (s.splitOn '.').all isJsIdentifier = true) :
    s.getLast?.any isIdentifierChar = true := by
  induction hn : s.length using Nat.strong_induction_on generalizing s with
  | _ n ih =>
    by_cases hdot : '.' ∈ s
    · obtain ⟨first, rest, rfl⟩ := List.append_of_mem hdot
      rw [List.splitOn_append_cons_self, List.all_append, Bool.and_eq_true] at hs
      have hrest := ih rest.length (by simp [← hn]; omega) hs.2 rfl
      cases rest with
      | nil => contradiction
      | cons c rest =>
        rw [List.getLast?_append, List.getLast?_cons_cons]
        rw [List.getLast?_cons] at hrest ⊢
        exact hrest
    · rw [List.splitOn_eq_singleton hdot, List.all_cons, List.all_nil, Bool.and_true] at hs
      obtain ⟨hne, hall⟩ := all_of_isJsIdentifier hs
      exact any_getLast_of_all hne hall

theorem last_of_looksLikeCodeReference (htoken : value.all isTokenChar = true)
    (href : looksLikeCodeReference value = true) : value.getLast?.any isWordChar = true := by
  have hidentifier : value.getLast?.any isIdentifierChar = true := by
    simp only [looksLikeCodeReference, Bool.or_eq_true] at href
    rcases href with (hcall | hdotted) | hword
    · obtain ⟨c, hc, hbracket⟩ := List.any_eq_true.mp hcall
      have hctoken := List.all_eq_true.mp htoken c hc
      simp only [Bool.or_eq_true, decide_eq_true_eq] at hbracket
      rcases hbracket with ((rfl | rfl) | rfl) | rfl <;> exact absurd hctoken (by decide)
    · unfold isDottedMemberAccess at hdotted
      split at hdotted
      · exact last_of_segments (Bool.and_eq_true_iff.mp hdotted).1
      · contradiction
    · refine any_getLast_of_all ?_ (all_of_isWordIdentifier hword)
      rintro rfl
      contradiction
  cases hlast : value.getLast? with
  | none =>
    rw [hlast] at hidentifier
    contradiction
  | some c =>
    rw [hlast] at hidentifier
    have hc : isIdentifierChar c = true := hidentifier
    rcases Bool.or_eq_true_iff.mp hc with hword | hdollar
    · exact hword
    · obtain rfl : c = '$' := of_decide_eq_true hdollar
      exact absurd (List.all_eq_true.mp htoken '$' (List.mem_of_getLast? hlast)) (by decide)

/-! ## What is read in another way behind a cut -/

def CutToken (front : Text) : Prop :=
  front ∈ ProviderShape.slackToken.words ∨ front ∈ bearerLead * tokenWords ∨
    ∃ lead ∈ assignLead, ∃ value ∈ tokenWords, hasSecretEntropy value = true ∧ front = lead ++ value

theorem secretAt_none_ne : secretAt none s ≠ none ↔
    knownSecret s ≠ none ∨ bearerSecret s ≠ none ∨ namedSecret s ≠ none := by
  have hboundary : atWordBoundary none = true := rfl
  rw [secretAt, if_pos hboundary]
  cases hknown : knownSecret s with
  | some known => simp
  | none =>
    cases hbearer : bearerSecret s <;> simp

theorem secretAt_eq (hprev : atWordBoundary prev = true) (s : Text) :
    secretAt prev s = secretAt none s := by
  have hnone : atWordBoundary none = true := rfl
  rw [secretAt, secretAt, if_pos hprev, if_pos hnone]

theorem known_transfer {t word rest' : Text} (hknown : Known s word rest) (ht : t = word ++ rest')
    (hhead : rest.head? = rest'.head?) : Known t word rest' := by
  cases hknown with
  | shape hshape hreads hlong hrest =>
    refine .shape hshape ⟨hreads.head_mem, ?_, hreads.run_all, hhead ▸ hreads.rest_head⟩ hlong
      (hhead ▸ hrest)
    rw [ht, List.append_assoc]
  | jwt heyJ hreads =>
    refine .jwt heyJ ⟨?_, hreads.header_mem, hreads.payload_mem, hreads.signature_mem,
      hhead ▸ hreads.rest_head⟩
    rw [ht]
    simp

theorem value_transfer {leads : Language Char} {t lead rest' : Text}
    (hreads : ValueReads leads s lead value rest) (ht : t = (lead ++ value) ++ rest')
    (hhead : rest.head? = rest'.head?) : ValueReads leads t lead value rest' :=
  ⟨hreads.lead_mem, by rw [ht, List.append_assoc], hreads.value_mem, hhead ▸ hreads.rest_head⟩

theorem front_cases (back : Text) {tail found : Text} {mark : Char} (hmark : mark ∉ found)
    (hdivide : front ++ mark :: tail = found ++ rest) :
    front = found ∨ found.length < front.length ∧
      ∃ rest', front ++ back = found ++ rest' ∧ rest.head? = rest'.head? := by
  obtain ⟨more, rfl⟩ := prefix_of_cut hmark ⟨rest, hdivide.symm⟩
  cases more with
  | nil => exact .inl (List.append_nil _)
  | cons c more =>
    rw [List.append_assoc] at hdivide
    obtain rfl := List.append_cancel_left hdivide
    exact .inr ⟨by simp, c :: more ++ back, by rw [List.append_assoc], rfl⟩

theorem ProviderShape.isWordChar_of_body : ∀ shape ∈ providerShapes,
    shape = slackToken ∨ (0 < shape.least ∧ ∀ c, shape.body c = true → isWordChar c = true) := by
  have halnum : ∀ c : Char, c.isAlphanum = true → isWordChar c = true := by
    intro c hc
    simp [isWordChar, hc]
  intro shape hshape
  simp only [providerShapes, List.mem_cons, List.not_mem_nil, or_false] at hshape
  rcases hshape with rfl | rfl | rfl | rfl | rfl
  · exact .inr ⟨by decide, halnum⟩
  · exact .inr ⟨by decide, fun c hc => hc⟩
  · exact .inr ⟨by decide, halnum⟩
  · exact .inl rfl
  · exact .inr ⟨by decide, fun c hc => halnum c (isAlphanum_of_awsKey hc)⟩

theorem ProviderShape.last_run {shape : ProviderShape} (hshape : shape ∈ providerShapes)
    (hother : shape ≠ slackToken) (head : Text) {run : Text} (hrun : run.all shape.body = true)
    (hlong : shape.least ≤ run.length) : (head ++ run).getLast?.any isWordChar = true := by
  obtain ⟨hpos, hword⟩ := (ProviderShape.isWordChar_of_body shape hshape).resolve_left hother
  have hne : run ≠ [] := List.ne_nil_of_length_pos (lt_of_lt_of_le hpos hlong)
  rw [List.getLast?_append, List.getLast?_eq_some_getLast hne]
  exact hword _ (List.all_eq_true.mp hrun _ (List.getLast_mem hne))

theorem known_of_jwt {header payload signature : Text} (rest : Text) (hhead : "eyJ" <+: header)
    (hheader : header ∈ atLeast 10 isSegmentChar) (hpayload : payload ∈ atLeast 10 isSegmentChar)
    (hsignature : signature ∈ atLeast 10 isSegmentChar) :
    ∃ word after, Known (header ++ '.' :: (payload ++ '.' :: (signature ++ rest))) word after := by
  have hreads : JwtReads (header ++ '.' :: (payload ++ '.' :: (signature ++ rest))) header payload
      (signature ++ rest.takeWhile isSegmentChar) (rest.dropWhile isSegmentChar) := by
    refine ⟨?_, hheader, hpayload, ⟨?_, ?_⟩, head_dropWhile _ _⟩
    · rw [List.append_assoc signature, List.takeWhile_append_dropWhile]
    · exact le_trans hsignature.1 (List.prefix_append _ _).length_le
    · rw [List.all_append, hsignature.2, all_takeWhile]
      rfl
  exact ⟨_, _, .jwt hhead hreads⟩

theorem not_mark_isTokenChar : isTokenChar '‹' = false := by decide

theorem secretAt_mark_iff {tail : Text} (hcopied : secretAt none (front ++ back) = none)
    (hlast : front.getLast?.any isWordChar = false) :
    secretAt none (front ++ '‹' :: tail) ≠ none ↔ CutToken front := by
  have hmark : IsMark '‹' := by decide
  rw [secretAt_none_ne]
  constructor
  · rintro (hfound | hfound | hfound)
    · obtain ⟨found, hfound⟩ := Option.ne_none_iff_exists'.mp hfound
      obtain ⟨word, rest, hknown, -⟩ := exists_known hfound
      rcases front_cases back (not_mem_of_all hknown.dense.2.1 hmark.1) hknown.eq with
        rfl | ⟨-, rest', heq, hhead⟩
      · cases hknown with
        | @shape shape head run _ hshape hreads hlong hrest =>
          by_cases hslack : shape = ProviderShape.slackToken
          · subst hslack
            exact .inl (Language.mem_mul.mpr
              ⟨head, hreads.head_mem, run, ⟨hlong, hreads.run_all⟩, rfl⟩)
          · have hword := ProviderShape.last_run hshape hslack head hreads.run_all hlong
            exact absurd hword (Bool.eq_false_iff.mp hlast)
        | jwt heyJ hreads =>
          obtain ⟨word, after, hknown⟩ := known_of_jwt back heyJ hreads.header_mem
            hreads.payload_mem hreads.signature_mem
          refine absurd hcopied (secretAt_none_ne.mpr (.inl ?_))
          simpa using hknown.isSome
      · exact absurd hcopied
          (secretAt_none_ne.mpr (.inl (known_transfer hknown heq hhead).isSome))
    · obtain ⟨found, hfound⟩ := Option.ne_none_iff_exists'.mp hfound
      obtain ⟨lead, value, rest, hreads, href, -⟩ := exists_of_bearerSecret hfound
      obtain ⟨name, separator, hparts⟩ := exists_parts_bearer hreads.lead_mem
      rcases front_cases back (hmark.not_mem_lead hparts hreads.value_mem.2)
        (by rw [hreads.eq, List.append_assoc]) with rfl | ⟨-, rest', heq, hhead⟩
      · exact .inr (.inl (Language.mem_mul.mpr ⟨lead, hreads.lead_mem, value, hreads.value_mem,
          rfl⟩))
      · refine absurd hcopied (secretAt_none_ne.mpr (.inr (.inl ?_)))
        rw [(value_transfer hreads heq hhead).bearerSecret, href]
        simp
    · obtain ⟨found, hfound⟩ := Option.ne_none_iff_exists'.mp hfound
      obtain ⟨lead, value, rest, quote, hreads, ⟨href, hentropy⟩, -⟩ := exists_of_namedSecret hfound
      obtain ⟨name, separator, hparts⟩ := exists_parts_assign hreads.lead_mem
      rcases front_cases back (hmark.not_mem_lead hparts hreads.value_mem.2)
        (by rw [hreads.eq, List.append_assoc]) with rfl | ⟨-, rest', heq, hhead⟩
      · exact .inr (.inr ⟨lead, hreads.lead_mem, value, hreads.value_mem, hentropy, rfl⟩)
      · refine absurd hcopied (secretAt_none_ne.mpr (.inr (.inr ?_)))
        obtain ⟨quote, -, hnamed⟩ := (value_transfer hreads heq hhead).namedSecret
        rw [hnamed, href, hentropy]
        simp
  · -- the value ends with something that no identifier ends with
    have hvalue : ∀ {lead value : Text}, value ∈ tokenWords → front = lead ++ value →
        looksLikeCodeReference value = false := by
      intro lead value hmem hfront
      by_contra href
      have hne : value ≠ [] := List.ne_nil_of_length_pos (lt_of_lt_of_le (by decide) hmem.1)
      have hword := last_of_looksLikeCodeReference hmem.2 (Bool.not_eq_false _ ▸ href)
      rw [hfront, ← lastOr_of_ne_nil (by simp [hne]) none, lastOr_append, lastOr_of_ne_nil hne,
        hword] at hlast
      contradiction
    rintro (hslack | hbearer | ⟨lead, hlead, value, hmem, hentropy, rfl⟩)
    · obtain ⟨head, hhead, run, ⟨hlong, hrun⟩, rfl⟩ := Language.mem_mul.mp hslack
      have hshape : ProviderShape.slackToken ∈ providerShapes := by
        simp [providerShapes]
      have hreads : ProviderShape.slackToken.Reads (head ++ run ++ '‹' :: tail) head run
          ('‹' :: tail) :=
        ⟨hhead, List.append_assoc .., hrun, rfl⟩
      exact .inl (Known.isSome (.shape hshape hreads hlong rfl))
    · obtain ⟨lead, hlead, value, hmem, rfl⟩ := Language.mem_mul.mp hbearer
      have hreads : ValueReads bearerLead (lead ++ value ++ '‹' :: tail) lead value ('‹' :: tail) :=
        ⟨hlead, List.append_assoc .., hmem, not_mark_isTokenChar⟩
      refine .inr (.inl ?_)
      rw [hreads.bearerSecret, hvalue hmem rfl]
      simp
    · have hreads : ValueReads assignLead (lead ++ value ++ '‹' :: tail) lead value ('‹' :: tail) :=
        ⟨hlead, List.append_assoc .., hmem, not_mark_isTokenChar⟩
      obtain ⟨quote, -, hnamed⟩ := hreads.namedSecret
      refine .inr (.inr ?_)
      rw [hnamed, hvalue hmem rfl, hentropy]
      simp

end Difflore.Observability
