import Difflore.Context.RuleSource
import Difflore.Hook.Privacy

/-! # The content hash of a rule

Deduplication and tombstones compare rules by a digest of their patterns, title and body,
after the normalization that storing them applies.
-/

namespace Difflore.Context

open Foundation Text Hook

/-- The libraries of `remember`: the redaction of secrets and the digest in hexadecimal. -/
structure RememberLibrary extends Library where
  redactSecrets : Text → Text
  sha256Hex : Text → Text

def sortedPatterns (patterns : List Text) : List Text :=
  (((patterns.map trim).filter (· ≠ [])).insertionSort (· ≤ ·)).destutter (· ≠ ·)

def canonicalFilePatternsCsv (patterns : Option (List Text)) : Text :=
  patterns.elim [] fun patterns => [','].intercalate (sortedPatterns patterns)

variable (library : RememberLibrary)

def sanitizeRememberText (input : Text) : Text :=
  library.redactSecrets (stripPrivateTaggedRegions input)

def sanitizedBody (body : Text) : Text := trim (sanitizeRememberText library (trim body))

def rememberContentHash (filePatternsCsv title body : Text) : Text :=
  library.sha256Hex (filePatternsCsv ++ ('\n' :: (title ++ ('\n' :: body))))

def rememberRuleContentHash (title body : Text) (filePatterns : Option (List Text)) : Text :=
  rememberContentHash library (canonicalFilePatternsCsv filePatterns) (trim title)
    (sanitizedBody library body)

theorem mem_sortedPatterns {patterns : List Text} {pattern : Text}
    (hmem : pattern ∈ sortedPatterns patterns) : trim pattern = pattern ∧ pattern ≠ [] := by
  have hsub := (List.destutter_sublist _ _).subset hmem
  rw [List.mem_insertionSort, List.mem_filter] at hsub
  obtain ⟨original, _, rfl⟩ := List.mem_map.mp hsub.1
  exact ⟨trim_trim original, of_decide_eq_true hsub.2⟩

theorem sortedPatterns_idem (patterns : List Text) :
    sortedPatterns (sortedPatterns patterns) = sortedPatterns patterns := by
  have htrimmed : (sortedPatterns patterns).map trim = sortedPatterns patterns := by
    conv => rhs; rw [← List.map_id (sortedPatterns patterns)]
    apply List.map_congr_left
    intro pattern hmem
    exact (mem_sortedPatterns hmem).1
  have hfiltered : (sortedPatterns patterns).filter (· ≠ []) = sortedPatterns patterns := by
    rw [List.filter_eq_self]
    intro pattern hmem
    exact decide_eq_true (mem_sortedPatterns hmem).2
  have hsorted : (sortedPatterns patterns).Pairwise (· ≤ ·) :=
    (List.pairwise_insertionSort (· ≤ ·) _).sublist (List.destutter_sublist _ _)
  rw [sortedPatterns, htrimmed, hfiltered, hsorted.insertionSort_eq]
  exact List.destutter_idem _ _

end Difflore.Context
