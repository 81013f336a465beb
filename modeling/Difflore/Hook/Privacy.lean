import Difflore.Foundation.Lines
import Difflore.Foundation.Marker

/-! # What must stay local

The deny list of the classifier, the patterns it is documented with, and the removal
of private-tagged regions.
-/

namespace Difflore.Hook

open Foundation Text

/-- `str::split(['/', '\\'])`. -/
def pathSegments (path : Text) : List Text := path.splitOnP fun c => c = '/' || c = '\\'

def isPrivacyDenied (path : Text) : Bool := (pathSegments path).any fun segment =>
    let name := toAsciiLowercase segment
    name = ".env" || ".env." <+: name || ".secrets" <:+: name ||
      ".key" <:+ name || ".pem" <:+ name || name = "id_rsa" ||
      "id_rsa." <+: name || name = "credentials" ||
      "credentials." <+: name

/-- A name pattern in which `*` stands for any text. -/
def wildcardMatch : Text → Text → Bool
  | [], name => name = []
  | c :: pattern, name =>
    if c = '*' then name.tails.any (wildcardMatch pattern)
    else match name with
      | [] => false
      | d :: rest => c = d && wildcardMatch pattern rest

def documentedPatterns : List Text := [".env*", "*.secrets*", "*.key", "*.pem", "id_rsa*",
    "credentials*"]

/-- A path one of whose segments matches a documented pattern, ignoring case. -/
def isDocumentedDenied (path : Text) : Bool := (pathSegments path).any fun segment =>
    documentedPatterns.any (wildcardMatch · (toAsciiLowercase segment))

/-- The documentation promises more than the list keeps. -/
example : isDocumentedDenied "deploy/.envrc" = true ∧
    isPrivacyDenied "deploy/.envrc" = false := by decide

def privateRedaction : Text := "[redacted private content]"

def privateTagPairs : List (Text × Text) := [("<private>", "</private>"), ("<secret>", "</secret>"),
    ("<sensitive>", "</sensitive>")]

/-- The opening tag that comes first, with where it stands and its closing tag. -/
def nextPrivateOpenTag (lower : Text) : Option (Nat × Text × Text) :=
  (privateTagPairs.filterMap fun (opening, closing) =>
    (find opening lower).map fun start => (start, opening, closing)).foldl
    (fun best candidate => match best with
      | none => some candidate
      | some found => if candidate.1 < found.1 then some candidate else some found) none

/-- Every region goes, from its opening tag to the closing one or to the end. Each round
consumes an opening tag, so the length of the text is enough fuel. -/
def stripPrivateFrom : Nat → Text → Text
  | 0, input => input
  | fuel + 1, input =>
    match nextPrivateOpenTag (toAsciiLowercase input) with
    | none => input
    | some (start, opening, closing) =>
      let content := input.drop (start + opening.length)
      let rest := match find closing (toAsciiLowercase content) with
        | some relEnd => content.drop (relEnd + closing.length)
        | none => []
      input.take start ++ (privateRedaction ++ stripPrivateFrom fuel rest)

def stripPrivateTaggedRegions (input : Text) : Text := stripPrivateFrom input.length input

example : stripPrivateTaggedRegions
    "keep <private>token=abc</private> and <Secret>sk-123" =
    "keep [redacted private content] and [redacted private content]" := by decide

end Difflore.Hook
