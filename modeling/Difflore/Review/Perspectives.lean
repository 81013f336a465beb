import Difflore.Foundation.Nearest
import Difflore.Foundation.Text

/-! # Review issues -/

namespace Difflore.Review

open Foundation

/-- The parts of a review issue that are read after the model has answered. -/
structure ReviewIssueRecord where
  rule : Text
  ruleId : Option Text
  message : Text
  file : Option Text
  line : Option Int
  suggestion : Option Text

/-! ## Merging the passes of several perspectives

Each perspective reviews the diff by itself. Issues of one key are merged: the one of the highest
severity stays, in the place of the first, with the perspectives of all.
-/

inductive ReviewPerspective
  | safety
  | performance
  | style
  | docs
  | apiDesign

def ReviewPerspective.name : ReviewPerspective → Text
  | .safety => "safety"
  | .performance => "performance"
  | .style => "style"
  | .docs => "docs"
  | .apiDesign => "api_design"

structure RatedIssue extends ReviewIssueRecord where
  severity : Text
  perspectives : List Text

def errorSeverity : Text := "error"

def criticalSeverity : Text := "critical"

def warningSeverity : Text := "warning"

def infoSeverity : Text := "info"

def severityRank (severity : Text) : Nat :=
  if severity = errorSeverity then 3
  else if severity = warningSeverity then 2
  else if severity = infoSeverity then 1
  else 0

/-- The test of `count_blocking`. -/
def RatedIssue.isBlocking (issue : RatedIssue) : Bool :=
  issue.severity = errorSeverity || issue.severity = criticalSeverity

def countBlocking (issues : List RatedIssue) : Nat × Nat :=
  (issues.countP (·.isBlocking), issues.countP (!·.isBlocking))

def mergeKey (issue : ReviewIssueRecord) : Text := issue.file.getD [] ++
    ('|' :: ((issue.line.map decimal).getD [] ++ ('|' :: issue.ruleId.getD issue.rule)))

def addPerspective (perspectives : List Text) (name : Text) : List Text :=
  if name ∈ perspectives then perspectives else perspectives ++ [name]

def combineIssues (name : Text) (existing issue : RatedIssue) : RatedIssue :=
  if severityRank existing.severity < severityRank issue.severity then
    { issue with perspectives := addPerspective existing.perspectives name }
  else { existing with perspectives := addPerspective existing.perspectives name }

/-- The issues in the order of their keys' first ones, with one more. -/
def mergeIssue (name : Text) (issue : RatedIssue) : List RatedIssue → List RatedIssue
  | [] => [{ issue with perspectives := addPerspective issue.perspectives name }]
  | existing :: rest =>
    if mergeKey existing.toReviewIssueRecord = mergeKey issue.toReviewIssueRecord then
      combineIssues name existing issue :: rest
    else existing :: mergeIssue name issue rest

def canonicalPerspectives : List Text :=
  [ReviewPerspective.safety, .performance, .style, .docs, .apiDesign].map ReviewPerspective.name

/-- The canonical perspectives in their order, then the other ones. -/
def orderPerspectives (issue : RatedIssue) : RatedIssue :=
  { issue with
    perspectives := issue.perspectives.foldl addPerspective
      (canonicalPerspectives.filter (· ∈ issue.perspectives)) }

def mergePerspectiveIssues (perPerspective : List (ReviewPerspective × List RatedIssue)) :
    List RatedIssue :=
  (perPerspective.foldl (fun merged (perspective, issues) =>
    issues.foldl (fun merged issue => mergeIssue perspective.name issue merged) merged) []).map
      orderPerspectives

end Difflore.Review
