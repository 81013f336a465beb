import Difflore.Foundation.Arrivals
import Difflore.Foundation.KeyedTable
import Difflore.Foundation.Text

/-! # The review store

Imports write review items, full-replaced by their id, and review comments, which are skipped
when a comment with one of the given external ids exists. Metadata is modelled as the value its
JSON text parses to.
-/

namespace Difflore.Ingest

open Foundation

structure ItemMetadata where
  sourceRepoFullName : Option Text
  attachedRepoFullName : Option Text
  gitlabHost : Option Text
  changedFilePaths : List Text
  deriving DecidableEq

structure ReviewItem where
  id : Text
  projectId : Text
  filePath : Text
  status : Text
  source : Text
  sourceKind : Text
  externalReviewId : Text
  repoFullName : Text
  prNumber : Option Int
  author : Option Text
  metadata : Option ItemMetadata
  deriving DecidableEq

/-- What later replies, reactions and the thread say about a comment. -/
structure CommentDurabilitySignal where
  resolved : Bool
  reactionsTotal : Int
  thumbsUp : Int
  thumbsDown : Int
  laterReplies : List Text
  earlierThreadAuthors : List Text
  earlierThreadSourceKinds : List Text
  deriving DecidableEq

def CommentDurabilitySignal.default : CommentDurabilitySignal where
  resolved := false
  reactionsTotal := 0
  thumbsUp := 0
  thumbsDown := 0
  laterReplies := []
  earlierThreadAuthors := []
  earlierThreadSourceKinds := []

/-- The provenance of a comment and its signal. The signal keys are left out of the JSON text
where they are neutral, and read back as neutral. -/
structure CommentMetadata where
  filePath : Option Text
  sourceRepoFullName : Option Text
  attachedRepoFullName : Text
  sourceKind : Option Text
  signal : CommentDurabilitySignal
  authorType : Option Text
  authorIsBot : Option Bool
  deriving DecidableEq

def commentMetadataJson (filePath sourceRepo : Option Text) (attachedRepo : Text)
    (sourceKind : Option Text) (signal : CommentDurabilitySignal) : CommentMetadata where
  filePath
  sourceRepoFullName := (sourceRepo.map Text.trim).filter (· ≠ [])
  attachedRepoFullName := attachedRepo
  sourceKind
  signal
  authorType := none
  authorIsBot := none

/-! ## Where comments come from -/

/-- The target of an import and a pull or merge request read for it. -/
inductive Pull
  | github (repo sourceRepo : Text) (number : Int)
  | gitlab (host projectPath : Text) (iid : Int)
  deriving DecidableEq

inductive CommentKind
  | inline
  | review
  | discussion
  | note
  deriving DecidableEq

structure Origin where
  pull : Pull
  kind : CommentKind
  id : Int
  deriving DecidableEq

/-- A stored comment. `origin` is not stored: it says which comment this one was made from. -/
structure ReviewComment where
  reviewItemId : Text
  externalCommentId : Text
  lineNumber : Int
  content : Text
  author : Option Text
  commentUrl : Option Text
  threadId : Option Text
  metadata : CommentMetadata
  origin : Origin
  deriving DecidableEq

def unknownReviewCommentLineNumber : Int := -1

def storedReviewCommentLineNumber (lineNumber : Option Int) : Int :=
  (lineNumber.filter (0 < ·)).getD unknownReviewCommentLineNumber

structure ReviewStore where
  items : KeyedTable ReviewItem ReviewItem.id
  comments : List ReviewComment

namespace ReviewStore

def empty : ReviewStore := ⟨.empty, []⟩

variable (store : ReviewStore)

def commentExists (externalId : Text) : Bool :=
  store.comments.any (·.externalCommentId = externalId)

def ensureItem (item : ReviewItem) : ReviewStore :=
  { store with
    items := store.items.upsert item (fun old => { item with id := old.id }) fun _ => rfl }

theorem find_ensureItem (item : ReviewItem) (id : Text) : (store.ensureItem item).items.find id =
      if id = item.id then some item else store.items.find id := by
  unfold ensureItem
  rw [KeyedTable.find_upsert]
  split
  next =>
    unfold KeyedTable.upserted
    cases hfind : store.items.find item.id with
    | none => rfl
    | some old =>
      rw [Option.elim_some, (KeyedTable.find_eq_some.mp hfind).2]
  next => rfl

end ReviewStore

structure ImportProgress where
  commentsImported : Nat
  commentsSkipped : Nat

structure ImportRun where
  store : ReviewStore
  progress : ImportProgress

namespace ImportRun

variable (run : ImportRun)

def ensureItem (item : ReviewItem) : ImportRun := { run with store := run.store.ensureItem item }

def addUnlessExists (arrival : Arrival ReviewComment Text) : ImportRun :=
  if arrival.lookups.any run.store.commentExists then
    { run with
      progress := { run.progress with commentsSkipped := run.progress.commentsSkipped + 1 } }
  else
    { store := { run.store with comments := run.store.comments ++ [arrival.row] }
      progress := { run.progress with commentsImported := run.progress.commentsImported + 1 } }

theorem comments_addUnlessExists (arrival : Arrival ReviewComment Text) :
    (run.addUnlessExists arrival).store.comments =
      arrive ReviewComment.externalCommentId run.store.comments arrival := by
  have hknown : known ReviewComment.externalCommentId run.store.comments arrival.lookups =
      arrival.lookups.any run.store.commentExists := by
    rw [Bool.eq_iff_iff]
    unfold known ReviewStore.commentExists
    simp only [List.any_eq_true, decide_eq_true_eq]
    constructor
    · rintro ⟨row, hrow, hkey⟩
      exact ⟨_, hkey, row, hrow, rfl⟩
    · rintro ⟨key, hkey, row, hrow, rfl⟩
      exact ⟨row, hrow, hkey⟩
  unfold addUnlessExists arrive
  rw [hknown]
  split <;> rfl

theorem items_addUnlessExists (arrival : Arrival ReviewComment Text) :
    (run.addUnlessExists arrival).store.items = run.store.items := by
  unfold addUnlessExists
  split <;> rfl

def addAll (arrivals : List (Arrival ReviewComment Text)) : ImportRun :=
  arrivals.foldl addUnlessExists run

theorem comments_addAll (arrivals : List (Arrival ReviewComment Text)) :
    (run.addAll arrivals).store.comments =
      arrivals.foldl (arrive ReviewComment.externalCommentId) run.store.comments := by
  induction arrivals generalizing run with
  | nil => rfl
  | cons arrival rest ih =>
    exact (ih (run.addUnlessExists arrival)).trans (by rw [comments_addUnlessExists]; rfl)

theorem items_addAll (arrivals : List (Arrival ReviewComment Text)) :
    (run.addAll arrivals).store.items = run.store.items := by
  induction arrivals generalizing run with
  | nil => rfl
  | cons arrival rest ih =>
    exact (ih (run.addUnlessExists arrival)).trans (run.items_addUnlessExists arrival)

end ImportRun

end Difflore.Ingest
