import Difflore.Infra.RepoScope
import Difflore.Ingest.ReviewStore

/-! # Importing GitHub reviews

A pull request becomes a review item; its thread comments, review bodies and discussion comments
become the comments of the item. Pull requests may be read from an upstream and attached to a
fork.
-/

namespace Difflore.Ingest

open Foundation Text

/-- The paths of changed files, without blank ones and repetitions. -/
def distinctPaths (paths : List Text) : List Text :=
  distinct (paths.filter fun path => trim path ≠ [])

namespace Github

structure ActorNode where
  typeName : Option Text
  login : Text

structure ReactionGroupNode where
  content : Option Text
  totalCount : Int

structure ReviewCommentNode where
  databaseId : Option Int
  body : Text
  author : Option ActorNode
  path : Option Text
  line : Option Int
  url : Option Text
  pullRequestReview : Option Int
  reactionGroups : List ReactionGroupNode

structure ReviewThreadNode where
  isResolved : Bool
  comments : List ReviewCommentNode

structure BodyNode where
  databaseId : Option Int
  body : Text
  author : Option ActorNode
  url : Option Text
  reactionGroups : List ReactionGroupNode

structure PrNode where
  number : Option Int
  author : Option ActorNode
  files : List Text
  comments : List BodyNode
  reviews : List BodyNode
  reviewThreads : List ReviewThreadNode

/-- `repo` is attached to, `sourceRepo` is read from. -/
structure ImportOptions where
  repo : Text
  sourceRepo : Text
  projectId : Text
  excludePrs : List Int

def ownerRepoChar (c : Char) : Bool := c.isAlphanum || c = '.' || c = '_' || c = '-'

def validateOwnerRepo (s : Text) : Bool := (Infra.splitOnce '/' s).any fun (owner, repo) =>
    owner ≠ [] && repo ≠ [] && owner.all ownerRepoChar && repo.all ownerRepoChar

def importedExternalId (repo sourceRepo : Text) (dbId : Int) : Text :=
  if repo = sourceRepo then decimal dbId
  else repo ++ ':' :: (sourceRepo ++ ':' :: decimal dbId)

def changedFilePaths (pr : PrNode) : List Text := distinctPaths pr.files

def itemMetadataJson (opts : ImportOptions) (pr : PrNode) : Option ItemMetadata :=
  let paths := changedFilePaths pr
  if opts.sourceRepo = opts.repo && paths = [] then none
  else
    let attached := opts.sourceRepo ≠ opts.repo
    some
      { sourceRepoFullName := if attached then some opts.sourceRepo else none
        attachedRepoFullName := if attached then some opts.repo else none
        gitlabHost := none
        changedFilePaths := paths }

def nonEmptyPath (path : Text) : Bool := trim path ≠ []

/-- The first path of a thread comment, else of a changed file, else nothing. -/
def representativeFilePath (pr : PrNode) : Text :=
  (((pr.reviewThreads.flatMap (·.comments)).filterMap (·.path)).find? nonEmptyPath |>.or
    (pr.files.find? nonEmptyPath)).getD []

def CommentDurabilitySignal.fromReactionGroups (groups : List ReactionGroupNode) :
    CommentDurabilitySignal :=
  let count (kind : Text) : Int := ((groups.filter fun group =>
    group.content = some kind).map fun group => max group.totalCount 0).sum
  { CommentDurabilitySignal.default with
    reactionsTotal := (groups.map fun group => max group.totalCount 0).sum
    thumbsUp := count "THUMBS_UP"
    thumbsDown := count "THUMBS_DOWN" }

def bot : Text := "Bot"

def humanKind : Text := "human"

def botPrefix : Text := "bot:"

def actorSourceKind (actor : Option ActorNode) : Option Text := actor.bind fun actor =>
    let login := trim actor.login
    if login = [] then none
    else actor.typeName.map fun typeName => if typeName = bot then botPrefix ++ login else humanKind

def githubCommentMetadataJson (filePath sourceRepo : Option Text) (attachedRepo : Text)
    (sourceKind : Option Text) (signal : CommentDurabilitySignal) (actor : Option ActorNode) :
    CommentMetadata :=
  let typeName := actor.bind (·.typeName)
  { commentMetadataJson filePath sourceRepo attachedRepo sourceKind signal with
    authorType := typeName
    authorIsBot := typeName.map fun typeName => typeName = bot }

def earlierLimit : Nat := 10

def firstDistinct (limit : Nat) (values : List Text) : List Text := (distinct values).take limit

def earlierComments (comments : List ReviewCommentNode) (idx : Nat) : List ReviewCommentNode :=
  (comments.take idx).filter fun earlier => trim earlier.body ≠ []

def earlierThreadAuthors (comments : List ReviewCommentNode) (idx : Nat) : List Text :=
  firstDistinct earlierLimit ((earlierComments comments idx).filterMap fun earlier =>
    (earlier.author.map fun author => trim author.login).filter (· ≠ []))

def earlierThreadSourceKinds (comments : List ReviewCommentNode) (idx : Nat) : List Text :=
  firstDistinct earlierLimit ((earlierComments comments idx).filterMap fun earlier =>
    actorSourceKind earlier.author)

def threadSignal (thread : ReviewThreadNode) (idx : Nat) (comment : ReviewCommentNode) :
    CommentDurabilitySignal :=
  { CommentDurabilitySignal.fromReactionGroups comment.reactionGroups with
    resolved := thread.isResolved
    laterReplies := ((thread.comments.drop (idx + 1)).map (·.body)).filter
      fun body => trim body ≠ []
    earlierThreadAuthors := earlierThreadAuthors thread.comments idx
    earlierThreadSourceKinds := earlierThreadSourceKinds thread.comments idx }

def itemId (repo : Text) (number : Int) : Text := "gh-import:" ++ (repo ++ '#' :: decimal number)

def item (opts : ImportOptions) (pr : PrNode) (number : Int) : ReviewItem where
  id := itemId opts.repo number
  projectId := opts.projectId
  filePath := representativeFilePath pr
  status := "imported"
  source := "github"
  sourceKind := "github_import"
  externalReviewId := itemId opts.repo number
  repoFullName := opts.repo
  prNumber := some number
  author := pr.author.map (·.login)
  metadata := itemMetadataJson opts pr

def inlinePrefix : Text := "inline-comment-"

def reviewPrefix : Text := "review-"

def discussionPrefix : Text := "issue-comment-"

section Persist

variable (opts : ImportOptions) (number : Int)

def pull : Pull := .github opts.repo opts.sourceRepo number

/-- A comment of a thread also counts as stored under the id that older versions gave it. -/
def inlineArrival (thread : ReviewThreadNode) (comment : ReviewCommentNode) (idx : Nat)
    (dbId : Int) : Arrival ReviewComment Text :=
  let legacyExtId := importedExternalId opts.repo opts.sourceRepo dbId
  let extId := inlinePrefix ++ legacyExtId
  { lookups := [extId, legacyExtId]
    row :=
      { reviewItemId := itemId opts.repo number
        externalCommentId := extId
        lineNumber := storedReviewCommentLineNumber comment.line
        content := comment.body
        author := comment.author.map (·.login)
        commentUrl := comment.url
        threadId := comment.pullRequestReview.map decimal
        metadata := githubCommentMetadataJson comment.path (some opts.sourceRepo) opts.repo
          (actorSourceKind comment.author) (threadSignal thread idx comment) comment.author
        origin := ⟨pull opts number, .inline, dbId⟩ } }

def inlineComments (pr : PrNode) : List (Arrival ReviewComment Text) :=
  pr.reviewThreads.flatMap fun thread => thread.comments.zipIdx.filterMap fun (comment, idx) =>
    comment.databaseId.bind fun dbId =>
      if trim comment.body = [] then none
      else some (inlineArrival opts number thread comment idx dbId)

/-- A review body or a discussion comment, with the parts in which they differ. -/
def bodyArrival (idPrefix : Text) (kind : CommentKind) (filePath sourceKind : Option Text)
    (threadId : Int → Text) (node : BodyNode) (dbId : Int) : Arrival ReviewComment Text :=
  let extId := idPrefix ++ importedExternalId opts.repo opts.sourceRepo dbId
  { lookups := [extId]
    row :=
      { reviewItemId := itemId opts.repo number
        externalCommentId := extId
        lineNumber := storedReviewCommentLineNumber none
        content := node.body
        author := node.author.map (·.login)
        commentUrl := node.url
        threadId := some (threadId dbId)
        metadata := githubCommentMetadataJson filePath (some opts.sourceRepo) opts.repo sourceKind
          (CommentDurabilitySignal.fromReactionGroups node.reactionGroups) node.author
        origin := ⟨pull opts number, kind, dbId⟩ } }

def importableBodies (nodes : List BodyNode) (arrival : BodyNode → Int →
    Arrival ReviewComment Text) : List (Arrival ReviewComment Text) :=
  nodes.filterMap fun node =>
    if trim node.body = [] then none else node.databaseId.map (arrival node)

def reviewBodies (pr : PrNode) : List (Arrival ReviewComment Text) :=
  importableBodies pr.reviews fun review dbId =>
    bodyArrival opts number reviewPrefix .review none (actorSourceKind review.author) decimal
      review dbId

def issueComment : Text := "issue_comment"

def discussionComments (pr : PrNode) : List (Arrival ReviewComment Text) :=
  let filePath := some (representativeFilePath pr)
  importableBodies pr.comments fun comment dbId =>
    bodyArrival opts number discussionPrefix .discussion (filePath.filter nonEmptyPath)
      (some issueComment) (fun dbId => discussionPrefix ++ decimal dbId) comment dbId

/-- The importable comments of a pull request, in the order in which they arrive. -/
def arrivals (pr : PrNode) : List (Arrival ReviewComment Text) := inlineComments opts number pr ++
    (reviewBodies opts number pr ++ discussionComments opts number pr)

def persistPullRequest (pr : PrNode) (run : ImportRun) : ImportRun :=
  (run.ensureItem (item opts pr number)).addAll (arrivals opts number pr)

end Persist

def carriesContent (pr : PrNode) : Bool :=
  pr.reviewThreads.any (·.comments ≠ []) || pr.reviews.any (trim ·.body ≠ []) ||
    pr.comments.any (trim ·.body ≠ [])

def persisted (opts : ImportOptions) (collected : List PrNode) : List (Int × PrNode) :=
  ((collected.filter fun pr => pr.number.all (· ∉ opts.excludePrs)).filter carriesContent).filterMap
    fun pr => pr.number.map (·, pr)

/-- Persist what was collected from the provider. Refused names import nothing. -/
def importPrReviews (opts : ImportOptions) (collected : List PrNode) (run : ImportRun) :
    Option ImportRun :=
  if validateOwnerRepo opts.repo && (opts.sourceRepo = [] || validateOwnerRepo opts.sourceRepo) then
    some ((persisted opts collected).foldl (fun run (number, pr) =>
      persistPullRequest opts number pr run) run)
  else none

end Github

/-! ## Importing GitLab reviews -/

namespace Gitlab

structure Note where
  id : Int
  body : Text
  author : Option Text
  system : Bool
  resolvable : Bool
  resolved : Bool
  position : Option (Option Text × Option Int)

structure Discussion where
  id : Text
  notes : List Note

structure DiffNode where
  oldPath : Option Text
  newPath : Option Text

structure MergeRequest where
  iid : Int
  author : Option Text
  webUrl : Option Text
  discussions : List Discussion
  diffs : List DiffNode

structure Host where
  name : Text
  noSlash : '/' ∉ name

structure ImportOptions where
  host : Host
  projectPath : Text
  projectId : Text
  excludeMrs : List Int

def validateGitlabProjectPath (path : Text) : Bool :=
  let segments := path.splitOn '/'
  2 ≤ segments.length &&
    !segments.getLast?.any (fun last => Infra.gitSuffix <:+ toAsciiLowercase last) &&
    segments.all fun segment => segment ≠ [] && segment ≠ Infra.dot && segment ≠ Infra.dotDot &&
      segment.all Infra.segmentChar

def itemId (host projectPath : Text) (iid : Int) : Text :=
  "gl-import:" ++ (host ++ '/' :: (projectPath ++ '#' :: decimal iid))

def externalCommentId (noteId : Int) : Text := "gl:" ++ decimal noteId

def changedFilePaths (diffs : List DiffNode) : List Text :=
  distinctPaths ((diffs.flatMap fun diff =>
    if diff.oldPath = diff.newPath then [diff.newPath] else [diff.newPath, diff.oldPath]).filterMap
      fun path => path.map trim)

def itemMetadataJson (host : Text) (diffs : List DiffNode) : ItemMetadata where
  sourceRepoFullName := none
  attachedRepoFullName := none
  gitlabHost := some host
  changedFilePaths := changedFilePaths diffs

def discussionResolved (notes : List Note) : Bool :=
  notes.any (·.resolvable) && notes.all fun note => !note.resolvable || note.resolved

def isImportableNote (note : Note) : Bool := !note.system && trim note.body ≠ []

def hasImportableNotes (discussions : List Discussion) : Bool :=
  (discussions.flatMap (·.notes)).any isImportableNote

def noteCommentUrl (mrWebUrl : Option Text) (noteId : Int) : Option Text :=
  mrWebUrl.map fun url => url ++ ("#note_" ++ decimal noteId)

def inlinePath (note : Note) : Option Text := ((note.position.bind (·.1)).map trim).filter (· ≠ [])

def representativeFilePath (discussions : List Discussion) (diffs : List DiffNode) : Text :=
  ((((discussions.flatMap (·.notes)).filter isImportableNote).findSome? inlinePath).or
    (changedFilePaths diffs).head?).getD []

def noteAuthor (note : Note) : Option Text := (note.author.map trim).filter (· ≠ [])

def earlierNotes (notes : List Note) (index : Nat) : List Note :=
  (notes.take index).filter isImportableNote

def distinctAuthors (notes : List Note) : List Text := distinct (notes.filterMap noteAuthor)

def noteSignal (discussion : Discussion) (index : Nat) : CommentDurabilitySignal :=
  { CommentDurabilitySignal.default with
    resolved := discussionResolved discussion.notes
    laterReplies := ((discussion.notes.drop (index + 1)).filter isImportableNote).map (·.body)
    earlierThreadAuthors := distinctAuthors (earlierNotes discussion.notes index) }

def inI32 (n : Int) : Bool := -2 ^ 31 ≤ n && n < 2 ^ 31

def item (opts : ImportOptions) (mr : MergeRequest) : ReviewItem where
  id := itemId opts.host.name opts.projectPath mr.iid
  projectId := opts.projectId
  filePath := representativeFilePath mr.discussions mr.diffs
  status := "imported"
  source := "gitlab"
  sourceKind := "gitlab_import"
  externalReviewId := itemId opts.host.name opts.projectPath mr.iid
  repoFullName := opts.projectPath
  prNumber := if inI32 mr.iid then some mr.iid else none
  author := mr.author
  metadata := some (itemMetadataJson opts.host.name mr.diffs)

def pull (opts : ImportOptions) (mr : MergeRequest) : Pull :=
  .gitlab opts.host.name opts.projectPath mr.iid

def mrComment : Text := "mr_comment"

def noteArrival (opts : ImportOptions) (mr : MergeRequest) (discussion : Discussion)
    (note : Note) (index : Nat) : Arrival ReviewComment Text where
  lookups := [externalCommentId note.id]
  row :=
    { reviewItemId := itemId opts.host.name opts.projectPath mr.iid
      externalCommentId := externalCommentId note.id
      lineNumber := storedReviewCommentLineNumber (note.position.bind (·.2))
      content := note.body
      author := note.author
      commentUrl := noteCommentUrl mr.webUrl note.id
      threadId := some discussion.id
      metadata := commentMetadataJson (inlinePath note) none opts.projectPath
        (if note.position.isSome then none else some mrComment) (noteSignal discussion index)
      origin := ⟨pull opts mr, .note, note.id⟩ }

def arrivals (opts : ImportOptions) (mr : MergeRequest) : List (Arrival ReviewComment Text) :=
  mr.discussions.flatMap fun discussion =>
    discussion.notes.zipIdx.filterMap fun (note, index) =>
      if isImportableNote note then some (noteArrival opts mr discussion note index) else none

def persistMergeRequest (opts : ImportOptions) (mr : MergeRequest) (run : ImportRun) : ImportRun :=
  (run.ensureItem (item opts mr)).addAll (arrivals opts mr)

def persisted (opts : ImportOptions) (collected : List MergeRequest) : List MergeRequest :=
  (collected.filter fun mr => mr.iid ∉ opts.excludeMrs).filter fun mr =>
    hasImportableNotes mr.discussions

/-- Persist what was collected from the provider. A refused path imports nothing. -/
def importMrReviews (opts : ImportOptions) (collected : List MergeRequest) (run : ImportRun) :
    Option ImportRun :=
  if validateGitlabProjectPath opts.projectPath then
    some ((persisted opts collected).foldl (fun run mr => persistMergeRequest opts mr run) run)
  else none

end Gitlab

end Difflore.Ingest
