import Difflore.Ingest.Github

/-! # Who a comment comes from

A stored comment is labelled by its author and by the earlier authors of its thread that its
metadata recorded. The GitHub importer records the first ten different authors and the first ten
different kinds of actors, the GitLab importer records every author.
-/

namespace Difflore.Ingest

open Foundation Text

def nonBlank (value : Option Text) : Option Text := (value.map trim).filter (· ≠ [])

def botNames : List Text := ["github-actions", "github-actions[bot]"]

def botSuffixes : List Text := ["[bot]", "-bot"]

def botNeedles : List Text := ["codecov", "coderabbit", "code-rabbit", "dependabot", "renovate"]

def isBotAuthor (author : Option Text) : Bool := (nonBlank author).any fun author =>
    let lower := toAsciiLowercase author
    lower ∈ botNames || botSuffixes.any (fun suffix => suffix <:+ lower) ||
      botNeedles.any (fun needle => needle <:+: lower)

def aiReviewerPrefix : Text := "ai_reviewer:"

def humanOverrideBotKind : Text := "human_override_bot"

def sourceKindRequiresHumanValidation (kind : Text) : Bool :=
  let kind := trim kind
  Github.botPrefix <+: kind || aiReviewerPrefix <+: kind || kind = humanOverrideBotKind

inductive ReviewSourceKind
  | human
  | bot (name : Text)
  | humanOverrideBot
  deriving DecidableEq

namespace ReviewSourceKind

def unknownBot : Text := "unknown-bot"

def botNamed (author : Option Text) : ReviewSourceKind := .bot ((nonBlank author).getD unknownBot)

def fromCommentAuthor (author : Option Text) : ReviewSourceKind :=
  if isBotAuthor author then botNamed author else .human

def fromCommentAuthorType (author : Option Text) (authorIsBot : Option Bool) : ReviewSourceKind :=
  if authorIsBot = some true then botNamed author else fromCommentAuthor author

/-- Somebody who answers a bot is neither the bot nor an independent human. -/
def fromCommentContext (author : Option Text) (authorIsBot : Option Bool)
    (earlierThreadAuthors earlierThreadSourceKinds : List Text) : ReviewSourceKind :=
  let own := fromCommentAuthorType author authorIsBot
  if own = .human && (earlierThreadAuthors.any (fun earlier => isBotAuthor (some earlier)) ||
      earlierThreadSourceKinds.any sourceKindRequiresHumanValidation) then .humanOverrideBot
  else own

def requiresHumanValidation : ReviewSourceKind → Bool
  | .human => false
  | .bot _ | .humanOverrideBot => true

def wireLabel : ReviewSourceKind → Text
  | .human => Github.humanKind
  | .bot name => Github.botPrefix ++ name
  | .humanOverrideBot => humanOverrideBotKind

end ReviewSourceKind

def byBot (author : Option Text) (authorIsBot : Option Bool) : Bool :=
  authorIsBot = some true || isBotAuthor author

namespace ReviewComment

variable (comment : ReviewComment)

def byBot : Bool := Ingest.byBot comment.author comment.metadata.authorIsBot

def label : ReviewSourceKind := .fromCommentContext comment.author comment.metadata.authorIsBot
    comment.metadata.signal.earlierThreadAuthors comment.metadata.signal.earlierThreadSourceKinds

end ReviewComment

theorem ReviewSourceKind.fromCommentAuthorType_eq_human {author : Option Text}
    {authorIsBot : Option Bool} :
    fromCommentAuthorType author authorIsBot = .human ↔ byBot author authorIsBot = false := by
  unfold fromCommentAuthorType fromCommentAuthor byBot
  by_cases htyped : authorIsBot = some true
  · simp [htyped, botNamed]
  · by_cases hlogin : isBotAuthor author = true
    · simp [htyped, hlogin, botNamed]
    · simp [htyped, hlogin]

theorem ReviewComment.label_eq_human {comment : ReviewComment} :
    comment.label = .human ↔ comment.byBot = false ∧
      (comment.metadata.signal.earlierThreadAuthors.any fun earlier =>
        isBotAuthor (some earlier)) = false ∧
      comment.metadata.signal.earlierThreadSourceKinds.any sourceKindRequiresHumanValidation =
        false := by
  unfold ReviewComment.label ReviewComment.byBot ReviewSourceKind.fromCommentContext
  rw [← ReviewSourceKind.fromCommentAuthorType_eq_human]
  dsimp only
  split
  next hbot =>
    simp only [Bool.and_eq_true, Bool.or_eq_true] at hbot
    constructor
    · intro heq
      exact ReviewSourceKind.noConfusion heq
    · rintro ⟨_, hauthors, hkinds⟩
      rw [hauthors, hkinds] at hbot
      simp at hbot
  next hnone =>
    constructor
    · intro howner
      rw [howner, decide_eq_true rfl, Bool.true_and, Bool.not_eq_true, Bool.or_eq_false_iff]
        at hnone
      exact ⟨howner, hnone⟩
    · exact And.left

/-! ## Threads -/

structure Remark where
  author : Option Text
  isBot : Option Bool
  carriesContent : Bool

def Remark.byBot (remark : Remark) : Bool := Ingest.byBot remark.author remark.isBot

/-- A thread of a pull request, or a discussion of a merge request. -/
inductive ImportedThread
  | github (opts : Github.ImportOptions) (number : Int) (thread : Github.ReviewThreadNode)
  | gitlab (opts : Gitlab.ImportOptions) (mr : Gitlab.MergeRequest) (discussion : Gitlab.Discussion)

def Github.remark (comment : ReviewCommentNode) : Remark where
  author := comment.author.map (·.login)
  isBot := (comment.author.bind (·.typeName)).map fun typeName => typeName = bot
  carriesContent := trim comment.body ≠ []

def Gitlab.remark (note : Note) : Remark where
  author := note.author
  isBot := none
  carriesContent := isImportableNote note

namespace ImportedThread

def remarks : ImportedThread → List Remark
  | .github _ _ thread => thread.comments.map Github.remark
  | .gitlab _ _ discussion => discussion.notes.map Gitlab.remark

def comment : ImportedThread → Nat → Option ReviewComment
  | .github opts number thread, idx =>
    (thread.comments[idx]?).bind fun comment => comment.databaseId.bind fun dbId =>
      if trim comment.body = [] then none
      else some (Github.inlineArrival opts number thread comment idx dbId).row
  | .gitlab opts mr discussion, idx =>
    (discussion.notes[idx]?).bind fun note =>
      if Gitlab.isImportableNote note then
        some (Gitlab.noteArrival opts mr discussion note idx).row
      else none

def earlier (thread : ImportedThread) (idx : Nat) : List Remark :=
  (thread.remarks.take idx).filter (·.carriesContent)

def recorded : ImportedThread → Option Nat
  | .github _ _ _ => some Github.earlierLimit
  | .gitlab _ _ _ => none

end ImportedThread

def logins (remarks : List Remark) : List Text := remarks.filterMap fun remark =>
  nonBlank remark.author

/-- A bot among the remarks is noticed: it is typed as one and has a login, or it has the login
of one and fewer different logins are in front of it than are recorded. -/
def BotNoticed (limit : Option Nat) (remarks : List Remark) : Prop :=
  (∃ remark ∈ remarks, remark.isBot = some true ∧ nonBlank remark.author ≠ none) ∨
    ∃ front login back, logins remarks = front ++ login :: back ∧
      isBotAuthor (some login) = true ∧ login ∉ front ∧
      ∀ bound ∈ limit, (distinct front).length < bound

def Remark.kind (remark : Remark) : Option Text :=
  (nonBlank remark.author).bind fun login => remark.isBot.map fun isBot =>
    if isBot then Github.botPrefix ++ login else Github.humanKind

theorem Github.actorSourceKind_eq (comment : ReviewCommentNode) :
    actorSourceKind comment.author = (remark comment).kind := by
  unfold actorSourceKind Remark.kind remark nonBlank
  cases hauthor : comment.author with
  | none => rfl
  | some actor =>
    by_cases hblank : trim actor.login = []
    · rw [Option.map_some, Option.map_some, Option.filter_some, if_neg (by simp [hblank])]
      simp [hblank]
    · rw [Option.map_some, Option.map_some, Option.filter_some, if_pos (by simp [hblank])]
      cases htype : actor.typeName <;> simp [htype, hblank]

/-- What the importers record of the remarks in front of a comment. -/
structure Records (limit : Option Nat) (remarks : List Remark) (signal : CommentDurabilitySignal) :
    Prop where
  authors : signal.earlierThreadAuthors =
    limit.elim (distinct (logins remarks)) fun bound => (distinct (logins remarks)).take bound
  kinds : signal.earlierThreadSourceKinds =
    limit.elim [] fun bound => (distinct (remarks.filterMap Remark.kind)).take bound

theorem ImportedThread.records {thread : ImportedThread} {idx : Nat} {comment : ReviewComment}
    (hcomment : thread.comment idx = some comment) :
    Records thread.recorded (thread.earlier idx) comment.metadata.signal ∧
      ∃ remark, thread.remarks[idx]? = some remark ∧ comment.author = remark.author ∧
        comment.metadata.authorIsBot = remark.isBot := by
  cases thread with
  | github opts number thread =>
    obtain ⟨node, hnode, hrest⟩ := Option.bind_eq_some_iff.mp hcomment
    obtain ⟨dbId, _, hsome⟩ := Option.bind_eq_some_iff.mp hrest
    split at hsome
    next => contradiction
    next =>
      obtain rfl := Option.some.inj hsome
      have hearlier : (ImportedThread.github opts number thread).earlier idx =
          (Github.earlierComments thread.comments idx).map Github.remark := by
        unfold ImportedThread.earlier ImportedThread.remarks Github.earlierComments
        rw [← List.map_take, List.filter_map]
        rfl
      refine ⟨⟨?_, ?_⟩, Github.remark node, ?_, rfl, rfl⟩
      · rw [hearlier, logins, List.filterMap_map]
        apply congrArg (fun values => (distinct values).take Github.earlierLimit)
        apply List.filterMap_congr
        intro earlier _
        cases hauthor : earlier.author <;> simp [Github.remark, nonBlank, hauthor]
      · rw [hearlier, List.filterMap_map]
        apply congrArg (fun values => (distinct values).take Github.earlierLimit)
        exact List.filterMap_congr fun earlier _ => Github.actorSourceKind_eq earlier
      · simp [ImportedThread.remarks, hnode]
  | gitlab opts mr discussion =>
    obtain ⟨note, hnote, hrest⟩ := Option.bind_eq_some_iff.mp hcomment
    split at hrest
    next =>
      obtain rfl := Option.some.inj hrest
      have hearlier : (ImportedThread.gitlab opts mr discussion).earlier idx =
          (Gitlab.earlierNotes discussion.notes idx).map Gitlab.remark := by
        unfold ImportedThread.earlier ImportedThread.remarks Gitlab.earlierNotes
        rw [← List.map_take, List.filter_map]
        rfl
      refine ⟨⟨?_, rfl⟩, Gitlab.remark note, ?_, rfl, rfl⟩
      · rw [hearlier, logins, List.filterMap_map]
        rfl
      · simp [ImportedThread.remarks, hnote]
    next => contradiction

/-! ## When a bot is recorded -/

theorem requiresHumanValidation_botPrefix {login : Text} (htrim : trim login = login)
    (hne : login ≠ []) : sourceKindRequiresHumanValidation (Github.botPrefix ++ login) = true := by
  have hkept : trim (Github.botPrefix ++ login) = Github.botPrefix ++ login := by
    apply trim_of_ends
    · intro c hc
      obtain rfl : 'b' = c := Option.some.inj hc
      decide
    · intro c hc
      rw [List.getLast?_append_of_ne_nil _ hne, ← htrim] at hc
      exact getLast_trim login c hc
  unfold sourceKindRequiresHumanValidation
  rw [hkept]
  simp

theorem nonBlank_eq_some {value : Option Text} {login : Text}
    (hlogin : nonBlank value = some login) :
    trim login = login ∧ login ≠ [] := by
  obtain ⟨hmap, hne⟩ := Option.filter_eq_some_iff.mp hlogin
  obtain ⟨raw, _, rfl⟩ := Option.map_eq_some_iff.mp hmap
  exact ⟨trim_trim raw, of_decide_eq_true hne⟩

theorem Remark.kind_eq_some {remark : Remark} {kind : Text} (hkind : remark.kind = some kind) :
    (sourceKindRequiresHumanValidation kind = true ∧ remark.isBot = some true ∧
      nonBlank remark.author ≠ none) ∨ kind = Github.humanKind := by
  obtain ⟨login, hlogin, hmap⟩ := Option.bind_eq_some_iff.mp hkind
  obtain ⟨isBot, htyped, rfl⟩ := Option.map_eq_some_iff.mp hmap
  cases isBot with
  | false => exact .inr rfl
  | true =>
    obtain ⟨htrim, hne⟩ := nonBlank_eq_some hlogin
    exact .inl ⟨requiresHumanValidation_botPrefix htrim hne, htyped, by simp [hlogin]⟩

theorem humanKind_not_requires : sourceKindRequiresHumanValidation Github.humanKind = false := by
  decide

theorem any_kinds_iff {bound : Nat} (hbound : 1 < bound) {remarks : List Remark} :
    ((distinct (remarks.filterMap Remark.kind)).take bound).any sourceKindRequiresHumanValidation =
        true ↔
      ∃ remark ∈ remarks, remark.isBot = some true ∧ nonBlank remark.author ≠ none := by
  rw [List.any_eq_true]
  constructor
  · rintro ⟨kind, hmem, hrequires⟩
    obtain ⟨remark, hremark, hkind⟩ :=
      List.mem_filterMap.mp (mem_distinct.mp (List.mem_of_mem_take hmem))
    rcases Remark.kind_eq_some hkind with ⟨_, htyped, hauthor⟩ | rfl
    · exact ⟨remark, hremark, htyped, hauthor⟩
    · rw [humanKind_not_requires] at hrequires
      contradiction
  · rintro ⟨remark, hremark, htyped, hauthor⟩
    obtain ⟨login, hlogin⟩ := Option.ne_none_iff_exists'.mp hauthor
    obtain ⟨htrim, hne⟩ := nonBlank_eq_some hlogin
    have hkind : remark.kind = some (Github.botPrefix ++ login) := by
      simp [Remark.kind, hlogin, htyped]
    have hsome : ((remarks.filterMap Remark.kind).find? sourceKindRequiresHumanValidation).isSome :=
      List.find?_isSome.mpr ⟨_, List.mem_filterMap.mpr ⟨remark, hremark, hkind⟩,
        requiresHumanValidation_botPrefix htrim hne⟩
    obtain ⟨first, hfirst⟩ := Option.isSome_iff_exists.mp hsome
    obtain ⟨hrequires, front, back, hsplit, hfront⟩ := List.find?_eq_some_iff_append.mp hfirst
    have hhumans : ∀ kind ∈ front, kind = Github.humanKind := by
      intro kind hmem
      have hlisted : kind ∈ remarks.filterMap Remark.kind := by
        rw [hsplit]
        exact List.mem_append_left _ hmem
      obtain ⟨other, _, hother⟩ := List.mem_filterMap.mp hlisted
      rcases Remark.kind_eq_some hother with ⟨hbot, _⟩ | hhuman
      · exact absurd (hfront kind hmem) (by simp [hbot])
      · exact hhuman
    refine ⟨first, mem_take_distinct.mpr ⟨front, back, hsplit, ?_, ?_⟩, hrequires⟩
    · intro hmem
      rw [hhumans first hmem, humanKind_not_requires] at hrequires
      contradiction
    · exact Nat.lt_of_le_of_lt (length_distinct_le_one hhumans) hbound

theorem any_logins_iff {limit : Option Nat} {remarks : List Remark} :
    ((limit.elim (distinct (logins remarks)) fun bound =>
        (distinct (logins remarks)).take bound).any fun login => isBotAuthor (some login)) = true ↔
      ∃ front login back, logins remarks = front ++ login :: back ∧
        isBotAuthor (some login) = true ∧ login ∉ front ∧
        ∀ bound ∈ limit, (distinct front).length < bound := by
  rw [List.any_eq_true]
  cases limit with
  | none =>
    constructor
    · rintro ⟨login, hmem, hbot⟩
      obtain ⟨front, back, hsplit, hnew⟩ := List.eq_append_cons_of_mem (mem_distinct.mp hmem)
      exact ⟨front, login, back, hsplit, hbot, hnew, by simp⟩
    · rintro ⟨front, login, back, hsplit, hbot, _, _⟩
      refine ⟨login, mem_distinct.mpr ?_, hbot⟩
      rw [hsplit]
      exact List.mem_append_right _ (.head _)
  | some bound =>
    constructor
    · rintro ⟨login, hmem, hbot⟩
      obtain ⟨front, back, hsplit, hnew, hshort⟩ := mem_take_distinct.mp hmem
      refine ⟨front, login, back, hsplit, hbot, hnew, ?_⟩
      intro other hother
      obtain rfl := Option.some.inj hother
      exact hshort
    · rintro ⟨front, login, back, hsplit, hbot, hnew, hshort⟩
      exact ⟨login, mem_take_distinct.mpr ⟨front, back, hsplit, hnew, hshort bound rfl⟩, hbot⟩

theorem ImportedThread.label_eq_human_iff {thread : ImportedThread} {idx : Nat}
    {comment : ReviewComment} (hcomment : thread.comment idx = some comment) :
    comment.label = .human ↔
      comment.byBot = false ∧ ¬ BotNoticed thread.recorded (thread.earlier idx) := by
  have hrecords := (ImportedThread.records hcomment).1
  have hnoticed : BotNoticed thread.recorded (thread.earlier idx) ↔
      comment.metadata.signal.earlierThreadSourceKinds.any sourceKindRequiresHumanValidation =
          true ∨
        (comment.metadata.signal.earlierThreadAuthors.any fun earlier =>
          isBotAuthor (some earlier)) = true := by
    rw [hrecords.authors, hrecords.kinds, any_logins_iff]
    unfold BotNoticed
    cases thread with
    | github opts number thread =>
      apply or_congr _ Iff.rfl
      exact (any_kinds_iff (show 1 < Github.earlierLimit by decide)).symm
    | gitlab opts mr discussion =>
      apply or_congr _ Iff.rfl
      apply iff_of_false
      · rintro ⟨remark, hremark, htyped, _⟩
        have hmem := List.mem_of_mem_take (List.mem_filter.mp hremark).1
        obtain ⟨note, _, rfl⟩ := List.mem_map.mp hmem
        have hnone : (none : Option Bool) = some true := htyped
        contradiction
      · simp [ImportedThread.recorded]
  rw [ReviewComment.label_eq_human, hnoticed, not_or, Bool.not_eq_true, Bool.not_eq_true,
    and_comm (a := _ = false) (b := (List.any _ _) = false)]

end Difflore.Ingest
