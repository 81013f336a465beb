import Difflore.Ingest.Github

/-! # The ids of imported items and comments

Which ids are composed for which pull requests and comments, and when two of them are equal.
-/

namespace Difflore.Ingest

open Foundation

theorem toDigits_inj {m n : Nat} : Nat.toDigits 10 m = Nat.toDigits 10 n ↔ m = n := by
  constructor
  · intro heq
    rw [← Nat.ofDigitChars_ten_toDigits (n := m), heq, Nat.ofDigitChars_ten_toDigits]
  · rintro rfl
    rfl

theorem isDigit_of_mem_toDigits {n : Nat} {c : Char} (hc : c ∈ Nat.toDigits 10 n) :
    c.isDigit = true :=
  Nat.isDigit_of_mem_toDigits (by decide) (by decide) hc

theorem not_mem_decimal {c : Char} (hdigit : c.isDigit = false) (hminus : c ≠ '-') (n : Int) :
    c ∉ decimal n := by
  intro hc
  cases n with
  | ofNat n =>
    rw [isDigit_of_mem_toDigits hc] at hdigit
    contradiction
  | negSucc n =>
    rcases List.mem_cons.mp hc with heq | hc
    · exact hminus heq
    · rw [isDigit_of_mem_toDigits hc] at hdigit
      contradiction

theorem decimal_inj {m n : Int} : decimal m = decimal n ↔ m = n := by
  have hminus : ∀ k : Nat, '-' ∉ Nat.toDigits 10 k := by
    intro k hk
    have hdigit := isDigit_of_mem_toDigits hk
    revert hdigit
    decide
  constructor
  · intro heq
    cases m with
    | ofNat m =>
      cases n with
      | ofNat n => rw [toDigits_inj.mp heq]
      | negSucc n =>
        have hdigits : Nat.toDigits 10 m = '-' :: Nat.toDigits 10 (n + 1) := heq
        refine absurd ?_ (hminus m)
        rw [hdigits]
        exact .head _
    | negSucc m =>
      cases n with
      | ofNat n =>
        have hdigits : '-' :: Nat.toDigits 10 (m + 1) = Nat.toDigits 10 n := heq
        refine absurd ?_ (hminus n)
        rw [← hdigits]
        exact .head _
      | negSucc n => rw [Nat.succ_injective (toDigits_inj.mp (List.cons.inj heq).2)]
  · rintro rfl
    rfl

def Pull.repo : Pull → Text
  | .github repo _ _ => repo
  | .gitlab _ projectPath _ => projectPath

def Pull.number : Pull → Int
  | .github _ _ number => number
  | .gitlab _ _ iid => iid

def Pull.source : Pull → Text
  | .github _ _ _ => "github"
  | .gitlab _ _ _ => "gitlab"

def Pull.storedNumber : Pull → Option Int
  | .github _ _ number => some number
  | .gitlab _ _ iid => if Gitlab.inI32 iid then some iid else none

def Pull.NumberFits : Pull → Prop
  | .github _ _ _ => True
  | .gitlab _ _ iid => Gitlab.inI32 iid = true

def Pull.itemId : Pull → Text
  | .github repo _ number => Github.itemId repo number
  | .gitlab host projectPath iid => Gitlab.itemId host projectPath iid

def CommentKind.idPrefix : CommentKind → Text
  | .inline => Github.inlinePrefix
  | .review => Github.reviewPrefix
  | .discussion => Github.discussionPrefix
  | .note => []

def Origin.externalId (origin : Origin) : Text :=
  match origin.pull with
  | .github repo sourceRepo _ =>
    origin.kind.idPrefix ++ Github.importedExternalId repo sourceRepo origin.id
  | .gitlab _ _ _ => Gitlab.externalCommentId origin.id

def Origin.lookups (origin : Origin) : List Text :=
  match origin.pull, origin.kind with
  | .github repo sourceRepo _, .inline =>
    [origin.externalId, Github.importedExternalId repo sourceRepo origin.id]
  | _, _ => [origin.externalId]

/-- An arrival of the pull request has its item's id and the ids of its origin. -/
structure Arrives (target : Pull) (arrival : Arrival ReviewComment Text) : Prop where
  pull : arrival.row.origin.pull = target
  item : arrival.row.reviewItemId = target.itemId
  key : arrival.row.externalCommentId = arrival.row.origin.externalId
  lookups : arrival.lookups = arrival.row.origin.lookups
  kind : arrival.row.origin.kind = .note ↔ ∃ host path iid, target = .gitlab host path iid

theorem Github.arrives {opts : ImportOptions} {number : Int} {pr : PrNode}
    {arrival : Arrival ReviewComment Text} (hmem : arrival ∈ arrivals opts number pr) :
    Arrives (pull opts number) arrival := by
  have hbodies : ∀ (idPrefix : Text) (kind : CommentKind) (filePath : Option Text)
      (sourceKind : BodyNode → Option Text) (threadId : Int → Text) (nodes : List BodyNode),
      kind ≠ .inline → kind ≠ .note → idPrefix = kind.idPrefix →
      arrival ∈ importableBodies nodes (fun (node : BodyNode) dbId =>
        bodyArrival opts number idPrefix kind filePath (sourceKind node) threadId node dbId) →
      Arrives (pull opts number) arrival := by
    intro idPrefix kind filePath sourceKind threadId nodes hinline hnote hstart hbody
    obtain ⟨node, _, hnode⟩ := List.mem_filterMap.mp hbody
    split at hnode
    next => contradiction
    next =>
      obtain ⟨dbId, _, rfl⟩ := Option.map_eq_some_iff.mp hnode
      subst hstart
      refine ⟨rfl, rfl, rfl, ?_, ?_⟩
      · cases kind with
        | inline => exact absurd rfl hinline
        | review => rfl
        | discussion => rfl
        | note => exact absurd rfl hnote
      · apply iff_of_false hnote
        rintro ⟨host, path, iid, heq⟩
        exact Pull.noConfusion heq
  rcases List.mem_append.mp hmem with hmem | hmem
  · obtain ⟨thread, _, hthread⟩ := List.mem_flatMap.mp hmem
    obtain ⟨⟨comment, idx⟩, _, hcomment⟩ := List.mem_filterMap.mp hthread
    obtain ⟨dbId, _, hsome⟩ := Option.bind_eq_some_iff.mp hcomment
    split at hsome
    next => contradiction
    next =>
      obtain rfl := Option.some.inj hsome
      refine ⟨rfl, rfl, rfl, rfl, ?_⟩
      apply iff_of_false
      · intro hkind
        exact CommentKind.noConfusion hkind
      · rintro ⟨host, path, iid, heq⟩
        exact Pull.noConfusion heq
  · rcases List.mem_append.mp hmem with hmem | hmem
    · exact hbodies reviewPrefix .review none (fun node => actorSourceKind node.author) decimal _
        (by decide) (by decide) rfl hmem
    · exact hbodies discussionPrefix .discussion _ (fun _ => some issueComment) _ _
        (by decide) (by decide) rfl hmem

theorem Gitlab.arrives {opts : ImportOptions} {mr : MergeRequest}
    {arrival : Arrival ReviewComment Text} (hmem : arrival ∈ arrivals opts mr) :
    Arrives (pull opts mr) arrival := by
  obtain ⟨discussion, _, hdiscussion⟩ := List.mem_flatMap.mp hmem
  obtain ⟨⟨note, index⟩, _, hnote⟩ := List.mem_filterMap.mp hdiscussion
  dsimp only at hnote
  split at hnote
  next =>
    obtain rfl := Option.some.inj hnote
    exact ⟨rfl, rfl, rfl, rfl, iff_of_true rfl ⟨_, _, _, rfl⟩⟩
  next => contradiction

/-! ## Equal ids -/

def Pull.Plain : Pull → Prop
  | .github repo sourceRepo _ => ':' ∉ repo ∧ ':' ∉ sourceRepo ∧ '#' ∉ repo
  | .gitlab host projectPath _ => '/' ∉ host ∧ '#' ∉ projectPath

/-- Pull requests of one repository number attached to one repository share an item. -/
def Pull.SharesItem : Pull → Pull → Prop
  | .github repo _ number, .github repo' _ number' => repo = repo' ∧ number = number'
  | .gitlab host path iid, .gitlab host' path' iid' => host = host' ∧ path = path' ∧ iid = iid'
  | _, _ => False

theorem hash_not_mem_decimal (n : Int) : '#' ∉ decimal n :=
  not_mem_decimal (by decide) (by decide) n

theorem colon_not_mem_decimal (n : Int) : ':' ∉ decimal n :=
  not_mem_decimal (by decide) (by decide) n

theorem Pull.sharesItem_of_itemId {first second : Pull} (hfirst : first.Plain)
    (hsecond : second.Plain) (heq : first.itemId = second.itemId) : first.SharesItem second := by
  cases first with
  | github repo sourceRepo number =>
    cases second with
    | github repo' sourceRepo' number' =>
      have htail := List.append_cancel_left heq
      rw [List.append_cons_inj_of_notMem hfirst.2.2 (hash_not_mem_decimal _)] at htail
      exact ⟨htail.1, decimal_inj.mp htail.2.2⟩
    | gitlab host path iid =>
      have hhead : "gh" = "gl".toList := congrArg (List.take 2) heq
      exact absurd hhead (by decide)
  | gitlab host path iid =>
    cases second with
    | github repo' sourceRepo' number' =>
      have hhead : "gl" = "gh".toList := congrArg (List.take 2) heq
      exact absurd hhead (by decide)
    | gitlab host' path' iid' =>
      have htail := List.append_cancel_left heq
      rw [append_cons_inj hfirst.1 hsecond.1,
        List.append_cons_inj_of_notMem hfirst.2 (hash_not_mem_decimal _)] at htail
      exact ⟨htail.1, htail.2.1, decimal_inj.mp htail.2.2.2⟩

theorem Github.importedExternalId_inj {repo sourceRepo repo' sourceRepo' : Text} {id id' : Int}
    (hrepo : ':' ∉ repo) (hsource : ':' ∉ sourceRepo) (hrepo' : ':' ∉ repo')
    (hsource' : ':' ∉ sourceRepo')
    (heq : importedExternalId repo sourceRepo id = importedExternalId repo' sourceRepo' id') :
    id = id' ∧ ((repo = sourceRepo ∧ repo' = sourceRepo') ∨
      (repo = repo' ∧ sourceRepo = sourceRepo')) := by
  unfold importedExternalId at heq
  split at heq
  next hown =>
    split at heq
    next hown' => exact ⟨decimal_inj.mp heq, .inl ⟨hown, hown'⟩⟩
    next =>
      refine absurd ?_ (colon_not_mem_decimal id)
      rw [heq]
      exact List.mem_append_right _ (.head _)
  next =>
    split at heq
    next =>
      refine absurd ?_ (colon_not_mem_decimal id')
      rw [← heq]
      exact List.mem_append_right _ (.head _)
    next =>
      rw [append_cons_inj hrepo hrepo', append_cons_inj hsource hsource'] at heq
      exact ⟨decimal_inj.mp heq.2.2, .inr ⟨heq.1, heq.2.1⟩⟩

def Origin.Confused (origin other : Origin) : Prop :=
  match origin.pull, other.pull with
  | .github repo sourceRepo _, .github repo' sourceRepo' _ => origin.id = other.id ∧
      ((origin.kind = other.kind ∧ ((repo = sourceRepo ∧ repo' = sourceRepo') ∨
          (repo = repo' ∧ sourceRepo = sourceRepo'))) ∨
        (origin.kind = .inline ∧ repo = other.kind.idPrefix ++ repo' ∧ sourceRepo = sourceRepo'))
  | .gitlab _ _ _, .gitlab _ _ _ => origin.id = other.id
  | _, _ => False

def Origin.Fits (origin : Origin) : Prop :=
  origin.kind = .note ↔ ∃ host path iid, origin.pull = .gitlab host path iid

theorem Origin.Fits.idPrefix {origin : Origin} (hfits : origin.Fits) {repo sourceRepo : Text}
    {number : Int} (hpull : origin.pull = .github repo sourceRepo number) :
    origin.kind = .inline ∨ origin.kind = .review ∨ origin.kind = .discussion := by
  cases hkind : origin.kind with
  | inline => exact .inl rfl
  | review => exact .inr (.inl rfl)
  | discussion => exact .inr (.inr rfl)
  | note =>
    obtain ⟨host, path, iid, heq⟩ := hfits.mp hkind
    rw [hpull] at heq
    contradiction

theorem CommentKind.idPrefix_head {kind : CommentKind} (hkind : kind = .inline ∨ kind = .review ∨
    kind = .discussion) : ∃ c rest, kind.idPrefix = c :: rest ∧ c.isDigit = false ∧ c ≠ '-' ∧
      c ≠ 'g' ∧ ':' ∉ kind.idPrefix := by
  rcases hkind with rfl | rfl | rfl
  · exact ⟨'i', "nline-comment-", by decide, by decide, by decide, by decide, by decide⟩
  · exact ⟨'r', "eview-", by decide, by decide, by decide, by decide, by decide⟩
  · exact ⟨'i', "ssue-comment-", by decide, by decide, by decide, by decide, by decide⟩

theorem CommentKind.idPrefix_inj {kind kind' : CommentKind} {u v : Text}
    (hkind : kind = .inline ∨ kind = .review ∨ kind = .discussion)
    (hkind' : kind' = .inline ∨ kind' = .review ∨ kind' = .discussion)
    (heq : kind.idPrefix ++ u = kind'.idPrefix ++ v) : kind = kind' ∧ u = v := by
  have hhead : kind.idPrefix.take 2 = kind'.idPrefix.take 2 := by
    have htake := congrArg (List.take 2) heq
    have hlength : ∀ {kind : CommentKind}, (kind = .inline ∨ kind = .review ∨
        kind = .discussion) → 2 ≤ kind.idPrefix.length := by
      intro kind hkind
      rcases hkind with rfl | rfl | rfl <;> decide
    rwa [List.take_append_of_le_length (hlength hkind),
      List.take_append_of_le_length (hlength hkind')] at htake
  have hsame : kind = kind' := by
    rcases hkind with rfl | rfl | rfl <;> rcases hkind' with rfl | rfl | rfl <;>
      first | rfl | exact absurd hhead (by decide)
  subst hsame
  exact ⟨rfl, List.append_cancel_left heq⟩

theorem Github.prefixed_eq_importedExternalId {kind : CommentKind}
    {repo sourceRepo repo' sourceRepo' : Text} {id id' : Int}
    (hkind : kind = .inline ∨ kind = .review ∨ kind = .discussion)
    (hrepo : ':' ∉ repo) (hsource : ':' ∉ sourceRepo) (hrepo' : ':' ∉ repo')
    (hsource' : ':' ∉ sourceRepo')
    (heq : kind.idPrefix ++ importedExternalId repo' sourceRepo' id' =
      importedExternalId repo sourceRepo id) :
    id = id' ∧ repo = kind.idPrefix ++ repo' ∧ sourceRepo = sourceRepo' := by
  obtain ⟨c, rest, hstart, hdigit, hminus, _, hcolon⟩ := CommentKind.idPrefix_head hkind
  unfold importedExternalId at heq
  split at heq
  next =>
    split at heq
    next =>
      refine absurd ?_ (not_mem_decimal hdigit hminus id)
      rw [← heq, hstart]
      exact .head _
    next =>
      have hmem : ':' ∈ kind.idPrefix ++ decimal id' := by
        rw [heq]
        exact List.mem_append_right _ (.head _)
      rcases List.mem_append.mp hmem with hmem | hmem
      · exact absurd hmem hcolon
      · exact absurd hmem (colon_not_mem_decimal id')
  next =>
    split at heq
    next =>
      refine absurd ?_ (colon_not_mem_decimal id)
      rw [← heq]
      exact List.mem_append_right _ (List.mem_append_right _ (.head _))
    next =>
      have hnot : ':' ∉ kind.idPrefix ++ repo' := by
        intro hmem
        rcases List.mem_append.mp hmem with hmem | hmem
        · exact hcolon hmem
        · exact hrepo' hmem
      rw [← List.append_assoc, append_cons_inj hnot hrepo, append_cons_inj hsource' hsource] at heq
      exact ⟨(decimal_inj.mp heq.2.2).symm, heq.1.symm, heq.2.1.symm⟩

theorem Gitlab.externalCommentId_ne_prefixed {kind : CommentKind} {u : Text} (id : Int)
    (hkind : kind = .inline ∨ kind = .review ∨ kind = .discussion) :
    externalCommentId id ≠ kind.idPrefix ++ u := by
  obtain ⟨c, rest, hstart, _, _, hg, _⟩ := CommentKind.idPrefix_head hkind
  rw [hstart]
  intro heq
  exact hg (List.cons.inj heq).1.symm

theorem Gitlab.externalCommentId_ne_importedExternalId {repo sourceRepo : Text} (id dbId : Int)
    (hrepo : ':' ∉ repo) :
    externalCommentId id ≠ Github.importedExternalId repo sourceRepo dbId := by
  unfold Github.importedExternalId
  intro heq
  split at heq
  next =>
    refine absurd ?_ (not_mem_decimal (show ('g').isDigit = false by decide) (by decide) dbId)
    rw [← heq]
    exact .head _
  next =>
    have htail : "gl" ++ ':' :: decimal id =
        repo ++ ':' :: (sourceRepo ++ ':' :: decimal dbId) := heq
    rw [append_cons_inj (by decide) hrepo] at htail
    refine absurd ?_ (colon_not_mem_decimal id)
    rw [htail.2]
    exact List.mem_append_right _ (.head _)

theorem Origin.confused_of_mem_lookups {origin other : Origin} (hplain : origin.pull.Plain)
    (hotherPlain : other.pull.Plain) (hfits : origin.Fits) (hotherFits : other.Fits)
    (hmem : other.externalId ∈ origin.lookups) : origin.Confused other := by
  cases hpull : origin.pull with
  | github repo sourceRepo number =>
    rw [hpull] at hplain
    have hkind := hfits.idPrefix hpull
    have hlookup : other.externalId =
          origin.kind.idPrefix ++ Github.importedExternalId repo sourceRepo origin.id ∨
        (origin.kind = .inline ∧
          other.externalId = Github.importedExternalId repo sourceRepo origin.id) := by
      rcases hkind with hkind | hkind | hkind <;>
        simp only [Origin.lookups, Origin.externalId, hpull, hkind, List.mem_cons,
          List.not_mem_nil, or_false, true_and] at hmem ⊢
      · exact hmem
      · exact .inl hmem
      · exact .inl hmem
    cases hother : other.pull with
    | github repo' sourceRepo' number' =>
      rw [hother] at hotherPlain
      have hkind' := hotherFits.idPrefix hother
      have hid : other.externalId =
          other.kind.idPrefix ++ Github.importedExternalId repo' sourceRepo' other.id := by
        rw [Origin.externalId, hother]
      unfold Origin.Confused
      rw [hpull, hother]
      rw [hid] at hlookup
      rcases hlookup with heq | ⟨hinline, heq⟩
      · obtain ⟨hsame, hrest⟩ := CommentKind.idPrefix_inj hkind' hkind heq
        obtain ⟨hids, hrepos⟩ := Github.importedExternalId_inj hplain.1 hplain.2.1
          hotherPlain.1 hotherPlain.2.1 hrest.symm
        exact ⟨hids, .inl ⟨hsame.symm, hrepos⟩⟩
      · obtain ⟨hids, hrepos⟩ := Github.prefixed_eq_importedExternalId hkind' hplain.1
          hplain.2.1 hotherPlain.1 hotherPlain.2.1 heq
        exact ⟨hids, .inr ⟨hinline, hrepos⟩⟩
    | gitlab host path iid =>
      have hid : other.externalId = Gitlab.externalCommentId other.id := by
        rw [Origin.externalId, hother]
      rw [hid] at hlookup
      rcases hlookup with heq | ⟨_, heq⟩
      · exact absurd heq (Gitlab.externalCommentId_ne_prefixed _ hkind)
      · exact absurd heq (Gitlab.externalCommentId_ne_importedExternalId _ _ hplain.1)
  | gitlab host path iid =>
    have hlookup : other.externalId = Gitlab.externalCommentId origin.id := by
      have hkind := hfits.mpr ⟨host, path, iid, hpull⟩
      simpa only [Origin.lookups, Origin.externalId, hpull, List.mem_singleton] using hmem
    cases hother : other.pull with
    | github repo' sourceRepo' number' =>
      have hid : other.externalId =
          other.kind.idPrefix ++ Github.importedExternalId repo' sourceRepo' other.id := by
        rw [Origin.externalId, hother]
      rw [hid] at hlookup
      exact absurd hlookup.symm
        (Gitlab.externalCommentId_ne_prefixed _ (hotherFits.idPrefix hother))
    | gitlab host' path' iid' =>
      have hid : other.externalId = Gitlab.externalCommentId other.id := by
        rw [Origin.externalId, hother]
      unfold Origin.Confused
      rw [hpull, hother]
      rw [hid] at hlookup
      exact (decimal_inj.mp (List.append_cancel_left hlookup)).symm

theorem Origin.externalId_mem_lookups (origin : Origin) : origin.externalId ∈ origin.lookups := by
  unfold Origin.lookups
  split <;> exact .head _

end Difflore.Ingest
