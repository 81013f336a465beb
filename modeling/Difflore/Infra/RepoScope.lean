import Difflore.Foundation.Text

/-! # Repo scopes

A scope is `owner/repo` for GitHub and `host/group/project` for GitLab. Remote URLs
and scope strings are normalized when a repository is detected; scopes that come out
of storage are normalized once more.
-/

namespace Difflore.Infra

open Foundation Text

/-- `trim_end_matches('/')`. -/
def trimSlashes (s : Text) : Text := s.rdropWhile (· = '/')

def gitSuffix : Text := ['.', 'g', 'i', 't']

def dropGits : Text → Text
  | 't' :: 'i' :: 'g' :: '.' :: rest => dropGits rest
  | s => s

/-- `trim_end_matches(".git")`. -/
def trimGits (s : Text) : Text := (dropGits s.reverse).reverse

def cleanScope (value : Text) : Text := trimGits (trimSlashes (trim value))

def splitOnce (c : Char) (s : Text) : Option (Text × Text) :=
  if c ∈ s then some (s.takeWhile (· ≠ c), (s.dropWhile (· ≠ c)).tail) else none

def joinSegments (segments : List Text) : Text := List.intercalate ['/'] segments

def isAsciiAlphanumeric (c : Char) : Bool :=
  ('0'.toNat ≤ c.toNat && c.toNat ≤ '9'.toNat) || ('A'.toNat ≤ c.toNat && c.toNat ≤ 'Z'.toNat) ||
    ('a'.toNat ≤ c.toNat && c.toNat ≤ 'z'.toNat)

def isAsciiDigit (c : Char) : Bool := '0'.toNat ≤ c.toNat && c.toNat ≤ '9'.toNat

def githubHttps : Text := "https://github.com/"

def githubScp : Text := "git@github.com:"

def githubSsh : Text := "ssh://git@github.com/"

/-- The path of a GitHub remote, without one `.git`. -/
def githubPath (url : Text) : Option Text :=
  let url := trimSlashes (trim url)
  (((stripPrefix githubHttps url).or (stripPrefix githubScp url)).or
      (stripPrefix githubSsh url)).map fun stripped =>
    if gitSuffix <:+ stripped then stripped.take (stripped.length - gitSuffix.length) else stripped

def parseGithubRemoteUrl (url : Text) : Option Text := (githubPath url).bind fun stripped =>
    match stripped.splitOn '/' with
    | [owner, repo] =>
      if owner = [] || repo = [] then none
      else some (toAsciiLowercase (owner ++ '/' :: repo))
    | _ => none

def dot : Text := ['.']

def dotDot : Text := ['.', '.']

def segmentChar (c : Char) : Bool := isAsciiAlphanumeric c || c = '.' || c = '_' || c = '-'

def segmentOk (segment : Text) : Bool :=
  segment ≠ [] && segment ≠ dot && segment ≠ dotDot && segment.all segmentChar

def scopeSegments (value : Text) : List Text := ((cleanScope value).splitOn '/').map trim

def normalizeRepoScopeSegments (value : Text) (minSegments : Nat) (maxSegments : Option Nat) :
    Option Text :=
  let parts := scopeSegments value
  if parts.length < minSegments || maxSegments.any (· < parts.length) then none
  else if parts.any (!segmentOk ·) then none
  else some (toAsciiLowercase (joinSegments parts))

def defaultGitlabHost : Text := "gitlab.com"

def githubHost : Text := "github.com"

inductive HostError
  | empty
  | pathOrCredentials (input : Text)
  | invalid (input : Text)

def httpsScheme : Text := "https://"

def httpScheme : Text := "http://"

def withoutScheme (s : Text) : Text :=
  ((stripPrefix httpsScheme s).or (stripPrefix httpScheme s)).getD s

def hostName (s : Text) : Text := ((splitOnce ':' s).elim s (·.1)).rdropWhile (· = '.')

def hostPort (s : Text) : Option Text := (splitOnce ':' s).map (·.2)

def hostChar (c : Char) : Bool := isAsciiAlphanumeric c || c = '.' || c = '-'

def normalizeGitlabHost (input : Text) : Except HostError Text :=
  let withoutSlash := trimSlashes (withoutScheme (trim input))
  if withoutSlash = [] then .error .empty
  else if '/' ∈ withoutSlash || '@' ∈ withoutSlash then .error (.pathOrCredentials input)
  else
    let name := hostName withoutSlash
    let port := hostPort withoutSlash
    if name = [] || !name.all hostChar || port.any (fun p => p = [] || !p.all isAsciiDigit) then
      .error (.invalid input)
    else .ok (toAsciiLowercase (port.elim name fun p => name ++ ':' :: p))

def gitlabHostAllowed (host : Text) (configuredGitlabHosts : List Text) : Bool :=
  (normalizeGitlabHost host).toOption.any fun host =>
    host = defaultGitlabHost || configuredGitlabHosts.any fun configured =>
      (normalizeGitlabHost configured).toOption = some host

def minus : Text := ['-']

def hasMinusSegment (path : Text) : Bool := (path.splitOn '/').any (· = minus)

/-- The path behind the host; `none` if another host is embedded in it. -/
def gitlabPath (host repoPath : Text) : Option Text :=
  let repoPath := cleanScope repoPath
  match splitOnce '/' repoPath with
  | some (first, rest) =>
    if '.' ∈ first then
      if (normalizeGitlabHost first).toOption = some host then some rest else none
    else some repoPath
  | none => some repoPath

def canonicalGitlabRepoScope (host repoPath : Text) : Option Text :=
  (normalizeGitlabHost host).toOption.bind fun host =>
    (gitlabPath host repoPath).bind fun repoPath =>
      (normalizeRepoScopeSegments repoPath 2 none).bind fun path =>
        if hasMinusSegment path then none else some (host ++ '/' :: path)

structure RepoScope where
  value : Text
  deriving DecidableEq

namespace RepoScope

def github (repoFullName : Text) : Option RepoScope :=
  (normalizeRepoScopeSegments repoFullName 2 (some 2)).map (⟨·⟩)

def gitlab (host repoPath : Text) : Option RepoScope :=
  (canonicalGitlabRepoScope host repoPath).map (⟨·⟩)

end RepoScope

inductive ReviewProvider
  | github
  | gitlab

def canonicalSourceRepo (provider : ReviewProvider) (providerHost : Option Text)
    (repoFullName : Text) : Option RepoScope :=
  match provider with
  | .github => RepoScope.github repoFullName
  | .gitlab => providerHost.bind fun host => RepoScope.gitlab host repoFullName

def sshGit : Text := "ssh://git@"

def gitAt : Text := "git@"

def hostedRemoteParts (url : Text) : Option (Text × Text) :=
  let url := trimSlashes (trim url)
  match (stripPrefix httpsScheme url).or (stripPrefix httpScheme url) with
  | some rest => splitOnce '/' rest
  | none =>
    match stripPrefix sshGit url with
    | some rest => splitOnce '/' rest
    | none => (stripPrefix gitAt url).bind (splitOnce ':')

def parseRepoRemoteUrlWithGitlabHosts (url : Text) (configuredGitlabHosts : List Text) :
    Option Text :=
  (parseGithubRemoteUrl url).or
    ((hostedRemoteParts url).bind fun (host, path) =>
      if eqIgnoreAsciiCase host githubHost then none
      else if !gitlabHostAllowed host configuredGitlabHosts then none
      else canonicalGitlabRepoScope host path)

def hostedScopeParts (value : Text) (configuredGitlabHosts : List Text) : Option (Text × Text) :=
  (splitOnce '/' value).bind fun (host, path) =>
    (normalizeGitlabHost host).toOption.bind fun host =>
      if '.' ∉ host || !gitlabHostAllowed host configuredGitlabHosts then none
      else some (host, path)

def normalizeRepoScopeWithGitlabHosts (value : Text) (configuredGitlabHosts : List Text) :
    Option Text :=
  ((parseRepoRemoteUrlWithGitlabHosts value configuredGitlabHosts).or
    (normalizeRepoScopeSegments (cleanScope value) 2 (some 2))).or
      ((hostedScopeParts (cleanScope value) configuredGitlabHosts).bind fun (host, path) =>
        canonicalGitlabRepoScope host path)

def normalizeCanonicalRepoScope (value : Text) : Option Text :=
  let value := cleanScope value
  match normalizeRepoScopeSegments value 2 (some 2) with
  | some normalized =>
    (splitOnce '/' normalized).bind fun (owner, _) =>
      if '.' ∈ owner then none else some normalized
  | none =>
    (splitOnce '/' value).bind fun (host, path) =>
      (normalizeGitlabHost host).toOption.bind fun host =>
        if '.' ∉ host || host = githubHost then none
        else (normalizeRepoScopeSegments path 2 none).bind fun path =>
          if hasMinusSegment path then none else some (host ++ '/' :: path)

end Difflore.Infra
