import DualDeployment.Framework.Path
import DualDeployment.Impl.Subcharts

/-!
# Fetching sources

`internal/source`, the part that reaches the outside: the credentials of a
source (`credentials.go`), the resolver of git roots (`gitresolver.go`) and
the loader of Helm charts (`helmloader.go`). Each is the sequence of requests
it makes (`Fetch`). A commit and a chart stand for their content: a commit is
known by its hash and a chart by the digest of its manifest. A chart that is
loaded is its own archive together with the dependencies that were fetched for
it (`LoadedChart`).
-/

namespace DDO.Impl

open Prog

/-! ## Texts -/

/-- `strings.Cut(s, "//")`; `none` if there is no double slash. -/
def cutDoubleSlash : List Char → Option (List Char × List Char)
  | [] => none
  | '/' :: '/' :: rest => some ([], rest)
  | c :: rest => (cutDoubleSlash rest).map fun p => (c :: p.1, p.2)

/-- `strings.Trim(s, "/")`. -/
def trimSlashes (s : List Char) : List Char :=
  ((s.dropWhile (· = '/')).reverse.dropWhile (· = '/')).reverse

/-- `strings.Replace(s, old, new, 1)`. -/
def replaceFirst (old new : List Char) : List Char → List Char
  | [] => []
  | c :: cs =>
    if old.isPrefixOf (c :: cs) then new ++ (c :: cs).drop old.length
    else c :: replaceFirst old new cs

/-- `url.URL`. -/
structure URL where
  scheme : String
  opaquePart : String
  user : Bool
  host : String
  path : String
  rawPath : String
  rawQuery : String
  fragment : String

/-- `net/url`: `Parse`, with the text of its error, `URL.String`, and
`Query().Get` of a raw query. -/
structure NetURL where
  parse : String → Except String URL
  string : URL → String
  queryGet : String → String → String

def hostOf (net : NetURL) (raw : String) : String :=
  match net.parse raw with
  | .ok u => if u.host ≠ "" then u.host else raw
  | .error _ => raw

/-! ## Content ids -/

def isHexDigit (c : Char) : Bool := ('0' ≤ c ∧ c ≤ '9') ∨ ('a' ≤ c ∧ c ≤ 'f')

/-- `plumbing.Hash`: twenty bytes, by their forty hex digits. -/
structure CommitHash where
  digits : List Char
  length : digits.length = 40
  hex : ∀ c ∈ digits, isHexDigit c = true
  deriving DecidableEq

namespace CommitHash

/-- `Hash.String`. -/
def text (h : CommitHash) : String := String.ofList h.digits

theorem text_inj {h h' : CommitHash} (he : h.text = h'.text) : h = h' := by
  have hd : h.digits = h'.digits := by simpa [text] using congrArg String.toList he
  cases h
  cases h'
  simp only at hd
  subst hd
  rfl

theorem hex_replicate {n : Nat} {d : Char} (h : isHexDigit d = true) :
    ∀ c ∈ List.replicate n d, isHexDigit c = true := fun c hc => by
  rw [List.eq_of_mem_replicate hc]
  exact h

/-- `plumbing.ZeroHash`. -/
def zero : CommitHash := ⟨List.replicate 40 '0', List.length_replicate, hex_replicate (by decide)⟩

/-- `plumbing.NewHash` of a text of lower-case hex digits: its whole bytes, with
zeros after them. -/
def new (s : String) : CommitHash :=
  let hex := (s.toList.takeWhile fun c => isHexDigit c).take 40
  let bytes := hex.take (2 * (hex.length / 2))
  { digits := bytes ++ List.replicate (40 - bytes.length) '0'
    length := by
      have h₁ : hex.length ≤ 40 := by simp only [hex, List.length_take]; omega
      have h₂ : bytes.length ≤ 40 := by simp only [bytes, List.length_take]; omega
      rw [List.length_append, List.length_replicate]
      omega
    hex := by
      intro c hc
      rcases List.mem_append.mp hc with hc | hc
      · have hall : (s.toList.takeWhile fun c => isHexDigit c).all (fun c => isHexDigit c) = true :=
          List.all_takeWhile
        exact List.all_eq_true.mp hall c (List.mem_of_mem_take (List.mem_of_mem_take hc))
      · rw [List.eq_of_mem_replicate hc]
        decide }

end CommitHash

/-- The digest of an OCI manifest, such as `sha256:…`; its grammar has no bar. -/
structure Digest where
  text : String
  noBar : '|' ∉ text.toList
  deriving DecidableEq

/-- The match of `shaRe`, `^[0-9a-f]{7,40}$`. -/
def isSHA (ref : String) : Bool :=
  7 ≤ ref.toList.length ∧ ref.toList.length ≤ 40 ∧ ref.toList.all fun c => isHexDigit c

/-! ## Requests -/

/-- A resolved credential; one that is not `ok` means anonymous. -/
structure Creds where
  user : String
  pass : String
  ok : Bool
  deriving DecidableEq

/-- `http.BasicAuth`. -/
structure BasicAuth where
  username : String
  password : String
  deriving DecidableEq

/-- An object of a repository that is no commit: an annotated tag of a commit, one of
another type of object, and an object of another type. -/
inductive GitObject where
  | tag (commit : CommitHash)
  | tagOf (type : String)
  | other (type : String)

/-- What a fetch of all branches and tags leaves: the branches, and the commits and
other objects that were got with them. -/
structure GitRepo where
  heads : List (String × CommitHash)
  commits : List CommitHash
  objects : List (CommitHash × GitObject)

/-- `Worktree.Checkout` of a hash; of an annotated tag it checks out the commit that is
tagged, and of the zero hash the branch `master`. -/
def GitRepo.checkout (repo : GitRepo) (hash : CommitHash) : Except Err CommitHash :=
  if hash = .zero then
    match repo.heads.lookup "master" with
    | some commit => .ok commit
    | none => .error (.text "reference not found")
  else if hash ∈ repo.commits then .ok hash
  else
    match repo.objects.lookup hash with
    | some (.tag commit) => .ok commit
    | some (.tagOf type) => .error (.text ("unsupported object type: tag target " ++ quote type))
    | some (.other type) => .error (.text ("unsupported object type: " ++ quote type))
    | none => .error (.text "object not found")

/-- What the sources ask of the outside: a Secret, a git remote (its advertised
references, a clone of one of them, a fetch of all), an OCI registry (the
digest of a reference, the chart at a version, also as a dependency of another),
and the render cache. -/
inductive Fetch where
  | getSecret (key : NamespacedName)
  | listRefs (url : String) (auth : Option BasicAuth)
  | clone (url : String) (auth : Option BasicAuth) (ref : String)
  | fetchRefs (url : String) (auth : Option BasicAuth)
  | resolve (ref : String) (creds : Creds)
  | pull (ref version : String) (creds : Creds)
  | pullDependency (ref version : String) (creds : Creds)
  | cacheGet (key : String)
  | cachePut (key : String) (ms : List Manifest)

/-- A clone answers with the commit it has checked out, and a pull with the
digest of the chart. -/
@[reducible] def FetchAnswer : Fetch → Type
  | .getSecret _ => Except Err Secret
  | .listRefs _ _ => Except Err (List (String × CommitHash))
  | .clone _ _ _ => Except Err CommitHash
  | .fetchRefs _ _ => Except Err GitRepo
  | .resolve _ _ => Except Err Digest
  | .pull _ _ _ => Except Err Digest
  | .pullDependency _ _ _ => Except Err Digest
  | .cacheGet _ => Option (List Manifest)
  | .cachePut _ _ => Unit

/-- A program of the sources. -/
abbrev Fetching (α : Type) := Prog Fetch FetchAnswer α

/-! ## Credentials -/

/-- `token` wins over `password`, and a token without a user name is of user
`git`. -/
def credsFromSecretData (data : List (String × String)) : Creds :=
  let tok := lookupString data "token"
  let pass := if tok ≠ "" then tok else lookupString data "password"
  let user := lookupString data "username"
  let user := if tok ≠ "" ∧ user = "" then "git" else user
  ⟨user, pass, pass ≠ ""⟩

/-- A `CredentialResolver`, by its namespace, and the `authSecretRef` it is
bound to. -/
structure SourceCredentials where
  ns : String
  ref : Option SecretReference

def SourceCredentials.resolve (c : SourceCredentials) : Fetching (Except Err Creds) :=
  match c.ref with
  | none => pure (.ok ⟨"", "", false⟩)
  | some ref =>
    if ref.name = "" then pure (.ok ⟨"", "", false⟩)
    else do
      match ← request (Fetch.getSecret ⟨c.ns, ref.name⟩) with
      | .error e => pure (.error e)
      | .ok secret => pure (.ok (credsFromSecretData secret.data))

/-- The credentials of a resolver or loader; without a `CredentialResolver` it
is anonymous. -/
def credFor : Option SourceCredentials → Fetching (Except Err Creds)
  | none => pure (.ok ⟨"", "", false⟩)
  | some c => c.resolve

/-- `source: resolve credentials: %w`. -/
def credentialsError (e : Err) : Err := .text ("source: resolve credentials: " ++ e.error)

/-! ## Git -/

/-- The clone URL, the root path in the repository and the pinned ref. -/
def splitRef (net : NetURL) (rawURL : String) : Except Err (String × String × String) :=
  match net.parse rawURL with
  | .error e => .error (.text ("source: parse kustomize url: " ++ e))
  | .ok u =>
    if u.user then
      .error (.text "source: kustomize url must not embed credentials in the URL; use authSecretRef")
    else
      let ref := net.queryGet u.rawQuery "ref"
      if ref = "" then .error (.text "source: kustomize url missing pinned ?ref=")
      else
        match cutDoubleSlash u.path.toList with
        | some (before, after) =>
          .ok (net.string { u with rawQuery := "", path := String.ofList before },
            String.ofList (trimSlashes after), ref)
        | none => .ok (net.string { u with rawQuery := "" }, "", ref)

/-- `gitResolver`. -/
structure GitResolver where
  resolve : Option SourceCredentials

/-- The map `byName` of listed references: the last of a name counts. -/
def byName (refs : List (String × CommitHash)) (name : String) : Option CommitHash :=
  refs.reverse.lookup name

/-- A checked-out kustomize root: `rootSubPath` and then `subPath` below the
checkout of a commit. -/
structure KustomizeRoot where
  commit : CommitHash
  rootSubPath : String
  subPath : String

/-- The path that `Resolve` returns for a checkout in this directory. -/
def KustomizeRoot.fsPath (root : KustomizeRoot) (dir : String) : String :=
  Path.join [dir, root.rootSubPath, root.subPath]

namespace GitResolver

/-- No credentials in the Secret means no auth method. -/
def authFor (r : GitResolver) : Fetching (Except Err (Option BasicAuth)) := do
  match ← credFor r.resolve with
  | .error e => pure (.error e)
  | .ok c => pure (.ok (if c.ok then some ⟨c.user, c.pass⟩ else none))

def fetchSHA (base sha : String) (auth : Option BasicAuth) : Fetching (Except Err CommitHash) := do
  match ← request (Fetch.fetchRefs base auth) with
  | .error e => pure (.error (.text ("source: fetch sha " ++ sha ++ ": " ++ e.error ++ " (fail-closed)")))
  | .ok repo =>
    match repo.checkout (.new sha) with
    | .error e =>
      pure (.error (.text ("source: checkout sha " ++ sha ++ ": " ++ e.error ++ " (fail-closed)")))
    | .ok commit => pure (.ok commit)

/-- The loop of `fetchPinned` over the reference names. -/
def cloneFirst (base : String) (auth : Option BasicAuth) (err : Err) :
    List String → Fetching (Except Err CommitHash)
  | [] => pure (.error err)
  | rn :: rns => do
    match ← request (Fetch.clone base auth rn) with
    | .ok commit => pure (.ok commit)
    | .error _ => cloneFirst base auth err rns

def fetchPinned (base ref : String) (auth : Option BasicAuth) : Fetching (Except Err CommitHash) :=
  if isSHA ref then fetchSHA base ref auth
  else
    cloneFirst base auth
      (.text ("source: could not resolve ref " ++ quote ref ++ " on " ++ base ++ " (fail-closed)"))
      ["refs/tags/" ++ ref, "refs/heads/" ++ ref]

/-- `Resolve`. -/
def root (r : GitResolver) (net : NetURL) (rawURL subPath : String) :
    Fetching (Except Err KustomizeRoot) :=
  match splitRef net rawURL with
  | .error e => pure (.error e)
  | .ok (base, rootSubPath, ref) => do
    match ← r.authFor with
    | .error e => pure (.error (credentialsError e))
    | .ok auth =>
      match ← fetchPinned base ref auth with
      | .error e => pure (.error e)
      | .ok commit => pure (.ok ⟨commit, rootSubPath, subPath⟩)

def repoScope (net : NetURL) (rawURL : String) : Except Err String :=
  match splitRef net rawURL with
  | .error e => .error e
  | .ok (base, _, _) => .ok ("git:" ++ hostOf net base)

/-- The first of the candidate names that is listed: the peeled tag, the tag,
the branch. -/
def candidate (refs : List (String × CommitHash)) (ref : String) : Option CommitHash :=
  ["refs/tags/" ++ ref ++ "^\x7b\x7d", "refs/tags/" ++ ref, "refs/heads/" ++ ref].findSome? (byName refs)

/-- `ResolveID`. -/
def resolveID (r : GitResolver) (net : NetURL) (rawURL : String) : Fetching (Except Err String) :=
  match splitRef net rawURL with
  | .error e => pure (.error e)
  | .ok (base, _, ref) =>
    if isSHA ref then pure (.ok ref)
    else do
      match ← r.authFor with
      | .error e => pure (.error (credentialsError e))
      | .ok auth =>
        match ← request (Fetch.listRefs base auth) with
        | .error e => pure (.error (.text ("source: ls-remote " ++ base ++ ": " ++ e.error)))
        | .ok refs =>
          match candidate refs ref with
          | some hash => pure (.ok hash.text)
          | none =>
            pure (.error (.text ("source: could not resolve ref " ++ quote ref ++ " on " ++ base ++
              " to a commit SHA")))

end GitResolver

/-! ## Helm charts -/

/-- `helmLoader`. -/
structure HelmLoader where
  resolve : Option SourceCredentials

/-- The repository as an `https` URL. -/
def httpsURL (repoURL : String) : String :=
  String.ofList (replaceFirst "oci://".toList "https://".toList repoURL.toList)

def rejectURLCredentials (net : NetURL) (repoURL : String) : Option Err :=
  match net.parse (httpsURL repoURL) with
  | .error _ => some (.text "source: chart repo url is not parseable")
  | .ok u =>
    if u.user then
      some (.text "source: chart repo url must not embed credentials in the URL; use authSecretRef")
    else none

/-- `strings.TrimSuffix(strings.TrimPrefix(repoURL, "oci://"), "/")`. -/
def ociBase (repoURL : String) : String :=
  let s := if isOCI repoURL then repoURL.toList.drop 6 else repoURL.toList
  String.ofList (if s.getLast? = some '/' then s.dropLast else s)

/-- A chart as `loader.Load` finds it: the digest of its archive, and those of the
dependencies that `Build` has fetched into it. -/
structure LoadedChart where
  digest : Digest
  dependencies : List Digest
  deriving DecidableEq

/-- `chartutil.Expand` of the archive with this digest, with the text of its
error. -/
abbrev Charts := Digest → Except String ExpandedChart

/-- The loop of `downloader.Manager.Build` over the locked dependencies. Those of OCI
registries are pulled, with the registry client that the loader has made. -/
def buildDependencies (chart : ExpandedChart) (c : Creds) :
    List LockedDependency → Fetching (Except Err (List Digest))
  | [] => pure (.ok [])
  | d :: deps =>
    if isOCI d.repository then do
      match ← request (Fetch.pullDependency (d.repository ++ "/" ++ d.name) d.version c) with
      | .error e =>
        pure (.error (.text ("could not download " ++ d.repository ++ "/" ++ d.name ++ ": " ++ e.error)))
      | .ok digest =>
        match ← buildDependencies chart c deps with
        | .error e => pure (.error e)
        | .ok digests => pure (.ok (digest :: digests))
    else
      match chart.localError d with
      | some e => pure (.error (.text e))
      | none => buildDependencies chart c deps

/-- `Manager.Build`. -/
def ExpandedChart.build (chart : ExpandedChart) (c : Creds) : Fetching (Except Err (List Digest)) :=
  match chart.locked with
  | .error e => pure (.error (.text e))
  | .ok deps => buildDependencies chart c deps

namespace HelmLoader

/-- The credentials of the dependencies are those of the chart, resolved once
more. -/
def expandAndResolveDeps (l : HelmLoader) (charts : Charts) (digest : Digest) :
    Fetching (Except Err LoadedChart) :=
  match charts digest with
  | .error e => pure (.error (.text ("source: expand chart: " ++ e)))
  | .ok chart =>
    match chart.dir.resolveDepsPlan with
    | .error e => pure (.error e)
    | .ok false => pure (.ok ⟨digest, []⟩)
    | .ok true => do
      match ← credFor l.resolve with
      | .error e => pure (.error (.text ("source: resolve credentials for deps: " ++ e.error)))
      | .ok c =>
        match ← chart.build c with
        | .error e => pure (.error (.text ("source: build dependencies: " ++ e.error)))
        | .ok digests => pure (.ok ⟨digest, digests⟩)

/-- `pullOCI`. -/
def pullOCI (l : HelmLoader) (repoURL name version : String) : Fetching (Except Err Digest) := do
  match ← credFor l.resolve with
  | .error e => pure (.error (credentialsError e))
  | .ok c =>
    match ← request (Fetch.pull ("oci://" ++ ociBase repoURL ++ "/" ++ name) version c) with
    | .error e =>
      pure (.error (.text ("source: oci pull " ++ name ++ "@" ++ version ++ ": " ++ e.error)))
    | .ok digest => pure (.ok digest)

/-- `Load`, up to the directory that `loader.Load` reads. -/
def load (l : HelmLoader) (net : NetURL) (charts : Charts) (repoURL name version : String) :
    Fetching (Except Err LoadedChart) :=
  match rejectURLCredentials net repoURL with
  | some e => pure (.error e)
  | none =>
    if isOCI repoURL then do
      match ← l.pullOCI repoURL name version with
      | .error e => pure (.error e)
      | .ok digest => l.expandAndResolveDeps charts digest
    else pure (.error (.text "source: unsupported chart repo scheme (only oci:// is supported)"))

def repoScope (net : NetURL) (repoURL : String) : Except Err String :=
  if isOCI repoURL then .ok ("oci:" ++ hostOf net (httpsURL repoURL))
  else .error (.text "source: unsupported chart repo scheme for repoScope (only oci:// is supported)")

/-- `ResolveID`. -/
def resolveID (l : HelmLoader) (net : NetURL) (repoURL name version : String) :
    Fetching (Except Err String) :=
  match rejectURLCredentials net repoURL with
  | some e => pure (.error e)
  | none =>
    if isOCI repoURL then do
      match ← credFor l.resolve with
      | .error e => pure (.error (credentialsError e))
      | .ok c =>
        match ← request (Fetch.resolve (ociBase repoURL ++ "/" ++ name ++ ":" ++ version) c) with
        | .error e =>
          pure (.error (.text ("source: resolve oci digest " ++ name ++ ":" ++ version ++ ": " ++ e.error)))
        | .ok digest => pure (.ok digest.text)
    else pure (.error (.text "source: unsupported chart repo scheme (only oci:// is supported)"))

end HelmLoader

end DDO.Impl
