import LinkPilot.Launcher
import LinkPilot.Lib.Texts
import LinkPilot.Lib.UrlGrammar

/-!
# Where updates are downloaded from

Model of `update_download` and `download_update_asset` of
`apps/desktop/src-tauri/src/commands/mod.rs` up to the start of curl. `Url::parse` is a parameter
that follows the WHATWG standard for `https` URLs; curl reads the text it is given by the grammar of
RFC 3986 and contacts no host when this gives none. That curl also expands brackets and braces
(`--globoff` is not passed) is outside of this grammar, and not modelled.

Principal results:

* `updateDownload_curl` — what curl is given is the text that was checked, not what was parsed.
* `download_pinned` — an accepted text that is written straight is read by curl with the trusted
  host and path.
* `backslash_redirects` — an accepted text that makes curl contact another host, and one that makes
  it request another repository's path.
-/

set_option autoImplicit false

namespace LinkPilot

open UrlGrammar

/-! ## `update_download` -/

def TRUSTED_REPO_PATH_PREFIX : String := "/jackerjay/LinkPilot/releases/download/"

/-- What `update_download` reads of a parsed URL. -/
structure UpdateUrl where
  scheme : String
  hostStr : Option String
  path : String
  deriving DecidableEq, Repr

structure UpdateDownloadRequest where
  url : String
  version : String
  assetName : String
  expectedBytes : Option Nat
  expectedSha256 : Option String

structure UpdateDownload where
  version : String
  assetName : String
  path : String
  alreadyDownloaded : Bool
  bytes : Nat
  deriving DecidableEq, Repr

/-- The URL checks of `update_download`. -/
def checkUpdateUrl (urlParse : String → Except String UpdateUrl) (url : String) :
    Except String Unit :=
  match urlParse url with
  | .error e => .error ("invalid update URL: " ++ e)
  | .ok parsed =>
    if parsed.scheme ≠ "https" ∨ parsed.hostStr ≠ some "github.com" then
      .error "update downloads must come from GitHub release assets"
    else if ¬ TRUSTED_REPO_PATH_PREFIX.toList <+: parsed.path.toList then
      .error "update downloads must come from the official LinkPilot release path"
    else .ok ()

/-- `safe_update_asset_name`. -/
def safeUpdateAssetName (name : String) : Except String String :=
  if '/' ∈ name.toList ∨ '\\' ∈ name.toList then
    .error "update asset name must be a plain filename"
  else
    let fileName := Texts.trim name.toList
    if fileName = [] then .error "update asset name is empty"
    else if ¬ ".dmg".toList <:+ fileName then
      .error "LinkPilot can only auto-download macOS DMG assets"
    else .ok (String.ofList fileName)

/-- `char::is_ascii_hexdigit`. -/
def isAsciiHexdigit (c : Char) : Bool :=
  c.isDigit || ('a' ≤ c && c ≤ 'f') || ('A' ≤ c && c ≤ 'F')

/-- `normalize_expected_sha256`. -/
def normalizeExpectedSha256 (raw : Option String) : Except String (Option String) :=
  match raw with
  | none => .ok none
  | some raw =>
    let trimmed := Texts.trim raw.toList
    if trimmed = [] then .ok none
    else if trimmed.length ≠ 64 ∨ ¬ trimmed.all isAsciiHexdigit then
      .error "expected_sha256 must be a 64-character hex string"
    else .ok (some (String.ofList (trimmed.map Char.toLower)))

/-- What `update_download` finds on disk: the directory of the config file, whether a directory can
be created, and length and checksum of a file. -/
structure UpdateDisk where
  configDir : Option String
  createDirAll : String → Except String Unit
  existing : String → Option (Nat × Except String String)

/-- `destination.with_extension("download")`, for a destination that ends in `.dmg`. -/
def downloadPath (updatesDir assetName : String) : String :=
  let name := assetName.toList
  -- a name that is only an extension counts as a stem
  let stem := if assetName = ".dmg" then name else name.take (name.length - 4)
  updatesDir ++ "/" ++ String.ofList stem ++ ".download"

/-- The command of `download_update_asset`. -/
def curlCommand (url tmp : String) : Command :=
  ⟨"/usr/bin/curl", ["--fail", "--location", "--silent", "--show-error", "--output", tmp, url]⟩

/-- How `update_download` goes on after its checks. -/
inductive DownloadStart where
  | cached (d : UpdateDownload)
  | curl (command : Command)
  deriving DecidableEq, Repr

/-- The length of a downloaded file that can be used again. -/
def reusableBytes (request : UpdateDownloadRequest) (expected : String) :
    Option (Nat × Except String String) → Option Nat
  | some (bytes, .ok actual) =>
    if 0 < bytes && (request.expectedBytes.map (· == bytes)).getD true && actual == expected then
      some bytes
    else none
  | _ => none

/-- `update_download` of the direct edition, up to the start of curl. -/
def updateDownload (urlParse : String → Except String UpdateUrl) (disk : UpdateDisk)
    (request : UpdateDownloadRequest) : Except String DownloadStart := do
  checkUpdateUrl urlParse request.url
  let assetName ← safeUpdateAssetName request.assetName
  let expectedSha256 ← normalizeExpectedSha256 request.expectedSha256
  match expectedSha256, disk.configDir with
  | none, _ => .error "Release checksum is required before downloading an update"
  | some _, none => .error "could not locate LinkPilot config directory"
  | some expected, some configDir =>
    let updatesDir := configDir ++ "/updates"
    match disk.createDirAll updatesDir with
    | .error e => .error ("creating " ++ updatesDir ++ ": " ++ e)
    | .ok () =>
      let destination := updatesDir ++ "/" ++ assetName
      match reusableBytes request expected (disk.existing destination) with
      | some bytes => .ok (.cached ⟨request.version, assetName, destination, true, bytes⟩)
      | none => .ok (.curl (curlCommand request.url (downloadPath updatesDir assetName)))

theorem bind_eq_ok {α β : Type} {x : Except String α} {f : α → Except String β} {b : β} :
    (x >>= f) = .ok b ↔ ∃ a, x = .ok a ∧ f a = .ok b := by
  cases x with
  | error e => simp [bind, Except.bind]
  | ok a => simp [bind, Except.bind]

/-- Curl is started after the checks, and gets the text that was checked. -/
theorem updateDownload_curl {urlParse : String → Except String UpdateUrl} {disk : UpdateDisk}
    {request : UpdateDownloadRequest} {command : Command}
    (h : updateDownload urlParse disk request = .ok (.curl command)) :
    checkUpdateUrl urlParse request.url = .ok () ∧ command.args.getLast? = some request.url := by
  unfold updateDownload at h
  obtain ⟨_, hcheck, h⟩ := bind_eq_ok.mp h
  obtain ⟨assetName, -, h⟩ := bind_eq_ok.mp h
  obtain ⟨expectedSha256, -, h⟩ := bind_eq_ok.mp h
  refine ⟨hcheck, ?_⟩
  split at h
  · cases h
  · cases h
  · simp only at h
    split at h
    · cases h
    · split at h
      · cases h
      · cases h
        rfl

/-! ## What curl contacts -/

/-- Curl reads the text as a URI with this host and this path, and contacts the host. -/
def CurlContacts (raw : String) (host path : Text) : Prop :=
  ∃ scheme authority, Rfc3986 raw.toList scheme authority path ∧ hostOf authority = host ∧ host ≠ []

/-- Whatever curl contacts for the text, it is GitHub, and what it requests is a release asset of
the trusted repository. -/
def Pinned (raw : String) : Prop :=
  ∀ host path, CurlContacts raw host path →
    host.map Char.toLower = "github.com".toList ∧
      TRUSTED_REPO_PATH_PREFIX.toList <+: removeDotSegments path

/-- `Url::parse` reads `https` URLs as the WHATWG standard says, with the given host parser. -/
def FollowsWhatwg (hostParser : Text → Option Text) (urlParse : String → Except String UpdateUrl) :
    Prop :=
  ∀ raw parsed, urlParse raw = .ok parsed → parsed.scheme = "https" →
    ∃ host path, parseHttps hostParser raw.toList = some (host, path) ∧
      parsed.hostStr = some (String.ofList host) ∧ parsed.path = String.ofList path

/-- Before the query the text has no backslash, tab or newline, its host is written in letters, and
it has no percent-encoded dot segment before the last segment. -/
def WrittenStraight (raw : String) : Prop :=
  ∀ scheme authority path, Rfc3986 raw.toList scheme authority path → hostOf authority ≠ [] →
    PlainHost (hostOf authority) ∧ Straight authority path

/-- The segments of the trusted path. -/
def trustedSegments : List Text :=
  ["jackerjay", "LinkPilot", "releases", "download"].map String.toList

theorem trusted_eq_serialize :
    TRUSTED_REPO_PATH_PREFIX.toList = serialize trustedSegments ++ ['/'] := by decide

theorem checkUpdateUrl_ok {urlParse : String → Except String UpdateUrl} {raw : String}
    (h : checkUpdateUrl urlParse raw = .ok ()) :
    ∃ parsed, urlParse raw = .ok parsed ∧ parsed.scheme = "https" ∧
      parsed.hostStr = some "github.com" ∧
      TRUSTED_REPO_PATH_PREFIX.toList <+: parsed.path.toList := by
  unfold checkUpdateUrl at h
  split at h
  · cases h
  · rename_i parsed hparse
    split at h
    · cases h
    · rename_i horigin
      split at h
      · cases h
      · rename_i hpath
        simp only [not_or, not_not] at horigin hpath
        exact ⟨parsed, hparse, horigin.1, horigin.2, hpath⟩

/-- **Origin pinning.** A text that passes the checks and is written straight is handed to curl as
it is, and curl contacts GitHub for a release asset of the trusted repository. -/
theorem download_pinned {hostParser : Text → Option Text}
    {urlParse : String → Except String UpdateUrl} {raw : String}
    (hhost : KeepsPlainHosts hostParser) (hwhatwg : FollowsWhatwg hostParser urlParse)
    (haccepted : checkUpdateUrl urlParse raw = .ok ()) (hstraight : WrittenStraight raw) :
    Pinned raw := by
  rintro host path ⟨scheme, authority, hreads, rfl, hne⟩
  obtain ⟨parsed, hparse, hscheme, hgithub, htrusted⟩ := checkUpdateUrl_ok haccepted
  obtain ⟨domain, text, hhttps, hdomain, htext⟩ := hwhatwg raw parsed hparse hscheme
  obtain ⟨hplain, hpath⟩ := hstraight scheme authority path hreads hne
  rw [trusted_eq_serialize] at htrusted ⊢
  rw [htext, String.toList_ofList] at htrusted
  obtain ⟨hsame, hfront⟩ := parse_reads hhost hreads hne hplain hpath hhttps (by decide) (by decide)
    (by decide) htrusted
  refine ⟨?_, hfront⟩
  have hofList : String.ofList domain = "github.com" := by
    rw [hgithub] at hdomain
    exact (Option.some.inj hdomain).symm
  rw [hsame, ← hofList, String.toList_ofList]

/-! ### Texts that nobody writes -/

/-- A host parser for plain hosts. -/
def plainHostParser (host : Text) : Option Text :=
  if host.all fun c => c.isAlpha || c == '-' || c == '.' then some (host.map Char.toLower) else none

/-- `Url::parse` for `https` URLs with a plain host. -/
def plainUrlParse (raw : String) : Except String UpdateUrl :=
  match parseHttps plainHostParser raw.toList with
  | some (host, path) => .ok ⟨"https", some (String.ofList host), String.ofList path⟩
  | none => .error "relative URL without a base"

theorem plainUrlParse_follows : FollowsWhatwg plainHostParser plainUrlParse := by
  intro raw parsed hparse hscheme
  unfold plainUrlParse at hparse
  split at hparse
  · rename_i host path hhttps
    cases hparse
    exact ⟨host, path, hhttps, rfl, rfl⟩
  · cases hparse

theorem plainHostParser_keeps : KeepsPlainHosts plainHostParser := by
  intro host domain _ h
  unfold plainHostParser at h
  split at h
  · cases h
    rfl
  · cases h

theorem checkUpdateUrl_plain {raw : String} {path : Text}
    (hparse : parseHttps plainHostParser raw.toList = some ("github.com".toList, path))
    (hpath : serialize trustedSegments ++ ['/'] <+: path) :
    checkUpdateUrl plainUrlParse raw = .ok () := by
  rw [← trusted_eq_serialize] at hpath
  simp [checkUpdateUrl, plainUrlParse, hparse, hpath]

theorem isScheme_https : IsScheme "https".toList :=
  ⟨⟨'h', _, rfl, rfl⟩, forall_of_all (by decide)⟩

/-- A text in its parts, without query and fragment. -/
theorem curlContacts_https (authority path : String)
    (hauthority : ∀ c ∈ authority.toList, c ≠ '/' ∧ c ≠ '?' ∧ c ≠ '#')
    (hpath : ∀ c ∈ path.toList, c ≠ '?' ∧ c ≠ '#') (hne : hostOf authority.toList ≠ []) :
    CurlContacts ("https://" ++ authority ++ "/" ++ path) (hostOf authority.toList)
      ('/' :: path.toList) := by
  refine ⟨"https".toList, authority.toList, ⟨⟨[], ?_, .inl rfl⟩, isScheme_https, hauthority,
    .inr ⟨_, rfl⟩, ?_⟩, rfl, hne⟩
  · have hhttps : "https://".toList = "https".toList ++ [':', '/', '/'] := by decide
    simp [hhttps]
  · simpa using hpath

/-! #### A release -/

def releasePath : String := "jackerjay/LinkPilot/releases/download/v1/LinkPilot.dmg"

def releaseUrl : String := "https://" ++ "github.com" ++ "/" ++ releasePath

theorem releaseUrl_accepted : checkUpdateUrl plainUrlParse releaseUrl = .ok () := by
  have hparse : parseHttps plainHostParser releaseUrl.toList =
      some ("github.com".toList, '/' :: releasePath.toList) := by
    simp only [releaseUrl, releasePath, String.toList_append, String.reduceToList]
    decide
  refine checkUpdateUrl_plain hparse ?_
  simp only [releasePath, String.reduceToList]
  decide

theorem releaseUrl_straight : WrittenStraight releaseUrl := by
  intro scheme authority path h _
  simp only [releaseUrl, releasePath, String.toList_append, String.reduceToList] at h
  obtain ⟨-, rfl, rfl⟩ := h.unique
  exact ⟨forall_of_all (by decide), forall_of_all (by decide), by decide⟩

theorem download_pinned_release : Pinned releaseUrl :=
  download_pinned plainHostParser_keeps plainUrlParse_follows releaseUrl_accepted releaseUrl_straight

/-! #### Backslashes and encoded dots -/

/-- The first backslash ends the authority for `Url::parse`. -/
def backslashAuthority : String :=
  "github.com\\jackerjay\\LinkPilot\\releases\\download\\x@evil.com"

def backslashUrl : String := "https://" ++ backslashAuthority ++ "/" ++ "y"

/-- The encoded dots lead back to the root for `Url::parse`. -/
def encodedDotsPath : String :=
  "evil/repo/%2e%2e/%2e%2e/jackerjay/LinkPilot/releases/download/x.dmg"

def encodedDotsUrl : String := "https://" ++ "github.com" ++ "/" ++ encodedDotsPath

theorem backslashUrl_accepted : checkUpdateUrl plainUrlParse backslashUrl = .ok () := by
  have hparse : parseHttps plainHostParser backslashUrl.toList =
      some ("github.com".toList, "/jackerjay/LinkPilot/releases/download/x@evil.com/y".toList) := by
    simp only [backslashUrl, backslashAuthority, String.toList_append, String.reduceToList]
    decide
  refine checkUpdateUrl_plain hparse ?_
  simp only [String.reduceToList]
  decide

theorem encodedDotsUrl_accepted : checkUpdateUrl plainUrlParse encodedDotsUrl = .ok () := by
  have hparse : parseHttps plainHostParser encodedDotsUrl.toList =
      some ("github.com".toList, "/jackerjay/LinkPilot/releases/download/x.dmg".toList) := by
    simp only [encodedDotsUrl, encodedDotsPath, String.toList_append, String.reduceToList]
    decide
  refine checkUpdateUrl_plain hparse ?_
  simp only [String.reduceToList]
  decide

theorem backslashUrl_contacts :
    CurlContacts backslashUrl "evil.com".toList "/y".toList := by
  have hhost : hostOf backslashAuthority.toList = "evil.com".toList := by
    simp only [backslashAuthority, String.reduceToList]
    decide
  have hauthority : ∀ c ∈ backslashAuthority.toList, c ≠ '/' ∧ c ≠ '?' ∧ c ≠ '#' := by
    simp only [backslashAuthority, String.reduceToList]
    exact forall_of_all (by decide)
  have hcontacts := curlContacts_https backslashAuthority "y" hauthority
    (forall_of_all (by decide)) (by rw [hhost]; decide)
  rw [hhost] at hcontacts
  exact hcontacts

theorem encodedDotsUrl_contacts :
    CurlContacts encodedDotsUrl "github.com".toList ('/' :: encodedDotsPath.toList) := by
  have hpath : ∀ c ∈ encodedDotsPath.toList, c ≠ '?' ∧ c ≠ '#' := by
    simp only [encodedDotsPath, String.reduceToList]
    exact forall_of_all (by decide)
  exact curlContacts_https "github.com" encodedDotsPath (forall_of_all (by decide)) hpath (by decide)

/-- Both texts are accepted. For the first one curl contacts another host, and for the second one it
requests another path. -/
theorem backslash_redirects :
    checkUpdateUrl plainUrlParse backslashUrl = .ok () ∧
    CurlContacts backslashUrl "evil.com".toList "/y".toList ∧ ¬ Pinned backslashUrl ∧
    checkUpdateUrl plainUrlParse encodedDotsUrl = .ok () ∧ ¬ Pinned encodedDotsUrl := by
  refine ⟨backslashUrl_accepted, backslashUrl_contacts, fun hpinned => ?_,
    encodedDotsUrl_accepted, fun hpinned => ?_⟩
  · exact absurd (hpinned _ _ backslashUrl_contacts).1 (by decide)
  · have hpath := (hpinned _ _ encodedDotsUrl_contacts).2
    simp only [TRUSTED_REPO_PATH_PREFIX, encodedDotsPath, String.reduceToList] at hpath
    exact absurd hpath (by decide)

end LinkPilot
