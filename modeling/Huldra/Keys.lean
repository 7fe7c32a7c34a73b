import Huldra.Models
import Huldra.Text

/-!
# Keys — identifiers, their version families, and cache keys

`normalize_arxiv_id`, `arxiv_version` and `arxiv_id_family_base` decide which rows are about the
same paper; the fingerprint of a request decides which requests share a cache entry.
-/

namespace Huldra
namespace Keys

open Text

/-! ## `urllib.parse.urlparse` -/

def schemeChar (c : Char) : Bool :=
  ('a' ≤ c && c ≤ 'z') || ('A' ≤ c && c ≤ 'Z') || ('0' ≤ c && c ≤ '9') ||
    c == '+' || c == '-' || c == '.'

def asciiAlpha (c : Char) : Bool :=
  ('a' ≤ c && c ≤ 'z') || ('A' ≤ c && c ≤ 'Z')

/-- `uses_params`: the schemes whose last path segment may carry `;params`. -/
def usesParams : List String :=
  ["", "ftp", "hdl", "prospero", "http", "https", "shttp", "rtsp", "rtsps", "sip", "sips", "mms",
    "sftp", "tel"]

/-- The scheme, if the text before the first colon is one, and what follows it. -/
def splitScheme (url : Text) : Text × Text :=
  let (head, rest) := splitAtFirst (· == ':') url
  match head, rest with
  | c :: _, _ :: tail =>
      if asciiAlpha c && head.all schemeChar then (head.map lowerAscii, tail) else ([], url)
  | _, _ => ([], url)

/-- The network location after `//`, and what follows it. -/
def splitNetloc (url : Text) : Text × Text :=
  match url with
  | '/' :: '/' :: rest => splitAtFirst (fun c => c == '/' || c == '?' || c == '#') rest
  | _ => ([], url)

/-- `_splitparams`: drop what follows the first semicolon of the last segment. -/
def splitParams (path : Text) : Text :=
  let last := path.reverse.takeWhile (· != '/')
  let init := path.take (path.length - last.length)
  init ++ (splitAtFirst (· == ';') last.reverse).1

/-- The path `urlparse` finds, when it also finds a scheme and a network location. -/
def urlPath (raw : Text) : Option Text :=
  let url := (raw.dropWhile fun c => c.toNat ≤ 32).filter
    fun c => c != '\t' && c != '\r' && c != '\n'
  let (scheme, rest) := splitScheme url
  let (netloc, rest) := splitNetloc rest
  if scheme.isEmpty || netloc.isEmpty then none
  else
    let path := (splitAtFirst (· == '?') (splitAtFirst (· == '#') rest).1).1
    some (if usesParams.contains (String.ofList scheme) then splitParams path else path)

/-! ## arXiv identifiers -/

/-- One letter of `re.IGNORECASE`; the dotted and the dotless `i` are variants of `i`. -/
def sameLetter (lower c : Char) : Bool :=
  lowerAscii c == lower || (lower == 'i' && (c.toNat == 0x130 || c.toNat == 0x131))

/-- `_ARXIV_PREFIX_RE.sub("", raw)`. -/
def dropArxivPrefix (raw : Text) : Text :=
  match raw with
  | a :: r :: x :: i :: v :: ':' :: rest =>
      if sameLetter 'a' a && sameLetter 'r' r && sameLetter 'x' x && sameLetter 'i' i &&
          sameLetter 'v' v then
        lstrip rest
      else raw
  | _ => raw

def normalizeChars (value : Text) : Text :=
  let raw := strip value
  let raw := match urlPath raw with
    | some path => path.dropWhile (· == '/')
    | none => raw
  let raw := strip (dropArxivPrefix raw)
  let raw := removePrefix "/abs/".toList (removePrefix "abs/".toList raw)
  let raw := removePrefix "/pdf/".toList (removePrefix "pdf/".toList raw)
  let raw := removePrefix "/e-print/".toList (removePrefix "e-print/".toList raw)
  strip (removeSuffix ".pdf".toList raw)

def normalizeArxivId (value : String) : String :=
  String.ofList (normalizeChars value.toList)

/-- `_VERSION_RE.search`: what comes before the match, and the digits of the version.  As in the
source, `$` also matches before a final newline. -/
def versionMatch (value : Text) : Option (Text × Text) :=
  let body := match value.reverse with
    | '\n' :: rest => rest
    | rest => rest
  let digits := body.takeWhile isDigit
  match digits, body.dropWhile isDigit with
  | _ :: _, 'v' :: init => some (init.reverse, digits.reverse)
  | _, _ => none

/-- `arxiv_version`, of a version that `int` reads. -/
def arxivVersion (value : String) : Option Nat :=
  (versionMatch value.toList).map fun m => Text.toNat m.2

/-- `arxiv_version`, with the `ValueError` that `int` raises of a version too long for it. -/
def arxivVersion? (value : String) : Except Exn (Option Nat) :=
  match versionMatch value.toList with
  | none => .ok none
  | some (_, digits) =>
      if maxStrDigits < digits.length then .error (.tooManyDigits digits.length)
      else .ok (some (Text.toNat digits))

def arxivIdFamilyBase (value : String) : String :=
  let normalized := normalizeChars value.toList
  match versionMatch normalized with
  | some m => String.ofList m.1
  | none => String.ofList normalized

/-! ## Requests -/

def normalizeSearchQuery (value : Option String) : Option String :=
  match value with
  | none => none
  | some query =>
      let normalized := collapseSpaces (strip query.toList)
      if normalized.isEmpty then none else some (String.ofList normalized)

def requestFingerprintPayload (request : ArxivRequest) : Fingerprint :=
  { apiFamily := request.apiFamily
    searchQuery := normalizeSearchQuery request.searchQuery
    idList := request.idList.map normalizeArxivId
    sortBy := request.sortBy
    sortOrder := request.sortOrder
    start := request.start
    maxResults := request.maxResults
    submittedStart := request.submittedStart
    submittedEnd := request.submittedEnd }

/-- The hash of the canonical JSON of the fingerprint, up to its injectivity. -/
def requestCacheKey (request : ArxivRequest) : CacheKey :=
  requestFingerprintPayload request

example : normalizeArxivId " https://arxiv.org/abs/2401.00001v2 " = "2401.00001v2" := by decide

example : arxivIdFamilyBase "arXiv: 2401.00001v12" = "2401.00001" := by decide

end Keys
end Huldra
