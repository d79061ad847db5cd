import Steward.Url.Host

set_option autoImplicit false

namespace Steward

structure Url where
  scheme : String
  /-- Behind the two slashes and before the host, with the `@`. -/
  user : String
  host : Option Url.Host
  authority : Bool
  port : Option Nat
  path : String
  query : Option String
  fragment : Option String
  deriving Repr

namespace Url

def defaultPort? (scheme : String) : Option Nat :=
  match scheme with
  | "http" | "ws" => some 80
  | "https" | "wss" => some 443
  | "ftp" => some 21
  | _ => none

def isSpecial (scheme : String) : Bool := (defaultPort? scheme).isSome || scheme == "file"

def isSchemeChar (c : Char) : Bool := c.isAlphanum || c == '+' || c == '-' || c == '.'

def readScheme? (cs : List Char) : Option (String × List Char) :=
  let name := cs.takeWhile isSchemeChar
  match name.head?.filter Char.isAlpha, cs.drop name.length with
  | some _, ':' :: rest => some (String.ofList (name.map Char.toLower), rest)
  | _, _ => none

def fragmentSet : String := " \"<>" ++ String.singleton (Char.ofNat 0x60)

def pathSet : String := fragmentSet ++ "#?\x7b\x7d"

def userSet : String := pathSet ++ "/:;=@[\\]^|"

def querySet (special : Bool) : String := " \"#<>" ++ if special then "'" else ""

def endsAuthority (special : Bool) (c : Char) : Bool :=
  c == '/' || c == '?' || c == '#' || (special && c == '\\')

def splitUser (special : Bool) (cs : List Char) : Option (List Char) × List Char :=
  let authority := cs.takeWhile (!endsAuthority special ·)
  let rest := cs.drop authority.length
  if authority.contains '@' then
    let host := (authority.reverse.takeWhile (· != '@')).reverse
    (some (authority.take (authority.length - host.length - 1)), host ++ rest)
  else (none, cs)

def userText (user : List Char) : String :=
  let name := user.takeWhile (· != ':')
  let password := user.drop (name.length + 1)
  let text := percentEncode userSet name ++
    if password.isEmpty then "" else ":" ++ percentEncode userSet password
  if text.isEmpty then "" else text ++ "@"

def hostLength (special : Bool) : Bool → List Char → Nat
  | _, [] => 0
  | inside, c :: cs =>
    if (c == ':' && !inside) || endsAuthority special c then 0
    else hostLength special (if c == '[' then true else if c == ']' then false else inside) cs + 1

def readPort (scheme : String) (cs : List Char) :
    Except UrlFault (Option Nat × List Char) :=
  let digits := cs.takeWhile Char.isDigit
  let rest := cs.drop digits.length
  let port := digits.foldl (fun n c => n * 10 + (c.toNat - 48)) 0
  if port > 65535 then .error .badPort
  else
    match rest with
    | c :: _ =>
      if c == '/' || c == '\\' || c == '?' || c == '#' then
        .ok (if digits.isEmpty || some port == defaultPort? scheme then none else some port, rest)
      else .error .badPort
    | [] =>
      .ok (if digits.isEmpty || some port == defaultPort? scheme then none else some port, rest)

def isDoubleDot (s : String) : Bool :=
  ["..", "%2e%2e", "%2e.", ".%2e"].contains (String.ofList (s.toList.map Char.toLower))

def isSingleDot (s : String) : Bool :=
  [".", "%2e"].contains (String.ofList (s.toList.map Char.toLower))

def isDriveLetter (s : String) : Bool :=
  match s.toList with
  | [a, b] => a.isAlpha && (b == ':' || b == '|')
  | _ => false

def segments (special : Bool) (cs : List Char) : List (List Char) :=
  let slashes := if special then cs.map fun c => if c == '\\' then '/' else c else cs
  Text.splitOn '/' slashes

-- Adds segments to a path; `.` stays in place and `..` goes up, and both leave an empty segment
-- where they come last.
def foldSegments (file : Bool) : List String → List String → List String
  | done, [] => done
  | done, [s] =>
    if isDoubleDot s then up done ++ [""]
    else if isSingleDot s then done ++ [""]
    else done ++ [drive done s]
  | done, s :: rest =>
    if isDoubleDot s then foldSegments file (up done) rest
    else if isSingleDot s then foldSegments file done rest
    else foldSegments file (done ++ [drive done s]) rest
where
  up (done : List String) : List String :=
    match done with
    | [s] => if file && isDriveLetter s then [s] else []
    | _ => done.dropLast
  drive (done : List String) (s : String) : String :=
    if file && done.isEmpty && isDriveLetter s then String.ofList [s.toList.headD 'c', ':'] else s

def normalPath (special file : Bool) (cs : List Char) : String :=
  let body := match cs with
    | c :: rest => if c == '/' || (special && c == '\\') then rest else cs
    | [] => []
  let encoded := (segments special body).map (percentEncode pathSet)
  let done := foldSegments file [] encoded
  let done := if file then
      match done.dropWhile (· == "") with
      | [] => [""]
      | kept => kept
    else done
  "/" ++ "/".intercalate done

def splitTail (cs : List Char) : List Char × Option (List Char) × Option (List Char) :=
  let body := cs.takeWhile (· != '#')
  let fragment := if cs.length > body.length then some (cs.drop (body.length + 1)) else none
  let path := body.takeWhile (· != '?')
  let query := if body.length > path.length then some (body.drop (path.length + 1)) else none
  (path, query, fragment)

def finish (scheme user : String) (host : Option Host) (authority : Bool) (port : Option Nat)
    (path : List Char → String) (cs : List Char) : Url :=
  let (body, query, fragment) := splitTail cs
  { scheme, user, host, authority, port
    path := path body
    query := query.map (percentEncode (querySet (isSpecial scheme)))
    fragment := fragment.map (percentEncode fragmentSet) }

def pathBehindHost (special : Bool) (cs : List Char) : String :=
  if cs.isEmpty && !special then "" else normalPath special false cs

def readAuthority (scheme : String) (cs : List Char) : Except UrlFault Url := do
  let special := isSpecial scheme
  let (user, rest) := splitUser special cs
  if user = some [] && rest.head?.any (endsAuthority special) then throw .emptyHost
  let length := hostLength special false rest
  let hostText := rest.take length
  let rest := rest.drop length
  if special && hostText.isEmpty then throw .emptyHost
  let host ← if special then readHost hostText else readOpaqueHost hostText
  if host = .domain "" && rest.head? = some ':' then throw .emptyHost
  let (port, rest) ← match rest with
    | ':' :: cs => readPort scheme cs
    | cs => pure (none, cs)
  let user := (user.map userText).getD ""
  if host = .domain "" && !user.isEmpty then throw .emptyHost
  let host := if host = .domain "" then none else some host
  return finish scheme user host true port (pathBehindHost special) rest

-- After `file:` the host may be left out, and a host `localhost` is dropped.
def readFile (cs : List Char) : Except UrlFault Url :=
  let isSlash := fun (c : Char) => c == '/' || c == '\\'
  match cs with
  | a :: b :: rest =>
    if isSlash a && isSlash b then
      let hostText := rest.takeWhile (!endsAuthority true ·)
      if isDriveLetter (String.ofList hostText) || hostText.isEmpty then
        .ok (finish "file" "" none true none (normalPath true true) rest)
      else do
        let host ← readHost hostText
        let host := if host = .domain "localhost" then none else some host
        return finish "file" "" host true none (normalPath true true) (rest.drop hostText.length)
    else .ok (finish "file" "" none true none (normalPath true true) cs)
  | _ => .ok (finish "file" "" none true none (normalPath true true) cs)

def isTrimmed (c : Char) : Bool := c.toNat ≤ 0x20

def read (s : String) : Except UrlFault Url :=
  let cs := (s.toList.dropWhile isTrimmed).reverse.dropWhile isTrimmed |>.reverse
  let cs := cs.filter fun c => c != '\t' && c != '\n' && c != '\r'
  match readScheme? cs with
  | none => .error .noBase
  | some (scheme, rest) =>
    if scheme == "file" then readFile rest
    else if isSpecial scheme then
      readAuthority scheme (rest.dropWhile fun c => c == '/' || c == '\\')
    else
      match rest with
      | '/' :: '/' :: cs => readAuthority scheme cs
      | '/' :: _ => .ok (finish scheme "" none false none (normalPath false false) rest)
      | _ => .ok (finish scheme "" none false none (percentEncode "") rest)

def hostText (u : Url) : Option String := u.host.map Host.text

def text (u : Url) : String :=
  let authority :=
    if u.authority then
      "//" ++ u.user ++ u.hostText.getD "" ++ (u.port.map fun p => ":" ++ toString p).getD ""
    else if u.path.startsWith "//" then "/."
    else ""
  u.scheme ++ ":" ++ authority ++ u.path ++ (u.query.map ("?" ++ ·)).getD "" ++
    (u.fragment.map ("#" ++ ·)).getD ""

end Url

end Steward
