import Mathlib.Data.List.DropRight
import MyCursor.CheckpointCodec
import MyCursor.PluginRecords

/-!
# Credentials of the built-in plugins

`resources.ts` of the plugins `codex-auth`, `grok-auth` and `antigravity-auth`: the
drafts that a credential becomes, and the files that credentials are imported from.
The helpers that the three files share are defined once.
-/
namespace MyCursor.Credentials
open Message Text PluginRecords

/-- What the plugins use of their runtime: `atob`, `TextDecoder`, `JSON.parse` and
    SHA-256, which has 32 bytes. -/
class Runtime where
  atob : String → Option (List UInt8)
  decodeText : List UInt8 → String
  parse : String → Option Value
  digest : String → List UInt8
  digest_length : ∀ token, (digest token).length = 32

/-- What `trim` of JavaScript takes away. -/
def isBlank (c : Char) : Bool :=
  (0x09 ≤ c.toNat && c.toNat ≤ 0x0D) || c.toNat = 0x20 || c.toNat = 0xA0 || c.toNat = 0x1680 ||
    (0x2000 ≤ c.toNat && c.toNat ≤ 0x200A) || c.toNat = 0x2028 || c.toNat = 0x2029 || c.toNat = 0x202F ||
    c.toNat = 0x205F || c.toNat = 0x3000 || c.toNat = 0xFEFF
def trimmed (chars : List Char) : List Char := (chars.dropWhile isBlank).rdropWhile isBlank
def trimText (text : String) : String := String.ofList (trimmed text.toList)

def object : Value → Option Value
  | .Object members => some (.Object members)
  | _ => none
def text : Value → Option String
  | .String value => if trimText value = "" then none else some (trimText value)
  | _ => none
def textOf (source : Value) (key : String) : Option String := (Json.get source key).bind text
def firstText (source : Value) (keys : List String) : Option String := keys.findSome? (textOf source)

section Tokens
variable [Runtime]

def segments (token : String) : List String := (token.toList.splitOn '.').map String.ofList
def decodeSegment (encoded : String) : Option Value :=
  let normalized := encoded.toList.map fun c => if c = '-' then '+' else if c = '_' then '/' else c
  let padded := normalized ++ List.replicate ((normalized.length + 3) / 4 * 4 - normalized.length) '='
  (Runtime.atob (String.ofList padded)).bind fun bytes => (Runtime.parse (Runtime.decodeText bytes)).bind object
def decodeJwtPayload (token : String) : Option Value :=
  ((segments token)[1]?.filter (· ≠ "")).bind decodeSegment
def claim (payload : Option Value) (key : String) : Option String := payload.bind (textOf · key)

def hexDigit (n : Nat) : Char := Char.ofNat (if n < 10 then 48 + n else 87 + n)
def hexByte (byte : UInt8) : List Char := [hexDigit (byte.toNat / 16),hexDigit (byte.toNat % 16)]
def tokenFingerprint (token : String) : String := String.ofList (((Runtime.digest token).take 8).flatMap hexByte)

end Tokens

structure CredentialCandidate where
  accessToken : String
  refreshToken : Option String
  accountId : Option String := none
  displayName : Option String
  projectId : Option String := none
  expiresAtMs : Option Int := none
  quota : Option Value := none
deriving DecidableEq

def textOrNull (value : Option String) : Value := value.elim .Null .String

structure ResourceImportFile where
  name : String
  content : String
deriving DecidableEq

/-- Arrays, and the arrays that an object has under one of the names, are read item by
    item; what remains are single credentials. -/
def firstArray (containers : List String) (item : Value) : Option (List Value) :=
  containers.findSome? fun key => (Json.get item key).bind Json.as_array

variable {containers : List String}

theorem firstArray_size {item : Value} {items : List Value}
    (found : firstArray containers item = some items) : sizeOf items < sizeOf item := by
  obtain ⟨key,_,isItems⟩ := List.exists_of_findSome?_eq_some found
  obtain ⟨value,isValue,isArray⟩ := Option.bind_eq_some_iff.mp isItems
  cases value with
  | Array inner =>
    obtain rfl : inner = items := Option.some.inj isArray
    cases item with
    | Object members =>
      obtain ⟨member,isFound,isMember⟩ := Option.map_eq_some_iff.mp isValue
      have size := List.sizeOf_lt_of_mem (List.mem_of_find?_eq_some isFound)
      obtain ⟨name,value⟩ := member
      obtain rfl : value = .Array inner := isMember
      simp at size ⊢
      omega
    | _ => cases isValue
  | _ => cases isArray

def collect (containers : List String) (read : Value → Option CredentialCandidate) (value : Value) : List CredentialCandidate :=
  match value with
  | .Array items => items.flatMap fun item => collect containers read item
  | .Object members =>
    if Json.get (.Object members) "disabled" = some (.Bool true) then []
    else
      match _isItems : firstArray containers (.Object members) with
      | some items => items.attach.flatMap fun item => collect containers read item.1
      | none => (read (.Object members)).toList
  | _ => []
termination_by sizeOf value
decreasing_by
  · have size := List.sizeOf_lt_of_mem ‹_›
    simp
    omega
  · have size := List.sizeOf_lt_of_mem item.2
    have inside := firstArray_size ‹_›
    omega

theorem collect_array (containers : List String) (read : Value → Option CredentialCandidate) (items : List Value) :
    collect containers read (.Array items) = items.flatMap (collect containers read) := by
  rw [collect]
theorem collect_object {read : Value → Option CredentialCandidate} {members : List (String × Value)}
    (enabled : Json.get (.Object members) "disabled" ≠ some (.Bool true)) :
    collect containers read (.Object members) = match firstArray containers (.Object members) with
      | some items => items.flatMap (collect containers read)
      | none => (read (.Object members)).toList := by
  rw [collect,if_neg enabled]
  split
  · rename_i items found
    rw [found,List.flatMap_subtype (g := collect containers read) fun _ _ => rfl]
    simp
  · rename_i found
    rw [found]

theorem collect_all {P : CredentialCandidate → Prop} {read : Value → Option CredentialCandidate}
    (holds : ∀ item credential, read item = some credential → P credential) (value : Value) :
    ∀ credential ∈ collect containers read value, P credential := by
  induction value using collect.induct containers with
  | case1 items ih =>
    intro credential member
    rw [collect_array] at member
    obtain ⟨item,isItem,inside⟩ := List.mem_flatMap.mp member
    exact ih item isItem credential inside
  | case2 members off =>
    intro credential member
    rw [collect,if_pos off] at member
    cases member
  | case3 members enabled items found ih =>
    intro credential member
    rw [collect_object enabled,found] at member
    obtain ⟨item,isItem,inside⟩ := List.mem_flatMap.mp member
    exact ih ⟨item,isItem⟩ credential inside
  | case4 members enabled none =>
    intro credential member
    rw [collect_object enabled,none] at member
    exact holds _ credential (Option.mem_toList.mp member)
  | case5 value _ _ =>
    intro credential member
    unfold collect at member
    split at member <;> simp_all

/-- The names under which a credential is looked for; the last access names are only
    those of the item itself. -/
structure Aliases where
  access : List String
  itemAccess : List String
  account : List String
  idToken : List String

section Plugins
variable [Runtime]

def profileEmail (payload : Option Value) : Option String :=
  ((payload.bind (Json.get · "https://api.openai.com/profile")).bind object).bind (textOf · "email")
def jwtDisplayName (token : Option String) : Option String :=
  token.bind fun token =>
    let payload := decodeJwtPayload token
    (claim payload "email").or ((profileEmail payload).or ((claim payload "preferred_username").or (claim payload "name")))

def readCredential (aliases : Aliases) (item : Value) : Option CredentialCandidate :=
  let tokens := ((Json.get item "tokens").bind object).getD item
  let accessToken := (firstText tokens aliases.access).or (firstText item aliases.itemAccess)
  let refreshToken := (firstText tokens ["refresh_token","refreshToken"]).or (firstText item ["refresh_token","refreshToken"])
  let accountId := (firstText tokens aliases.account).or (firstText item aliases.account)
  let idToken := (firstText tokens aliases.idToken).or (firstText item aliases.idToken)
  let displayName := (firstText item ["email","display_name","displayName","name"]).or
    ((firstText tokens ["email","display_name","displayName","name"]).or (jwtDisplayName idToken))
  accessToken.map fun accessToken => { accessToken, refreshToken, accountId, displayName }

def readFile (aliases : Aliases) (missing : String) (file : ResourceImportFile) : Except String (List CredentialCandidate) :=
  match Runtime.parse file.content with
  | none => .error (file.name ++ ": not valid JSON")
  | some content =>
    match collect ["accounts","credentials","items"] (readCredential aliases) content with
    | [] => .error (file.name ++ ": " ++ missing)
    | found => .ok found

def credentialsOf (results : List (Except String (List CredentialCandidate))) : List CredentialCandidate :=
  results.flatMap fun result => result.toOption.getD []
def warningsOf (results : List (Except String (List CredentialCandidate))) : List String :=
  results.filterMap fun
    | .ok _ => none
    | .error warning => some warning

def parseResults (draft : CredentialCandidate → ResourceDraft) (missing : String)
    (results : List (Except String (List CredentialCandidate))) : Except String (List ResourceDraft × List String) :=
  match credentialsOf results with
  | [] => .error (if warningsOf results = [] then missing else String.intercalate "; " (warningsOf results))
  | credentials => .ok (credentials.map draft,warningsOf results)

def authorized (body : Value) : Option CredentialCandidate :=
  (textOf body "access_token").map fun accessToken =>
    { accessToken, refreshToken := textOf body "refresh_token", displayName := none }

namespace Codex

def chatGptAccountId (accessToken : String) : Option String :=
  let payload := decodeJwtPayload accessToken
  let auth := (payload.bind (Json.get · "https://api.openai.com/auth")).bind object
  (auth.bind (textOf · "chatgpt_account_id")).or (claim payload "chatgpt_account_id")

def accountIdentity (accessToken : String) (accountId : Option String) : String × String :=
  let payload := decodeJwtPayload accessToken
  let identity := (accountId.or ((chatGptAccountId accessToken).or ((claim payload "sub").or (claim payload "email")))).getD
    (tokenFingerprint accessToken)
  let displayName := ((claim payload "email").or ((profileEmail payload).or ((claim payload "preferred_username").or
    (claim payload "name")))).getD identity
  ("codex:" ++ identity,displayName)

def credentialDraft (credential : CredentialCandidate) : ResourceDraft :=
  let identity := accountIdentity credential.accessToken credential.accountId
  ⟨identity.1,.Object [
    ("accessToken",.String credential.accessToken),
    ("refreshToken",textOrNull credential.refreshToken),
    ("accountId",textOrNull (credential.accountId.or (chatGptAccountId credential.accessToken))),
    ("displayName",.String (credential.displayName.getD identity.2)),
    ("quota",.Null)],none⟩

def aliases : Aliases :=
  ⟨["access_token","accessToken","token","key"],["access_token","accessToken","token","key","OPENAI_API_KEY"],
    ["account_id","accountId","chatgpt_account_id"],["id_token","idToken"]⟩
def parseCredentialFiles (files : List ResourceImportFile) : List (Except String (List CredentialCandidate)) :=
  files.map (readFile aliases "no ChatGPT access token found")
def credentialImport (files : List ResourceImportFile) : Except String (List ResourceDraft × List String) :=
  parseResults credentialDraft "credential JSON does not contain an access token" (parseCredentialFiles files)

end Codex

namespace Grok

def accountIdentity (accessToken : String) : String × String :=
  let payload := decodeJwtPayload accessToken
  let identity := ((claim payload "sub").or (claim payload "email")).getD (tokenFingerprint accessToken)
  let displayName := ((claim payload "email").or ((claim payload "preferred_username").or (claim payload "name"))).getD identity
  ("grok:" ++ identity,displayName)

def credentialDraft (credential : CredentialCandidate) : ResourceDraft :=
  let identity := accountIdentity credential.accessToken
  ⟨identity.1,.Object [
    ("accessToken",.String credential.accessToken),
    ("refreshToken",textOrNull credential.refreshToken),
    ("displayName",.String (credential.displayName.getD identity.2)),
    ("quota",.Null)],none⟩

def aliases : Aliases :=
  ⟨["access_token","accessToken","token","key"],["access_token","accessToken","token","key","XAI_API_KEY"],[],[]⟩
def parseCredentialFiles (files : List ResourceImportFile) : List (Except String (List CredentialCandidate)) :=
  files.map (readFile aliases "no Grok access token found")
def credentialImport (files : List ResourceImportFile) : Except String (List ResourceDraft × List String) :=
  parseResults credentialDraft "credential JSON does not contain an access token" (parseCredentialFiles files)

end Grok

namespace Antigravity

/-- The requests made while files are imported: that for new tokens, by a refresh
    token, and those for the quota and the project, by an access token. -/
structure Network where
  now : Int
  tokens : String → Option (Nat × String)
  quota : String → Option (Value × String)

def decodeJwtPayload (token : String) : Option Value := (segments token)[1]?.bind decodeSegment

def email (token : String) : Option String := claim (decodeJwtPayload token) "email"
def sub (token : String) : Option String := claim (decodeJwtPayload token) "sub"
def name (token : String) : Option String :=
  (claim (decodeJwtPayload token) "name").or (claim (decodeJwtPayload token) "preferred_username")

def accountIdentity (token : String) (providedDisplayName : Option String) : String × String :=
  let fingerprint := tokenFingerprint token
  let identity := (providedDisplayName.filter fun provided => provided ≠ "" && !contains provided "Antigravity").getD
    (((email token).or (sub token)).getD fingerprint)
  let displayName := (providedDisplayName.or ((email token).or (name token))).getD
    (if starts_with token "AIza" then "API Key (" ++ String.ofList (fingerprint.toList.take 6) ++ ")" else identity)
  ("antigravity:" ++ identity,displayName)

def credentialDraft (now : Int) (credential : CredentialCandidate) : ResourceDraft :=
  let identity := accountIdentity credential.accessToken credential.displayName
  let expiresAtMs := credential.expiresAtMs.or
    (if (credential.refreshToken.filter (· ≠ "")).isSome then some (now + 3500 * 1000) else none)
  ⟨identity.1,.Object [
    ("accessToken",.String credential.accessToken),
    ("refreshToken",textOrNull credential.refreshToken),
    ("displayName",.String (credential.displayName.getD identity.2)),
    ("projectId",.String (credential.projectId.getD "bamboo-precept-lgxtn")),
    ("expiresAtMs",expiresAtMs.elim .Null fun time => .Number (if time < 0 then .NegInt time else .PosInt time.toNat)),
    ("quota",credential.quota.getD .Null)],none⟩

def ACCESS : List String :=
  ["access","accessToken","access_token","token","apiKey","api_key","key","GEMINI_API_KEY","GOOGLE_API_KEY","ANTIGRAVITY_API_KEY"]
def REFRESH : List String := ["refresh","refresh_token","refreshToken"]
def NAME : List String := ["email","display_name","displayName","name"]
def PROJECT : List String := ["project","projectId","project_id","cloudaicompanionProject"]

/-- Where there is only a refresh token, it stands for the access token. -/
def readCredential (item : Value) : Option CredentialCandidate :=
  let tokens := ((Json.get item "tokens").bind object).getD item
  let accessToken := (firstText tokens ACCESS).or (firstText item ACCESS)
  let refreshToken := (firstText tokens REFRESH).or (firstText item REFRESH)
  let displayName := (firstText item NAME).or (firstText tokens NAME)
  let projectId := (firstText item PROJECT).or (firstText tokens PROJECT)
  (accessToken.or refreshToken).map fun accessToken => { accessToken, refreshToken, displayName, projectId }

/-- `(?:API_KEY|TOKEN|…)\s*=\s*["']?([^"'\r\n]+)` at the front of a text, without regard to
    case. The blanks after the sign are given back one by one. -/
def assigned (chars : List Char) : Option (List Char) :=
  let quote := fun c => c = Char.ofNat 34 || c = Char.ofNat 39
  let capture := fun chars : List Char =>
    let body := chars.takeWhile fun c => !quote c && c ≠ Char.ofNat 13 && c ≠ Char.ofNat 10
    if body = [] then none else some body
  let quoted := fun chars : List Char =>
    match chars with
    | c :: rest => (if quote c then capture rest else none).or (capture chars)
    | [] => none
  ["API_KEY","TOKEN","GEMINI_API_KEY","GOOGLE_API_KEY","ANTIGRAVITY_API_KEY"].findSome? fun name =>
    if (chars.take name.length).map Char.toUpper = name.toList then
      match (chars.drop name.length).dropWhile isBlank with
      | '=' :: rest => (List.range ((rest.takeWhile isBlank).length + 1)).reverse.findSome? fun blanks => quoted (rest.drop blanks)
      | _ => none
    else none
/-- `AIza[0-9A-Za-z-_]{35}` at the front of a text. -/
def keyed (chars : List Char) : Option (List Char) :=
  let key := chars.take 39
  if key.length = 39 ∧ key.take 4 = "AIza".toList ∧ key.all (fun c => is_ascii_alphanumeric c || c = '-' || c = '_') then some key
  else none
def firstMatch (found : List Char → Option (List Char)) (text : String) : Option String :=
  (text.toList.tails.findSome? found).map String.ofList

def refreshed (network : Network) (credential : CredentialCandidate) : CredentialCandidate :=
  if credential.refreshToken = some credential.accessToken ∧ credential.accessToken ≠ "" then
    match network.tokens credential.accessToken with
    | none => credential
    | some (status,body) =>
      match Runtime.parse body with
      | none => credential
      | some value =>
        match (object value).bind (textOf · "access_token") with
        | none => credential
        | some accessToken =>
          if 200 ≤ status ∧ status < 300 then
            let seconds := ((Json.get value "expires_in").bind Json.as_u64).getD 3600
            { credential with
              accessToken
              refreshToken := (textOf value "refresh_token").or credential.refreshToken
              expiresAtMs := some (network.now + seconds * 1000) }
          else credential
  else credential

/-- A file with nothing but a key, or a line that sets one, is named by itself. -/
def readFile (network : Network) (file : ResourceImportFile) : Except String (List CredentialCandidate) :=
  let raw := trimText file.content
  let bare := fun token => Except.ok [{ accessToken := token, refreshToken := none, displayName := some file.name }]
  if raw = "" then .ok []
  else if starts_with raw "AIza" ∨ (segments raw).length = 3 ∧ contains raw " " = false then bare raw
  else
    match Runtime.parse raw with
    | none =>
      match firstMatch assigned raw, firstMatch keyed raw with
      | some token, _ => bare (trimText token)
      | none, some token => bare token
      | none, none => .error (file.name ++ ": not valid JSON or API key")
    | some (.String content) => bare (trimText content)
    | some content =>
      match collect ["accounts","credentials","items","keys"] readCredential content with
      | [] => .error (file.name ++ ": no Google/Antigravity API key or token found")
      | found => .ok (found.map (refreshed network))

def parseCredentialFiles (network : Network) (files : List ResourceImportFile) : List (Except String (List CredentialCandidate)) :=
  files.map (readFile network)

/-- The quota and the project of an imported credential are looked up. -/
def withQuota (network : Network) (credential : CredentialCandidate) : CredentialCandidate :=
  match network.quota credential.accessToken with
  | none => credential
  | some (quota,projectId) => { credential with quota := some quota, projectId := some projectId }

def credentialImport (network : Network) (files : List ResourceImportFile) : Except String (List ResourceDraft × List String) :=
  parseResults (fun credential => credentialDraft network.now (withQuota network credential))
    "credential file does not contain a valid token or API key" (parseCredentialFiles network files)

/-- What an authorization gives: the answer for the code, and what the account says of
    itself where it could be asked. -/
def complete (body : Value) (userInfo : Option Value) (projectId : String) (expiresAtMs : Option Int) (quota : Option Value) :
    Option CredentialCandidate :=
  (textOf body "access_token").map fun accessToken =>
    { accessToken
      refreshToken := textOf body "refresh_token"
      displayName := some (((userInfo.bind (textOf · "email")).or (textOf body "email")).getD "Google Antigravity")
      projectId := some projectId
      expiresAtMs
      quota }

end Antigravity

end Plugins

end MyCursor.Credentials
