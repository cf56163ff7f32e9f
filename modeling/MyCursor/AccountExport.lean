import MyCursor.Credentials
import MyCursor.SdkResponsesAgreement

/-!
# Exported accounts

`export_resources` of `plugin/registry.rs` writes the private data of all records of a
resource type into one file; a plugin's own import reads it again. The records are
those of credentials that the plugin itself made drafts of.
-/
namespace MyCursor.AccountExport
open Message Text PluginRecords Credentials
open SdkResponses (held heldItems heldMembers get_held heldItems_map)
open Wire (JavaScript)
set_option linter.unusedSectionVars false

inductive Plugin where
  | Codex
  | Grok
  | Antigravity
deriving DecidableEq

def export_resources (records : List ResourceRecord) : Value := .Object [("accounts",.Array (records.map (·.private_data)))]

section Accounts
variable [Runtime]

def credentialDraft (plugin : Plugin) (now : Int) (credential : CredentialCandidate) : ResourceDraft :=
  match plugin with
  | .Codex => Codex.credentialDraft credential
  | .Grok => Grok.credentialDraft credential
  | .Antigravity => Antigravity.credentialDraft now credential
def credentialImport (plugin : Plugin) (network : Antigravity.Network) (files : List ResourceImportFile) :
    Except String (List ResourceDraft × List String) :=
  match plugin with
  | .Codex => Codex.credentialImport files
  | .Grok => Grok.credentialImport files
  | .Antigravity => Antigravity.credentialImport network files

/-- A credential of an authorization, or of imported files. -/
def Created (credential : CredentialCandidate) : Plugin → Prop
  | .Codex => (∃ body, authorized body = some credential) ∨ ∃ files, credential ∈ credentialsOf (Codex.parseCredentialFiles files)
  | .Grok => (∃ body, authorized body = some credential) ∨ ∃ files, credential ∈ credentialsOf (Grok.parseCredentialFiles files)
  | .Antigravity =>
    (∃ body userInfo projectId expiresAtMs quota,
      Antigravity.complete body userInfo projectId expiresAtMs quota = some credential) ∨
    ∃ network files, ∃ found ∈ credentialsOf (Antigravity.parseCredentialFiles network files),
      credential = Antigravity.withQuota network found

/-- A record of a credential that was not changed since. -/
structure Made (plugin : Plugin) (credential : CredentialCandidate) (record : ResourceRecord) : Prop where
  created : Created credential plugin
  draft : ∃ now, record.key = (credentialDraft plugin now credential).key ∧
    record.private_data = (credentialDraft plugin now credential).private_data

/-- The requests for tokens fail or give the tokens that are known. -/
def Steady (network : Antigravity.Network) : Prop :=
  ∀ token status body value, network.tokens token = some (status,body) → Runtime.parse body = some value →
    (∀ access, textOf value "access_token" = some access → access = token) ∧
      ∀ refresh, textOf value "refresh_token" = some refresh → refresh = token

structure SameAccount (record : ResourceRecord) (draft : ResourceDraft) : Prop where
  key : draft.key = record.key
  accessToken : Json.get draft.private_data "accessToken" = Json.get record.private_data "accessToken"
  refreshToken : Json.get draft.private_data "refreshToken" = Json.get record.private_data "refreshToken"
  displayName : Json.get draft.private_data "displayName" = Json.get record.private_data "displayName"

def updatedBy (now : Int) (record : ResourceRecord) (draft : ResourceDraft) : ResourceRecord :=
  { record with private_data := draft.private_data, state := draft.state.getD .Ready, updated_at_ms := now }

/-- The file is imported as the same accounts, in their order, and with them every
    record is updated and none is added. -/
def Reimports (plugin : Plugin) (network : Antigravity.Network) (file : ResourceImportFile) (records : List ResourceRecord) : Prop :=
  ∃ drafts warnings, credentialImport plugin network [file] = .ok (drafts,warnings) ∧ List.Forall₂ SameAccount records drafts ∧
    ∀ ids now, ids.length = drafts.length → upsert_resources records (drafts.zip ids) now =
      .ok (List.zipWith (updatedBy now) records drafts,⟨0,records.length⟩)

/-- A text that is neither blank nor has blanks around it. -/
structure Plain (value : String) : Prop where
  trimmed : trimText value = value
  nonempty : value ≠ ""

/-- The name that is shown for a token that comes with none and has no email. -/
def shown (token : String) : String :=
  (Antigravity.name token).getD
    (if starts_with token "AIza" then "API Key (" ++ String.ofList ((tokenFingerprint token).toList.take 6) ++ ")"
    else (Antigravity.sub token).getD (tokenFingerprint token))

/-- The token is there, and the name that came with it is left as it is; without one the
    token has an email, or what is shown for it is its identity or the plugin's own name. -/
structure Restorable (credential : CredentialCandidate) : Prop where
  token : credential.accessToken ≠ ""
  named : ∀ name, credential.displayName = some name → Plain name
  unnamed : credential.displayName = none → (Antigravity.email credential.accessToken).isSome ∨
    contains (shown credential.accessToken) "Antigravity" = true ∨
    shown credential.accessToken = (Antigravity.sub credential.accessToken).getD (tokenFingerprint credential.accessToken)

/-- The text that `to_vec_pretty` makes of an object that has members, as JavaScript
    reads it. -/
structure Written [JavaScript] (value : Value) (content : String) : Prop where
  read : Runtime.parse content = some (held value)
  shape : ∃ body, content = "\x7b\n  " ++ body ++ "\n\x7d"

end Accounts

/-! ## Texts that are left as they are -/

theorem trimText_twice (value : String) : trimText (trimText value) = trimText value := by
  rw [trimText,trimText,String.toList_ofList]
  exact congrArg String.ofList (Trimming.trimmed_twice _)

theorem text_plain {value : Value} {found : String} (isText : text value = some found) : Plain found := by
  cases value with
  | String value =>
    rw [Credentials.text] at isText
    split_ifs at isText with blank
    obtain rfl := Option.some.inj isText
    exact ⟨trimText_twice value,blank⟩
  | _ => cases isText
theorem Plain.text {value : String} (plain : Plain value) : text (.String value) = some value := by
  rw [Credentials.text,plain.trimmed,if_neg plain.nonempty]

theorem plain_of_ends {chars : List Char} (nonempty : chars ≠ []) (first : ∀ c ∈ chars.head?, isBlank c = false)
    (last : ∀ c ∈ chars.getLast?, isBlank c = false) : Plain (String.ofList chars) := by
  refine ⟨?_,?_⟩
  · rw [trimText,String.toList_ofList]
    exact congrArg String.ofList (Trimming.trimmed_of_ends first last)
  · intro same
    apply nonempty
    rw [← String.toList_ofList (l := chars),same]
    rfl

theorem plain_of_chars {value : String} (nonempty : value.toList ≠ []) (first : ∀ c ∈ value.toList.head?, isBlank c = false)
    (last : ∀ c ∈ value.toList.getLast?, isBlank c = false) : Plain value := by
  rw [← String.ofList_toList (s := value)]
  exact plain_of_ends nonempty first last

def AllPlain (value : Option String) : Prop := ∀ found, value = some found → Plain found

variable {a : Option String}

theorem AllPlain.or {b : Option String} (first : AllPlain a) (second : AllPlain b) : AllPlain (a.or b) := by
  intro found isFound
  cases a with
  | none => exact second found isFound
  | some value => exact first found isFound
theorem AllPlain.getD {value : String} (first : AllPlain a) (second : Plain value) : Plain (a.getD value) := by
  cases a with
  | none => exact second
  | some found => exact first found rfl
theorem AllPlain.again (plain : AllPlain a) : a.bind (fun value => text (.String value)) = a := by
  cases a with
  | none => rfl
  | some value => rw [Option.bind_some,(plain value rfl).text]
theorem textOf_plain (source : Value) (key : String) : AllPlain (textOf source key) := by
  intro found isFound
  obtain ⟨value,_,isText⟩ := Option.bind_eq_some_iff.mp isFound
  exact text_plain isText
theorem firstText_plain (source : Value) (keys : List String) : AllPlain (firstText source keys) := by
  intro found isFound
  obtain ⟨key,_,isText⟩ := List.exists_of_findSome?_eq_some isFound
  exact textOf_plain source key found isText
theorem claim_plain (payload : Option Value) (key : String) : AllPlain (claim payload key) := by
  intro found isFound
  obtain ⟨value,_,isText⟩ := Option.bind_eq_some_iff.mp isFound
  exact textOf_plain value key found isText

section Exports
variable [Runtime] [JavaScript]

theorem hexDigit_solid : ∀ n < 16, isBlank (hexDigit n) = false := by decide

theorem hexByte_solid (byte : UInt8) : ∀ c ∈ hexByte byte, isBlank c = false := by
  have bound := byte.toNat_lt
  intro c member
  rcases List.mem_pair.mp member with rfl | rfl
  · exact hexDigit_solid _ (by omega)
  · exact hexDigit_solid _ (by omega)

theorem tokenFingerprint_plain (token : String) : Plain (tokenFingerprint token) := by
  have solid : ∀ c ∈ ((Runtime.digest token).take 8).flatMap hexByte, isBlank c = false := by
    intro c member
    obtain ⟨byte,_,inside⟩ := List.mem_flatMap.mp member
    exact hexByte_solid byte c inside
  apply plain_of_ends
  · have size := Runtime.digest_length token
    cases isDigest : Runtime.digest token with
    | nil =>
      rw [isDigest] at size
      cases size
    | cons first rest => simp [hexByte]
  · exact fun c isHead => solid c (List.mem_of_mem_head? isHead)
  · exact fun c isLast => solid c (List.mem_of_getLast? isLast)

theorem text_held (value : Value) : Credentials.text (held value) = Credentials.text value := by
  cases value <;> simp only [held,Credentials.text]
theorem textOf_held (value : Value) (key : String) : textOf (held value) key = textOf value key := by
  rw [textOf,textOf,get_held,Option.bind_map]
  simp only [Function.comp_def,text_held]
theorem firstText_held (value : Value) (keys : List String) : firstText (held value) keys = firstText value keys := by
  rw [firstText,firstText,funext (textOf_held value)]

structure Single (containers : List String) (item : Value) : Prop where
  isObject : ∃ members, item = .Object members
  absent : ∀ key ∈ "disabled" :: "tokens" :: containers, Json.get item key = none

variable {containers : List String}

theorem Single.held {item : Value} (single : Single containers item) : Single containers (held item) where
  isObject := by
    obtain ⟨members,rfl⟩ := single.isObject
    exact ⟨heldMembers members,by rw [SdkResponses.held]⟩
  absent key member := by rw [get_held,single.absent key member]; rfl

theorem Single.collect {item : Value} (single : Single containers item)
    (read : Value → Option CredentialCandidate) : collect containers read item = (read item).toList := by
  obtain ⟨members,rfl⟩ := single.isObject
  have none : firstArray containers (.Object members) = none := by
    rw [firstArray,List.findSome?_eq_none_iff]
    intro key member
    rw [single.absent key (by simp [member])]
    rfl
  have enabled : Json.get (.Object members) "disabled" ≠ some (.Bool true) := by
    intro off
    rw [single.absent "disabled" (by simp)] at off
    cases off
  rw [collect_object enabled,none]

variable {records : List ResourceRecord}

theorem collect_accounts (read : Value → Option CredentialCandidate)
    (single : ∀ record ∈ records, Single ("accounts" :: containers) record.private_data) :
    collect ("accounts" :: containers) read (held (export_resources records)) =
      records.filterMap fun record => read (held record.private_data) := by
  have isHeld : held (export_resources records) = .Object [("accounts",.Array (records.map fun record => held record.private_data))] := by
    simp [export_resources,held,heldMembers,heldItems_map]
  have found : firstArray ("accounts" :: containers) (.Object [("accounts",.Array (records.map fun record => held record.private_data))]) =
      some (records.map fun record => held record.private_data) := by
    simp [firstArray,Json.as_array]
  rw [isHeld,collect_object (by simp),found]
  show (records.map _).flatMap _ = _
  rw [List.flatMap_map,List.filterMap_eq_flatMap_toList]
  apply List.flatMap_congr
  intro record member
  exact (single record member).held.collect read

theorem parseResults_single (draft : CredentialCandidate → ResourceDraft) (missing warning : String) (found : List CredentialCandidate) :
    parseResults draft missing [match found with | [] => .error warning | found => .ok found] =
      if found = [] then .error warning else .ok (found.map draft,[]) := by
  cases found with
  | nil => simp [parseResults,credentialsOf,warningsOf,Except.toOption]
  | cons first rest => simp [parseResults,credentialsOf,warningsOf,Except.toOption]

variable {network : Antigravity.Network} {credentials : List CredentialCandidate}

theorem changeFirst_found {α : Type} (found : α → Bool) (change : α → α) (before later : List α) (record : α)
    (absent : ∀ other ∈ before, found other = false) (isFound : found record = true) :
    changeFirst found change (before ++ record :: later) = before ++ change record :: later := by
  induction before with
  | nil => rw [List.nil_append,changeFirst,if_pos isFound,List.nil_append]
  | cons first rest ih =>
    rw [List.cons_append,changeFirst,if_neg (by simp [absent first]),ih fun other member => absent other (by simp [member]),
      List.cons_append]

theorem upsertDrafts_same (now : Int) (outcome : UpsertOutcome) {before : List ResourceRecord} {drafts : List ResourceDraft}
    {ids : List String} (same : List.Forall₂ (fun record draft => draft.key = record.key) records drafts)
    (solid : ∀ record ∈ records, trim record.key ≠ "") (distinct : ((before ++ records).map (·.key)).Nodup)
    (long : ids.length = drafts.length) :
    upsertDrafts now (before ++ records) outcome (drafts.zip ids) =
      .ok (before ++ List.zipWith (updatedBy now) records drafts,{ outcome with updated := outcome.updated + records.length }) := by
  induction same generalizing before outcome ids with
  | nil => simp [upsertDrafts]
  | @cons record draft records drafts key _ ih =>
    obtain ⟨id,ids,rfl⟩ := List.exists_cons_of_length_eq_add_one long
    have absent : ∀ other ∈ before, decide (other.key = draft.key) = false := by
      intro other member
      have apart : other.key ≠ record.key := by
        rw [List.map_append,List.nodup_append] at distinct
        exact distinct.2.2 _ (List.mem_map_of_mem member) _ (by simp)
      simp [key,apart]
    have present : (before ++ record :: records).any (fun other => decide (other.key = draft.key)) = true := by
      simp [key]
    rw [List.zip_cons_cons,upsertDrafts,if_neg (by rw [key]; exact solid record (by simp)),if_pos present,
      changeFirst_found _ _ before records record absent (by simp [key])]
    have next : upsertDrafts now (before ++ [updatedBy now record draft] ++ records) { outcome with updated := outcome.updated + 1 }
        (drafts.zip ids) = _ :=
      ih { outcome with updated := outcome.updated + 1 } (fun other member => solid other (by simp [member]))
        (by simpa [updatedBy] using distinct) (by simpa using long)
    rw [List.append_assoc,List.singleton_append] at next
    rw [show ({ record with private_data := draft.private_data, state := draft.state.getD .Ready, updated_at_ms := now } :
      ResourceRecord) = updatedBy now record draft from rfl,next]
    simp [Nat.add_comm,Nat.add_left_comm]

theorem trim_solid {first : Char} {rest : List Char} (solid : is_whitespace first = false) : trim (String.ofList (first :: rest)) ≠ "" := by
  intro blank
  rw [trim,String.toList_ofList,List.dropWhile_cons_of_neg (by simp [solid])] at blank
  have empty : ((first :: rest).reverse.dropWhile is_whitespace).reverse = [] := by
    rw [← String.toList_ofList (l := ((first :: rest).reverse.dropWhile is_whitespace).reverse),blank]
    rfl
  rw [List.reverse_eq_nil_iff,List.dropWhile_eq_nil_iff] at empty
  have member := empty first (by simp)
  rw [solid] at member
  cases member

theorem forall_filterMap {α β γ : Type} {R : α → β → Prop} {S : β → γ → Prop} {f : α → Option γ} {as : List α} {bs : List β}
    (related : List.Forall₂ R as bs) :
    List.Forall₂ S bs (as.filterMap f) ↔ List.Forall₂ (fun a b => ∃ c, f a = some c ∧ S b c) as bs := by
  induction related with
  | nil => simp
  | @cons a b as bs _ related ih =>
    cases isFound : f a with
    | none =>
      rw [List.filterMap_cons_none isFound]
      constructor
      · intro each
        have same := each.length_eq
        have bound := List.length_filterMap_le f as
        rw [List.length_cons,← related.length_eq] at same
        omega
      · intro each
        obtain ⟨⟨c,isSome,_⟩,_⟩ := List.forall₂_cons.mp each
        rw [isFound] at isSome
        cases isSome
    | some c =>
      rw [List.filterMap_cons_some isFound,List.forall₂_cons,List.forall₂_cons,ih]
      simp [isFound]

theorem reimports_iff {plugin : Plugin} {file : ResourceImportFile} {again : CredentialCandidate → Option ResourceDraft}
    {warning : String} (made : List.Forall₂ (Made plugin) credentials records) (distinct : (records.map (·.key)).Nodup)
    (solid : ∀ record ∈ records, trim record.key ≠ "") (imports : credentialImport plugin network [file] =
      if credentials.filterMap again = [] then .error warning else .ok (credentials.filterMap again,[])) :
    Reimports plugin network file records ↔ records ≠ [] ∧
      List.Forall₂ (fun credential record => ∃ draft, again credential = some draft ∧ SameAccount record draft) credentials records := by
  rw [← forall_filterMap made]
  constructor
  · rintro ⟨drafts,warnings,isOk,same,_⟩
    rw [imports] at isOk
    split_ifs at isOk with none
    obtain ⟨rfl,_⟩ := Prod.mk.inj (Except.ok.inj isOk)
    refine ⟨?_,same⟩
    rintro rfl
    exact none (List.forall₂_nil_left_iff.mp same)
  · rintro ⟨some_,same⟩
    refine ⟨credentials.filterMap again,[],?_,same,fun ids now long => ?_⟩
    · rw [imports,if_neg]
      intro none
      rw [none] at same
      exact some_ (List.forall₂_nil_right_iff.mp same)
    · have keys : List.Forall₂ (fun record draft => draft.key = record.key) records (credentials.filterMap again) :=
        same.imp fun _ _ each => each.key
      have updated : upsertDrafts now ([] ++ records) ⟨0,0⟩ ((credentials.filterMap again).zip ids) = _ :=
        upsertDrafts_same now ⟨0,0⟩ keys solid distinct long
      simpa [upsert_resources] using updated

theorem firstText_only {source : Value} {keys : List String} (key : String) (known : key ∈ keys)
    (others : ∀ other ∈ keys, other ≠ key → Json.get source other = none) : firstText source keys = textOf source key := by
  induction keys with
  | nil => cases known
  | cons first rest ih =>
    rw [firstText,List.findSome?_cons]
    by_cases same : first = key
    · subst same
      cases isFound : textOf source first with
      | some found => rfl
      | none =>
        -- the name may stand in the list once more
        by_cases again : first ∈ rest
        · exact (ih again fun other member => others other (by simp [member])).trans isFound
        · apply List.findSome?_eq_none_iff.mpr
          intro other member
          rw [textOf,others other (by simp [member]) (fun isFirst => again (isFirst ▸ member))]
          rfl
    · have absent : textOf source first = none := by
        rw [textOf,others first (by simp) same]
        rfl
      rw [absent]
      exact ih (by simpa [Ne.symm same] using known) fun other member => others other (by simp [member])

variable {record : ResourceRecord}

variable {aliases : Aliases} {missing content name : String}

theorem text_textOrNull (value : Option String) :
    Credentials.text (textOrNull value) = value.bind fun value => Credentials.text (.String value) := by
  cases value <;> simp only [textOrNull,Option.elim_none,Option.elim_some,Option.bind_none,Option.bind_some,Credentials.text]

/-- A credential without blanks around its parts. -/
structure Clean (credential : CredentialCandidate) : Prop where
  accessToken : Plain credential.accessToken
  refreshToken : AllPlain credential.refreshToken
  accountId : AllPlain credential.accountId
  displayName : AllPlain credential.displayName

theorem jwtDisplayName_plain (token : Option String) : AllPlain (jwtDisplayName token) := by
  intro found isFound
  obtain ⟨value,_,isName⟩ := Option.bind_eq_some_iff.mp isFound
  refine ((claim_plain _ _).or (AllPlain.or ?_ ((claim_plain _ _).or (claim_plain _ _)))) found isName
  intro found isFound
  obtain ⟨profile,_,isText⟩ := Option.bind_eq_some_iff.mp isFound
  exact textOf_plain profile "email" found isText

theorem readCredential_clean (aliases : Aliases) (item : Value) (credential : CredentialCandidate)
    (isRead : readCredential aliases item = some credential) : Clean credential := by
  obtain ⟨accessToken,isToken,rfl⟩ := Option.map_eq_some_iff.mp isRead
  exact {
    accessToken := ((firstText_plain _ _).or (firstText_plain _ _)) accessToken isToken
    refreshToken := (firstText_plain _ _).or (firstText_plain _ _)
    accountId := (firstText_plain _ _).or (firstText_plain _ _)
    displayName := (firstText_plain _ _).or ((firstText_plain _ _).or (jwtDisplayName_plain _)) }

variable {credential : CredentialCandidate}

theorem authorized_clean {body : Value} (isAuthorized : authorized body = some credential) : Clean credential := by
  obtain ⟨accessToken,isToken,rfl⟩ := Option.map_eq_some_iff.mp isAuthorized
  exact ⟨textOf_plain _ _ accessToken isToken,textOf_plain _ _,nofun,nofun⟩

theorem files_clean {files : List ResourceImportFile}
    (member : credential ∈ credentialsOf (files.map (readFile aliases missing))) : Clean credential := by
  obtain ⟨result,isResult,inside⟩ := List.mem_flatMap.mp member
  obtain ⟨file,_,rfl⟩ := List.mem_map.mp isResult
  rw [readFile] at inside
  split at inside
  · cases inside
  · split at inside
    · cases inside
    · exact collect_all (readCredential_clean aliases) _ credential inside

theorem codex_single (credential : CredentialCandidate) :
    Single ["accounts","credentials","items"] (Codex.credentialDraft credential).private_data where
  isObject := ⟨_,rfl⟩
  absent key member := by
    simp only [List.mem_cons,List.not_mem_nil,or_false] at member
    rcases member with rfl | rfl | rfl | rfl | rfl <;> simp [Codex.credentialDraft]

theorem plain_getD {a : Option String} {value : String} (plain : AllPlain a) (fallback : Plain value) :
    Credentials.text (.String (a.getD value)) = some (a.getD value) := (plain.getD fallback).text

theorem codex_identity_plain {accountId : Option String} (token : String) (plain : AllPlain accountId) :
    Plain (Codex.accountIdentity token accountId).2 := by
  have account : AllPlain (Codex.chatGptAccountId token) := by
    refine AllPlain.or ?_ (claim_plain _ _)
    intro found isFound
    obtain ⟨auth,_,isText⟩ := Option.bind_eq_some_iff.mp isFound
    exact textOf_plain auth _ found isText
  have profile : AllPlain (profileEmail (decodeJwtPayload token)) := by
    intro found isFound
    obtain ⟨profile,_,isText⟩ := Option.bind_eq_some_iff.mp isFound
    exact textOf_plain profile "email" found isText
  have identity := (plain.or (account.or ((claim_plain (decodeJwtPayload token) "sub").or
    (claim_plain (decodeJwtPayload token) "email")))).getD (tokenFingerprint_plain token)
  exact ((claim_plain _ _).or (profile.or ((claim_plain _ _).or (claim_plain _ _)))).getD identity

theorem codex_read (clean : Clean credential) : readCredential Codex.aliases (held (Codex.credentialDraft credential).private_data) =
      some {
        accessToken := credential.accessToken
        refreshToken := credential.refreshToken
        accountId := credential.accountId.or (Codex.chatGptAccountId credential.accessToken)
        displayName := some (credential.displayName.getD (Codex.accountIdentity credential.accessToken credential.accountId).2) } := by
  have account : AllPlain (credential.accountId.or (Codex.chatGptAccountId credential.accessToken)) := by
    refine clean.accountId.or (AllPlain.or ?_ (claim_plain _ _))
    intro found isFound
    obtain ⟨auth,_,isText⟩ := Option.bind_eq_some_iff.mp isFound
    exact textOf_plain auth _ found isText
  have named := plain_getD clean.displayName (codex_identity_plain credential.accessToken clean.accountId)
  have noTokens : (Json.get (held (Codex.credentialDraft credential).private_data) "tokens").bind object = none := by
    rw [(codex_single credential).held.absent "tokens" (by simp)]
    rfl
  have access : firstText (Codex.credentialDraft credential).private_data Codex.aliases.access = some credential.accessToken := by
    rw [firstText_only "accessToken" (by decide) (by simp [Codex.credentialDraft,Codex.aliases])]
    simp [textOf,Codex.credentialDraft,clean.accessToken.text]
  have refresh : firstText (Codex.credentialDraft credential).private_data ["refresh_token","refreshToken"] =
      credential.refreshToken := by
    rw [firstText_only "refreshToken" (by decide) (by simp [Codex.credentialDraft])]
    simp [textOf,Codex.credentialDraft,text_textOrNull,clean.refreshToken.again]
  have accounts : firstText (Codex.credentialDraft credential).private_data Codex.aliases.account =
      credential.accountId.or (Codex.chatGptAccountId credential.accessToken) := by
    rw [firstText_only "accountId" (by decide) (by simp [Codex.credentialDraft,Codex.aliases])]
    simp [textOf,Codex.credentialDraft,text_textOrNull,account.again]
  have names : firstText (Codex.credentialDraft credential).private_data ["email","display_name","displayName","name"] =
      some (credential.displayName.getD (Codex.accountIdentity credential.accessToken credential.accountId).2) := by
    rw [firstText_only "displayName" (by decide) (by simp [Codex.credentialDraft])]
    simp [textOf,Codex.credentialDraft,named]
  rw [readCredential,noTokens]
  simp only [Option.getD_none,Option.or_self,firstText_held,access,refresh,accounts,names]
  simp

theorem codex_same (credential : CredentialCandidate) (record : ResourceRecord) (key : record.key = (Codex.credentialDraft credential).key)
    (data : record.private_data = (Codex.credentialDraft credential).private_data) :
    SameAccount record (Codex.credentialDraft {
      accessToken := credential.accessToken
      refreshToken := credential.refreshToken
      accountId := credential.accountId.or (Codex.chatGptAccountId credential.accessToken)
      displayName := some (credential.displayName.getD (Codex.accountIdentity credential.accessToken credential.accountId).2) }) where
  key := by
    rw [key]
    show (Codex.accountIdentity _ _).1 = (Codex.accountIdentity _ _).1
    simp only [Codex.accountIdentity]
    cases credential.accountId <;> cases Codex.chatGptAccountId credential.accessToken <;> rfl
  accessToken := by rw [data]; rfl
  refreshToken := by rw [data]; rfl
  displayName := by rw [data]; rfl

theorem grok_single (credential : CredentialCandidate) :
    Single ["accounts","credentials","items"] (Grok.credentialDraft credential).private_data where
  isObject := ⟨_,rfl⟩
  absent key member := by
    simp only [List.mem_cons,List.not_mem_nil,or_false] at member
    rcases member with rfl | rfl | rfl | rfl | rfl <;> simp [Grok.credentialDraft]

theorem grok_read (clean : Clean credential) : readCredential Grok.aliases (held (Grok.credentialDraft credential).private_data) = some {
        accessToken := credential.accessToken
        refreshToken := credential.refreshToken
        displayName := some (credential.displayName.getD (Grok.accountIdentity credential.accessToken).2) } := by
  have identity : Plain (Grok.accountIdentity credential.accessToken).2 :=
    ((claim_plain _ _).or ((claim_plain _ _).or (claim_plain _ _))).getD
      (((claim_plain _ _).or (claim_plain _ _)).getD (tokenFingerprint_plain _))
  have named := plain_getD clean.displayName identity
  have noTokens : (Json.get (held (Grok.credentialDraft credential).private_data) "tokens").bind object = none := by
    rw [(grok_single credential).held.absent "tokens" (by simp)]
    rfl
  have access : firstText (Grok.credentialDraft credential).private_data Grok.aliases.access = some credential.accessToken := by
    rw [firstText_only "accessToken" (by decide) (by simp [Grok.credentialDraft,Grok.aliases])]
    simp [textOf,Grok.credentialDraft,clean.accessToken.text]
  have refresh : firstText (Grok.credentialDraft credential).private_data ["refresh_token","refreshToken"] = credential.refreshToken := by
    rw [firstText_only "refreshToken" (by decide) (by simp [Grok.credentialDraft])]
    simp [textOf,Grok.credentialDraft,text_textOrNull,clean.refreshToken.again]
  have names : firstText (Grok.credentialDraft credential).private_data ["email","display_name","displayName","name"] =
      some (credential.displayName.getD (Grok.accountIdentity credential.accessToken).2) := by
    rw [firstText_only "displayName" (by decide) (by simp [Grok.credentialDraft])]
    simp [textOf,Grok.credentialDraft,named]
  rw [readCredential,noTokens]
  simp only [Option.getD_none,Option.or_self,firstText_held,access,refresh,names]
  simp [firstText,Grok.aliases]

theorem grok_same (credential : CredentialCandidate) (record : ResourceRecord) (key : record.key = (Grok.credentialDraft credential).key)
    (data : record.private_data = (Grok.credentialDraft credential).private_data) :
    SameAccount record (Grok.credentialDraft {
      accessToken := credential.accessToken
      refreshToken := credential.refreshToken
      displayName := some (credential.displayName.getD (Grok.accountIdentity credential.accessToken).2) }) where
  key := by rw [key]; rfl
  accessToken := by rw [data]; rfl
  refreshToken := by rw [data]; rfl
  displayName := by rw [data]; rfl

theorem filterMap_related {read : ResourceRecord → Option CredentialCandidate} {reread : CredentialCandidate → Option CredentialCandidate}
    (related : List.Forall₂ (fun credential record => read record = reread credential) credentials records) :
    records.filterMap read = credentials.filterMap reread := by
  induction related with
  | nil => rfl
  | @cons credential record credentials records same _ ih => rw [List.filterMap_cons,List.filterMap_cons,same,ih]

theorem imported {default : String} {draft : CredentialCandidate → ResourceDraft}
    {reread : CredentialCandidate → Option CredentialCandidate} (written : Written (export_resources records) content)
    (single : ∀ record ∈ records, Single ["accounts","credentials","items"] record.private_data)
    (related : List.Forall₂ (fun credential record => readCredential aliases (held record.private_data) = reread credential)
      credentials records) :
    parseResults draft default [readFile aliases missing ⟨name,content⟩] =
      if credentials.filterMap (fun credential => (reread credential).map draft) = [] then .error (name ++ ": " ++ missing)
      else .ok (credentials.filterMap fun credential => (reread credential).map draft,[]) := by
  have found : collect ["accounts","credentials","items"] (readCredential aliases) (held (export_resources records)) =
      credentials.filterMap reread := (collect_accounts _ single).trans (filterMap_related related)
  have isFile : readFile aliases missing ⟨name,content⟩ =
      match credentials.filterMap reread with | [] => .error (name ++ ": " ++ missing) | found => .ok found := by
    rw [readFile,written.read]
    dsimp only
    cases isRead : credentials.filterMap reread with
    | nil => simp only [found,isRead]
    | cons first rest => simp only [found,isRead]
  rw [isFile,parseResults_single,← List.map_filterMap]
  simp only [List.map_eq_nil_iff]

theorem forall_member {α β : Type} {R : α → β → Prop} {as : List α} {bs : List β} (related : List.Forall₂ R as bs) {P : β → Prop}
    (holds : ∀ a b, R a b → P b) : ∀ b ∈ bs, P b := by
  induction related with
  | nil => nofun
  | @cons a b as bs first _ ih =>
    intro other member
    rcases List.mem_cons.mp member with rfl | later
    · exact holds a other first
    · exact ih other later

theorem labelled_solid {label : String} {first : Char} {rest : List Char} (isLabel : label.toList = first :: rest)
    (solid : is_whitespace first = false) (value : String) : trim (label ++ value) ≠ "" := by
  have chars : label ++ value = String.ofList (first :: (rest ++ value.toList)) := by
    rw [← List.cons_append,← isLabel,← String.toList_append,String.ofList_toList]
  rw [chars]
  exact trim_solid solid
theorem forall_left {α β : Type} {R X : α → β → Prop} {P : α → Prop} {as : List α} {bs : List β} (related : List.Forall₂ R as bs)
    (same : ∀ a b, R a b → (X a b ↔ P a)) : List.Forall₂ X as bs ↔ ∀ a ∈ as, P a := by
  induction related with
  | nil => simp
  | @cons a b as bs first _ ih => rw [List.forall₂_cons,ih,same a b first,List.forall_mem_cons]

theorem key_solid {plugin : Plugin} (made : Made plugin credential record) : trim record.key ≠ "" := by
  obtain ⟨now,key,_⟩ := made.draft
  rw [key]
  cases plugin with
  | Codex => exact labelled_solid (rfl : "codex:".toList = 'c' :: "odex:".toList) (by decide) _
  | Grok => exact labelled_solid (rfl : "grok:".toList = 'g' :: "rok:".toList) (by decide) _
  | Antigravity => exact labelled_solid (rfl : "antigravity:".toList = 'a' :: "ntigravity:".toList) (by decide) _

/-- A file of records comes back, where each is read as a credential that has the same draft. -/
theorem clean_reimports (plugin : Plugin) {default : String}
    {draft : CredentialCandidate → ResourceDraft} {again : CredentialCandidate → CredentialCandidate}
    (drafted : ∀ now, credentialDraft plugin now = draft)
    (imports : credentialImport plugin network [⟨name,content⟩] = parseResults draft default [readFile aliases missing ⟨name,content⟩])
    (single : ∀ credential, Single ["accounts","credentials","items"] (draft credential).private_data)
    (created : ∀ credential, Created credential plugin → Clean credential)
    (read : ∀ credential, Clean credential → readCredential aliases (held (draft credential).private_data) = some (again credential))
    (same : ∀ credential (record : ResourceRecord), record.key = (draft credential).key →
      record.private_data = (draft credential).private_data → SameAccount record (draft (again credential)))
    (made : List.Forall₂ (Made plugin) credentials records)
    (distinct : (records.map (·.key)).Nodup) (written : Written (export_resources records) content) :
    Reimports plugin network ⟨name,content⟩ records ↔ records ≠ [] := by
  have related : List.Forall₂ (fun credential record => readCredential aliases (held record.private_data) = some (again credential))
      credentials records := by
    refine made.imp fun credential record isMade => ?_
    obtain ⟨now,_,data⟩ := isMade.draft
    rw [data,drafted]
    exact read credential (created credential isMade.created)
  have singles : ∀ record ∈ records, Single ["accounts","credentials","items"] record.private_data := by
    refine forall_member made fun credential record isMade => ?_
    obtain ⟨now,_,data⟩ := isMade.draft
    rw [data,drafted]
    exact single credential
  rw [reimports_iff made distinct (forall_member made fun _ _ => key_solid) (imports.trans (imported written singles related))]
  constructor
  · exact And.left
  · refine fun some_ => ⟨some_,made.imp fun credential record isMade => ?_⟩
    obtain ⟨now,key,data⟩ := isMade.draft
    rw [drafted] at key data
    exact ⟨_,rfl,same credential record key data⟩

theorem created_clean (created : (∃ body, authorized body =
    some credential) ∨ ∃ files : List ResourceImportFile, credential ∈ credentialsOf (files.map (readFile aliases missing))) :
    Clean credential := by
  rcases created with ⟨body,isAuthorized⟩ | ⟨files,member⟩
  · exact authorized_clean isAuthorized
  · exact files_clean member

structure Loose (credential : CredentialCandidate) : Prop where
  token : trimText credential.accessToken = credential.accessToken
  alone : credential.accessToken = "" → credential.refreshToken = none
  refreshToken : AllPlain credential.refreshToken

theorem loose_plain (token : Plain credential.accessToken) (refresh : AllPlain credential.refreshToken) : Loose credential :=
  ⟨token.trimmed,fun blank => absurd blank token.nonempty,refresh⟩
theorem loose_bare {token : String} (isTrimmed : trimText token = token) (name : String) :
    Loose { accessToken := token, refreshToken := none, displayName := some name } :=
  ⟨isTrimmed,fun _ => rfl,nofun⟩

theorem read_loose (item : Value) (credential : CredentialCandidate) (isRead : Antigravity.readCredential item = some credential) :
    Loose credential := by
  obtain ⟨accessToken,isToken,rfl⟩ := Option.map_eq_some_iff.mp isRead
  have refresh := (firstText_plain (((Json.get item "tokens").bind object).getD item) Antigravity.REFRESH).or
    (firstText_plain item Antigravity.REFRESH)
  exact loose_plain ((((firstText_plain _ _).or (firstText_plain _ _)).or refresh) accessToken isToken) refresh

theorem refreshed_loose (network : Antigravity.Network) (loose : Loose credential) :
    Loose (Antigravity.refreshed network credential) := by
  rw [Antigravity.refreshed]
  split_ifs
  · split
    · exact loose
    · split
      · exact loose
      · rename_i value _
        split
        · exact loose
        · rename_i accessToken isToken
          split_ifs
          · obtain ⟨source,_,isText⟩ := Option.bind_eq_some_iff.mp isToken
            exact loose_plain (textOf_plain source _ accessToken isText) ((textOf_plain value _).or loose.refreshToken)
          · exact loose
  · exact loose

theorem keyed_trimmed {chars key : List Char} (isKey : Antigravity.keyed chars = some key) : trimmed key = key := by
  rw [Antigravity.keyed] at isKey
  split_ifs at isKey with fits
  obtain rfl := Option.some.inj isKey
  have solid : ∀ c ∈ chars.take 39, isBlank c = false := by
    intro c member
    have known := List.all_eq_true.mp fits.2.2 c member
    have bounds : 45 ≤ c.toNat ∧ c.toNat ≤ 122 := by
      simp only [is_ascii_alphanumeric,Bool.or_eq_true,Bool.and_eq_true,decide_eq_true_eq,Char.le_def,UInt32.le_iff_toNat_le] at known
      rcases known with (((⟨low,high⟩ | ⟨low,high⟩) | ⟨low,high⟩) | rfl) | rfl
      · exact ⟨Nat.le_trans (by decide) low,Nat.le_trans high (by decide)⟩
      · exact ⟨Nat.le_trans (by decide) low,Nat.le_trans high (by decide)⟩
      · exact ⟨Nat.le_trans (by decide) low,Nat.le_trans high (by decide)⟩
      · decide
      · decide
    simp [isBlank]
    omega
  exact Trimming.trimmed_of_ends (fun c isHead => solid c (List.mem_of_mem_head? isHead)) fun c isLast => solid c (List.mem_of_getLast? isLast)

theorem readFile_loose {file : ResourceImportFile} {found : List CredentialCandidate}
    (isRead : Antigravity.readFile network file = .ok found) : ∀ credential ∈ found, Loose credential := by
  have bare : ∀ token, trimText token = token →
      Except.ok [{ accessToken := token, refreshToken := none, displayName := some file.name }] = Except.ok (ε := String) found →
      ∀ credential ∈ found, Loose credential := by
    intro token isTrimmed isBare credential member
    obtain rfl := Except.ok.inj isBare
    rw [List.mem_singleton.mp member]
    exact loose_bare isTrimmed _
  rw [Antigravity.readFile] at isRead
  dsimp only at isRead
  split_ifs at isRead
  · obtain rfl := Except.ok.inj isRead
    nofun
  · exact bare _ (trimText_twice _) isRead
  · split at isRead
    · split at isRead
      · exact bare _ (trimText_twice _) isRead
      · rename_i token isKey
        refine bare _ ?_ isRead
        obtain ⟨key,isFound,rfl⟩ := Option.map_eq_some_iff.mp isKey
        obtain ⟨chars,_,isKeyed⟩ := List.exists_of_findSome?_eq_some isFound
        rw [trimText,String.toList_ofList,keyed_trimmed isKeyed]
      · cases isRead
    · exact bare _ (trimText_twice _) isRead
    · split at isRead
      · cases isRead
      · obtain rfl := Except.ok.inj isRead
        intro credential member
        obtain ⟨before,isBefore,rfl⟩ := List.mem_map.mp member
        exact refreshed_loose network (collect_all read_loose _ before isBefore)

theorem created_loose (created : Created credential .Antigravity) : Loose credential := by
  rcases created with ⟨body,userInfo,projectId,expiresAtMs,quota,isComplete⟩ | ⟨network,files,found,member,rfl⟩
  · obtain ⟨accessToken,isToken,rfl⟩ := Option.map_eq_some_iff.mp isComplete
    exact loose_plain (textOf_plain _ _ accessToken isToken) (textOf_plain _ _)
  · obtain ⟨result,isResult,inside⟩ := List.mem_flatMap.mp member
    obtain ⟨file,_,rfl⟩ := List.mem_map.mp isResult
    cases isRead : Antigravity.readFile network file with
    | error warning =>
      rw [isRead] at inside
      cases inside
    | ok list =>
      rw [isRead] at inside
      have loose := readFile_loose isRead found inside
      rw [Antigravity.withQuota]
      split
      · exact loose
      · exact ⟨loose.token,loose.alone,loose.refreshToken⟩

theorem antigravity_single (now : Int) (credential : CredentialCandidate) :
    Single ["accounts","credentials","items","keys"] (Antigravity.credentialDraft now credential).private_data where
  isObject := ⟨_,rfl⟩
  absent key member := by
    simp only [List.mem_cons,List.not_mem_nil,or_false] at member
    rcases member with rfl | rfl | rfl | rfl | rfl | rfl <;> simp [Antigravity.credentialDraft]

def displayed (credential : CredentialCandidate) : String :=
  credential.displayName.getD (Antigravity.accountIdentity credential.accessToken credential.displayName).2

def reread (credential : CredentialCandidate) : Option CredentialCandidate :=
  if credential.accessToken = "" then none
  else some {
    accessToken := credential.accessToken
    refreshToken := credential.refreshToken
    displayName := Credentials.text (.String (displayed credential))
    projectId := Credentials.text (.String (credential.projectId.getD "bamboo-precept-lgxtn")) }

theorem antigravity_read (now : Int) (loose : Loose credential) :
    Antigravity.readCredential (held (Antigravity.credentialDraft now credential).private_data) = reread credential := by
  have noTokens : (Json.get (held (Antigravity.credentialDraft now credential).private_data) "tokens").bind object = none := by
    rw [(antigravity_single now credential).held.absent "tokens" (by simp)]
    rfl
  have access : firstText (Antigravity.credentialDraft now credential).private_data Antigravity.ACCESS =
      Credentials.text (.String credential.accessToken) := by
    rw [firstText_only "accessToken" (by decide) (by simp [Antigravity.credentialDraft,Antigravity.ACCESS])]
    simp [textOf,Antigravity.credentialDraft]
  have refresh : firstText (Antigravity.credentialDraft now credential).private_data Antigravity.REFRESH = credential.refreshToken := by
    rw [firstText_only "refreshToken" (by decide) (by simp [Antigravity.credentialDraft,Antigravity.REFRESH])]
    simp [textOf,Antigravity.credentialDraft,text_textOrNull,loose.refreshToken.again]
  have names : firstText (Antigravity.credentialDraft now credential).private_data Antigravity.NAME =
      Credentials.text (.String (displayed credential)) := by
    rw [firstText_only "displayName" (by decide) (by simp [Antigravity.credentialDraft,Antigravity.NAME])]
    simp [textOf,Antigravity.credentialDraft,displayed]
  have projects : firstText (Antigravity.credentialDraft now credential).private_data Antigravity.PROJECT =
      Credentials.text (.String (credential.projectId.getD "bamboo-precept-lgxtn")) := by
    rw [firstText_only "projectId" (by decide) (by simp [Antigravity.credentialDraft,Antigravity.PROJECT])]
    simp [textOf,Antigravity.credentialDraft]
  rw [Antigravity.readCredential,noTokens]
  simp only [Option.getD_none,Option.or_self,firstText_held,access,refresh,names,projects]
  rw [reread]
  split_ifs with blank
  · rw [loose.alone blank,blank]
    rfl
  · rw [(show Plain credential.accessToken from ⟨loose.token,blank⟩).text]
    rfl

theorem refreshed_same (steady : Steady network) (credential : CredentialCandidate) :
    (Antigravity.refreshed network credential).accessToken = credential.accessToken ∧
      (Antigravity.refreshed network credential).refreshToken = credential.refreshToken ∧
      (Antigravity.refreshed network credential).displayName = credential.displayName := by
  rw [Antigravity.refreshed]
  split_ifs with same
  · split
    · exact ⟨rfl,rfl,rfl⟩
    · rename_i status body answer
      split
      · exact ⟨rfl,rfl,rfl⟩
      · rename_i value isValue
        split
        · exact ⟨rfl,rfl,rfl⟩
        · rename_i accessToken isToken
          split_ifs
          · obtain ⟨accesses,refreshes⟩ := steady _ status body value answer isValue
            obtain ⟨source,isObject,isText⟩ := Option.bind_eq_some_iff.mp isToken
            have isSource : source = value := by
              cases value <;> cases isObject
              rfl
            refine ⟨accesses accessToken (isSource ▸ isText),?_,rfl⟩
            show (textOf value "refresh_token").or credential.refreshToken = credential.refreshToken
            cases isRefresh : textOf value "refresh_token" with
            | none => rfl
            | some refresh =>
              rw [refreshes refresh isRefresh,same.1]
              rfl
          · exact ⟨rfl,rfl,rfl⟩
  · exact ⟨rfl,rfl,rfl⟩
theorem withQuota_same (network : Antigravity.Network) (credential : CredentialCandidate) :
    (Antigravity.withQuota network credential).accessToken = credential.accessToken ∧
      (Antigravity.withQuota network credential).refreshToken = credential.refreshToken ∧
      (Antigravity.withQuota network credential).displayName = credential.displayName := by
  rw [Antigravity.withQuota]
  split <;> exact ⟨rfl,rfl,rfl⟩

def redraft (network : Antigravity.Network) (credential : CredentialCandidate) : ResourceDraft :=
  Antigravity.credentialDraft network.now (Antigravity.withQuota network (Antigravity.refreshed network credential))

theorem antigravity_imported (made : List.Forall₂ (Made .Antigravity) credentials records)
    (written : Written (export_resources records) content) :
    credentialImport .Antigravity network [⟨name,content⟩] =
      if credentials.filterMap (fun credential => (reread credential).map (redraft network)) = [] then
        .error (name ++ ": no Google/Antigravity API key or token found")
      else .ok (credentials.filterMap fun credential => (reread credential).map (redraft network),[]) := by
  have single : ∀ record ∈ records, Single ["accounts","credentials","items","keys"] record.private_data := by
    refine forall_member made fun credential record isMade => ?_
    obtain ⟨now,_,data⟩ := isMade.draft
    rw [data]
    exact antigravity_single now credential
  have related : List.Forall₂ (fun credential record => Antigravity.readCredential (held record.private_data) = reread credential)
      credentials records := by
    refine made.imp fun credential record isMade => ?_
    obtain ⟨now,_,data⟩ := isMade.draft
    rw [data]
    exact antigravity_read now (created_loose isMade.created)
  have found : collect ["accounts","credentials","items","keys"] Antigravity.readCredential (held (export_resources records)) =
      credentials.filterMap reread := (collect_accounts _ single).trans (filterMap_related related)
  obtain ⟨body,isContent⟩ := written.shape
  have chars : content.toList = Char.ofNat 123 :: Char.ofNat 10 :: ' ' :: ' ' :: (body.toList ++ [Char.ofNat 10,Char.ofNat 125]) := by
    rw [isContent]
    simp
  have raw : trimText content = content := by
    rw [trimText]
    refine (congrArg String.ofList (Trimming.trimmed_of_ends ?_ ?_)).trans String.ofList_toList
    · rw [chars]
      rintro c ⟨⟩
      decide
    · have last : content.toList.getLast? = some (Char.ofNat 125) := by
        rw [chars]
        simp [List.getLast?_cons,List.getLast?_append]
      rw [last]
      rintro c ⟨⟩
      decide
  have filled : content ≠ "" := by
    intro blank
    rw [blank] at chars
    cases chars
  have other : ¬ (starts_with content "AIza" = true ∨ (segments content).length = 3 ∧ contains content " " = false) := by
    rintro (key | ⟨_,solid⟩)
    · obtain ⟨rest,isKey⟩ := of_decide_eq_true key
      rw [chars] at isKey
      have first := congrArg List.head? isKey
      cases first
    · have blank : contains content " " = true := by
        apply decide_eq_true
        rw [chars]
        exact ⟨[Char.ofNat 123,Char.ofNat 10],' ' :: (body.toList ++ [Char.ofNat 10,Char.ofNat 125]),by simp⟩
      rw [blank] at solid
      cases solid
  have isFile : Antigravity.readFile network ⟨name,content⟩ =
      match (credentials.filterMap reread).map (Antigravity.refreshed network) with
      | [] => .error (name ++ ": no Google/Antigravity API key or token found")
      | found => .ok found := by
    rw [Antigravity.readFile]
    dsimp only
    rw [raw,if_neg filled,if_neg other,written.read]
    have isHeld : held (export_resources records) =
        .Object [("accounts",.Array (records.map fun record => held record.private_data))] := by
      simp [export_resources,held,heldMembers,heldItems_map]
    rw [isHeld] at found ⊢
    dsimp only
    cases isRead : credentials.filterMap reread with
    | nil => simp only [found,isRead,List.map_nil]
    | cons first rest => simp only [found,isRead,List.map_cons]
  have drafts : ((credentials.filterMap reread).map (Antigravity.refreshed network)).map
      (fun credential => Antigravity.credentialDraft network.now (Antigravity.withQuota network credential)) =
      credentials.filterMap fun credential => (reread credential).map (redraft network) := by
    rw [List.map_map,List.map_filterMap]
    rfl
  rw [credentialImport,Antigravity.credentialImport,Antigravity.parseCredentialFiles,List.map_singleton,isFile,parseResults_single,← drafts]
  simp only [List.map_eq_nil_iff]

theorem identity_plain (token : String) : Plain (((Antigravity.email token).or (Antigravity.sub token)).getD (tokenFingerprint token)) :=
  ((claim_plain _ _).or (claim_plain _ _)).getD (tokenFingerprint_plain token)

theorem apiKey_plain (token : String) : Plain ("API Key (" ++ String.ofList ((tokenFingerprint token).toList.take 6) ++ ")") := by
  apply plain_of_chars
  · simp
  · intro c isHead
    rw [String.toList_append,String.toList_append,List.append_assoc,List.head?_append,
      show "API Key (".toList.head? = some 'A' by decide] at isHead
    obtain rfl := Option.some.inj isHead
    decide
  · intro c isLast
    rw [String.toList_append,List.getLast?_append,show ")".toList.getLast? = some ')' by decide] at isLast
    obtain rfl := Option.some.inj isLast
    decide

theorem shown_plain (token : String) : Plain (Antigravity.accountIdentity token none).2 := by
  refine ((claim_plain _ _).or ((claim_plain _ _).or (claim_plain _ _))).getD ?_
  split_ifs
  · exact apiKey_plain token
  · exact identity_plain token

/-- A token that comes with no name keeps its key where the name that it got is its
    identity, or does not count as one. -/
theorem unnamed_key (token : String) :
    (Antigravity.accountIdentity token (some (Antigravity.accountIdentity token none).2)).1 = (Antigravity.accountIdentity token none).1 ↔
      (Antigravity.email token).isSome ∨ contains (shown token) "Antigravity" = true ∨
        shown token = (Antigravity.sub token).getD (tokenFingerprint token) := by
  have filled := (shown_plain token).nonempty
  have key : ∀ provided, provided ≠ "" →
      ((Antigravity.accountIdentity token (some provided)).1 = (Antigravity.accountIdentity token none).1 ↔
      contains provided "Antigravity" = true ∨
        provided = ((Antigravity.email token).or (Antigravity.sub token)).getD (tokenFingerprint token)) := by
    intro provided isProvided
    simp only [Antigravity.accountIdentity]
    rw [String.append_right_inj]
    cases named : contains provided "Antigravity" <;> simp [Option.filter_some,isProvided,named]
  rw [key _ filled]
  cases isEmail : Antigravity.email token with
  | some email =>
    have same : (Antigravity.accountIdentity token none).2 = email := by
      simp [Antigravity.accountIdentity,isEmail]
    simp [same]
  | none =>
    have same : (Antigravity.accountIdentity token none).2 = shown token := by
      simp [Antigravity.accountIdentity,isEmail,shown]
    simp [same]

theorem same_iff {again : CredentialCandidate} {now later : Int} (key : record.key = (credentialDraft .Antigravity now credential).key)
    (data : record.private_data = (credentialDraft .Antigravity now credential).private_data)
    (token : again.accessToken = credential.accessToken) (refresh : again.refreshToken = credential.refreshToken) :
    SameAccount record (Antigravity.credentialDraft later again) ↔
      (Antigravity.accountIdentity credential.accessToken again.displayName).1 =
          (Antigravity.accountIdentity credential.accessToken credential.displayName).1 ∧
        again.displayName.getD (Antigravity.accountIdentity credential.accessToken again.displayName).2 = displayed credential := by
  have name : Json.get record.private_data "displayName" = some (.String (displayed credential)) := by
    simp [data,credentialDraft,Antigravity.credentialDraft,displayed]
  have nameAgain : Json.get (Antigravity.credentialDraft later again).private_data "displayName" =
      some (.String (again.displayName.getD (Antigravity.accountIdentity credential.accessToken again.displayName).2)) := by
    simp [Antigravity.credentialDraft,token]
  have keyAgain : (Antigravity.credentialDraft later again).key =
      (Antigravity.accountIdentity credential.accessToken again.displayName).1 := by
    rw [← token]
    rfl
  constructor
  · intro same
    refine ⟨keyAgain.symm.trans (same.key.trans key),?_⟩
    have names := same.displayName
    rw [name,nameAgain] at names
    exact Value.String.inj (Option.some.inj names)
  · rintro ⟨keys,names⟩
    refine ⟨keyAgain.trans (keys.trans key.symm),?_,?_,?_⟩
    · simp [data,credentialDraft,Antigravity.credentialDraft,token]
    · simp [data,credentialDraft,Antigravity.credentialDraft,refresh]
    · rw [name,nameAgain,names]

theorem antigravity_same (steady : Steady network) (made : Made .Antigravity credential record) :
    (∃ draft, (reread credential).map (redraft network) = some draft ∧ SameAccount record draft) ↔ Restorable credential := by
  obtain ⟨now,key,data⟩ := made.draft
  by_cases blank : credential.accessToken = ""
  · rw [reread,if_pos blank]
    constructor
    · rintro ⟨draft,none,_⟩
      cases none
    · exact fun restorable => absurd blank restorable.token
  rw [reread,if_neg blank]
  simp only [Option.map_some,Option.some.injEq,exists_eq_left']
  obtain ⟨tokenR,refreshR,nameR⟩ := refreshed_same steady {
    accessToken := credential.accessToken
    refreshToken := credential.refreshToken
    displayName := Credentials.text (.String (displayed credential))
    projectId := Credentials.text (.String (credential.projectId.getD "bamboo-precept-lgxtn")) }
  obtain ⟨tokenQ,refreshQ,nameQ⟩ := withQuota_same network (Antigravity.refreshed network {
    accessToken := credential.accessToken
    refreshToken := credential.refreshToken
    displayName := Credentials.text (.String (displayed credential))
    projectId := Credentials.text (.String (credential.projectId.getD "bamboo-precept-lgxtn")) })
  rw [redraft,same_iff key data (tokenQ.trans tokenR) (refreshQ.trans refreshR),nameQ,nameR]
  dsimp only
  cases provided : credential.displayName with
  | none =>
    have isName : displayed credential = (Antigravity.accountIdentity credential.accessToken none).2 := by
      rw [displayed,provided]
      rfl
    rw [isName,(shown_plain credential.accessToken).text,unnamed_key]
    constructor
    · rintro ⟨unnamed,_⟩
      exact ⟨blank,by simp [provided],fun _ => unnamed⟩
    · exact fun restorable => ⟨restorable.unnamed provided,rfl⟩
  | some name =>
    have isName : displayed credential = name := by
      rw [displayed,provided]
      rfl
    rw [isName]
    constructor
    · rintro ⟨_,same⟩
      refine ⟨blank,fun found isFound => ?_,by simp [provided]⟩
      obtain rfl := Option.some.inj (provided.symm.trans isFound)
      cases isText : Credentials.text (.String name) with
      | none =>
        rw [isText] at same
        exact same ▸ shown_plain credential.accessToken
      | some trimmed_ =>
        rw [isText] at same
        exact same ▸ text_plain isText
    · intro restorable
      rw [(restorable.named name provided).text]
      exact ⟨rfl,rfl⟩

theorem antigravity_reimports (steady : Steady network)
    (made : List.Forall₂ (Made .Antigravity) credentials records) (distinct : (records.map (·.key)).Nodup)
    (written : Written (export_resources records) content) :
    Reimports .Antigravity network ⟨name,content⟩ records ↔ records ≠ [] ∧ ∀ credential ∈ credentials, Restorable credential := by
  rw [reimports_iff made distinct (forall_member made fun _ _ => key_solid) (antigravity_imported made written)]
  refine and_congr_right fun _ => ?_
  exact forall_left made fun credential record isMade => antigravity_same steady isMade

/-- A file is imported as the accounts that it was exported from exactly where it has
    some and, for Antigravity, each of them has the name that its key is made of. -/
theorem accounts_reimport (plugin : Plugin) {network : Antigravity.Network} (steady : Steady network) (name content : String)
    {credentials : List CredentialCandidate} {records : List ResourceRecord}
    (made : List.Forall₂ (Made plugin) credentials records) (distinct : (records.map (·.key)).Nodup)
    (written : Written (export_resources records) content) :
    Reimports plugin network ⟨name,content⟩ records ↔
      records ≠ [] ∧ (plugin = .Antigravity → ∀ credential ∈ credentials, Restorable credential) := by
  cases plugin with
  | Codex =>
    rw [clean_reimports .Codex (fun _ => rfl) rfl codex_single (fun _ => created_clean) (fun _ => codex_read) codex_same made distinct written]
    simp
  | Grok =>
    rw [clean_reimports .Grok (fun _ => rfl) rfl grok_single (fun _ => created_clean) (fun _ => grok_read) grok_same made distinct written]
    simp
  | Antigravity =>
    rw [antigravity_reimports steady made distinct written]
    simp

end Exports

section Examples

def freeQuota : Value :=
  .Object [("planLabel",.String "FREE"),("limitReached",.Bool false),("coolingUntilMs",.Null),
    ("updatedAtMs",.Number (.PosInt 1700000000000)),("claude",.Null),("gemini",.Null)]
def offline : Antigravity.Network := ⟨1700000000000,fun _ => none,fun _ => some (freeQuota,"bamboo-precept-lgxtn")⟩

def keyFile : ResourceImportFile := ⟨"gemini.json","\x7b\"apiKey\":\"AIzaSyExampleKey\"\x7d"⟩
def namedFile (token name : String) : ResourceImportFile :=
  ⟨"account.json","\x7b\"access_token\":\"" ++ token ++ "\",\"email\":\"" ++ name ++ "\"\x7d"⟩
def accountText (account : String × String) : String :=
  "\x7b\n      \"accessToken\": \"" ++ account.1 ++ "\",\n      \"refreshToken\": null,\n      \"displayName\": \"" ++
    account.2 ++ "\",\n      \"projectId\": \"bamboo-precept-lgxtn\",\n      \"expiresAtMs\": null,\n      \"quota\": \x7b\n    " ++
    "    \"planLabel\": \"FREE\",\n        \"limitReached\": false,\n        \"coolingUntilMs\": null,\n        \"u" ++
    "pdatedAtMs\": 1700000000000,\n        \"claude\": null,\n        \"gemini\": null\n      \x7d\n    \x7d"
def accountsBody (accounts : List (String × String)) : String :=
  "\"accounts\": [\n    " ++ ",\n    ".intercalate (accounts.map accountText) ++ "\n  ]"
def accountsText (accounts : List (String × String)) : String := "\x7b\n  " ++ accountsBody accounts ++ "\n\x7d"
def accountsValue (accounts : List (String × String)) : Value :=
  .Object [("accounts",.Array (accounts.map fun (token,name) => .Object [("accessToken",.String token),("refreshToken",.Null),
    ("displayName",.String name),("projectId",.String "bamboo-precept-lgxtn"),("expiresAtMs",.Null),("quota",freeQuota)]))]

def keyAccount : List (String × String) := [("AIzaSyExampleKey","API Key (af00f5)")]
def namedAccounts : List (String × String) := [("ya29-example","user@example.com"),("ya29-other","other@example.com")]

/-- The texts of the examples are read; the bytes are those of the key. -/
local instance exampleRuntime : Runtime where
  atob _ := none
  decodeText _ := ""
  parse content :=
    if content = keyFile.content then some (.Object [("apiKey",.String "AIzaSyExampleKey")])
    else if content = accountsText keyAccount then some (accountsValue keyAccount)
    else if content = accountsText namedAccounts then some (accountsValue namedAccounts)
    else (namedAccounts.find? fun (token,name) => content = (namedFile token name).content).map fun (token,name) =>
      .Object [("access_token",.String token),("email",.String name)]
  digest _ := [175,0,245,37,99,143,214,195,83,202,8,173,70,68,167,152,39,249,213,116,227,240,23,206,28,170,208,192,185,213,95,158]
  digest_length _ := rfl
local instance exampleJavaScript : JavaScript := .plain fun _ => ""

def apiKey : CredentialCandidate :=
  { accessToken := "AIzaSyExampleKey", refreshToken := none, displayName := none, projectId := some "bamboo-precept-lgxtn",
    quota := some freeQuota }
def named (token name : String) : CredentialCandidate :=
  { accessToken := token, refreshToken := none, displayName := some name,
    projectId := some "bamboo-precept-lgxtn", quota := some freeQuota }
def recordOf (resource_id : String) (credential : CredentialCandidate) : ResourceRecord :=
  ⟨resource_id,(Antigravity.credentialDraft 0 credential).key,(Antigravity.credentialDraft 0 credential).private_data,.Ready,0,0⟩

theorem readFile_one (file : ResourceImportFile) (members : List (String × Value)) (credential : CredentialCandidate)
    (raw : trimText file.content = file.content) (filled : file.content ≠ "")
    (other : ¬ (starts_with file.content "AIza" = true ∨ (segments file.content).length = 3 ∧ contains file.content " " = false))
    (parsed : Runtime.parse file.content = some (.Object members))
    (single : Single ["accounts","credentials","items","keys"] (.Object members))
    (isRead : Antigravity.readCredential (.Object members) = some credential) :
    Antigravity.readFile offline file = .ok [Antigravity.refreshed offline credential] := by
  rw [Antigravity.readFile]
  dsimp only
  rw [raw,if_neg filled,if_neg other,parsed]
  dsimp only
  rw [single.collect,isRead]
  rfl

theorem made_of_file {file : ResourceImportFile} {found : CredentialCandidate} (resource_id : String)
    (isFile : Antigravity.readFile offline file = .ok [found]) :
    Made .Antigravity (Antigravity.withQuota offline found) (recordOf resource_id (Antigravity.withQuota offline found)) := by
  refine ⟨.inr ⟨offline,[file],found,?_,rfl⟩,0,rfl,rfl⟩
  rw [Antigravity.parseCredentialFiles,List.map_singleton,isFile]
  exact List.mem_singleton.mpr rfl

theorem offline_steady : Steady offline := by
  intro token status body value answer
  cases answer

/-- The exported key comes back under another one. -/
theorem api_key_duplicated : Made .Antigravity apiKey (recordOf "1" apiKey) ∧ Steady offline ∧
      Written (export_resources [recordOf "1" apiKey]) (accountsText keyAccount) ∧
      (recordOf "1" apiKey).key = "antigravity:af00f525638fd6c3" ∧
      (reread apiKey).map (fun credential => (redraft offline credential).key) = some "antigravity:API Key (af00f5)" ∧
      ¬ Reimports .Antigravity offline ⟨"antigravity-account.json",accountsText keyAccount⟩
        [recordOf "1" apiKey] := by
  have made : Made .Antigravity apiKey (recordOf "1" apiKey) :=
    made_of_file "1" (readFile_one keyFile [("apiKey",.String "AIzaSyExampleKey")]
      { accessToken := "AIzaSyExampleKey", refreshToken := none, displayName := none }
      (by decide +kernel) (by decide) (by decide +kernel) (by decide +kernel) ⟨⟨_,rfl⟩,by decide⟩ (by decide +kernel))
  have written : Written (export_resources [recordOf "1" apiKey]) (accountsText keyAccount) :=
    ⟨by decide +kernel,_,rfl⟩
  refine ⟨made,offline_steady,written,by decide +kernel,by decide +kernel,?_⟩
  rw [antigravity_reimports offline_steady (.cons made .nil) (by simp) written]
  rintro ⟨_,restorable⟩
  rcases (restorable apiKey (by simp)).unnamed rfl with email | named | same
  · revert email
    decide +kernel
  · revert named
    decide +kernel
  · revert same
    decide +kernel

theorem named_made (resource_id : String) (account : String × String) (member : account ∈ namedAccounts) :
    Made .Antigravity (named account.1 account.2) (recordOf resource_id (named account.1 account.2)) := by
  have raw : ∀ account ∈ namedAccounts, trimText (namedFile account.1 account.2).content = (namedFile account.1 account.2).content ∧
      (namedFile account.1 account.2).content ≠ "" ∧
      ¬ (starts_with (namedFile account.1 account.2).content "AIza" = true ∨
        (segments (namedFile account.1 account.2).content).length = 3 ∧
          contains (namedFile account.1 account.2).content " " = false) := by
    decide +kernel
  have parsed : ∀ account ∈ namedAccounts, Runtime.parse (namedFile account.1 account.2).content =
        some (.Object [("access_token",.String account.1),("email",.String account.2)]) ∧
      Antigravity.readCredential (.Object [("access_token",.String account.1),("email",.String account.2)]) =
        some { accessToken := account.1, refreshToken := none, displayName := some account.2 } := by
    decide +kernel
  obtain ⟨trimmed,filled,other⟩ := raw account member
  obtain ⟨object,credential⟩ := parsed account member
  exact made_of_file resource_id (readFile_one _ _ _ trimmed filled other object ⟨⟨_,rfl⟩,by simp [Json.get]⟩ credential)

theorem accounts_reimport_named : Reimports .Antigravity offline ⟨"antigravity-account.json",accountsText namedAccounts⟩
    [recordOf "1" (named "ya29-example" "user@example.com"),recordOf "2" (named "ya29-other" "other@example.com")] := by
  have made := List.Forall₂.cons (named_made "1" _ (.head _)) (.cons (named_made "2" _ (.tail _ (.head _))) .nil)
  apply (accounts_reimport .Antigravity offline_steady _ _ made (by decide +kernel) ⟨by decide +kernel,_,rfl⟩).mpr
  refine ⟨by simp,fun _ credential member => ?_⟩
  obtain rfl | rfl : _ ∨ _ := by simpa using member
  all_goals
    refine ⟨by decide,?_,nofun⟩
    rintro name ⟨⟩
    exact ⟨by decide +kernel,by decide⟩

end Examples

end MyCursor.AccountExport
