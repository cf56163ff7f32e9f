import MyCursor.Keyed
import Mathlib.Data.List.Induction
import Mathlib.Tactic.SplitIfs

/-!
# The schemas of tools

`sanitizeSchema` of `antigravity-auth/provider.ts`: what the Cloud Code API does not
know is taken out of the schema of a tool, and types are written in capitals. The
function takes property names for keywords.
-/
namespace MyCursor.ToolSchemas
open Keyed

/-- A value of JavaScript as far as it comes from JSON. Numbers are the bits of floats;
    a function is what an object inherits under a name. -/
inductive Json where
  | Null
  | Bool (value : Bool)
  | Number (bits : UInt64)
  | String (text : String)
  | Array (items : List Json)
  | Object (members : List (String × Json))
  | Function (name : String)

def truthy : Option Json → Bool
  | none | some .Null => false
  | some (.Bool value) => value
  | some (.Number bits) => bits ≠ 0 && bits ≠ 0x8000000000000000
  | some (.String text) => text ≠ ""
  | some (.Array _) | some (.Object _) | some (.Function _) => true

/-- What every object inherits. Deno takes `__proto__` away. -/
def objectPrototype : List String := ["constructor","__defineGetter__","__defineSetter__","hasOwnProperty","__lookupGetter__",
  "__lookupSetter__","isPrototypeOf","propertyIsEnumerable","toString","valueOf","toLocaleString"]

def isAscii (text : String) : Prop := ∀ c ∈ text.toList, c.toNat < 128
/-- The case mappings of Unicode. Only the Kelvin sign is a capital beyond ASCII whose
    small letter is in ASCII. -/
class Casing where
  toLowerCase : String → String
  toUpperCase : String → String
  lower_ascii : ∀ text, isAscii text → toLowerCase text = String.ofList (text.toList.map Char.toLower)
  upper_ascii : ∀ text, isAscii text → toUpperCase text = String.ofList (text.toList.map Char.toUpper)
  upper_upper : ∀ text, toUpperCase (toUpperCase text) = toUpperCase text
  upper_filled : ∀ text, toUpperCase text = "" → text = ""
  upper_lower : ∀ text, toUpperCase text = text → (∀ c ∈ (toLowerCase text).toList, 'a' ≤ c ∧ c ≤ 'z' ∧ c ≠ 'k') →
    toUpperCase (toLowerCase text) = text

section Sanitising
variable [Casing]
open Casing

def UNSUPPORTED_SCHEMA_KEYS : List String := ["$schema","$ref","$defs","$comment","examples","unevaluatedProperties",
  "unevaluatedItems","patternProperties","propertyNames","exclusiveMinimum","exclusiveMaximum","multipleOf","dependencies",
  "dependentSchemas","dependentRequired","deprecated","readOnly","writeOnly","x-mcp-header","const","default",
  "additionalProperties","title","format"]
def PROTO_TYPE_MAP : List (String × String) := [("string","STRING"),("number","NUMBER"),("integer","INTEGER"),
  ("boolean","BOOLEAN"),("array","ARRAY"),("object","OBJECT")]

def unsupported (key : String) : Bool := key ∈ UNSUPPORTED_SCHEMA_KEYS || key ∈ objectPrototype
def protoType (text : String) : Json :=
  match lookup PROTO_TYPE_MAP (toLowerCase text) with
  | some name => .String name
  | none => if toLowerCase text ∈ objectPrototype then .Function (toLowerCase text) else .String (toUpperCase text)

def lacksType (out : List (String × Json)) : Bool := !truthy (lookup out "type") && truthy (lookup out "properties")
def withType (missing : Bool) (out : List (String × Json)) : List (String × Json) :=
  if missing then insertLast "type" (.String "OBJECT") out else out
mutual
def enforceUppercaseTypes : Json → Json
  | .Array items => .Array (enforceItems items)
  | .Object members =>
    let out := enforceMembers members
    .Object (withType (lacksType out) out)
  | .Null => .Null
  | .Bool value => .Bool value
  | .Number bits => .Number bits
  | .String text => .String text
  | .Function name => .Function name
def enforceItems : List Json → List Json
  | [] => []
  | item :: rest => enforceUppercaseTypes item :: enforceItems rest
def enforceMembers : List (String × Json) → List (String × Json)
  | [] => []
  | (key,child) :: rest =>
    if unsupported key then enforceMembers rest
    else (key,match child with
      | .String text => if key = "type" then protoType text else .String text
      | other => enforceUppercaseTypes other) :: enforceMembers rest
end

/-- The type that is set on an array is none of its items. -/
def sanitizeSchema (value : Json) : Json :=
  match value with
  | .Array _ => enforceUppercaseTypes value
  | .Object _ =>
    match enforceUppercaseTypes value with
    | .Object clean => .Object (withType (!truthy (lookup clean "type")) clean)
    | other => other
  | _ => .Object [("type",.String "OBJECT"),("properties",.Object [])]

def cleaned (key : String) (child : Json) : Json :=
  match child with
  | .String text => if key = "type" then protoType text else .String text
  | other => enforceUppercaseTypes other

theorem enforceItems_eq (items : List Json) : enforceItems items = items.map enforceUppercaseTypes := by
  induction items with
  | nil => rfl
  | cons item rest ih => rw [enforceItems,ih,List.map_cons]
theorem enforceMembers_cons (key : String) (child : Json) (rest : List (String × Json)) :
    enforceMembers ((key,child) :: rest) = if unsupported key then enforceMembers rest else (key,
      cleaned key child) :: enforceMembers rest := by
  cases child <;> simp [enforceMembers,cleaned,enforceUppercaseTypes]
theorem cleaned_other {key : String} (other : key ≠ "type") (child : Json) : cleaned key child = enforceUppercaseTypes child := by
  cases child with
  | String text => exact (if_neg other).trans (by rw [enforceUppercaseTypes])
  | _ => rfl

theorem lookup_enforced (members : List (String × Json)) (key : String) :
    lookup (enforceMembers members) key = if unsupported key then none else (lookup members key).map (cleaned key) := by
  induction members with
  | nil => simp [enforceMembers]
  | cons member rest ih =>
    obtain ⟨name,child⟩ := member
    rw [enforceMembers_cons,lookup_cons]
    by_cases same : name = key
    · subst same
      by_cases lost : unsupported name = true
      · rw [if_pos lost,ih,if_pos lost,if_pos lost]
      · rw [if_neg lost,if_neg lost,lookup_cons,if_pos rfl,if_pos rfl]
        rfl
    · rw [if_neg same]
      split_ifs with lost gone gone
      · rw [ih,if_pos gone]
      · rw [ih,if_neg gone]
      · rw [lookup_cons,if_neg same,ih,if_pos gone]
      · rw [lookup_cons,if_neg same,ih,if_neg gone]

theorem truthy_protoType (text : String) : truthy (some (protoType text)) = truthy (some (.String text)) := by
  have filled : ∀ entry ∈ PROTO_TYPE_MAP, entry.1 ≠ "" ∧ entry.2 ≠ "" := by simp [PROTO_TYPE_MAP]
  have empty : toLowerCase "" = "" := lower_ascii "" (by simp [isAscii])
  have none_ : "" ∉ objectPrototype := by simp [objectPrototype]
  by_cases blank : text = ""
  · subst blank
    have missing : lookup PROTO_TYPE_MAP "" = none := by simp [PROTO_TYPE_MAP,lookup]
    rw [protoType,empty,missing]
    simp only [if_neg none_]
    rw [upper_ascii "" (by simp [isAscii])]
    rfl
  · rw [protoType]
    cases found : lookup PROTO_TYPE_MAP (toLowerCase text) with
    | some name => simp [truthy,blank,(filled _ (lookup_mem found)).2]
    | none =>
      by_cases inherited : toLowerCase text ∈ objectPrototype
      · simp [truthy,inherited,blank]
      · have upper : toUpperCase text ≠ "" := fun same => blank (upper_filled text same)
        simp [truthy,inherited,blank,upper]
theorem truthy_cleaned (key : String) (child : Option Json) : truthy (child.map (cleaned key)) = truthy child := by
  cases child with
  | none => rfl
  | some child =>
    cases child with
    | String text =>
      rw [Option.map_some,cleaned]
      split_ifs
      · exact truthy_protoType text
      · rfl
    | _ => simp [cleaned,enforceUppercaseTypes,truthy]

theorem cleaned_falsy {key : String} {child : Json} (falsy : truthy (some child) = false) : cleaned key child = child := by
  cases child with
  | String text =>
    obtain rfl : text = "" := by simpa [truthy] using falsy
    rw [cleaned]
    split_ifs
    · have empty : toLowerCase "" = "" := lower_ascii "" (by simp [isAscii])
      have missing : lookup PROTO_TYPE_MAP "" = none := by simp [PROTO_TYPE_MAP,lookup]
      have none_ : "" ∉ objectPrototype := by simp [objectPrototype]
      rw [protoType,empty,missing]
      simp only [if_neg none_]
      rw [upper_ascii "" (by simp [isAscii])]
      rfl
    · rfl
  | Array _ | Object _ | Function _ => cases falsy
  | _ => simp [cleaned,enforceUppercaseTypes]

/-- A type whose capitals are not read as a name that objects inherit. -/
def Settles (text : String) : Prop :=
  lookup PROTO_TYPE_MAP (toLowerCase text) ≠ none ∨ toLowerCase text ∈ objectPrototype ∨ toLowerCase (toUpperCase text) ∉ objectPrototype

/-- The text is a type somewhere in what is kept of the value. -/
inductive Reached : Json → String → Prop where
  | item {items : List Json} {item : Json} {text : String} : item ∈ items → Reached item text → Reached (.Array items) text
  | type {members : List (String × Json)} {text : String} : ("type",.String text) ∈ members → Reached (.Object members) text
  | member {members : List (String × Json)} {key : String} {child : Json} {text : String} :
    (key,child) ∈ members → unsupported key = false → Reached child text → Reached (.Object members) text

structure Spelled (small capital : String) : Prop where
  letters : ∀ c ∈ small.toList, 'a' ≤ c ∧ c ≤ 'z' ∧ c ≠ 'k'
  ascii : isAscii small ∧ isAscii capital
  lower : toLowerCase capital = small
  upper : toUpperCase small = capital
  known : lookup PROTO_TYPE_MAP small = some capital
  free : small ∉ objectPrototype

theorem spelled {small capital : String} (entry : (small,capital) ∈ PROTO_TYPE_MAP) : Spelled small capital := by
  have check : PROTO_TYPE_MAP.all (fun entry => entry.1.toList.all (fun c => 'a' ≤ c && c ≤ 'z' && c ≠ 'k') &&
      entry.2.toList.all (fun c => c.toNat < 128) && (entry.2.toList.map Char.toLower = entry.1.toList) &&
      (entry.1.toList.map Char.toUpper = entry.2.toList) && (lookup PROTO_TYPE_MAP entry.1 = some entry.2) &&
      entry.1 ∉ objectPrototype) = true := by decide +kernel
  have entry := List.all_eq_true.mp check _ entry
  simp only [Bool.and_eq_true,decide_eq_true_eq,List.all_eq_true] at entry
  obtain ⟨⟨⟨⟨⟨letters,ascii⟩,lower⟩,upper⟩,known⟩,free⟩ := entry
  have plain : isAscii small := by
    intro c member
    have below : c.toNat ≤ 122 := (letters c member).1.2
    omega
  refine ⟨fun c member => ?_,⟨plain,ascii⟩,?_,?_,known,free⟩
  · obtain ⟨⟨first,last⟩,other⟩ := letters c member
    exact ⟨first,last,other⟩
  · rw [lower_ascii capital ascii,lower,String.ofList_toList]
  · rw [upper_ascii small plain,upper,String.ofList_toList]

theorem Spelled.upper_capital {small capital : String} (spelled : Spelled small capital) : toUpperCase capital = capital := by
  rw [← spelled.upper,upper_upper]
theorem object_spelled : Spelled "object" "OBJECT" := spelled (by simp [PROTO_TYPE_MAP])
theorem object_cleaned : cleaned "type" (.String "OBJECT") = .String "OBJECT" := by
  simp only [cleaned,if_true,protoType,object_spelled.lower,object_spelled.known]

theorem protoType_again (text : String) : cleaned "type" (protoType text) = protoType text ↔ Settles text := by
  rw [Settles,protoType]
  cases found : lookup PROTO_TYPE_MAP (toLowerCase text) with
  | some name =>
    have spelled := spelled (lookup_mem found)
    refine iff_of_true ?_ (.inl nofun)
    simp only [cleaned,if_true,protoType,spelled.lower,spelled.known]
  | none =>
    by_cases inherited : toLowerCase text ∈ objectPrototype
    · simp [inherited,cleaned,enforceUppercaseTypes]
    · simp only [if_neg inherited,cleaned,if_true,protoType]
      cases again : lookup PROTO_TYPE_MAP (toLowerCase (toUpperCase text)) with
      | some name =>
        have spelled := spelled (lookup_mem again)
        have back := upper_lower (toUpperCase text) (upper_upper text) spelled.letters
        rw [spelled.upper] at back
        simp [back,spelled.free]
      | none =>
        by_cases later : toLowerCase (toUpperCase text) ∈ objectPrototype
        · simp [later,inherited]
        · simp [later,upper_upper]

omit [Casing] in
theorem type_kept : unsupported "type" = false := by decide +kernel
omit [Casing] in
theorem properties_kept : unsupported "properties" = false := by decide +kernel
theorem lacksType_enforced (members : List (String × Json)) : lacksType (enforceMembers members) = lacksType members := by
  simp only [lacksType,lookup_enforced,type_kept,properties_kept,Bool.false_eq_true,if_false,truthy_cleaned]
theorem enforced_kept {members : List (String × Json)} {member : String × Json} (isIn : member ∈ enforceMembers members) :
    unsupported member.1 = false := by
  induction members with
  | nil => simp [enforceMembers] at isIn
  | cons first rest ih =>
    obtain ⟨key,child⟩ := first
    rw [enforceMembers_cons] at isIn
    split_ifs at isIn with lost
    · exact ih isIn
    · rcases List.mem_cons.mp isIn with rfl | later
      · simpa using lost
      · exact ih later

theorem withType_enforced (missing : Bool) (out : List (String × Json)) :
    enforceMembers (withType missing out) = withType missing (enforceMembers out) := by
  cases missing with
  | false => rfl
  | true =>
    simp only [withType,if_true]
    induction out with
    | nil => rw [insertLast,enforceMembers_cons,type_kept,object_cleaned]; rfl
    | cons member rest ih =>
      obtain ⟨key,child⟩ := member
      rw [insertLast,enforceMembers_cons]
      split_ifs with here lost lost
      · cases here
        rw [type_kept] at lost
        cases lost
      · rw [enforceMembers_cons,type_kept,object_cleaned,insertLast,if_pos here]; rfl
      · rw [enforceMembers_cons,if_pos lost,ih]
      · rw [enforceMembers_cons,if_neg lost,ih,insertLast,if_neg here]

theorem withType_alike {missing : Bool} {out : List (String × Json)} (noType : missing = true → truthy (lookup out "type") = false)
    (kept : ∀ member ∈ out, unsupported member.1 = false) :
    withType missing (enforceMembers out) = withType missing out ↔ enforceMembers out = out := by
  cases missing with
  | false => rfl
  | true =>
    replace noType := noType rfl
    simp only [withType,if_true]
    induction out with
    | nil => simp [enforceMembers]
    | cons member rest ih =>
      obtain ⟨key,child⟩ := member
      have stays : unsupported key = false := kept _ List.mem_cons_self
      have others := fun member isIn => kept member (List.mem_cons_of_mem _ isIn)
      rw [lookup_cons] at noType
      rw [enforceMembers_cons,stays,if_neg Bool.false_ne_true,insertLast,insertLast]
      by_cases here : "type" = key
      · subst here
        rw [if_pos rfl] at noType
        simp [cleaned_falsy noType]
      · rw [if_neg (Ne.symm here)] at noType
        simp only [if_neg here,List.cons.injEq,Prod.mk.injEq,true_and,ih others noType]

theorem reached_object (members : List (String × Json)) : (∀ text, Reached (.Object members) text → Settles text) ↔
    ∀ member ∈ members, unsupported member.1 = false →
      (∀ text, member.1 = "type" → member.2 = .String text → Settles text) ∧ ∀ text, Reached member.2 text → Settles text := by
  constructor
  · refine fun settles member isMember kept => ⟨fun text same isText => ?_,fun text reached => ?_⟩
    · exact settles text (.type (by rw [← same,← isText]; exact isMember))
    · exact settles text (.member isMember kept reached)
  · rintro settles text (_ | member | ⟨member,kept,reached⟩)
    · exact (settles _ member type_kept).1 text rfl rfl
    · exact (settles _ member kept).2 text reached

mutual
theorem value_again : ∀ value, enforceUppercaseTypes (enforceUppercaseTypes value) = enforceUppercaseTypes value ↔
    ∀ text, Reached value text → Settles text
  | .Array items => by
    rw [enforceUppercaseTypes,enforceUppercaseTypes,Json.Array.injEq,items_again items]
    constructor
    · rintro settles text (⟨member,reached⟩ | _ | _)
      exact settles _ member text reached
    · exact fun settles item member text reached => settles text (.item member reached)
  | .Object members => by
    have settled : lacksType (withType (lacksType (enforceMembers members)) (enforceMembers (enforceMembers members))) = false := by
      cases lacks : lacksType (enforceMembers members) with
      | true => rw [lacksType,withType,if_pos rfl,lookup_insertLast,if_pos rfl]; rfl
      | false => rw [withType,if_neg Bool.false_ne_true,lacksType_enforced,lacks]
    have noType : lacksType (enforceMembers members) = true → truthy (lookup (enforceMembers members) "type") = false := by
      intro lacks
      simpa using (Bool.and_eq_true_iff.mp lacks).1
    rw [enforceUppercaseTypes,enforceUppercaseTypes,withType_enforced,settled,Json.Object.injEq]
    rw [withType,if_neg Bool.false_ne_true,withType_alike noType (fun _ => enforced_kept),members_again members,reached_object]
  | .Null | .Bool _ | .Number _ | .String _ | .Function _ => by
    simp only [enforceUppercaseTypes,true_iff]
    exact nofun
theorem items_again : ∀ items, enforceItems (enforceItems items) = enforceItems items ↔
    ∀ item ∈ items, ∀ text, Reached item text → Settles text
  | [] => by simp [enforceItems]
  | item :: rest => by
    simp only [enforceItems,List.cons.injEq,List.forall_mem_cons,value_again item,items_again rest]
theorem members_again : ∀ members, enforceMembers (enforceMembers members) = enforceMembers members ↔
    ∀ member ∈ members, unsupported member.1 = false →
      (∀ text, member.1 = "type" → member.2 = .String text → Settles text) ∧ ∀ text, Reached member.2 text → Settles text
  | [] => by simp [enforceMembers]
  | (key,child) :: rest => by
    rw [enforceMembers_cons,List.forall_mem_cons]
    cases lost : unsupported key with
    | true => simp [members_again rest]
    | false =>
      rw [if_neg Bool.false_ne_true,enforceMembers_cons,lost,if_neg Bool.false_ne_true,List.cons.injEq,members_again rest]
      refine and_congr ?_ Iff.rfl
      rw [Prod.mk.injEq]
      simp only [true_and,forall_const]
      by_cases isType : key = "type"
      · subst isType
        have again := value_again child
        cases child with
        | String text =>
          have nothing : ∀ other, ¬ Reached (.String text) other := fun _ => nofun
          have isType : cleaned "type" (.String text) = protoType text := by simp [cleaned]
          simp [isType,protoType_again,nothing]
        | _ => simpa [cleaned,enforceUppercaseTypes] using again
      · rw [cleaned_other isType,cleaned_other isType,value_again child]
        exact ⟨fun settles => ⟨fun _ same => absurd same isType,settles⟩,And.right⟩
end

theorem sanitize_object (members : List (String × Json)) : sanitizeSchema (.Object members) =
    .Object (withType (!truthy (lookup (enforceMembers members) "type")) (enforceMembers members)) := by
  rw [sanitizeSchema,enforceUppercaseTypes]
  cases lacks : lacksType (enforceMembers members) with
  | false => rfl
  | true =>
    have missing : truthy (lookup (enforceMembers members) "type") = false := by simpa using (Bool.and_eq_true_iff.mp lacks).1
    simp only [withType,if_true,lookup_insertLast,missing]
    rfl
theorem sanitize_again (members : List (String × Json)) :
    sanitizeSchema (sanitizeSchema (.Object members)) = sanitizeSchema (.Object members) ↔
      ∀ text, Reached (.Object members) text → Settles text := by
  have settled : truthy (lookup (withType (!truthy (lookup (enforceMembers members) "type")) (enforceMembers
    (enforceMembers members))) "type") = true := by
    cases typed : truthy (lookup (enforceMembers members) "type") with
    | false => simp only [withType,Bool.not_false,if_true,lookup_insertLast]; rfl
    | true => simpa [withType,lookup_enforced (enforceMembers members),type_kept,truthy_cleaned] using typed
  have noType : (!truthy (lookup (enforceMembers members) "type")) = true → truthy (lookup (enforceMembers members) "type") = false :=
    fun missing => by simpa using missing
  rw [sanitize_object,sanitize_object,withType_enforced,settled,Json.Object.injEq,reached_object,← members_again members]
  exact withType_alike noType fun _ => enforced_kept

/-- The keywords with a schema, with a list of schemas and with schemas by their names. -/
def schemaKeywords : List String := ["items","additionalItems","contains","not","if","then","else"]
def listKeywords : List String := ["items","prefixItems","anyOf","oneOf","allOf"]
def mapKeywords : List String := ["properties","definitions"]

inductive Step where
  | Schema (keyword : String)
  | Listed (keyword : String) (index : Nat)
  | Named (keyword name : String)

def member (value : Json) (key : String) : Option Json :=
  match value with
  | .Object members => lookup members key
  | _ => none
def single : Json → Option Json
  | .Array _ => none
  | value => some value
def itemsOf : Option Json → List Json
  | some (.Array items) => items
  | _ => []
def membersOf : Option Json → List (String × Json)
  | some (.Object members) => members
  | _ => []
def child (value : Json) : Step → Option Json
  | .Schema keyword => if keyword ∈ schemaKeywords then (member value keyword).bind single else none
  | .Listed keyword index => if keyword ∈ listKeywords then (itemsOf (member value keyword))[index]? else none
  | .Named keyword name => if keyword ∈ mapKeywords then lookup (membersOf (member value keyword)) name else none
def position (value : Json) (path : List Step) : Option Json := path.foldlM child value

def textsOf (items : List Json) : List String :=
  items.filterMap fun item => match item with | .String text => some text | _ => none
def typesOf : Option Json → List String
  | some (.String text) => [text]
  | value => textsOf (itemsOf value)
def declared (schema : Json) : List String := (membersOf (member schema "properties")).map (·.1)
def required (schema : Json) : List String := textsOf (itemsOf (member schema "required"))

def typeNames : List String := ["string","number","integer","boolean","array","object","null"]
def isTypeName (text : String) : Prop := toLowerCase text ∈ typeNames
/-- A schema is a boolean or an object, with a type or a list of types where it has any. -/
inductive IsNode : Json → Prop where
  | bool (value : Bool) : IsNode (.Bool value)
  | object (members : List (String × Json)) : (∀ type, lookup members "type" = some type →
      (∃ text, type = .String text) ∨ ∃ items, type = .Array items) → IsNode (.Object members)
structure IsSchema (schema : Json) : Prop where
  nodes : ∀ path node, position schema path = some node → IsNode node
  types : ∀ path node, position schema path = some node → ∀ text ∈ typesOf (member node "type"), isTypeName text

structure Clean (node : Json) : Prop where
  isNode : IsNode node
  supported : ∀ key ∈ UNSUPPORTED_SCHEMA_KEYS, member node key = none
  capitals : ∀ text ∈ typesOf (member node "type"), toUpperCase text = text
/-- What is declared stays declared, and what is required too. -/
structure Declares (node other : Json) : Prop where
  names : ∀ name, name ∈ declared other ↔ name ∈ declared node
  required : (∀ name ∈ required node, name ∈ declared node) → ∀ name ∈ required other, name ∈ declared other
structure Keeps (schema result : Json) : Prop where
  kept : ∀ path node, position schema path = some node → ∃ other, position result path = some other ∧ Declares node other
  clean : ∀ path node, position result path = some node → Clean node
  again : sanitizeSchema result = result

/-- No name is taken for a keyword, and names beside a property `properties` have one
    that is named `type`. -/
structure NamesKept (names : List (String × Json)) : Prop where
  supported : ∀ entry ∈ names, unsupported entry.1 = false
  typed : truthy (lookup names "properties") = true → truthy (lookup names "type") = true
structure Unharmed (schema : Json) : Prop where
  names : ∀ path node, position schema path = some node → ∀ keyword ∈ mapKeywords, NamesKept (membersOf (member node keyword))
  capitals : ∀ path node items, position schema path = some node → member node "type" = some (.Array items) →
    ∀ text ∈ textsOf items, toUpperCase text = text
  settles : ∀ text, Reached schema text → Settles text

/-! ## What becomes of a schema -/

inductive Alike : Json → Json → Prop where
  | bare {value : Bool} {other : Json} : (∀ step, child other step = none) → declared other = [] → required other = [] → Clean other →
    Alike (.Bool value) other
  | object {missing : Bool} {members : List (String × Json)} : (missing = true → truthy (lookup members "type") = false) →
    Alike (.Object members) (.Object (withType missing (enforceMembers members)))

section Nodes
variable {node other : Json}

theorem member_alike {missing : Bool} {members : List (String × Json)} {key : String} (notType : key ≠ "type")
    (kept : unsupported key = false) :
    member (.Object (withType missing (enforceMembers members))) key = (member (.Object members) key).map enforceUppercaseTypes := by
  have cleans : cleaned key = enforceUppercaseTypes := funext (cleaned_other notType)
  have found : lookup (enforceMembers members) key = (lookup members key).map enforceUppercaseTypes := by
    rw [lookup_enforced,kept,if_neg Bool.false_ne_true,cleans]
  cases missing with
  | false => exact found
  | true => exact (lookup_insertLast _ _ _ _).trans ((if_neg notType).trans found)

omit [Casing] in
theorem keywords_kept : ∀ keyword ∈ schemaKeywords ++ listKeywords ++ mapKeywords ++ ["required"],
    keyword ≠ "type" ∧ unsupported keyword = false := by
  have check : (schemaKeywords ++ listKeywords ++ mapKeywords ++ ["required"]).all
    (fun keyword => keyword ≠ "type" && !unsupported keyword) = true := by decide +kernel
  intro keyword isKeyword
  simpa using List.all_eq_true.mp check keyword isKeyword

theorem itemsOf_enforced (value : Option Json) : itemsOf (value.map enforceUppercaseTypes) = (itemsOf value).map enforceUppercaseTypes := by
  rcases value with _ | value
  · rfl
  · cases value <;> simp [itemsOf,enforceUppercaseTypes,enforceItems_eq]
theorem textsOf_enforced (items : List Json) : textsOf (items.map enforceUppercaseTypes) = textsOf items := by
  rw [textsOf,textsOf,List.filterMap_map]
  congr 1
  funext item
  cases item <;> simp [enforceUppercaseTypes]
theorem membersOf_enforced (value : Option Json) : membersOf (value.map enforceUppercaseTypes) =
    withType (lacksType (enforceMembers (membersOf value))) (enforceMembers (membersOf value)) := by
  rcases value with _ | value
  · rfl
  · cases value <;> simp [membersOf,enforceUppercaseTypes] <;> rfl

theorem NamesKept.lacks {names : List (String × Json)} (kept : NamesKept names) : lacksType (enforceMembers names) = false := by
  rw [lacksType_enforced,lacksType]
  cases typed : truthy (lookup names "properties") with
  | false => exact Bool.and_false _
  | true => rw [kept.typed typed]; rfl
theorem NamesKept.keys {names : List (String × Json)} (kept : NamesKept names) : (enforceMembers names).map (·.1) = names.map (·.1) := by
  have supported := kept.supported
  clear kept
  induction names with
  | nil => rfl
  | cons entry rest ih =>
    rw [enforceMembers_cons,supported entry List.mem_cons_self,if_neg Bool.false_ne_true,List.map_cons,List.map_cons,
      ih fun other isIn => supported other (List.mem_cons_of_mem _ isIn)]

theorem bool_clean (value : Bool) : Clean (.Bool value) := ⟨.bool value,fun _ _ => rfl,nofun⟩
omit [Casing] in
theorem bool_bare (value : Bool) (step : Step) : child (.Bool value) step = none := by
  cases step <;> simp [child,member,itemsOf,membersOf]
theorem enforce_alike (isNode : IsNode node) : Alike node (enforceUppercaseTypes node) := by
  cases isNode with
  | bool value =>
    rw [enforceUppercaseTypes]
    exact .bare (bool_bare value) rfl rfl (bool_clean value)
  | object members _ =>
    rw [enforceUppercaseTypes]
    refine .object fun lacks => ?_
    rw [lacksType_enforced] at lacks
    simpa using (Bool.and_eq_true_iff.mp lacks).1

theorem single_alike (isNode : IsNode node) : Option.Rel Alike (some node) (single (enforceUppercaseTypes node)) := by
  have alike := enforce_alike isNode
  cases isNode <;> exact .some alike

theorem Alike.type {missing : Bool} {members : List (String × Json)} : member (.Object (withType missing (enforceMembers members))) "type" =
    if missing then some (.String "OBJECT") else (lookup members "type").map (cleaned "type") := by
  cases missing with
  | false => exact (lookup_enforced _ _).trans (by rw [type_kept]; rfl)
  | true => exact lookup_insertLast _ _ _ _

theorem Alike.declares (alike : Alike node other) (kept : NamesKept (membersOf (member node "properties"))) : Declares node other := by
  have same : declared other = declared node ∧ required other = required node := by
    cases alike with
    | bare _ names needs _ => exact ⟨names,needs⟩
    | object _ =>
      have properties := keywords_kept "properties" (by simp [mapKeywords])
      have requires := keywords_kept "required" (by simp)
      rw [declared,declared,required,required,member_alike properties.1 properties.2,member_alike requires.1 requires.2,
        itemsOf_enforced,textsOf_enforced,membersOf_enforced,kept.lacks]
      exact ⟨kept.keys,rfl⟩
  exact ⟨fun name => by rw [same.1],fun subset name needed => same.1 ▸ subset name (same.2 ▸ needed)⟩

theorem Alike.child (alike : Alike node other) (names : ∀ keyword ∈ mapKeywords, NamesKept (membersOf (member node keyword)))
    {step : Step} (nodes : ∀ next, child node step = some next → IsNode next) : Option.Rel Alike (child node step) (child other step) := by
  cases alike with
  | bare none_ _ _ _ =>
    rw [none_,bool_bare]
    exact .none
  | @object missing members _ =>
    have below : ∀ {found : Option Json}, (∀ next, found = some next → IsNode next) →
        Option.Rel Alike found (found.map enforceUppercaseTypes) := by
      intro found nodes
      cases found with
      | none => exact .none
      | some next => exact .some (enforce_alike (nodes next rfl))
    cases step with
    | Schema keyword =>
      simp only [ToolSchemas.child] at nodes ⊢
      split_ifs at nodes ⊢ with isKeyword
      · obtain ⟨notType,kept⟩ := keywords_kept keyword (by simp [isKeyword])
        rw [member_alike notType kept]
        cases found : member (.Object members) keyword with
        | none => exact .none
        | some value =>
          rw [found] at nodes
          cases value with
          | Array items => exact .none
          | _ => exact single_alike (nodes _ rfl)
      · exact .none
    | Listed keyword index =>
      simp only [ToolSchemas.child] at nodes ⊢
      split_ifs at nodes ⊢ with isKeyword
      · obtain ⟨notType,kept⟩ := keywords_kept keyword (by simp [isKeyword])
        rw [member_alike notType kept,itemsOf_enforced,List.getElem?_map]
        exact below nodes
      · exact .none
    | Named keyword name =>
      simp only [ToolSchemas.child] at nodes ⊢
      split_ifs at nodes ⊢ with isKeyword
      · obtain ⟨notType,kept⟩ := keywords_kept keyword (by simp [isKeyword])
        have keeps := names keyword isKeyword
        rw [member_alike notType kept,membersOf_enforced,keeps.lacks,withType,if_neg Bool.false_ne_true,lookup_enforced]
        cases found : lookup (membersOf (member (.Object members) keyword)) name with
        | none => split_ifs <;> exact .none
        | some value =>
          rw [keeps.supported _ (lookup_mem found),if_neg Bool.false_ne_true]
          have isNode := nodes value found
          have cleans : cleaned name value = enforceUppercaseTypes value := by
            cases isNode <;> rfl
          exact .some (cleans ▸ enforce_alike isNode)
      · exact .none

theorem typeName_clean {text : String} (isName : isTypeName text) : ∃ name, protoType text = .String name ∧ toUpperCase name = name := by
  rw [protoType]
  cases found : lookup PROTO_TYPE_MAP (toLowerCase text) with
  | some name => exact ⟨name,rfl,(spelled (lookup_mem found)).upper_capital⟩
  | none =>
    have free : typeNames.all (· ∉ objectPrototype) = true := by decide +kernel
    have free := of_decide_eq_true (List.all_eq_true.mp free _ isName)
    exact ⟨toUpperCase text,if_neg free,upper_upper text⟩
theorem Alike.clean (alike : Alike node other) (isNode : IsNode node) (types : ∀ text ∈ typesOf (member node "type"), isTypeName text)
    (capitals : ∀ items, member node "type" = some (.Array items) → ∀ text ∈ textsOf items, toUpperCase text = text) : Clean other := by
  cases alike with
  | bare _ _ _ clean => exact clean
  | @object missing members _ =>
    have known : ∀ type, lookup members "type" = some type → (∃ text, type = .String text) ∨ ∃ items, type = .Array items := by
      cases isNode with
      | object _ known => exact known
    have result : ∀ type, member (.Object (withType missing (enforceMembers members))) "type" = some type →
        (∃ text, type = .String text ∧ toUpperCase text = text) ∨
          ∃ items, type = .Array items ∧ ∀ text ∈ textsOf items, toUpperCase text = text := by
      intro type found
      rw [Alike.type] at found
      split_ifs at found with isMissing
      · exact .inl ⟨"OBJECT",(Option.some.inj found).symm,object_spelled.upper_capital⟩
      · obtain ⟨before,isBefore,rfl⟩ := Option.map_eq_some_iff.mp found
        rcases known before isBefore with ⟨text,rfl⟩ | ⟨items,rfl⟩
        · have isName : isTypeName text := types text (by rw [member,isBefore]; exact List.mem_singleton_self text)
          obtain ⟨name,isName,upper⟩ := typeName_clean isName
          exact .inl ⟨name,by simp [cleaned,isName],upper⟩
        · refine .inr ⟨items.map enforceUppercaseTypes,by simp [cleaned,enforceUppercaseTypes,enforceItems_eq],?_⟩
          rw [textsOf_enforced]
          exact capitals items isBefore
    refine ⟨.object _ fun type found => ?_,fun key isKey => ?_,fun text isText => ?_⟩
    · rcases result type found with ⟨text,rfl,-⟩ | ⟨items,rfl,-⟩
      · exact .inl ⟨text,rfl⟩
      · exact .inr ⟨items,rfl⟩
    · have lost : unsupported key = true := by simp [unsupported,isKey]
      have notType : key ≠ "type" := by
        rintro rfl
        rw [type_kept] at lost
        cases lost
      have gone : lookup (enforceMembers members) key = none := by rw [lookup_enforced,if_pos lost]
      cases missing with
      | false => exact gone
      | true => exact (lookup_insertLast _ _ _ _).trans ((if_neg notType).trans gone)
    · cases found : member (.Object (withType missing (enforceMembers members))) "type" with
      | none =>
        rw [found] at isText
        cases isText
      | some type =>
        rw [found] at isText
        rcases result type found with ⟨name,rfl,upper⟩ | ⟨items,rfl,upper⟩
        · rw [List.mem_singleton.mp isText,upper]
        · exact upper text isText
theorem Alike.capitals (alike : Alike node other) (clean : Clean other) {items : List Json} (list : member node "type" = some
    (.Array items)) :
    ∀ text ∈ textsOf items, toUpperCase text = text := by
  cases alike with
  | bare _ _ _ _ => cases list
  | @object missing members noType =>
    have found : lookup members "type" = some (.Array items) := list
    have present : missing = false := by
      cases missing with
      | false => rfl
      | true => rw [found] at noType; cases noType rfl
    intro text isText
    refine clean.capitals text ?_
    rw [Alike.type,present,if_neg Bool.false_ne_true,found,Option.map_some,cleaned,enforceUppercaseTypes,enforceItems_eq]
    · rw [← textsOf_enforced] at isText
      exact isText
    · nofun

end Nodes

section Schemas
variable {schema node other : Json} {path : List Step}

omit [Casing] in
theorem position_snoc (path : List Step) (step : Step) :
    position schema (path ++ [step]) = (position schema path).bind (child · step) := by
  simp [position,List.foldlM_append]

omit [Casing] in
theorem child_simple {type : Json} {names : List (String × Json)} {step : Step} {next : Json}
    (found : child (.Object [("type",type),("properties",.Object names)]) step = some next) :
    ∃ name, step = .Named "properties" name ∧ lookup names name = some next := by
  cases step with
  | Schema keyword | Listed keyword _ | Named keyword _ =>
    rw [child] at found
    split_ifs at found with isKeyword
    simp only [schemaKeywords,listKeywords,mapKeywords,List.mem_cons,List.not_mem_nil,or_false] at isKeyword
    rcases isKeyword with rfl | rfl | rfl | rfl | rfl | rfl | rfl <;> simp [member,lookup,itemsOf,membersOf] at found ⊢
    try exact found

theorem sanitize_alike (isNode : IsNode schema) : Alike schema (sanitizeSchema schema) := by
  cases isNode with
  | bool value =>
    have types : ∀ type, some (Json.String "OBJECT") = some type → (∃ text, type = .String text) ∨ ∃ items, type = .Array items := by
      rintro type ⟨⟩
      exact .inl ⟨"OBJECT",rfl⟩
    refine .bare (fun step => ?_) rfl rfl ⟨.object _ types,fun key isKey => ?_,
      fun text isText => List.mem_singleton.mp isText ▸ object_spelled.upper_capital⟩
    · cases found : child (sanitizeSchema (.Bool value)) step with
      | none => rfl
      | some next =>
        obtain ⟨name,-,isNamed⟩ := child_simple found
        cases isNamed
    · refine lookup_none.mpr fun isThere => ?_
      have lost : unsupported key = true := by simp [unsupported,isKey]
      rcases List.mem_cons.mp isThere with rfl | later
      · exact absurd (type_kept.symm.trans lost) Bool.false_ne_true
      · obtain rfl := List.mem_singleton.mp later
        exact absurd (properties_kept.symm.trans lost) Bool.false_ne_true
  | object members _ =>
    rw [sanitize_object]
    refine .object fun missing => ?_
    rw [lookup_enforced,type_kept,if_neg Bool.false_ne_true,truthy_cleaned] at missing
    simpa using missing

theorem positions_alike (isSchema : IsSchema schema) (names : ∀ path node other, position schema path = some node →
    position (sanitizeSchema schema) path = some other → Alike node other →
    ∀ keyword ∈ mapKeywords, NamesKept (membersOf (member node keyword))) (path : List Step) :
    Option.Rel Alike (position schema path) (position (sanitizeSchema schema) path) := by
  induction path using List.reverseRecOn with
  | nil => exact .some (sanitize_alike (isSchema.nodes [] schema rfl))
  | append_singleton path step ih =>
    have nodes := isSchema.nodes (path ++ [step])
    rw [position_snoc] at nodes ⊢
    rw [position_snoc]
    generalize isBefore : position schema path = before at ih nodes ⊢
    generalize isAfter : position (sanitizeSchema schema) path = after at ih ⊢
    cases ih with
    | none => exact .none
    | some alike => exact alike.child (names path _ _ isBefore isAfter alike) nodes

/-- A name that is lost has no position any more, and a type that is set among names is no schema. -/
theorem Keeps.names {result : Json} (keeps : Keeps schema result) (isNode : position schema path = some node)
    (isOther : position result path = some other) (alike : Alike node other) :
    ∀ keyword ∈ mapKeywords, NamesKept (membersOf (member node keyword)) := by
  intro keyword isKeyword
  cases alike with
  | bare _ _ _ _ => exact ⟨nofun,nofun⟩
  | @object missing members _ =>
    obtain ⟨notType,kept⟩ := keywords_kept keyword (by simp [isKeyword])
    have before : ∀ name, position schema (path ++ [.Named keyword name]) = lookup (membersOf (member (.Object members) keyword)) name :=
      fun name => by rw [position_snoc,isNode,Option.bind_some,child,if_pos isKeyword]
    have after : ∀ name, position result (path ++ [.Named keyword name]) =
        lookup (membersOf ((member (.Object members) keyword).map enforceUppercaseTypes)) name :=
      fun name => by rw [position_snoc,isOther,Option.bind_some,child,if_pos isKeyword,member_alike notType kept]
    rw [membersOf_enforced] at after
    generalize membersOf (member (.Object members) keyword) = names at before after ⊢
    constructor
    · intro entry isEntry
      cases lost : unsupported entry.1 with
      | false => rfl
      | true =>
        have notType : entry.1 ≠ "type" := by
          intro same
          rw [same,type_kept] at lost
          cases lost
        have gone : lookup (withType (lacksType (enforceMembers names)) (enforceMembers names)) entry.1 = none := by
          rw [withType]
          split_ifs
          · rw [lookup_insertLast,if_neg notType,lookup_enforced,if_pos lost]
          · rw [lookup_enforced,if_pos lost]
        cases found : lookup names entry.1 with
        | none => exact absurd (List.mem_map_of_mem isEntry) (lookup_none.mp found)
        | some value =>
          obtain ⟨other,isThere,-⟩ := keeps.kept _ _ ((before entry.1).trans found)
          rw [after,gone] at isThere
          cases isThere
    · intro filled
      by_contra noType
      have lacks : lacksType (enforceMembers names) = true := by
        rw [lacksType_enforced,lacksType,filled,Bool.eq_false_iff.mpr noType]
        rfl
      have set := after "type"
      rw [lacks,withType,if_pos rfl,lookup_insertLast,if_pos rfl] at set
      cases (keeps.clean _ _ set).isNode

/-- Every schema keeps what it declares, exactly where no name is taken for a keyword, no
    list of types has small letters and no type settles on an inherited name. -/
theorem sanitized_iff (isSchema : IsSchema schema) : Keeps schema (sanitizeSchema schema) ↔ Unharmed schema := by
  have again : sanitizeSchema (sanitizeSchema schema) = sanitizeSchema schema ↔ ∀ text, Reached schema text → Settles text := by
    cases isSchema.nodes [] schema rfl with
    | bool value =>
      have none_ : Reached (.Bool value) = fun _ => False := funext fun _ => propext ⟨nofun,False.elim⟩
      have fixed : enforceMembers [("type",.String "OBJECT"),("properties",.Object [])] = [("type",.String "OBJECT"),("properties",
        .Object [])] := by
        rw [enforceMembers_cons,enforceMembers_cons,type_kept,properties_kept,object_cleaned]
        rfl
      have same : sanitizeSchema (.Bool value) = .Object [("type",.String "OBJECT"),("properties",.Object [])] := rfl
      rw [same,sanitize_object,fixed,none_]
      exact iff_of_true rfl nofun
    | object members _ => exact sanitize_again members
  constructor
  · intro keeps
    have found : ∀ path node, position schema path = some node → ∃ other, position (sanitizeSchema schema) path = some other ∧
      Alike node other := by
      intro path node isNode
      have alike := positions_alike isSchema (fun path node other => keeps.names) path
      rw [isNode] at alike
      generalize position (sanitizeSchema schema) path = other at alike ⊢
      cases alike with
      | some alike => exact ⟨_,rfl,alike⟩
    refine ⟨fun path node isNode => ?_,fun path node items isNode list => ?_,again.mp keeps.again⟩
    · obtain ⟨other,isOther,alike⟩ := found path node isNode
      exact keeps.names isNode isOther alike
    · obtain ⟨other,isOther,alike⟩ := found path node isNode
      exact alike.capitals (keeps.clean _ _ isOther) list
  · intro unharmed
    have alike := positions_alike isSchema fun path node _ isNode _ _ => unharmed.names path node isNode
    refine ⟨?_,?_,again.mpr unharmed.settles⟩
    · intro path node isNode
      have alike := alike path
      rw [isNode] at alike
      generalize isOther : position (sanitizeSchema schema) path = other at alike
      cases alike with
      | some alike => exact ⟨_,rfl,alike.declares (unharmed.names path node isNode "properties" (by simp [mapKeywords]))⟩
    · intro path other isOther
      have alike := alike path
      rw [isOther] at alike
      generalize isNode : position schema path = node at alike
      cases alike with
      | some alike => exact alike.clean (isSchema.nodes _ _ isNode) (isSchema.types _ _ isNode) (unharmed.capitals _ _ · isNode)

end Schemas

end Sanitising

theorem toUpper_toUpper (c : Char) : c.toUpper.toUpper = c.toUpper := by
  apply Char.ext
  delta Char.toUpper
  simp only [apply_dite Char.val]
  grind [UInt32.le_iff_toNat_le,UInt32.toNat_add]

theorem toLower_toUpper (c : Char) : c.toLower.toUpper = c.toUpper := by
  apply Char.ext
  delta Char.toUpper Char.toLower
  simp only [apply_dite Char.val]
  grind [UInt32.le_iff_toNat_le,UInt32.toNat_add,← UInt32.toNat_inj]

instance asciiCasing : Casing where
  toLowerCase text := String.ofList (text.toList.map Char.toLower)
  toUpperCase text := String.ofList (text.toList.map Char.toUpper)
  lower_ascii _ _ := rfl
  upper_ascii _ _ := rfl
  upper_upper text := by simp only [String.toList_ofList,List.map_map,Function.comp_def,toUpper_toUpper]
  upper_filled text same := by simpa using same
  upper_lower text upper _ := by simpa [Function.comp_def,toLower_toUpper] using upper

/-! ## A property named title -/

def withProperty (name : String) : Json :=
  .Object [("type",.String "object"),("properties",.Object [(name,.Object [("type",.String "string")])])]

theorem withProperty_positions {name : String} {path : List Step} {node : Json} (found : position (withProperty name) path = some node) :
    node = withProperty name ∨ node = .Object [("type",.String "string")] := by
  have leaf : ∀ step, child (.Object [("type",.String "string")]) step = none := by
    intro step
    cases step with
    | Schema keyword | Listed keyword _ | Named keyword _ =>
      rw [child]
      split_ifs with isKeyword
      · have other := (keywords_kept keyword (by simp [isKeyword])).1
        simp [member,lookup,Ne.symm other,itemsOf,membersOf]
      · rfl
  cases path with
  | nil => exact .inl (Option.some.inj found).symm
  | cons step rest =>
    obtain ⟨next,isNext,later⟩ := Option.bind_eq_some_iff.mp found
    obtain ⟨other,-,isNamed⟩ := child_simple isNext
    have isLeaf : next = .Object [("type",.String "string")] := by
      rw [lookup_cons] at isNamed
      split_ifs at isNamed
      · exact (Option.some.inj isNamed).symm
      · cases isNamed
    subst isLeaf
    cases rest with
    | nil => exact .inr (Option.some.inj later).symm
    | cons step rest =>
      obtain ⟨next,isNext,-⟩ := Option.bind_eq_some_iff.mp later
      rw [leaf] at isNext
      cases isNext
theorem withProperty_schema (name : String) : IsSchema (withProperty name) := by
  have lower : isTypeName "object" ∧ isTypeName "string" := by
    constructor <;> simp [isTypeName,typeNames,Casing.toLowerCase]
  constructor
  · intro path node found
    rcases withProperty_positions found with rfl | rfl
    · exact .object _ fun type isType => .inl ⟨_,(Option.some.inj isType).symm⟩
    · exact .object _ fun type isType => .inl ⟨_,(Option.some.inj isType).symm⟩
  · intro path node found text isText
    rcases withProperty_positions found with rfl | rfl
    · exact List.mem_singleton.mp isText ▸ lower.1
    · exact List.mem_singleton.mp isText ▸ lower.2

theorem title_lost : IsSchema (withProperty "title") ∧ ¬ Keeps (withProperty "title") (sanitizeSchema (withProperty "title")) := by
  have isSchema := withProperty_schema "title"
  refine ⟨isSchema,fun keeps => ?_⟩
  have names := @Keeps.names _ _ _ _ [] _ keeps rfl rfl (sanitize_alike (isSchema.nodes [] _ rfl))
  have kept := (names "properties" (by simp [mapKeywords])).supported ("title",_) List.mem_cons_self
  exact absurd kept (by decide +kernel)
theorem path_kept : Keeps (withProperty "path") (sanitizeSchema (withProperty "path")) := by
  have kept : unsupported "path" = false := by decide +kernel
  refine (sanitized_iff (withProperty_schema "path")).mpr ⟨?_,?_,?_⟩
  · intro path node found keyword isKeyword
    have none_ : NamesKept [] := ⟨nofun,nofun⟩
    have one : NamesKept [("path",Json.Object [("type",.String "string")])] :=
      ⟨fun entry isEntry => List.mem_singleton.mp isEntry ▸ kept,fun filled => by simp [lookup,truthy] at filled⟩
    rcases List.mem_cons.mp isKeyword with rfl | later
    · rcases withProperty_positions found with rfl | rfl
      · exact one
      · exact none_
    · obtain rfl := List.mem_singleton.mp later
      rcases withProperty_positions found with rfl | rfl
      · exact none_
      · exact none_
  · intro path node items found list
    rcases withProperty_positions found with rfl | rfl
    · cases Option.some.inj list
    · cases Option.some.inj list
  · have settles : Settles "object" ∧ Settles "string" := by
      constructor <;> left <;> simp [Casing.toLowerCase,PROTO_TYPE_MAP,lookup]
    have leaf : ∀ text, Reached (.Object [("type",.String "string")]) text → text = "string" := by
      rintro text (_ | isType | ⟨isMember,_,reached⟩)
      · simpa using isType
      · simp at isMember
        obtain ⟨-,rfl⟩ := isMember
        cases reached
    rintro text (_ | isType | ⟨isMember,_,reached⟩)
    · simp at isType
      exact isType ▸ settles.1
    · rcases List.mem_cons.mp isMember with same | later
      · cases same
        cases reached
      · cases List.mem_singleton.mp later
        rcases reached with _ | isType | ⟨isMember,_,reached⟩
        · simp at isType
        · cases List.mem_singleton.mp isMember
          exact leaf text reached ▸ settles.2

end MyCursor.ToolSchemas
