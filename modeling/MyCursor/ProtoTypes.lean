import MyCursor.Text
import Mathlib.Tactic.Common

/-!
# The declarations of the protocol extractor

`types.go` of `cursor-protocol-extractor`, and `parseTypeName` of `renderer.go`: the
messages, enums and services that are read from the bundles of the client, and
the parts of their names.
-/
namespace MyCursor.ProtoTypes
open Text

/-- What a field's `T` is: nothing, the number of a scalar, or a name. -/
inductive TypeRef where
  | Absent
  | Scalar (number : Int)
  | Named (ref : String)
deriving DecidableEq

structure Field where
  No : Int
  Name : String
  Kind : String
  T : TypeRef
  Oneof : String := ""
  Repeated : Bool := false
  Opt : Bool := false
  MapKey : Int := 0
  MapValueKind : String := ""
  MapValueT : TypeRef := .Absent
deriving DecidableEq

structure Message where
  TypeName : String
  VarName : String
  InternalName : String
  Fields : List Field
  Package : String
  ShortName : String
  Pos : Nat
  ModuleStart : Nat
deriving DecidableEq

structure EnumValue where
  No : Int
  Name : String
deriving DecidableEq

structure Enum where
  TypeName : String
  VarName : String
  Values : List EnumValue
  Package : String
  ShortName : String
  Pos : Nat
  ModuleStart : Nat
deriving DecidableEq

def isDigit (c : Char) : Bool := '0' ≤ c && c ≤ '9'
/-- `\w`. -/
def isWord (c : Char) : Bool := is_ascii_alphanumeric c || c = '_'
/-- `[\w$]`, the characters of a name of the bundle. -/
def isNameChar (c : Char) : Bool := isWord c || c = '$'
def isTypeChar (c : Char) : Bool := isWord c || c = '.'

theorem all_letters {letter : Char → Bool} {names : List String}
    (letters : (names.all fun name => name.toList.all letter) = true) : ∀ name ∈ names, ∀ c ∈ name.toList, letter c = true :=
  fun name member => List.all_eq_true.mp (List.all_eq_true.mp letters name member)

def pieces (separator : Char) : List Char → List (List Char)
  | [] => [[]]
  | c :: rest =>
    match pieces separator rest with
    | [] => [[c]]
    | piece :: more => if c = separator then [] :: piece :: more else (c :: piece) :: more
/-- `strings.Split` with one character. -/
def Split (text : String) (separator : Char) : List String := (pieces separator text.toList).map String.ofList

/-- `.vN` before a dot and the rest. -/
def versionAt : List Char → Option (List Char × List Char)
  | '.' :: 'v' :: rest =>
    match rest.takeWhile isDigit, rest.dropWhile isDigit with
    | digit :: digits, '.' :: c :: short =>
      if '\n' ∈ c :: short then none else some ('.' :: 'v' :: digit :: digits,c :: short)
    | _, _ => none
  | _ => none
/-- The split of `^([\w.]+\.v\d+)\.(.+)$`, which is as late as possible. -/
def splitVersion : List Char → Option (List Char × List Char)
  | [] => none
  | c :: rest =>
    if isTypeChar c then
      match splitVersion rest with
      | some (pkg,short) => some (c :: pkg,short)
      | none => (versionAt rest).map fun (version,short) => (c :: version,short)
    else none

/-- `strings.CutPrefix`. -/
def CutPrefix (text start : String) : Option String :=
  if start.toList.isPrefixOf text.toList then some (String.ofList (text.toList.drop start.length)) else none

def parseTypeName (typeName : String) : String × String :=
  match splitVersion typeName.toList with
  | some (pkg,short) => (String.ofList pkg,String.ofList short)
  | none =>
    match CutPrefix typeName "google.protobuf.", CutPrefix typeName "google.rpc." with
    | some short, _ => ("google.protobuf",short)
    | none, some short => ("google.rpc",short)
    | none, none =>
      match (Split typeName '.').reverse with
      | short :: last :: before => (String.intercalate "." (last :: before).reverse,short)
      | _ => ("",typeName)

/-- `looksLikeFullTypeName` of `resolver.go`. -/
def looksLikeFullTypeName (ref : String) : Bool :=
  let trimmed := trim ref
  (CutPrefix trimmed "google.protobuf.").isSome || (CutPrefix trimmed "google.rpc.").isSome ||
    (trimmed.toList.all isTypeChar && (splitVersion trimmed.toList).isSome)

example : parseTypeName "agent.v1.Shell.Result" = ("agent.v1","Shell.Result") := by decide +kernel

end MyCursor.ProtoTypes
