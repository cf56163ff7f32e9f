import MyCursor.ProtoTypes

/-!
# The resolution of type references

`resolver.go` with the index of imports of `modules.go`: which declaration a name in
a field of a message stands for. The texts that the regular expressions find in a
bundle are the data of `Scan`.
-/
namespace MyCursor.TypeResolution
open Text ProtoTypes

/-- `moduleStartForPos`: the last start up to the position. -/
def moduleStartForPos (moduleStarts : List Nat) (pos : Nat) : Nat := (moduleStarts.takeWhile (· ≤ pos)).getLastD 0

structure SymbolDef where
  TypeName : String
  Pos : Nat
  Kind : String
  ModuleStart : Nat
deriving DecidableEq

def messageDef (message : Message) : SymbolDef := ⟨message.TypeName,message.Pos,"message",message.ModuleStart⟩
def enumDef (enum : Enum) : SymbolDef := ⟨enum.TypeName,enum.Pos,"enum",enum.ModuleStart⟩

def symbolsOf (message : Message) : List String :=
  if message.InternalName ≠ "" ∧ message.InternalName ≠ message.VarName then [message.VarName,message.InternalName]
  else [message.VarName]

def definitions (messages : List Message) (enums : List Enum) : List (String × SymbolDef) :=
  ((messages.flatMap fun message => (symbolsOf message).map (·,messageDef message)) ++
    enums.map fun enum => (enum.VarName,enumDef enum)).filter fun (symbol,definition) =>
      trim symbol ≠ "" && trim definition.TypeName ≠ ""

def bySymbol (messages : List Message) (enums : List Enum) (symbol : String) : List SymbolDef :=
  ((definitions messages enums).filter fun entry => trim entry.1 = symbol).map (·.2)

def shortKeys (shortName : String) : List String :=
  let underscored := String.ofList (shortName.toList.map fun c => if c = '.' then '_' else c)
  let afterLast (text : String) (separator : Char) : List String :=
    match (Split text separator).reverse with
    | last :: piece :: before => if last = "" ∨ (piece = "" ∧ before = []) then [] else [last]
    | _ => []
  if shortName = "" then []
  else [shortName] ++ (if underscored ≠ shortName then [underscored] else []) ++ afterLast shortName '.' ++ afterLast underscored '_'
def byShort (messages : List Message) (enums : List Enum) (symbol : String) : List SymbolDef :=
  (definitions messages enums).flatMap fun (_,definition) =>
    ((shortKeys (parseTypeName (trim definition.TypeName)).2).filter (· = symbol)).map fun _ => definition

/-- What is found in a bundle: the numbers and starts of the modules, the declarations,
    and with their positions the assignments of names to names, the entries of the
    export tables (exported name and local name) and the imports (local name and
    number of the module). One position is that of one declaration, and names are made
    of letters, digits, `_` and `$`. -/
structure Scan where
  modules : List (String × Nat)
  messages : List Message
  enums : List Enum
  aliases : List (Nat × String × String)
  exports : List (Nat × String × String)
  imports : List (Nat × String × String)
  placed : ∀ d ∈ messages.map messageDef ++ enums.map enumDef, ∀ e ∈ messages.map messageDef ++ enums.map enumDef,
    d.Pos = e.Pos → d.TypeName = e.TypeName
  inModule : ∀ d ∈ messages.map messageDef ++ enums.map enumDef,
    d.ModuleStart = moduleStartForPos (modules.map (·.2)) d.Pos
  named : ∀ symbol ∈ (messages.flatMap fun message => [message.VarName,message.InternalName]) ++ enums.map (·.VarName) ++
    aliases.map (·.2.1) ++ exports.map (·.2.1), ∀ c ∈ symbol.toList, isNameChar c = true

namespace Scan
variable (scan : Scan)

def moduleOf (pos : Nat) : Nat := moduleStartForPos (scan.modules.map (·.2)) pos

/-- What a name is assigned in a module; the last assignment counts. -/
def directAlias (moduleStart : Nat) (symbol : String) : Option String :=
  ((scan.aliases.filter fun (pos,name,target) =>
    scan.moduleOf pos = moduleStart && name = symbol && name ≠ "" && target ≠ "" && name ≠ target).getLast?).map (·.2.2)

/-- `resolveRoot`: the end of the assignments, or the name itself where they go in a
    circle. No chain has more names than there are assignments. -/
def resolveRoot (moduleStart : Nat) (symbol : String) : Nat → List String → String → String
  | 0, _, _ => symbol
  | steps + 1, seen, current =>
    if current ∈ seen then symbol
    else match scan.directAlias moduleStart current with
      | none => current
      | some next => resolveRoot moduleStart symbol steps (current :: seen) next

/-- `buildAliasIndex`: the name stands for the symbol. -/
def isAlias (moduleStart : Nat) (symbol name : String) : Bool :=
  (scan.directAlias moduleStart name).isSome &&
    scan.resolveRoot moduleStart name (scan.aliases.length + 2) [] name = symbol && symbol ≠ name
/-- `buildWebpackExportAliasIndex`: an export under the name of the symbol itself is
    left out. -/
def isExport (moduleStart : Nat) (symbol name : String) : Bool :=
  scan.exports.any fun (pos,exported,root) =>
    scan.moduleOf pos = moduleStart && root = symbol && exported = name && root ≠ "" && exported ≠ "" && root ≠ exported

def aliased (isAlias : Nat → String → String → Bool) (symbol : String) : List SymbolDef :=
  (scan.messages.filter fun message => isAlias message.ModuleStart (trim message.VarName) symbol ||
      isAlias message.ModuleStart (trim message.InternalName) symbol).map messageDef ++
    (scan.enums.filter fun enum => isAlias enum.ModuleStart (trim enum.VarName) symbol).map enumDef
def byAlias (symbol : String) : List SymbolDef :=
  (scan.aliased scan.isAlias symbol ++ scan.aliased scan.isExport symbol).filter fun definition => trim definition.TypeName ≠ ""

/-- `buildModuleImportIndex`: of two modules with a number, and of two imports of a
    name, the last counts. -/
def moduleImport (moduleStart : Nat) (symbol : String) : Nat :=
  let targets := scan.imports.filterMap fun (start,name,number) =>
    if start = moduleStart ∧ name = symbol then ((scan.modules.filter (·.1 = number)).getLast?).map (·.2) else none
  targets.getLastD 0

end Scan

/-- `TypeResolver`. -/
structure TypeResolver where
  bySymbol : String → List SymbolDef
  byAlias : String → List SymbolDef
  byShort : String → List SymbolDef
  moduleImport : Nat → String → Nat

/-- `newTypeResolver` with the aliases and imports of a bundle. -/
def Scan.resolver (scan : Scan) : TypeResolver :=
  ⟨bySymbol scan.messages scan.enums,scan.byAlias,byShort scan.messages scan.enums,scan.moduleImport⟩

def prefer {α : Type} (wanted : α → Bool) (items : List α) : List α := if items.any wanted then items.filter wanted else items

/-- The candidates of the kind, then of the package, then of the module. -/
def narrow (candidates : List SymbolDef) (contextModuleStart : Nat) (preferredPkg expectedKind : String) : List SymbolDef :=
  let filtered := if trim expectedKind ≠ "" then prefer (·.Kind = expectedKind) candidates else candidates
  let filtered := if trim preferredPkg ≠ "" then prefer (fun item => (parseTypeName item.TypeName).1 = preferredPkg) filtered else filtered
  if 0 < contextModuleStart then prefer (·.ModuleStart = contextModuleStart) filtered else filtered

def distance (contextPos : Nat) (item : SymbolDef) : Nat := ((item.Pos : Int) - contextPos).natAbs
def isFuture (contextPos : Nat) (item : SymbolDef) : Bool := contextPos < item.Pos
/-- The nearer of two definitions, at the same distance the one before the position. -/
def closer (contextPos : Nat) : Option SymbolDef → SymbolDef → Option SymbolDef
  | none, item => some item
  | some best, item =>
    if distance contextPos item < distance contextPos best then some item
    else if distance contextPos item = distance contextPos best ∧ isFuture contextPos best ∧ ¬ isFuture contextPos item then some item
    else some best
def pickBestDefinition (candidates : List SymbolDef) (contextPos contextModuleStart : Nat) (preferredPkg expectedKind : String) :
    Option SymbolDef :=
  (narrow candidates contextModuleStart preferredPkg expectedKind).foldl (closer contextPos) none

/-- The lists that a name is looked up in, each with the module that is preferred. -/
def lookups (resolver : TypeResolver) (ref : String) (contextModuleStart : Nat) : List (List SymbolDef × Nat) :=
  let own := if '.' ∈ ref.toList then 0 else contextModuleStart
  let direct := [(resolver.bySymbol ref,own),(resolver.byAlias ref,0),(resolver.byShort ref,own)]
  if '.' ∈ ref.toList then
    let first := (Split ref '.').headD ""
    let last := (Split ref '.').getLastD ""
    direct ++ [(resolver.byAlias last,resolver.moduleImport contextModuleStart first),(resolver.bySymbol last,0),
      (resolver.byShort last,0),(resolver.bySymbol first,0)]
  else direct

/-- `TypeResolver.ResolveTypeName`. -/
def ResolveTypeName (resolver : TypeResolver) (ref : String) (contextPos contextModuleStart : Nat)
    (preferredPkg expectedKind : String) : Option String :=
  let trimmed := trim ref
  if trimmed = "" then none
  else if looksLikeFullTypeName trimmed then some trimmed
  else (lookups resolver trimmed contextModuleStart).findSome? fun (candidates,moduleStart) =>
    (pickBestDefinition candidates contextPos moduleStart preferredPkg expectedKind).map (·.TypeName)

section Choice
variable {candidates items : List SymbolDef} {contextPos moduleStart : Nat} {pkg kind : String}

theorem mem_prefer {α : Type} {wanted : α → Bool} {items : List α} {x : α} :
    x ∈ prefer wanted items ↔ x ∈ items ∧ (wanted x = true ∨ ∀ y ∈ items, wanted y = false) := by
  unfold prefer
  by_cases some_ : items.any wanted = true
  · rw [if_pos some_,List.mem_filter]
    obtain ⟨y,member,isWanted⟩ := List.any_eq_true.mp some_
    refine and_congr_right fun _ => ⟨.inl,?_⟩
    rintro (isX | no)
    · exact isX
    · exact absurd isWanted (by simp [no y member])
  · rw [if_neg some_]
    have no : ∀ y ∈ items, wanted y = false := by simpa using some_
    exact ⟨fun member => ⟨member,.inr no⟩,And.left⟩
theorem prefer_nil {α : Type} {wanted : α → Bool} {items : List α} : prefer wanted items = [] ↔ items = [] := by
  unfold prefer
  by_cases some_ : items.any wanted = true
  · obtain ⟨y,member,isWanted⟩ := List.any_eq_true.mp some_
    rw [if_pos some_]
    refine iff_of_false (fun none_ => ?_) (List.ne_nil_of_mem member)
    exact absurd (List.mem_filter.mpr ⟨member,isWanted⟩) (by simp [none_])
  · rw [if_neg some_]

/-- The definition has the kind that is looked for, or no candidate has. -/
def OfKind (candidates : List SymbolDef) (kind : String) (item : SymbolDef) : Prop :=
  item.Kind = kind ∨ ∀ other ∈ candidates, other.Kind ≠ kind
def OfPackage (candidates : List SymbolDef) (kind pkg : String) (item : SymbolDef) : Prop :=
  trim pkg = "" ∨ (parseTypeName item.TypeName).1 = pkg ∨
    ∀ other ∈ candidates, OfKind candidates kind other → (parseTypeName other.TypeName).1 ≠ pkg
/-- A candidate that is left after the three preferences. -/
structure Kept (candidates : List SymbolDef) (moduleStart : Nat) (pkg kind : String) (item : SymbolDef) : Prop where
  candidate : item ∈ candidates
  ofKind : OfKind candidates kind item
  ofPackage : OfPackage candidates kind pkg item
  ofModule : moduleStart = 0 ∨ item.ModuleStart = moduleStart ∨
    ∀ other ∈ candidates, OfKind candidates kind other → OfPackage candidates kind pkg other → other.ModuleStart ≠ moduleStart

variable {item : SymbolDef}

theorem mem_kinds : item ∈ prefer (·.Kind = kind) candidates ↔ item ∈ candidates ∧ OfKind candidates kind item := by
  rw [mem_prefer,OfKind]
  simp
theorem mem_narrow (asked : trim kind ≠ "") :
    item ∈ narrow candidates moduleStart pkg kind ↔ Kept candidates moduleStart pkg kind item := by
  have packages : ∀ item, item ∈ (if trim pkg ≠ "" then prefer (fun item => (parseTypeName item.TypeName).1 = pkg)
      (prefer (·.Kind = kind) candidates) else prefer (·.Kind = kind) candidates) ↔
      item ∈ candidates ∧ OfKind candidates kind item ∧ OfPackage candidates kind pkg item := by
    intro item
    by_cases named : trim pkg = ""
    · rw [if_neg (not_not_intro named),mem_kinds]
      simp [OfPackage,named]
    · rw [if_pos named,mem_prefer,mem_kinds]
      simp only [mem_kinds,decide_eq_true_eq,decide_eq_false_iff_not,and_imp,OfPackage,named,false_or,and_assoc,ne_eq]
  unfold narrow
  rw [if_pos asked]
  dsimp only
  by_cases outside : moduleStart = 0
  · rw [if_neg (by omega),packages]
    constructor
    · rintro ⟨member,ofKind,ofPackage⟩
      exact ⟨member,ofKind,ofPackage,.inl outside⟩
    · intro kept
      exact ⟨kept.candidate,kept.ofKind,kept.ofPackage⟩
  · rw [if_pos (by omega),mem_prefer]
    simp only [packages,decide_eq_true_eq,decide_eq_false_iff_not,and_imp]
    constructor
    · rintro ⟨⟨member,ofKind,ofPackage⟩,ofModule⟩
      exact ⟨member,ofKind,ofPackage,.inr ofModule⟩
    · intro kept
      exact ⟨⟨kept.candidate,kept.ofKind,kept.ofPackage⟩,kept.ofModule.resolve_left outside⟩
theorem narrow_nil (asked : trim kind ≠ "") : narrow candidates moduleStart pkg kind = [] ↔ candidates = [] := by
  unfold narrow
  rw [if_pos asked]
  dsimp only
  by_cases named : trim pkg = "" <;> by_cases outside : 0 < moduleStart <;> simp [named,outside,prefer_nil]

/-- The order in which definitions are taken: by the distance, at the same distance
    those before the position first. -/
def rank (contextPos : Nat) (item : SymbolDef) : Nat := 2 * distance contextPos item + (if isFuture contextPos item then 1 else 0)

theorem rank_pos {a b : SymbolDef} (same : rank contextPos a = rank contextPos b) : a.Pos = b.Pos := by
  unfold rank distance isFuture at same
  by_cases futureA : contextPos < a.Pos <;> by_cases futureB : contextPos < b.Pos <;>
    simp only [futureA,futureB,decide_true,decide_false,if_true,Bool.false_eq_true,if_false] at same <;> omega

theorem closer_some {best : SymbolDef} :
    closer contextPos (some best) item = some (if rank contextPos item < rank contextPos best then item else best) := by
  have lower : rank contextPos item < rank contextPos best ↔ distance contextPos item < distance contextPos best ∨
      (distance contextPos item = distance contextPos best ∧ isFuture contextPos best ∧ ¬ isFuture contextPos item) := by
    unfold rank
    cases isFuture contextPos item <;> cases isFuture contextPos best <;> simp <;> omega
  rw [closer]
  by_cases nearer : distance contextPos item < distance contextPos best
  · rw [if_pos nearer,if_pos (lower.mpr (.inl nearer))]
  · rw [if_neg nearer]
    by_cases before : distance contextPos item = distance contextPos best ∧ isFuture contextPos best ∧ ¬ isFuture contextPos item
    · rw [if_pos before,if_pos (lower.mpr (.inr before))]
    · rw [if_neg before,if_neg fun less => (lower.mp less).elim nearer before]

theorem scan_lowest {best : SymbolDef} : ∃ found, items.foldl (closer contextPos) (some best) = some found ∧
    found ∈ best :: items ∧ ∀ other ∈ best :: items, rank contextPos found ≤ rank contextPos other := by
  induction items generalizing best with
  | nil => exact ⟨best,rfl,List.mem_cons_self,by simp⟩
  | cons item rest ih =>
    rw [List.foldl_cons,closer_some]
    by_cases less : rank contextPos item < rank contextPos best
    · obtain ⟨found,isFound,member,lowest⟩ := @ih item
      rw [if_pos less]
      refine ⟨found,isFound,List.mem_cons_of_mem _ member,fun other isOther => ?_⟩
      rcases List.mem_cons.mp isOther with rfl | isOther
      · exact (lowest item List.mem_cons_self).trans less.le
      · exact lowest other isOther
    · obtain ⟨found,isFound,member,lowest⟩ := @ih best
      rw [if_neg less]
      refine ⟨found,isFound,?_,fun other isOther => ?_⟩
      · rcases List.mem_cons.mp member with rfl | member
        · exact List.mem_cons_self
        · exact List.mem_cons_of_mem _ (List.mem_cons_of_mem _ member)
      · rcases List.mem_cons.mp isOther with rfl | isOther
        · exact lowest _ List.mem_cons_self
        · rcases List.mem_cons.mp isOther with rfl | isOther
          · exact (lowest best List.mem_cons_self).trans (Nat.le_of_not_lt less)
          · exact lowest other (List.mem_cons_of_mem _ isOther)

theorem pick_lowest (asked : trim kind ≠ "") (some_ : candidates ≠ []) :
    ∃ found, pickBestDefinition candidates contextPos moduleStart pkg kind = some found ∧ Kept candidates moduleStart pkg kind found ∧
      ∀ other, Kept candidates moduleStart pkg kind other → rank contextPos found ≤ rank contextPos other := by
  unfold pickBestDefinition
  have filled : narrow candidates moduleStart pkg kind ≠ [] := fun none_ => some_ ((narrow_nil asked).mp none_)
  cases isNarrow : narrow candidates moduleStart pkg kind with
  | nil => exact absurd isNarrow filled
  | cons best rest =>
    have mem : ∀ item, item ∈ best :: rest ↔ Kept candidates moduleStart pkg kind item := fun item => by
      rw [← isNarrow,mem_narrow asked]
    obtain ⟨found,isFound,member,lowest⟩ := @scan_lowest rest contextPos best
    exact ⟨found,isFound,(mem found).mp member,fun other kept => lowest other ((mem other).mpr kept)⟩
theorem pick_nil : pickBestDefinition [] contextPos moduleStart pkg kind = none := by
  have nil_ : narrow [] moduleStart pkg kind = [] := by simp [narrow,prefer]
  rw [pickBestDefinition,nil_,List.foldl_nil]

/-- A definition of the type is kept and nearer than every kept one of another type. -/
def Wins (contextPos : Nat) (pkg kind : String) (searched : List SymbolDef × Nat) (typeName : String) : Prop :=
  ∃ own, Kept searched.1 searched.2 pkg kind own ∧ own.TypeName = typeName ∧
    ∀ other, Kept searched.1 searched.2 pkg kind other → other.TypeName ≠ typeName → rank contextPos own < rank contextPos other

theorem pick_iff {typeName : String} (asked : trim kind ≠ "") (some_ : candidates ≠ [])
    (placed : ∀ d ∈ candidates, ∀ e ∈ candidates, d.Pos = e.Pos → d.TypeName = e.TypeName) :
    (pickBestDefinition candidates contextPos moduleStart pkg kind).map (·.TypeName) = some typeName ↔
      Wins contextPos pkg kind (candidates,moduleStart) typeName := by
  obtain ⟨found,isFound,kept,lowest⟩ := @pick_lowest candidates contextPos moduleStart pkg kind asked some_
  rw [isFound,Option.map_some,Option.some.injEq]
  constructor
  · intro same
    refine ⟨found,kept,same,fun other keptOther different => ?_⟩
    refine lt_of_le_of_ne (lowest other keptOther) fun sameRank => different ?_
    rw [← same]
    exact (placed found kept.candidate other keptOther.candidate (rank_pos sameRank)).symm
  · rintro ⟨own,keptOwn,same,nearer⟩
    by_contra different
    exact absurd (nearer found kept different) (Nat.not_lt_of_le (lowest own keptOwn))

end Choice

inductive Reference where
  | Bare (symbol : String)
  | Qualified (imported exported : String)
deriving DecidableEq

def IsName (symbol : String) : Prop := symbol ≠ "" ∧ ∀ c ∈ symbol.toList, isNameChar c = true

namespace Reference
def text : Reference → String
  | .Bare symbol => symbol
  | .Qualified imported exported => imported ++ "." ++ exported
def Named : Reference → Prop
  | .Bare symbol => IsName symbol
  | .Qualified imported exported => IsName imported ∧ IsName exported
end Reference

/-- The definition is the module's own of the name. -/
def Declares (scan : Scan) (moduleStart : Nat) (symbol : String) (definition : SymbolDef) : Prop :=
  definition ∈ scan.resolver.bySymbol symbol ∧ definition.ModuleStart = moduleStart
/-- The module exports the definition under the name. -/
def Exports (scan : Scan) (moduleStart : Nat) (exported : String) (definition : SymbolDef) : Prop :=
  ∃ pos root, (pos,exported,root) ∈ scan.exports ∧ scan.moduleOf pos = moduleStart ∧ Declares scan moduleStart root definition
/-- What the reference means in the module. -/
def Means (scan : Scan) (moduleStart : Nat) : Reference → SymbolDef → Prop
  | .Bare symbol, definition => Declares scan moduleStart symbol definition
  | .Qualified imported exported, definition => ∃ number target, (moduleStart,imported,number) ∈ scan.imports ∧
      (number,target) ∈ scan.modules ∧ Exports scan target exported definition

/-- The lists that a member is looked up in, each with the module that is preferred. -/
def memberLookups (scan : Scan) (moduleStart : Nat) (imported exported : String) : List (List SymbolDef × Nat) :=
  [(scan.resolver.byShort (imported ++ "." ++ exported),0),(scan.byAlias exported,scan.moduleImport moduleStart imported),
    (scan.resolver.bySymbol exported,0),(scan.resolver.byShort exported,0),(scan.resolver.bySymbol imported,0)]
/-- Where a reference is looked up: a name among the definitions of it, a member in the
    first list that is not empty. -/
def searched (scan : Scan) (moduleStart : Nat) : Reference → List SymbolDef × Nat
  | .Bare symbol => (scan.resolver.bySymbol symbol,moduleStart)
  | .Qualified imported exported => ((memberLookups scan moduleStart imported exported).find? (·.1 ≠ [])).getD ([],0)

section Names
variable {symbol imported exported : String}

theorem name_char {c : Char} (name : isNameChar c = true) : is_whitespace c = false ∧ c ≠ '.' := by
  refine ⟨?_,?_⟩
  · cases blank : is_whitespace c with
    | false => rfl
    | true =>
      rw [isNameChar,isWord,blank_plain blank] at name
      simp only [Bool.false_or,Bool.or_eq_true,decide_eq_true_eq] at name
      rcases name with rfl | rfl <;> cases blank
  · rintro rfl
    exact absurd name (by decide)
theorem isName_of (given : symbol ≠ "") (letters : symbol.toList.all isNameChar = true) : IsName symbol :=
  ⟨given,List.all_eq_true.mp letters⟩
theorem name_dotless (name : IsName symbol) : '.' ∉ symbol.toList := fun member => (name_char (name.2 _ member)).2 rfl

theorem dropWhile_none {α : Type} {dropped : α → Bool} {items : List α} (none_ : ∀ x ∈ items, dropped x = false) :
    items.dropWhile dropped = items := by
  cases items with
  | nil => rfl
  | cons x rest => exact List.dropWhile_cons_of_neg (by simp [none_ x List.mem_cons_self])
theorem trim_solid (solid : ∀ c ∈ symbol.toList, is_whitespace c = false) : trim symbol = symbol := by
  rw [trim,dropWhile_none solid,dropWhile_none fun c member => solid c (List.mem_reverse.mp member),List.reverse_reverse,
    String.ofList_toList]

theorem trim_text {ref : Reference} (named : ref.Named) : trim ref.text = ref.text := by
  cases ref with
  | Bare symbol => exact trim_solid fun c member => (name_char (named.2 c member)).1
  | Qualified imported exported =>
    refine trim_solid fun c member => ?_
    simp only [Reference.text,String.toList_append,List.mem_append] at member
    rcases member with (member | member) | member
    · exact (name_char (named.1.2 c member)).1
    · have isDot : c = '.' := by simpa using member
      rw [isDot]
      decide
    · exact (name_char (named.2.2 c member)).1

variable {chars : List Char}

theorem version_dots : (versionAt chars).isSome → 2 ≤ chars.count '.' := by
  unfold versionAt
  split
  · rename_i rest
    split
    · rename_i digit digits c short isDigits isRest
      intro _
      have parts := (@List.takeWhile_append_dropWhile _ isDigit rest).symm
      rw [isRest] at parts
      rw [parts]
      simp [List.count_append]
      omega
    · nofun
  · nofun
theorem split_dots : (splitVersion chars).isSome → 2 ≤ chars.count '.' := by
  induction chars with
  | nil => nofun
  | cons c rest ih =>
    have more : rest.count '.' ≤ (c :: rest).count '.' := List.count_le_count_cons
    intro isSplit
    rw [splitVersion] at isSplit
    split at isSplit
    · cases isRest : splitVersion rest with
      | some found => exact (ih (by rw [isRest]; rfl)).trans more
      | none =>
        rw [isRest] at isSplit
        exact (version_dots (by simpa using isSplit)).trans more
    · cases isSplit

theorem text_plain {ref : Reference} (named : ref.Named) : looksLikeFullTypeName ref.text = false := by
  have dots : ref.text.toList.count '.' ≤ 1 := by
    cases ref with
    | Bare symbol => simp [Reference.text,List.count_eq_zero.mpr (name_dotless named)]
    | Qualified imported exported =>
      simp [Reference.text,String.toList_append,List.count_append,List.count_eq_zero.mpr (name_dotless named.1),
        List.count_eq_zero.mpr (name_dotless named.2)]
  have plain : ∀ start : String, 2 ≤ start.toList.count '.' → CutPrefix ref.text start = none := by
    intro start more
    unfold CutPrefix
    rw [if_neg]
    intro starts
    have fewer := (List.isPrefixOf_iff_prefix.mp starts).sublist.count_le '.'
    omega
  have unsplit : (splitVersion ref.text.toList).isSome = false := by
    rw [Bool.eq_false_iff]
    intro isSplit
    have := split_dots isSplit
    omega
  unfold looksLikeFullTypeName
  dsimp only
  rw [trim_text named,plain _ (by decide),plain _ (by decide),unsplit]
  simp

theorem pieces_solid (solid : '.' ∉ chars) : pieces '.' chars = [chars] := by
  induction chars with
  | nil => rfl
  | cons c rest ih =>
    rw [List.mem_cons,not_or] at solid
    rw [pieces,ih solid.2]
    exact if_neg fun same => solid.1 same.symm
theorem pieces_dot {before after : List Char} (solid : '.' ∉ before) :
    pieces '.' (before ++ '.' :: after) = before :: pieces '.' after := by
  induction before with
  | nil =>
    rw [List.nil_append,pieces]
    cases isMore : pieces '.' after with
    | nil =>
      cases after with
      | nil => cases isMore
      | cons c rest =>
        rw [pieces] at isMore
        split at isMore
        · cases isMore
        · split at isMore <;> cases isMore
    | cons piece more => rfl
  | cons c rest ih =>
    rw [List.mem_cons,not_or] at solid
    rw [List.cons_append,pieces,ih solid.2]
    exact if_neg fun same => solid.1 same.symm
theorem split_text (isImported : IsName imported) (isExported : IsName exported) :
    Split (Reference.Qualified imported exported).text '.' = [imported,exported] := by
  have chars : (Reference.Qualified imported exported).text.toList = imported.toList ++ '.' :: exported.toList := by
    simp [Reference.text,String.toList_append]
  rw [Split,chars,pieces_dot (name_dotless isImported),pieces_solid (name_dotless isExported)]
  simp

end Names

section Definitions
variable {scan : Scan} {symbol imported exported : String} {definition : SymbolDef}

theorem mem_definitions : (symbol,definition) ∈ definitions scan.messages scan.enums ↔
    ((∃ message ∈ scan.messages, symbol ∈ symbolsOf message ∧ messageDef message = definition) ∨
      ∃ enum ∈ scan.enums, enum.VarName = symbol ∧ enumDef enum = definition) ∧
    trim symbol ≠ "" ∧ trim definition.TypeName ≠ "" := by
  unfold definitions
  rw [List.mem_filter,List.mem_append,List.mem_flatMap,List.mem_map]
  simp
theorem mem_bySymbol : definition ∈ scan.resolver.bySymbol symbol ↔
    ∃ name, (name,definition) ∈ definitions scan.messages scan.enums ∧ trim name = symbol := by
  unfold Scan.resolver bySymbol
  rw [List.mem_map]
  simp only [List.mem_filter,decide_eq_true_eq]
  constructor
  · rintro ⟨⟨name,found⟩,⟨member,same⟩,rfl⟩
    exact ⟨name,member,same⟩
  · rintro ⟨name,member,same⟩
    exact ⟨(name,definition),⟨member,same⟩,rfl⟩

def declared (scan : Scan) : List SymbolDef := scan.messages.map messageDef ++ scan.enums.map enumDef

theorem definitions_declared (member : (symbol,definition) ∈ definitions scan.messages scan.enums) : definition ∈ declared scan := by
  rcases (mem_definitions.mp member).1 with ⟨message,isMessage,_,rfl⟩ | ⟨enum,isEnum,_,rfl⟩
  · exact List.mem_append_left _ (List.mem_map_of_mem isMessage)
  · exact List.mem_append_right _ (List.mem_map_of_mem isEnum)
theorem bySymbol_declared : scan.resolver.bySymbol symbol ⊆ declared scan := by
  intro definition member
  obtain ⟨name,isDefinition,_⟩ := mem_bySymbol.mp member
  exact definitions_declared isDefinition
theorem byShort_declared : scan.resolver.byShort symbol ⊆ declared scan := by
  intro definition member
  obtain ⟨⟨name,found⟩,isDefinition,isFound⟩ := List.mem_flatMap.mp member
  obtain ⟨_,_,rfl⟩ := List.mem_map.mp isFound
  exact definitions_declared isDefinition
theorem aliased_declared {isAlias : Nat → String → String → Bool} : scan.aliased isAlias symbol ⊆ declared scan := by
  intro definition member
  rcases List.mem_append.mp member with isMessage | isEnum
  · obtain ⟨message,isAliased,rfl⟩ := List.mem_map.mp isMessage
    exact List.mem_append_left _ (List.mem_map_of_mem (List.mem_filter.mp isAliased).1)
  · obtain ⟨enum,isAliased,rfl⟩ := List.mem_map.mp isEnum
    exact List.mem_append_right _ (List.mem_map_of_mem (List.mem_filter.mp isAliased).1)
theorem byAlias_declared : scan.byAlias symbol ⊆ declared scan := by
  intro definition member
  rcases List.mem_append.mp (List.mem_filter.mp member).1 with isLocal | isExported
  · exact aliased_declared isLocal
  · exact aliased_declared isExported

/-! ## Members are no symbols and no aliases -/

theorem dotted_symbol (dotted : '.' ∈ symbol.toList) : scan.resolver.bySymbol symbol = [] := by
  refine List.eq_nil_iff_forall_not_mem.mpr fun definition member => ?_
  obtain ⟨name,isDefinition,same⟩ := mem_bySymbol.mp member
  have named : ∀ c ∈ name.toList, isNameChar c = true := by
    refine scan.named name ?_
    simp only [List.mem_append,List.mem_flatMap,List.mem_map,List.mem_cons,List.not_mem_nil,or_false]
    rcases (mem_definitions.mp isDefinition).1 with ⟨message,isMessage,isSymbol,_⟩ | ⟨enum,isEnum,isSymbol,_⟩
    · refine .inl (.inl (.inl ⟨message,isMessage,?_⟩))
      unfold symbolsOf at isSymbol
      split at isSymbol
      · simpa using isSymbol
      · exact .inl (by simpa using isSymbol)
    · exact .inl (.inl (.inr ⟨enum,isEnum,isSymbol⟩))
  rw [← same,trim_solid fun c member => (name_char (named c member)).1] at dotted
  exact (name_char (named _ dotted)).2 rfl
theorem dotted_alias (dotted : '.' ∈ symbol.toList) : scan.byAlias symbol = [] := by
  have noAlias : ∀ moduleStart root, scan.isAlias moduleStart root symbol = false := by
    intro moduleStart root
    have noDirect : scan.directAlias moduleStart symbol = none := by
      unfold Scan.directAlias
      rw [List.filter_eq_nil_iff.mpr,List.getLast?_nil,Option.map_none]
      rintro ⟨pos,name,target⟩ member same
      simp only [Bool.and_eq_true,decide_eq_true_eq] at same
      have isAliased : name ∈ scan.aliases.map (·.2.1) := List.mem_map_of_mem member
      have named := scan.named name (by simp only [List.mem_append]; exact .inl (.inr isAliased))
      rw [← same.1.1.1.2] at dotted
      exact (name_char (named _ dotted)).2 rfl
    rw [Scan.isAlias,noDirect]
    rfl
  have noExport : ∀ moduleStart root, scan.isExport moduleStart root symbol = false := by
    intro moduleStart root
    rw [Scan.isExport,List.any_eq_false]
    rintro ⟨pos,exported,local_⟩ member same
    simp only [Bool.and_eq_true,decide_eq_true_eq] at same
    have isExported : exported ∈ scan.exports.map (·.2.1) := List.mem_map_of_mem member
    have named := scan.named exported (by simp only [List.mem_append]; exact .inr isExported)
    rw [← same.1.1.1.2] at dotted
    exact (name_char (named _ dotted)).2 rfl
  unfold Scan.byAlias Scan.aliased
  simp [noAlias,noExport]

theorem exports_found {moduleStart : Nat} (isName : IsName exported) (exports_ : Exports scan moduleStart exported definition) :
    scan.byAlias exported ≠ [] ∨ scan.resolver.bySymbol exported ≠ [] := by
  obtain ⟨pos,root,isEntry,inModule,isSymbol,ofModule⟩ := exports_
  by_cases same : root = exported
  · rw [← same]
    exact .inr (List.ne_nil_of_mem isSymbol)
  · obtain ⟨name,isDefinition,isRoot⟩ := mem_bySymbol.mp isSymbol
    obtain ⟨found,filled,typed⟩ := mem_definitions.mp isDefinition
    have exported_ : scan.isExport definition.ModuleStart root exported = true := by
      rw [Scan.isExport,List.any_eq_true]
      refine ⟨_,isEntry,?_⟩
      rw [isRoot] at filled
      simp [inModule,ofModule,filled,isName.1,same]
    refine .inl (List.ne_nil_of_mem (List.mem_filter.mpr ⟨List.mem_append_right _ ?_,by simpa using typed⟩))
    unfold Scan.aliased
    rcases found with ⟨message,isMessage,isName,rfl⟩ | ⟨enum,isEnum,rfl,rfl⟩
    · refine List.mem_append_left _ (List.mem_map_of_mem (List.mem_filter.mpr ⟨isMessage,?_⟩))
      have either : name = message.VarName ∨ name = message.InternalName := by
        unfold symbolsOf at isName
        split at isName
        · simpa using isName
        · exact .inl (by simpa using isName)
      rcases either with rfl | rfl
      · rw [isRoot]
        exact Bool.or_eq_true_iff.mpr (.inl exported_)
      · rw [isRoot]
        exact Bool.or_eq_true_iff.mpr (.inr exported_)
    · refine List.mem_append_right _ (List.mem_map_of_mem (List.mem_filter.mpr ⟨isEnum,?_⟩))
      rw [isRoot]
      exact exported_

end Definitions

section Resolution
variable {scan : Scan} {message : Message} {ref : Reference} {definition : SymbolDef} {kind : String}

theorem findSome_first {lists : List (List SymbolDef × Nat)} {contextPos : Nat} {pkg : String} (asked : trim kind ≠ "") :
    (lists.findSome? fun (candidates,moduleStart) =>
      (pickBestDefinition candidates contextPos moduleStart pkg kind).map (·.TypeName)) =
      (lists.find? (·.1 ≠ [])).bind fun (candidates,moduleStart) =>
        (pickBestDefinition candidates contextPos moduleStart pkg kind).map (·.TypeName) := by
  induction lists with
  | nil => rfl
  | cons entry rest ih =>
    obtain ⟨candidates,moduleStart⟩ := entry
    rw [List.findSome?_cons,List.find?_cons]
    cases candidates with
    | nil =>
      dsimp only
      rw [pick_nil,ih]
      rfl
    | cons item more =>
      obtain ⟨found,isFound,_⟩ := @pick_lowest (item :: more) contextPos moduleStart pkg kind asked nofun
      simp [isFound]

theorem searched_first (named : ref.Named) (means : Means scan message.ModuleStart ref definition) :
    (lookups scan.resolver ref.text message.ModuleStart).find? (·.1 ≠ []) = some (searched scan message.ModuleStart ref) := by
  cases ref with
  | Bare symbol =>
    have filled : scan.resolver.bySymbol symbol ≠ [] := List.ne_nil_of_mem means.1
    have plain : '.' ∉ (Reference.Bare symbol).text.toList := name_dotless named
    unfold lookups
    simp only [if_neg plain,List.find?_cons]
    simp [Reference.text,filled,searched]
  | Qualified imported exported =>
    obtain ⟨number,target,_,_,exports_⟩ := means
    have dotted : '.' ∈ (Reference.Qualified imported exported).text.toList := by simp [Reference.text]
    have noSymbol : scan.resolver.bySymbol (Reference.Qualified imported exported).text = [] := dotted_symbol dotted
    have noAlias : scan.resolver.byAlias (Reference.Qualified imported exported).text = [] := dotted_alias dotted
    have isLookups : lookups scan.resolver (Reference.Qualified imported exported).text message.ModuleStart =
        ([],0) :: ([],0) :: memberLookups scan message.ModuleStart imported exported := by
      unfold lookups memberLookups
      simp only [if_pos dotted,noSymbol,noAlias,split_text named.1 named.2]
      rfl
    have some_ : ((memberLookups scan message.ModuleStart imported exported).find? (·.1 ≠ [])).isSome = true := by
      rw [List.find?_isSome]
      rcases exports_found named.2 exports_ with found | found
      · exact ⟨_,.tail _ (.head _),decide_eq_true found⟩
      · exact ⟨_,.tail _ (.tail _ (.head _)),decide_eq_true found⟩
    obtain ⟨entry,isEntry⟩ := Option.isSome_iff_exists.mp some_
    rw [isLookups,List.find?_cons_of_neg (by simp),List.find?_cons_of_neg (by simp),searched,isEntry]
    rfl

theorem searched_declared : (searched scan message.ModuleStart ref).1 ⊆ declared scan := by
  cases ref with
  | Bare symbol => exact bySymbol_declared
  | Qualified imported exported =>
    rw [searched]
    cases isFirst : (memberLookups scan message.ModuleStart imported exported).find? (·.1 ≠ []) with
    | none => exact List.nil_subset _
    | some entry =>
      have member := List.mem_of_find?_eq_some isFirst
      simp only [memberLookups,List.mem_cons,List.not_mem_nil,or_false] at member
      rw [Option.getD_some]
      rcases member with rfl | rfl | rfl | rfl | rfl
      · exact byShort_declared
      · exact byAlias_declared
      · exact bySymbol_declared
      · exact byShort_declared
      · exact bySymbol_declared

/-- A reference in a message resolves to what it means exactly if that definition wins
    among those that the reference is looked up among. -/
theorem reference_resolves (isKind : kind = "message" ∨ kind = "enum") (named : ref.Named)
    (means : Means scan message.ModuleStart ref definition) :
    ResolveTypeName scan.resolver ref.text message.Pos message.ModuleStart message.Package kind = some definition.TypeName ↔
      Wins message.Pos message.Package kind (searched scan message.ModuleStart ref) definition.TypeName := by
  have asked : trim kind ≠ "" := by rcases isKind with rfl | rfl <;> decide
  have filled : ref.text ≠ "" := by
    cases ref with
    | Bare symbol => exact named.1
    | Qualified imported exported =>
      intro empty
      have dot : '.' ∈ (imported ++ "." ++ exported).toList := by simp
      rw [show imported ++ "." ++ exported = "" from empty] at dot
      cases dot
  have first := searched_first named means
  have some_ : (searched scan message.ModuleStart ref).1 ≠ [] := by simpa using List.find?_some first
  unfold ResolveTypeName
  rw [trim_text named]
  dsimp only
  rw [if_neg filled,text_plain named,if_neg Bool.false_ne_true,findSome_first asked,first,Option.bind_some]
  exact pick_iff asked some_ fun d isD e isE => scan.placed d (searched_declared isD) e (searched_declared isE)

end Resolution

section Counterexample

/-- Module 1 declares `T` in another package than the message that refers to it, module
    2 declares a `T` in the package of the message. -/
def minified : Scan where
  modules := [("1",1),("2",200)]
  messages := [⟨"b.v1.Own","T","",[],"b.v1","Own",20,1⟩,
    ⟨"a.v1.Request","R","",[⟨1,"x","message",.Named "T","",false,false,0,"",.Absent⟩],"a.v1","Request",60,1⟩,
    ⟨"a.v1.Other","T","",[],"a.v1","Other",220,200⟩]
  enums := []
  aliases := []
  exports := []
  imports := []
  placed := by decide +kernel
  inModule := by decide +kernel
  named := all_letters (by decide +kernel)

def request : Message := ⟨"a.v1.Request","R","",[⟨1,"x","message",.Named "T","",false,false,0,"",.Absent⟩],"a.v1","Request",60,1⟩
def own : SymbolDef := ⟨"b.v1.Own",20,"message",1⟩
def requestDef : SymbolDef := ⟨"a.v1.Request",60,"message",1⟩

theorem other_module_taken : Means minified request.ModuleStart (.Bare "T") own ∧
    ResolveTypeName minified.resolver "T" request.Pos request.ModuleStart request.Package "message" = some "a.v1.Other" :=
  ⟨⟨by decide +kernel,rfl⟩,by decide +kernel⟩

theorem name_resolves_elsewhere : ¬ ∀ (scan : Scan) (message : Message) (ref : Reference) (definition : SymbolDef),
    message ∈ scan.messages → ref.Named → Means scan message.ModuleStart ref definition →
      ResolveTypeName scan.resolver ref.text message.Pos message.ModuleStart message.Package definition.Kind = some definition.TypeName := by
  intro always
  have named : (Reference.Bare "T").Named := isName_of (by decide) (by decide)
  have resolved := always minified request (.Bare "T") own (by decide +kernel) named other_module_taken.1
  have same := Option.some.inj (other_module_taken.2.symm.trans resolved)
  exact absurd same (by decide)

/-- The name of a message itself, which no other module has. -/
theorem request_resolves :
    ResolveTypeName minified.resolver (Reference.Bare "R").text request.Pos request.ModuleStart request.Package "message" =
      some requestDef.TypeName ↔
    Wins request.Pos request.Package "message" (searched minified request.ModuleStart (.Bare "R")) requestDef.TypeName := by
  have named : (Reference.Bare "R").Named := isName_of (by decide) (by decide)
  have means : Means minified request.ModuleStart (.Bare "R") requestDef := ⟨by decide +kernel,rfl⟩
  exact @reference_resolves minified request (.Bare "R") requestDef "message" (.inl rfl) named means

end Counterexample

end MyCursor.TypeResolution
