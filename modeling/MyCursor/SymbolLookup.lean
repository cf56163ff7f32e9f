import MyCursor.SearchIndex
import MyCursor.StableSorts
import MyCursor.Text
import Mathlib.Algebra.Order.BigOperators.Group.List
import Mathlib.Algebra.Order.Field.Rat
import Mathlib.Data.List.Dedup
import Mathlib.Data.List.Induction
import Mathlib.Order.Bounds.Basic
import Mathlib.Data.String.Basic

/-!
# The lookup of symbols

`index/lexical.rs`: the definitions of a symbol, and those whose names a query is made
of, are ranked by their scores. A chunk with several definitions is removed again only
where these are neighbours. Scores are of any type with the order and the operations
of `f32`.
-/
namespace MyCursor.SymbolLookup
open Keyed StableSorts SearchIndex Text

def is_ascii_uppercase (c : Char) : Bool := 'A' ≤ c && c ≤ 'Z'
def is_ascii_lowercase (c : Char) : Bool := 'a' ≤ c && c ≤ 'z'

/-- `current` is the identifier that is being read, its last character first. -/
def identifiers (current : Option (List Char)) : List Char → List (List Char)
  | [] => (current.map List.reverse).toList
  | c :: rest =>
    match current with
    | none => identifiers (if is_ascii_uppercase c || is_ascii_lowercase c || c = '_' then some [c] else none) rest
    | some token =>
      if is_ascii_alphanumeric c || c = '_' then identifiers (some (c :: token)) rest else token.reverse :: identifiers none rest
/-- The words of a token in camel case; `word` is the present one, its last character first. -/
def words (word : List Char) (previous : Char) : List Char → List (List Char)
  | [] => [word.reverse]
  | current :: rest =>
    if is_ascii_lowercase previous && is_ascii_uppercase current ||
        is_ascii_uppercase previous && is_ascii_uppercase current && rest.head?.any is_ascii_lowercase then
      word.reverse :: words [current] current rest
    else words (current :: word) current rest
def split_identifier (token : String) : List String :=
  let lower := to_ascii_lowercase token
  let parts := if '_' ∈ token.toList then ((lower.toList.splitOn '_').filter (!·.isEmpty)).map String.ofList
    else match token.toList with
      | [] => []
      | first :: rest => (words [first] first rest).map fun word => to_ascii_lowercase (String.ofList word)
  if 2 ≤ parts.length then lower :: parts else [lower]
def tokenize (text : String) : List String := (identifiers none text.toList).flatMap fun token => split_identifier (String.ofList token)

def normalize_term (term : String) : String :=
  let lower := to_ascii_lowercase term
  if lower ∈ ["application","applications"] then "app"
  else if lower ∈ ["listener","listeners","listening"] then "listen"
  else if lower ∈ ["rendered","rendering"] then "render"
  else if lower ∈ ["hydrated","hydrating"] then "hydrate"
  else if lower ∈ ["compiled","compiling"] then "compile"
  else if lower ∈ ["parsed","parsing"] then "parse"
  else if lower ∈ ["called","calling"] then "call"
  else if lower ∈ ["cancelled","cancelling","cancellation"] then "cancel"
  else if lower ∈ ["dispatched","dispatching"] then "dispatch"
  else if lower ∈ ["interrupted","interrupting","interruption"] then "interrupt"
  else if lower ∈ ["started","starting"] then "start"
  else if 4 < lower.utf8ByteSize && lower.toList.getLast? = some 's' then String.ofList lower.toList.dropLast
  else lower
def symbol_parts (symbol : String) : List String :=
  let values := split_identifier symbol
  (if 1 < values.length then values.tail else values).map normalize_term

def is_action_symbol_part (part : String) : Bool :=
  part ∈ ["build","call","cancel","commit","compile","create","define","dispatch","find","handle","hydrate","interrupt","listen",
    "load","mount","parse","patch","persist","read","reconcile","record","register","render","save","schedule","search","send",
    "set","start","store","update","watch","write"]
def is_generic_symbol_part (part : String) : Bool := part ∈ ["all","api","base","impl","internal","of","on","the","to"]

structure IndexedDefinition where
  symbol : String
  chunk : Nat
  implementation : Bool
structure IndexedFile where
  chunks : List Chunk
  definitions : List IndexedDefinition
  inside : ∀ definition ∈ definitions, definition.chunk < chunks.length

structure Definition where
  symbol : String
  parts : List String
  chunk : Nat
  implementation : Bool
structure SymbolIndex where
  definitions : List Definition := []
  definitions_by_symbol : List (String × List Nat) := []

def SymbolIndex.positions (index : SymbolIndex) (symbol : String) : List Nat := (lookup index.definitions_by_symbol symbol).getD []
def SymbolIndex.add (chunk_offset : Nat) (index : SymbolIndex) (indexed : IndexedDefinition) : SymbolIndex :=
  let symbol := to_ascii_lowercase indexed.symbol
  { definitions := index.definitions ++ [⟨symbol,symbol_parts indexed.symbol,chunk_offset + indexed.chunk,indexed.implementation⟩]
    definitions_by_symbol := insertLast symbol (index.positions symbol ++ [index.definitions.length]) index.definitions_by_symbol }
def SymbolIndex.addFiles (index : SymbolIndex) (chunk_offset : Nat) : List IndexedFile → SymbolIndex
  | [] => index
  | file :: rest => addFiles (file.definitions.foldl (add chunk_offset) index) (chunk_offset + file.chunks.length) rest
def SymbolIndex.from_files (files : List IndexedFile) : SymbolIndex := addFiles {} 0 files

/-- The order is that of `total_cmp`. -/
class Score (F : Type) extends LinearOrder F, Add F, Sub F, Mul F, Div F, NatCast F, OfScientific F

section Lookup
variable {F : Type} [Score F]

def stem (file : String) : Option String :=
  if '.' ∈ file.toList then some (String.ofList (file.toList.reverse.dropWhile (· ≠ '.')).tail.reverse) else none
def source_priority (path symbol : String) : F :=
  let normalized := to_ascii_lowercase (String.ofList (path.toList.map fun c => if c = '\\' then '/' else c))
  let parts := (normalized.toList.splitOn '/').map String.ofList
  let score : F := 1.0
  let score := if contains normalized "/src/" then score + 0.35 else score
  let score := if (parts.findIdx? (· = "packages")).any fun packages => (parts[packages + 1]?).any fun package => !contains package "-"
    then score + 1.0 else score
  let score := if (stem (parts.getLast?.getD "")).any fun stem => stem = symbol || symbol.toList.isSuffixOf stem.toList
    then score + 0.4 else score
  let score := if (parts.any fun part => part ∈ ["test","tests","__tests__","fixtures","examples","benchmarks"]) ||
      contains normalized ".test." || contains normalized ".spec." || contains normalized "dts-test" then score * 0.08 else score
  if parts.any fun part => part ∈ ["playground","demo","demos"] then score * 0.2 else score

def chunkAt (chunks : List Chunk) (chunk : Nat) : Chunk := chunks.getD chunk ⟨"",0,0,none,""⟩

def ranked {κ : Type} [LinearOrder κ] (key : Nat × F → κ) (output : List (Nat × F)) (limit : Nat) : List (Nat × F) :=
  (dedup_by_key (·.1) (sort_by key output)).take limit

/-- The higher score comes first, then the path, then the later line. -/
def sourceKey (chunks : List Chunk) (entry : Nat × F) : Fᵒᵈ ×ₗ String ×ₗ Natᵒᵈ :=
  toLex (.toDual entry.2,toLex ((chunkAt chunks entry.1).file_path,.toDual (chunkAt chunks entry.1).start_line))
/-- The higher score comes first, then the smaller name. -/
def scoreKey {α : Type} (entry : α × F) : Fᵒᵈ ×ₗ α := toLex (.toDual entry.2,entry.1)

namespace SymbolIndex
variable (index : SymbolIndex)

/-- The chunks of the definitions of a symbol, with their scores. -/
def definitionsOf (symbol : String) (chunks : List Chunk) : List (Nat × F) :=
  (index.positions symbol).filterMap fun position => index.definitions[position]?.map fun definition =>
    (definition.chunk,(1.0 + if definition.implementation then 0.5 else 0.0) * source_priority (chunkAt chunks definition.chunk).file_path symbol)
def rank_symbol (symbol : String) (chunks : List Chunk) (limit : Nat) : List (Nat × F) :=
  ranked (sourceKey chunks) (index.definitionsOf symbol chunks) limit

def named (query : String) : String :=
  let parts := ((query.toList.splitOnP (· ∈ [':','.','>'])).map String.ofList).reverse
  to_ascii_lowercase (trim ((parts.find? (· ≠ "")).getD query))
def exact_symbol (query : String) (chunks : List Chunk) (limit : Nat) : List (Nat × F) := index.rank_symbol (named query) chunks limit

def query_terms (query : String) : List String :=
  let terms := (tokenize query).map normalize_term
  if "update" ∈ terms then "set" :: terms else terms
/-- The score of a definition whose name the query is made of. -/
def score (query : String) (definition : Definition) : Option F :=
  let meaningful := definition.parts.filter (!is_generic_symbol_part ·)
  let isAsked := fun part => decide (normalize_term part ∈ query_terms query)
  let count := meaningful.countP isAsked
  let exact := 1 < definition.parts.length && definition.symbol ∈ tokenize query
  let qualifies := exact || (meaningful.length = 1 && count = 1) || (2 ≤ meaningful.length && count = meaningful.length) ||
    (3 ≤ meaningful.length && 2 ≤ count)
  if !qualifies then none else
    let coverage : F := (count : F) / (max meaningful.length 1 : Nat)
    let action_match := meaningful.any fun part => isAsked part && is_action_symbol_part (normalize_term part)
    some ((if exact then 1.0 else 0.0) + coverage * 5.0 + (count : F) * 2.0 - ((meaningful.length - count : Nat) : F) * 3.0 -
      (meaningful.length : F) * 0.1 + if action_match then 2.0 else 0.0)
def scores (query : String) : List (String × F) :=
  index.definitions.foldl (fun symbols definition => (score query definition).elim symbols fun score =>
    insertLast definition.symbol ((lookup symbols definition.symbol).elim score (max · score)) symbols) []
/-- The chunks of the best symbols, each with the best of its definitions. -/
def candidates (query : String) (chunks : List Chunk) (limit : Nat) : List (Nat × F) :=
  ((sort_by scoreKey (index.scores query)).take (min limit 6)).flatMap fun symbol =>
    (index.rank_symbol symbol.1 chunks 1).filterMap fun found =>
      let path := (chunkAt chunks found.1).file_path
      let path_matches := ((tokenize path).map normalize_term).dedup.countP (· ∈ query_terms query)
      let source_weight : F := min (source_priority path symbol.1) 1.0
      if source_weight < 0.5 then none
      else some (found.1,(symbol.2 * 10.0 + (path_matches : F) * 2.0) * source_weight + found.2)
def inferred_symbols (query : String) (chunks : List Chunk) (limit : Nat) : List (Nat × F) :=
  ranked scoreKey (index.candidates query chunks limit) limit

end SymbolIndex

/-- What is required of a list that has a limit. -/
structure Returned (limit : Nat) (output : List (Nat × F)) : Prop where
  once : (output.map (·.1)).Nodup
  sorted : output.Pairwise (·.2 ≥ ·.2)
  few : output.length ≤ limit

section Ranked
variable {κ σ : Type} [LinearOrder κ] {key : Nat × σ → κ} {output : List (Nat × σ)} {limit : Nat}

theorem ranked_returned {key : Nat × F → κ} {output : List (Nat × F)} (isBest : ∀ a b, key a ≤ key b → b.2 ≤ a.2) (apart : Unseparated key (·.1) output) :
    Returned limit (ranked key output limit) where
  once := ((unseparated_iff key (·.1) output).mpr apart).sublist ((List.take_sublist _ _).map _)
  sorted := ((sort_le key output).imp (isBest _ _)).sublist ((List.take_sublist _ _).trans (dedup_sublist _ _))
  few := List.length_take_le _ _
theorem unseparated_of_once (short : output.length ≤ limit) (once : ((ranked key output limit).map (·.1)).Nodup) :
    Unseparated key (·.1) output := by
  have fits : (dedup_by_key (·.1) (sort_by key output)).length ≤ limit :=
    ((dedup_sublist _ _).length_le.trans (sort_perm key output).length_eq.le).trans short
  rw [ranked,List.take_of_length_le fits] at once
  exact (unseparated_iff key (·.1) output).mp once
theorem ranked_complete (apart : Unseparated key (·.1) output) (room : (output.map (·.1)).dedup.length ≤ limit) {chunk : Nat}
    (isIn : chunk ∈ output.map (·.1)) : chunk ∈ (ranked key output limit).map (·.1) := by
  have all : ((dedup_by_key (·.1) (sort_by key output)).map (·.1)).Perm (output.map (·.1)).dedup := by
    refine (List.perm_ext_iff_of_nodup ((unseparated_iff key (·.1) output).mpr apart) (List.nodup_dedup _)).mpr fun value => ?_
    rw [mem_dedup,List.mem_dedup]
    exact ((sort_perm key output).map _).mem_iff
  have fits : (dedup_by_key (·.1) (sort_by key output)).length ≤ limit := by
    rw [← List.length_map (·.1),all.length_eq]
    exact room
  rw [ranked,List.take_of_length_le fits,all.mem_iff,List.mem_dedup]
  exact isIn

end Ranked

theorem best_first {β : Type} [LinearOrder β] {a b : F} {x y : β} (isBefore : (toLex (.toDual a,x) : Fᵒᵈ ×ₗ β) ≤ toLex (.toDual b,y)) :
    b ≤ a := by
  rcases Prod.Lex.le_iff.mp isBefore with less | ⟨same,-⟩
  · exact le_of_lt less
  · exact (congrArg OrderDual.ofDual same).ge

/-- The chunks in which files define a symbol. -/
def defining (symbol : String) (chunk_offset : Nat) : List IndexedFile → List Nat
  | [] => []
  | file :: rest => (file.definitions.filter (to_ascii_lowercase ·.symbol = symbol)).map (chunk_offset + ·.chunk) ++
      defining symbol (chunk_offset + file.chunks.length) rest

def definitionOf (chunk_offset : Nat) (indexed : IndexedDefinition) : Definition :=
  ⟨to_ascii_lowercase indexed.symbol,symbol_parts indexed.symbol,chunk_offset + indexed.chunk,indexed.implementation⟩
def declared (chunk_offset : Nat) : List IndexedFile → List Definition
  | [] => []
  | file :: rest => file.definitions.map (definitionOf chunk_offset) ++ declared (chunk_offset + file.chunks.length) rest

/-- The index has these definitions, and finds those of each symbol. -/
structure Indexed (index : SymbolIndex) (definitions : List Definition) : Prop where
  all : index.definitions = definitions
  inside : ∀ symbol, ∀ position ∈ index.positions symbol, position < definitions.length
  found : ∀ symbol, (index.positions symbol).filterMap (definitions[·]?) = definitions.filter (·.symbol = symbol)

theorem Indexed.add {index : SymbolIndex} {definitions : List Definition} (isIndexed : Indexed index definitions) (chunk_offset : Nat)
    (indexed : IndexedDefinition) : Indexed (index.add chunk_offset indexed) (definitions ++ [definitionOf chunk_offset indexed]) := by
  have positions (symbol : String) : (index.add chunk_offset indexed).positions symbol = index.positions symbol ++
      if to_ascii_lowercase indexed.symbol = symbol then [definitions.length] else [] := by
    rw [SymbolIndex.positions,SymbolIndex.add,lookup_insertLast,← isIndexed.all]
    by_cases same : to_ascii_lowercase indexed.symbol = symbol
    · simp [same]
    · simp [same,Ne.symm same,SymbolIndex.positions]
  refine ⟨congrArg (· ++ _) isIndexed.all,fun symbol position isIn => ?_,fun symbol => ?_⟩
  · rw [positions] at isIn
    rw [List.length_append]
    rcases List.mem_append.mp isIn with earlier | new
    · exact Nat.lt_succ_of_lt (isIndexed.inside symbol position earlier)
    · split_ifs at new
      · exact List.mem_singleton.mp new ▸ Nat.lt_succ_self _
      · cases new
  · have old : (index.positions symbol).filterMap ((definitions ++ [definitionOf chunk_offset indexed])[·]?) =
        definitions.filter (·.symbol = symbol) := by
      rw [← isIndexed.found]
      exact List.filterMap_congr fun position isIn => List.getElem?_append_left (isIndexed.inside symbol position isIn)
    rw [positions,List.filterMap_append,old,List.filter_append]
    by_cases same : to_ascii_lowercase indexed.symbol = symbol <;> simp [same,definitionOf]
theorem Indexed.each (chunk_offset : Nat) (added : List IndexedDefinition) : ∀ {index : SymbolIndex} {definitions : List Definition},
    Indexed index definitions → Indexed (added.foldl (.add chunk_offset) index) (definitions ++ added.map (definitionOf chunk_offset)) := by
  induction added with
  | nil => exact fun isIndexed => by simpa using isIndexed
  | cons indexed rest ih =>
    intro index definitions isIndexed
    have later := ih (isIndexed.add chunk_offset indexed)
    rw [List.append_assoc] at later
    exact later
theorem indexed_files (files : List IndexedFile) : ∀ {index : SymbolIndex} {definitions : List Definition} (chunk_offset : Nat),
    Indexed index definitions → Indexed (index.addFiles chunk_offset files) (definitions ++ declared chunk_offset files) := by
  induction files with
  | nil => exact fun _ isIndexed => by simpa [SymbolIndex.addFiles,declared] using isIndexed
  | cons file rest ih =>
    intro index definitions chunk_offset isIndexed
    have later := ih (chunk_offset + file.chunks.length) (isIndexed.each chunk_offset file.definitions)
    rw [List.append_assoc] at later
    exact later
theorem from_files_indexed (files : List IndexedFile) : Indexed (SymbolIndex.from_files files) (declared 0 files) :=
  indexed_files files 0 ⟨rfl,fun _ _ isIn => (by cases isIn),fun _ => rfl⟩

theorem declared_chunks (symbol : String) (files : List IndexedFile) : ∀ chunk_offset,
    ((declared chunk_offset files).filter (·.symbol = symbol)).map (·.chunk) = defining symbol chunk_offset files := by
  induction files with
  | nil => exact fun _ => rfl
  | cons file rest ih =>
    intro chunk_offset
    rw [declared,defining,List.filter_append,List.map_append,ih,List.filter_map,List.map_map]
    rfl

/-- The definitions that are declared for a symbol, by their chunks and scores. -/
def ratings (files : List IndexedFile) (symbol : String) : List (Nat × F) :=
  ((declared 0 files).filter (·.symbol = symbol)).map fun definition => (definition.chunk,(1.0 + if definition.implementation then
    0.5 else 0.0) * source_priority (chunkAt (files.flatMap (·.chunks)) definition.chunk).file_path symbol)

theorem definitionsOf_ratings (files : List IndexedFile) (symbol : String) :
    (SymbolIndex.from_files files).definitionsOf symbol (files.flatMap (·.chunks)) = (ratings files symbol : List (Nat × F)) := by
  rw [ratings,← (from_files_indexed files).found symbol,List.map_filterMap,← (from_files_indexed files).all]
  rfl
theorem definitions_chunks (files : List IndexedFile) (symbol : String) :
    ((SymbolIndex.from_files files).definitionsOf symbol (files.flatMap (·.chunks)) : List (Nat × F)).map (·.1) = defining symbol 0 files := by
  rw [definitionsOf_ratings,ratings,List.map_map,← declared_chunks]
  rfl

theorem candidates_few (index : SymbolIndex) (query : String) (chunks : List Chunk) (limit : Nat) :
    (index.candidates query chunks limit : List (Nat × F)).length ≤ limit := by
  have one (symbol : String × F) : (index.rank_symbol symbol.1 chunks 1 : List (Nat × F)).length ≤ 1 := List.length_take_le _ _
  rw [SymbolIndex.candidates,List.length_flatMap]
  refine (List.sum_le_card_nsmul _ 1 fun count isIn => ?_).trans ?_
  · obtain ⟨symbol,-,rfl⟩ := List.mem_map.mp isIn
    exact (List.length_filterMap_le _ _).trans (one symbol)
  · rw [List.length_map,nsmul_one,Nat.cast_id]
    exact (List.length_take_le _ _).trans (min_le_left _ _)

/-- What the two lookups should return. -/
structure Looked (F : Type) [Score F] (files : List IndexedFile) (query : String) (limit : Nat) : Prop where
  exact : Returned limit ((SymbolIndex.from_files files).exact_symbol query (files.flatMap (·.chunks)) limit : List (Nat × F))
  complete : (defining (SymbolIndex.named query) 0 files).dedup.length ≤ limit → ∀ chunk ∈ defining (SymbolIndex.named query) 0 files,
    chunk ∈ ((SymbolIndex.from_files files).exact_symbol query (files.flatMap (·.chunks)) limit : List (Nat × F)).map (·.1)
  inferred : Returned limit ((SymbolIndex.from_files files).inferred_symbols query (files.flatMap (·.chunks)) limit : List (Nat × F))

variable {files : List IndexedFile} {query : String}

theorem exact_iff : (∀ limit, Returned limit ((SymbolIndex.from_files files).exact_symbol query (files.flatMap (·.chunks)) limit :
      List (Nat × F)) ∧ ((defining (SymbolIndex.named query) 0 files).dedup.length ≤ limit → ∀ chunk ∈ defining (SymbolIndex.named query) 0 files,
        chunk ∈ ((SymbolIndex.from_files files).exact_symbol query (files.flatMap (·.chunks)) limit : List (Nat × F)).map (·.1))) ↔
    Unseparated (sourceKey (files.flatMap (·.chunks))) (·.1)
      ((SymbolIndex.from_files files).definitionsOf (SymbolIndex.named query) (files.flatMap (·.chunks)) : List (Nat × F)) := by
  refine ⟨fun looked => unseparated_of_once le_rfl (looked _).1.once,fun apart limit =>
    ⟨ranked_returned (fun _ _ => best_first) apart,fun room chunk isIn => ?_⟩⟩
  rw [← definitions_chunks (F := F) files _] at room isIn
  exact ranked_complete apart room isIn
theorem inferred_iff (limit : Nat) : Returned limit ((SymbolIndex.from_files files).inferred_symbols query (files.flatMap (·.chunks)) limit :
      List (Nat × F)) ↔
    Unseparated scoreKey (·.1) ((SymbolIndex.from_files files).candidates query (files.flatMap (·.chunks)) limit : List (Nat × F)) :=
  ⟨fun looked => unseparated_of_once (candidates_few _ query _ limit) looked.once,ranked_returned fun _ _ => best_first⟩

/-- The lookups are right exactly if no other chunk is ranked between two definitions
    or two candidates of one chunk. -/
theorem lookups_right_iff (F : Type) [Score F] (files : List IndexedFile) (query : String) : (∀ limit, Looked F files query limit) ↔
    Unseparated (sourceKey (files.flatMap (·.chunks))) (·.1)
        ((SymbolIndex.from_files files).definitionsOf (SymbolIndex.named query) (files.flatMap (·.chunks)) : List (Nat × F)) ∧
      ∀ limit, Unseparated scoreKey (·.1)
        ((SymbolIndex.from_files files).candidates query (files.flatMap (·.chunks)) limit : List (Nat × F)) := by
  rw [← exact_iff,← forall_congr' fun limit => inferred_iff limit]
  exact ⟨fun looked => ⟨fun limit => ⟨(looked limit).exact,(looked limit).complete⟩,fun limit => (looked limit).inferred⟩,
    fun right limit => ⟨(right.1 limit).1,(right.1 limit).2,right.2 limit⟩⟩

/-- The scores that the definitions of a symbol have for the query. -/
def scoresOf (definitions : List Definition) (query symbol : String) : Set F :=
  {score | ∃ definition ∈ definitions, definition.symbol = symbol ∧ SymbolIndex.score query definition = some score}
/-- One of so many symbols with the best scores. -/
structure Chosen (definitions : List Definition) (query : String) (count : Nat) (symbol : String × F) : Prop where
  scored : IsGreatest (scoresOf definitions query symbol.1) symbol.2
  few : ∀ better : List (String × F), better.Nodup →
    (∀ other ∈ better, IsGreatest (scoresOf definitions query other.1) other.2 ∧ scoreKey other < scoreKey symbol) → better.length < count
/-- What the first definition of a symbol is found with, where its path is not of tests or demos. -/
def suggestion (query : String) (chunks : List Chunk) (symbol : String × F) (found : Nat × F) : Option (Nat × F) :=
  let path := (chunkAt chunks found.1).file_path
  let path_matches := ((tokenize path).map normalize_term).dedup.countP (· ∈ SymbolIndex.query_terms query)
  let source_weight : F := min (source_priority path symbol.1) 1.0
  if source_weight < 0.5 then none
  else some (found.1,(symbol.2 * 10.0 + (path_matches : F) * 2.0) * source_weight + found.2)
/-- A chunk is suggested, with a score. -/
def Suggested (files : List IndexedFile) (query : String) (limit : Nat) (entry : Nat × F) : Prop :=
  ∃ symbol found, Chosen (declared 0 files) query (min limit 6) symbol ∧
    Leads (sourceKey (files.flatMap (·.chunks))) (ratings files symbol.1) found ∧
    suggestion query (files.flatMap (·.chunks)) symbol found = some entry

/-- No other chunk comes between two definitions of the symbol, nor between two suggestions, of one chunk. -/
structure Apart (F : Type) [Score F] (files : List IndexedFile) (query : String) : Prop where
  defined : Unseparated (sourceKey (files.flatMap (·.chunks))) (·.1) (ratings files (SymbolIndex.named query) : List (Nat × F))
  suggested : ∀ limit, ∀ a d b : Nat × F, (∀ entry ∈ [a,d,b], Suggested files query limit entry) → a.1 = b.1 →
    scoreKey a < scoreKey d → scoreKey d < scoreKey b → d.1 = a.1

theorem scoresOf_snoc (definitions : List Definition) (last : Definition) (symbol : String) :
    (scoresOf (definitions ++ [last]) query symbol : Set F) =
      scoresOf definitions query symbol ∪ {score | last.symbol = symbol ∧ SymbolIndex.score query last = some score} := by
  ext score
  simp [scoresOf,or_and_right,exists_or]

theorem scores_greatest (definitions : List Definition) :
    Distinct (SymbolIndex.scores ⟨definitions,[]⟩ query : List (String × F)) ∧ ∀ symbol,
      (lookup (SymbolIndex.scores ⟨definitions,[]⟩ query : List (String × F)) symbol).elim (scoresOf definitions query symbol = (∅ : Set F))
        (IsGreatest (scoresOf definitions query symbol)) := by
  induction definitions using List.reverseRecOn with
  | nil => exact ⟨List.nodup_nil,fun symbol => by simp [SymbolIndex.scores,scoresOf]⟩
  | append_singleton definitions last ih =>
    obtain ⟨distinct,greatest⟩ := ih
    have folded : (SymbolIndex.scores ⟨definitions ++ [last],[]⟩ query : List (String × F)) =
        (SymbolIndex.score query last).elim (SymbolIndex.scores ⟨definitions,[]⟩ query) fun score => insertLast last.symbol
          ((lookup (SymbolIndex.scores ⟨definitions,[]⟩ query) last.symbol).elim score (max · score)) (SymbolIndex.scores ⟨definitions,[]⟩ query) :=
      List.foldl_concat ..
    simp only [scoresOf_snoc]
    cases isScore : (SymbolIndex.score query last : Option F) with
    | none =>
      rw [folded,isScore]
      simpa using ⟨distinct,greatest⟩
    | some score =>
      rw [folded,isScore]
      refine ⟨distinct.insert _ _,fun symbol => ?_⟩
      rw [Option.elim_some,lookup_insertLast]
      by_cases same : symbol = last.symbol
      · subst same
        have own : {one : F | last.symbol = last.symbol ∧ some score = some one} = {score} := by
          ext one
          simp [eq_comm]
        specialize greatest last.symbol
        rw [if_pos rfl,Option.elim_some,own,Set.union_singleton]
        cases isBest : lookup (SymbolIndex.scores ⟨definitions,[]⟩ query : List (String × F)) last.symbol with
        | none =>
          rw [isBest] at greatest
          rw [show scoresOf definitions query last.symbol = (∅ : Set F) from greatest,insert_empty_eq]
          exact isGreatest_singleton
        | some best =>
          rw [isBest] at greatest
          rw [Option.elim_some,max_comm]
          exact greatest.insert score
      · simpa [same,Ne.symm same] using greatest symbol
theorem mem_scores (definitions : List Definition) (symbol : String × F) :
    symbol ∈ (SymbolIndex.scores ⟨definitions,[]⟩ query : List (String × F)) ↔ IsGreatest (scoresOf definitions query symbol.1) symbol.2 := by
  obtain ⟨distinct,greatest⟩ := @scores_greatest F _ query definitions
  specialize greatest symbol.1
  refine (mem_iff distinct symbol.1 symbol.2).trans ?_
  cases isBest : lookup (SymbolIndex.scores ⟨definitions,[]⟩ query : List (String × F)) symbol.1 with
  | none =>
    rw [isBest] at greatest
    refine iff_of_false nofun fun isGreatest => ?_
    exact Set.notMem_empty _ ((show scoresOf definitions query symbol.1 = (∅ : Set F) from greatest) ▸ isGreatest.1)
  | some best =>
    rw [isBest] at greatest
    rw [Option.some.injEq]
    exact ⟨fun same => same ▸ greatest,greatest.unique⟩

omit [Score F] in
theorem scoreKey_injective {α : Type} : Function.Injective (scoreKey : α × F → Fᵒᵈ ×ₗ α) := by
  intro a b same
  obtain ⟨score,first⟩ := Prod.mk.inj (toLex.injective same)
  exact Prod.ext first (OrderDual.toDual.injective score)

theorem chosen_iff (definitions : List Definition) (count : Nat) (symbol : String × F) :
    symbol ∈ (sort_by scoreKey (SymbolIndex.scores ⟨definitions,[]⟩ query)).take count ↔ Chosen definitions query count symbol := by
  have distinct := (@scores_greatest F _ query definitions).1.of_map
  rw [mem_take_sort scoreKey (distinct.map scoreKey_injective),mem_scores,List.countP_eq_length_filter]
  constructor
  · rintro ⟨scored,few⟩
    refine ⟨scored,fun better nodup isBetter => (List.Subperm.length_le ?_).trans_lt few⟩
    refine List.subperm_of_subset nodup fun other isIn => List.mem_filter.mpr ?_
    exact ⟨(mem_scores _ _).mpr (isBetter other isIn).1,decide_eq_true (isBetter other isIn).2⟩
  · refine fun chosen => ⟨chosen.scored,chosen.few _ (distinct.filter _) fun other isIn => ?_⟩
    obtain ⟨member,better⟩ := List.mem_filter.mp isIn
    exact ⟨(mem_scores _ _).mp member,of_decide_eq_true better⟩

theorem mem_candidates (limit : Nat) (entry : Nat × F) :
    entry ∈ (SymbolIndex.from_files files).candidates query (files.flatMap (·.chunks)) limit ↔ Suggested files query limit entry := by
  have sameScores : (SymbolIndex.from_files files).scores query = (SymbolIndex.scores ⟨declared 0 files,[]⟩ query : List (String × F)) := by
    rw [SymbolIndex.scores,(from_files_indexed files).all]
    rfl
  have first (symbol : String) (found : Nat × F) : found ∈ (SymbolIndex.from_files files).rank_symbol symbol (files.flatMap (·.chunks)) 1 ↔
      Leads (sourceKey (files.flatMap (·.chunks))) (ratings files symbol) found := by
    rw [SymbolIndex.rank_symbol,ranked,definitionsOf_ratings,← head_sort,← dedup_head (·.1),List.take_one,Option.mem_toList]
  have suggested : (SymbolIndex.from_files files).candidates query (files.flatMap (·.chunks)) limit =
      ((sort_by scoreKey ((SymbolIndex.from_files files).scores query)).take (min limit 6)).flatMap fun symbol : String × F =>
        ((SymbolIndex.from_files files).rank_symbol symbol.1 (files.flatMap (·.chunks)) 1).filterMap (suggestion query
          (files.flatMap (·.chunks)) symbol) := rfl
  rw [suggested,sameScores,List.mem_flatMap]
  simp only [List.mem_filterMap,chosen_iff,first]
  exact ⟨fun ⟨symbol,chosen,found,rest⟩ => ⟨symbol,found,chosen,rest⟩,fun ⟨symbol,found,chosen,rest⟩ => ⟨symbol,chosen,found,rest⟩⟩

/-- The lookups are right exactly where, of the definitions that the files declare with their scores, those of
    one chunk are not separated. -/
theorem chunks_once_iff (F : Type) [Score F] (files : List IndexedFile) (query : String) :
    (∀ limit, Looked F files query limit) ↔ Apart F files query := by
  have suggested (limit : Nat) := (@inferred_iff F _ files query limit).trans
    (unseparated_keys _ _ (fun a b other same => other (congrArg (·.1) (scoreKey_injective same))) _)
  simp only [mem_candidates] at suggested
  have defined := @exact_iff F _ files query
  rw [definitionsOf_ratings] at defined
  constructor
  · exact fun looked => ⟨defined.mp fun limit => ⟨(looked limit).exact,(looked limit).complete⟩,
      fun limit => (suggested limit).mp (looked limit).inferred⟩
  · exact fun apart limit => ⟨(defined.mpr apart.defined limit).1,(defined.mpr apart.defined limit).2,
      (suggested limit).mpr (apart.suggested limit)⟩

end Lookup

instance : Score ℚ where

def overloads : IndexedFile where
  chunks := [⟨"a.ts",1,1,none,"function f() \x7b\x7d"⟩,⟨"a.ts",2,3,none,"function f(x) \x7b\x7d\nfunction f(y)"⟩]
  definitions := [⟨"f",0,true⟩,⟨"f",1,true⟩,⟨"f",1,false⟩]
  inside := by decide

/-- The second chunk is found twice: the first one is ranked between its definitions. -/
theorem overloads_twice : ¬ Looked ℚ [overloads] "f" 3 :=
  fun looked => absurd looked.exact.once (by decide +kernel)

end MyCursor.SymbolLookup
