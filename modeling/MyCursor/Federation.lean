import Mathlib.Algebra.BigOperators.Group.List.Basic
import Mathlib.Data.List.Sort
import Mathlib.Data.Rat.Defs
import Mathlib.Algebra.Order.Ring.Rat
import MyCursor.Keyed
import MyCursor.Text

/-!
# Fusion of web search results

`search/federation.rs`: the ranked results of several engines are merged by reciprocal
rank fusion. Scores are exact here. The map of the merged results gives its values in an
order of its own, which the sorting makes irrelevant.
-/
namespace MyCursor.Federation
open Text

structure SearchHit where
  title : String
  url : String
  chunk : String
  engines : List String
  score : ℚ
deriving DecidableEq
def SearchHit.new (title url chunk : String) (engines : List String) : SearchHit := ⟨title,url,chunk,engines,0⟩

structure Item where
  title : String
  url : String
  chunk : String
deriving DecidableEq
/-- An engine, and what its search comes to. -/
structure SearchEngine where
  id : String
  response : Except String (List Item)
def SearchEngine.search (engine : SearchEngine) : Except String (List SearchHit) :=
  engine.response.map fun items => items.map fun item => .new item.title item.url item.chunk [engine.id]

def RRF_K : ℚ := 60
def MAX_RESULTS : Nat := 15

abbrev Merged : Type := List (String × SearchHit)

def termAt (rank : Nat) : ℚ := 1 / (RRF_K + rank + 1)
def SearchHit.count (existing : SearchHit) (engine : String) (rank : Nat) : SearchHit :=
  if engine ∈ existing.engines then existing
  else { existing with score := existing.score + termAt rank, engines := existing.engines ++ [engine] }
def SearchHit.quote (existing : SearchHit) (chunk : String) : SearchHit :=
  if existing.chunk.utf8ByteSize < chunk.utf8ByteSize then { existing with chunk } else existing
def absorb (engine : String) (entry : Option SearchHit) (rank : Nat) (result : SearchHit) : SearchHit :=
  match entry with
  | some existing => (existing.count engine rank).quote result.chunk
  | none => { result with score := termAt rank }
def mergeFrom (rank : Nat) (merged : Merged) (engine : String) : List SearchHit → Merged
  | [] => merged
  | result :: rest =>
    let entry := absorb engine (Keyed.lookup merged result.url) rank result
    mergeFrom (rank + 1) (Keyed.insertLast result.url entry merged) engine rest
def merge (merged : Merged) (engine : String) (results : List SearchHit) : Merged := mergeFrom 0 merged engine results

/-- `HashMap::into_values`. -/
class Iteration where
  order : List SearchHit → List SearchHit
  order_perm : ∀ hits, (order hits).Perm hits

structure Gathered where
  merged : Merged := []
  failures : List String := []
def Gathered.take (gathered : Gathered) (engine : SearchEngine) : Gathered :=
  match engine.search with
  | .ok [] | .error _ => { gathered with failures := gathered.failures ++ [engine.id] }
  | .ok results => { gathered with merged := merge gathered.merged engine.id results }

def Ahead (left right : SearchHit) : Prop := right.score < left.score ∨ (right.score = left.score ∧ left.url ≤ right.url)
instance : DecidableRel Ahead := fun _ _ => inferInstanceAs (Decidable (_ ∨ _ ∧ _))
/-- `client` says whether there is an HTTP client. -/
def search [Iteration] (client : Except String Unit) (engines : List SearchEngine) (query : String) : Except String (List SearchHit) :=
  if (trim query).isEmpty then .error "query is empty"
  else match client with
    | .error error => .error s!"HTTP client failed: {error}"
    | .ok () =>
      let gathered := engines.foldl Gathered.take {}
      if gathered.merged.isEmpty then
        let failures := ", ".intercalate gathered.failures
        .error s!"no results from engines: {failures}"
      else .ok (((Iteration.order (gathered.merged.map (·.2))).insertionSort Ahead).take MAX_RESULTS)

def SearchEngine.items (engine : SearchEngine) : List Item := engine.response.toOption.getD []
def SearchEngine.lists (engine : SearchEngine) (url : String) : Bool := engine.items.any (·.url = url)
def SearchEngine.rank (engine : SearchEngine) (url : String) : Nat := engine.items.findIdx (·.url = url)
def fusedScore (engines : List SearchEngine) (url : String) : ℚ :=
  ((engines.filter (·.lists url)).map fun engine => termAt (engine.rank url)).sum
def snippets (engines : List SearchEngine) (url : String) : List String :=
  engines.flatMap fun engine => (engine.items.filter (·.url = url)).map (·.chunk)

/-- A hit that fuses what the engines say of its url. -/
structure Fused (engines : List SearchEngine) (hit : SearchHit) : Prop where
  score : hit.score = fusedScore engines hit.url
  engines_nodup : hit.engines.Nodup
  engines_iff : ∀ id, id ∈ hit.engines ↔ ∃ engine ∈ engines, engine.id = id ∧ engine.lists hit.url = true
  snippet : hit.chunk ∈ snippets engines hit.url
  longest : ∀ chunk ∈ snippets engines hit.url, chunk.utf8ByteSize ≤ hit.chunk.utf8ByteSize
def Before (left right : SearchHit) : Prop := right.score < left.score ∨ (right.score = left.score ∧ left.url < right.url)
/-- The best of all urls that are listed, each once. -/
structure Ranks (engines : List SearchEngine) (results all : List SearchHit) : Prop where
  urls_nodup : (all.map (·.url)).Nodup
  urls_iff : ∀ url, url ∈ all.map (·.url) ↔ ∃ engine ∈ engines, engine.lists url = true
  fused : ∀ hit ∈ all, Fused engines hit
  sorted : all.Pairwise Before
  truncated : results = all.take MAX_RESULTS

section Engine
variable {engine : String} {hits : List (SearchHit × Nat)} {existing : SearchHit}

/-- The results for one url, with their ranks, are taken in one after the other. -/
def absorbAll (engine : String) (entry : Option SearchHit) (hits : List (SearchHit × Nat)) : Option SearchHit :=
  hits.foldl (fun entry hit => some (absorb engine entry hit.2 hit.1)) entry

theorem lookup_mergeFrom (engine url : String) (results : List SearchHit) : ∀ (rank : Nat) (merged : Merged),
    Keyed.lookup (mergeFrom rank merged engine results) url =
      absorbAll engine (Keyed.lookup merged url) ((results.zipIdx rank).filter (·.1.url = url)) := by
  induction results with
  | nil => exact fun _ _ => rfl
  | cons result rest ih =>
    intro rank merged
    rw [mergeFrom,ih,Keyed.lookup_insertLast,List.zipIdx_cons]
    by_cases same : url = result.url
    · subst same
      rw [if_pos rfl,List.filter_cons_of_pos (by simp)]
      rfl
    · rw [if_neg same,List.filter_cons_of_neg (by simpa using Ne.symm same)]
theorem mergeFrom_distinct (engine : String) (results : List SearchHit) : ∀ (rank : Nat) (merged : Merged),
    Keyed.Distinct merged → Keyed.Distinct (mergeFrom rank merged engine results) := by
  induction results with
  | nil => exact fun _ _ distinct => distinct
  | cons result rest ih => exact fun rank merged distinct => ih _ _ (distinct.insert _ _)

/-- The ranks of the results that are kept: the first has the rank that is found, the
    results are those of the list. -/
theorem ranked_filter {α : Type} (p : α → Bool) (results : List α) (rank : Nat) :
    ((results.zipIdx rank).filter fun hit => p hit.1).map (·.1) = results.filter p ∧
      ∀ hit ∈ ((results.zipIdx rank).filter fun hit => p hit.1).head?, hit.2 = rank + results.findIdx p := by
  induction results generalizing rank with
  | nil => exact ⟨rfl,nofun⟩
  | cons result rest ih =>
    obtain ⟨kept,first⟩ := ih (rank + 1)
    rw [List.zipIdx_cons,List.findIdx_cons]
    by_cases holds : p result = true
    · rw [List.filter_cons_of_pos holds,List.filter_cons_of_pos (p := fun hit => p hit.1) (a := (result,rank)) holds,
        List.map_cons,kept]
      refine ⟨rfl,?_⟩
      simp [holds]
    · rw [List.filter_cons_of_neg holds,List.filter_cons_of_neg (p := fun hit => p hit.1) (a := (result,rank)) holds,kept]
      refine ⟨rfl,fun hit isFirst => ?_⟩
      have isRank := first hit isFirst
      simp only [holds,cond_false]
      omega

structure Quoted (chunks : List String) (before after : SearchHit) : Prop where
  same : after = { before with chunk := after.chunk }
  among : after.chunk ∈ before.chunk :: chunks
  longest : ∀ chunk ∈ before.chunk :: chunks, chunk.utf8ByteSize ≤ after.chunk.utf8ByteSize

theorem quote_quoted (existing : SearchHit) (chunk : String) : Quoted [chunk] existing (existing.quote chunk) := by
  unfold SearchHit.quote
  split_ifs with longer
  · refine ⟨rfl,by simp,?_⟩
    simp only [List.mem_cons,List.not_mem_nil,or_false,forall_eq_or_imp,forall_eq]
    exact ⟨longer.le,le_rfl⟩
  · refine ⟨rfl,by simp,?_⟩
    simp only [List.mem_cons,List.not_mem_nil,or_false,forall_eq_or_imp,forall_eq]
    exact ⟨le_rfl,not_lt.mp longer⟩
theorem Quoted.trans {first later : List String} {before middle after : SearchHit} (one : Quoted first before middle)
    (two : Quoted later middle after) : Quoted (first ++ later) before after := by
  have longer := two.longest _ List.mem_cons_self
  refine ⟨?_,?_,?_⟩
  · rw [two.same,one.same]
  · rcases List.mem_cons.mp two.among with same | member
    · rw [same,← List.cons_append]
      exact List.mem_append_left _ one.among
    · exact List.mem_cons_of_mem _ (List.mem_append_right _ member)
  · intro chunk member
    rw [← List.cons_append,List.mem_append] at member
    rcases member with early | late
    · exact (one.longest _ early).trans longer
    · exact two.longest _ (List.mem_cons_of_mem _ late)

theorem absorbAll_counted (hits : List (SearchHit × Nat)) (counted : engine ∈ existing.engines) :
    ∃ after, absorbAll engine (some existing) hits = some after ∧ Quoted (hits.map (·.1.chunk)) existing after := by
  induction hits generalizing existing with
  | nil => exact ⟨existing,rfl,rfl,by simp,by simp⟩
  | cons hit rest ih =>
    have isCounted : existing.count engine hit.2 = existing := if_pos counted
    have quoted := quote_quoted existing hit.1.chunk
    have counted' : engine ∈ (existing.quote hit.1.chunk).engines := by
      rw [quoted.same]
      exact counted
    obtain ⟨after,isAfter,later⟩ := ih counted'
    refine ⟨after,?_,quoted.trans later⟩
    rw [← isAfter,absorbAll,List.foldl_cons,absorb,isCounted]
    rfl

end Engine

structure Entry (engines : List SearchEngine) (url : String) (hit : SearchHit) : Prop where
  sameUrl : hit.url = url
  score : hit.score = fusedScore engines url
  names : hit.engines = (engines.filter (·.lists url)).map (·.id)
  snippet : hit.chunk ∈ snippets engines url
  longest : ∀ chunk ∈ snippets engines url, chunk.utf8ByteSize ≤ hit.chunk.utf8ByteSize
/-- The map has an entry for every url that is listed, and no other. -/
structure Merges (engines : List SearchEngine) (merged : Merged) : Prop where
  distinct : Keyed.Distinct merged
  found : ∀ url hit, Keyed.lookup merged url = some hit → (∃ engine ∈ engines, engine.lists url = true) ∧ Entry engines url hit
  missing : ∀ url, Keyed.lookup merged url = none → ∀ engine ∈ engines, engine.lists url = false

def SearchEngine.hits (engine : SearchEngine) : List SearchHit :=
  engine.items.map fun item => .new item.title item.url item.chunk [engine.id]

theorem take_merged (gathered : Gathered) (engine : SearchEngine) :
    (gathered.take engine).merged = merge gathered.merged engine.id engine.hits := by
  unfold Gathered.take SearchEngine.search SearchEngine.hits SearchEngine.items
  cases engine.response with
  | error e => rfl
  | ok items => cases items <;> rfl

theorem lists_iff {engine : SearchEngine} {url : String} : engine.lists url = true ↔ ∃ item ∈ engine.items, item.url = url := by
  simp [SearchEngine.lists]
theorem hits_filter (engine : SearchEngine) (url : String) : engine.hits.filter (·.url = url) =
    (engine.items.filter (·.url = url)).map fun item => .new item.title item.url item.chunk [engine.id] := by
  rw [SearchEngine.hits,List.filter_map]
  rfl
theorem snippets_snoc (engines : List SearchEngine) (engine : SearchEngine) (url : String) :
    snippets (engines ++ [engine]) url = snippets engines url ++ (engine.hits.filter (·.url = url)).map (·.chunk) := by
  rw [hits_filter,List.map_map]
  simp [snippets,Function.comp_def,SearchHit.new]
theorem fusedScore_snoc (engines : List SearchEngine) (engine : SearchEngine) (url : String) : fusedScore (engines ++ [engine]) url =
      fusedScore engines url + if engine.lists url then termAt (engine.rank url) else 0 := by
  unfold fusedScore
  by_cases lists : engine.lists url = true
  · simp [List.filter_append,lists]
  · simp [List.filter_append,lists]
theorem filter_snoc (engines : List SearchEngine) (engine : SearchEngine) (url : String) :
    (engines ++ [engine]).filter (·.lists url) = engines.filter (·.lists url) ++ if engine.lists url then [engine] else [] := by
  by_cases lists : engine.lists url = true
  · simp [List.filter_append,lists]
  · simp [List.filter_append,lists]

def SearchEngine.ranked (engine : SearchEngine) (url : String) : List (SearchHit × Nat) :=
  (engine.hits.zipIdx 0).filter (·.1.url = url)

section Step
variable {engines : List SearchEngine} {one : SearchEngine} {url : String} {entry : Option SearchHit} {hit : SearchHit}

theorem ranked_unlisted (unlisted : one.lists url = false) : one.ranked url = [] := by
  have none_ : (one.ranked url).map (·.1) = [] := by
    rw [SearchEngine.ranked,(ranked_filter (fun hit : SearchHit => hit.url = url) one.hits 0).1,hits_filter,List.map_eq_nil_iff,
      List.filter_eq_nil_iff]
    intro item member same
    exact absurd (lists_iff.mpr ⟨item,member,by simpa using same⟩) (by simp [unlisted])
  exact List.map_eq_nil_iff.mp none_
theorem ranked_listed (listed : one.lists url = true) : ∃ first rest, one.ranked url = (first,one.rank url) :: rest ∧
    first.engines = [one.id] ∧ first.url = url ∧
    (one.hits.filter (·.url = url)).map (·.chunk) = first.chunk :: rest.map (·.1.chunk) := by
  obtain ⟨kept,isRank⟩ := ranked_filter (fun hit : SearchHit => decide (hit.url = url)) one.hits 0
  change (one.ranked url).map (·.1) = _ at kept
  change ∀ hit ∈ (one.ranked url).head?, _ at isRank
  cases isRanked : one.ranked url with
  | nil =>
    rw [isRanked,List.map_nil] at kept
    obtain ⟨item,member,same⟩ := lists_iff.mp listed
    have isHit : SearchHit.new item.title item.url item.chunk [one.id] ∈ one.hits.filter (·.url = url) := by
      rw [hits_filter]
      exact List.mem_map_of_mem (List.mem_filter.mpr ⟨member,by simpa using same⟩)
    rw [← kept] at isHit
    cases isHit
  | cons first rest =>
    rw [isRanked] at kept isRank
    have isFirst : first.1 ∈ one.hits.filter (·.url = url) := by
      rw [← kept]
      exact List.mem_cons_self
    rw [hits_filter] at isFirst
    obtain ⟨item,isItem,isHit⟩ := List.mem_map.mp isFirst
    have sameUrl : item.url = url := by simpa using (List.mem_filter.mp isItem).2
    refine ⟨first.1,rest,?_,by rw [← isHit]; rfl,by rw [← isHit]; exact sameUrl,?_⟩
    · have rank := isRank first rfl
      rw [Nat.zero_add,SearchEngine.hits,List.findIdx_map] at rank
      change first.2 = one.rank url at rank
      rw [← rank]
    · rw [← kept]
      simp

theorem absorb_entry (fresh : one.id ∉ engines.map (·.id)) (listed : one.lists url = true)
    (known : ∀ hit, entry = some hit → Entry engines url hit)
    (unknown : entry = none → ∀ engine ∈ engines, engine.lists url = false) :
    ∃ after, absorbAll one.id entry (one.ranked url) = some after ∧ Entry (engines ++ [one]) url after := by
  obtain ⟨first,rest,isRanked,isEngines,isUrl,isSnippets⟩ := ranked_listed listed
  rw [isRanked]
  have counted : ∀ middle : SearchHit, one.id ∈ middle.engines → middle.url = url →
      middle.score = fusedScore (engines ++ [one]) url → middle.engines = ((engines ++ [one]).filter (·.lists url)).map (·.id) →
      (∀ later, Quoted (rest.map (·.1.chunk)) middle later → later.chunk ∈ snippets (engines ++ [one]) url ∧
        ∀ chunk ∈ snippets (engines ++ [one]) url, chunk.utf8ByteSize ≤ later.chunk.utf8ByteSize) →
      ∃ after, absorbAll one.id (some middle) rest = some after ∧ Entry (engines ++ [one]) url after := by
    intro middle isCounted sameUrl score names quotes
    obtain ⟨after,isAfter,quoted⟩ := absorbAll_counted rest isCounted
    obtain ⟨snippet,longest⟩ := quotes after quoted
    exact ⟨after,isAfter,by rw [quoted.same]; exact sameUrl,by rw [quoted.same]; exact score,by rw [quoted.same]; exact names,
      snippet,longest⟩
  cases entry with
  | none =>
    have unlisted := unknown rfl
    have others : engines.filter (·.lists url) = [] := List.filter_eq_nil_iff.mpr fun engine member => by simp [unlisted engine member]
    have noSnippets : snippets engines url = [] := by
      refine List.flatMap_eq_nil_iff.mpr fun engine member => ?_
      rw [List.map_eq_nil_iff,List.filter_eq_nil_iff]
      intro item isItem same
      exact absurd (lists_iff.mpr ⟨item,isItem,by simpa using same⟩) (by simp [unlisted engine member])
    refine counted { first with score := termAt (one.rank url) } ?_ isUrl ?_ ?_ ?_
    · rw [isEngines]
      exact List.mem_singleton.mpr rfl
    · rw [fusedScore_snoc,if_pos listed,fusedScore,others]
      simp
    · rw [filter_snoc,if_pos listed,others]
      simpa using isEngines
    · intro later quoted
      rw [snippets_snoc,noSnippets,List.nil_append,isSnippets]
      exact ⟨quoted.among,quoted.longest⟩
  | some hit =>
    have entry := known hit rfl
    have uncounted : one.id ∉ hit.engines := by
      rw [entry.names]
      intro member
      obtain ⟨engine,isEngine,same⟩ := List.mem_map.mp member
      exact fresh (List.mem_map.mpr ⟨engine,List.mem_of_mem_filter isEngine,same⟩)
    have isCount : hit.count one.id (one.rank url) =
      { hit with score := hit.score + termAt (one.rank url), engines := hit.engines ++ [one.id] } := if_neg uncounted
    have quoted := quote_quoted (hit.count one.id (one.rank url)) first.chunk
    have isChunk : (hit.count one.id (one.rank url)).chunk = hit.chunk := by rw [isCount]
    refine counted ((hit.count one.id (one.rank url)).quote first.chunk) ?_ ?_ ?_ ?_ ?_
    · rw [quoted.same,isCount]
      exact List.mem_append_right _ (List.mem_singleton.mpr rfl)
    · rw [quoted.same,isCount]
      exact entry.sameUrl
    · rw [quoted.same,isCount,fusedScore_snoc,if_pos listed,← entry.score]
    · rw [quoted.same,isCount,filter_snoc,if_pos listed,List.map_append,← entry.names]
      rfl
    · intro later quotedLater
      have both := quoted.trans quotedLater
      rw [snippets_snoc,isSnippets]
      refine ⟨?_,fun chunk member => ?_⟩
      · rcases List.mem_cons.mp both.among with same | member
        · rw [same,isChunk]
          exact List.mem_append_left _ entry.snippet
        · exact List.mem_append_right _ member
      · rcases List.mem_append.mp member with before | now
        · refine (entry.longest chunk before).trans ?_
          rw [← isChunk]
          exact both.longest _ List.mem_cons_self
        · exact both.longest chunk (List.mem_cons_of_mem _ now)

theorem Merges.step {merged : Merged} (merges : Merges engines merged) (fresh : one.id ∉ engines.map (·.id)) :
    Merges (engines ++ [one]) (merge merged one.id one.hits) := by
  have isEntry : ∀ url, Keyed.lookup (merge merged one.id one.hits) url =
      absorbAll one.id (Keyed.lookup merged url) (one.ranked url) := fun url => lookup_mergeFrom _ _ _ _ _
  have stays : ∀ {url}, one.lists url = false → Keyed.lookup (merge merged one.id one.hits) url = Keyed.lookup merged url := by
    intro url unlisted
    rw [isEntry,ranked_unlisted unlisted]
    rfl
  refine ⟨mergeFrom_distinct _ _ _ _ merges.distinct,fun url hit found => ?_,fun url missing => ?_⟩
  · cases listed : one.lists url with
    | true =>
      obtain ⟨after,isAfter,entry⟩ := absorb_entry fresh listed (fun hit found => (merges.found url hit found).2) (merges.missing url)
      rw [isEntry,isAfter] at found
      obtain rfl := Option.some.inj found
      exact ⟨⟨one,by simp,listed⟩,entry⟩
    | false =>
      rw [stays listed] at found
      obtain ⟨⟨engine,member,lists⟩,entry⟩ := merges.found url hit found
      have noSnippets : (one.hits.filter (·.url = url)).map (·.chunk) = [] := by
        have ranked := (ranked_filter (fun hit : SearchHit => decide (hit.url = url)) one.hits 0).1
        change (one.ranked url).map (·.1) = _ at ranked
        rw [← ranked,ranked_unlisted listed]
        rfl
      refine ⟨⟨engine,List.mem_append_left _ member,lists⟩,entry.sameUrl,?_,?_,?_,?_⟩
      · rw [entry.score,fusedScore_snoc]
        simp [listed]
      · rw [entry.names,filter_snoc]
        simp [listed]
      · rw [snippets_snoc,noSnippets,List.append_nil]
        exact entry.snippet
      · rw [snippets_snoc,noSnippets,List.append_nil]
        exact entry.longest
  · have unlisted : one.lists url = false := by
      cases listed : one.lists url with
      | false => rfl
      | true =>
        obtain ⟨after,isAfter,_⟩ := absorb_entry fresh listed (fun hit found => (merges.found url hit found).2) (merges.missing url)
        rw [isEntry,isAfter] at missing
        cases missing
    rw [stays unlisted] at missing
    intro engine member
    rcases List.mem_append.mp member with before | now
    · exact merges.missing url missing engine before
    · rwa [List.mem_singleton.mp now]
theorem Merges.run (rest : List SearchEngine) : ∀ {engines : List SearchEngine} (gathered : Gathered),
    Merges engines gathered.merged → ((engines ++ rest).map (·.id)).Nodup →
      Merges (engines ++ rest) (rest.foldl Gathered.take gathered).merged := by
  induction rest with
  | nil =>
    intro engines gathered merges _
    rwa [List.append_nil]
  | cons engine rest ih =>
    intro engines gathered merges distinct
    have fresh : engine.id ∉ engines.map (·.id) := by
      rw [List.map_append,List.map_cons] at distinct
      exact fun member => List.disjoint_of_nodup_append distinct member List.mem_cons_self
    have next : Merges (engines ++ [engine]) (gathered.take engine).merged := by
      rw [take_merged]
      exact merges.step fresh
    have split : engines ++ engine :: rest = (engines ++ [engine]) ++ rest := List.append_cons ..
    rw [split] at distinct ⊢
    exact ih _ next distinct

end Step

instance : Std.Total Ahead where
  total left right := by
    rcases lt_trichotomy left.score right.score with less | same | more
    · exact .inr (.inl less)
    · rcases String.le_total left.url right.url with first | second
      · exact .inl (.inr ⟨same.symm,first⟩)
      · exact .inr (.inr ⟨same,second⟩)
    · exact .inl (.inl more)
instance : IsTrans SearchHit Ahead where
  trans first second third := by
    rintro (less | ⟨same,before⟩) (less' | ⟨same',before'⟩)
    · exact .inl (less'.trans less)
    · exact .inl (same'.trans_lt less)
    · exact .inl (less'.trans_eq same)
    · exact .inr ⟨same'.trans same,String.le_trans before before'⟩

theorem ahead_before {left right : SearchHit} (ahead : Ahead left right) (different : left.url ≠ right.url) : Before left right := by
  rcases ahead with less | ⟨same,before⟩
  · exact .inl less
  · refine .inr ⟨same,?_⟩
    by_contra notLess
    exact different (String.le_antisymm before (String.not_lt.mp notLess))

section Ranking
variable {engines engines' : List SearchEngine} {results results' all all' : List SearchHit} {merged : Merged}

theorem Entry.fused {url : String} {hit : SearchHit} (entry : Entry engines url hit) (distinct : (engines.map (·.id)).Nodup) :
    Fused engines hit := by
  obtain ⟨rfl,score,names,snippet,longest⟩ := entry
  refine ⟨score,?_,fun id => ?_,snippet,longest⟩
  · rw [names]
    exact distinct.sublist (List.filter_sublist.map _)
  · rw [names,List.mem_map]
    constructor
    · rintro ⟨engine,member,same⟩
      exact ⟨engine,List.mem_of_mem_filter member,same,(List.mem_filter.mp member).2⟩
    · rintro ⟨engine,member,same,lists⟩
      exact ⟨engine,List.mem_filter.mpr ⟨member,lists⟩,same⟩

theorem Merges.ranks [Iteration] (merges : Merges engines merged) (distinct : (engines.map (·.id)).Nodup) :
    Ranks engines (((Iteration.order (merged.map (·.2))).insertionSort Ahead).take MAX_RESULTS)
      ((Iteration.order (merged.map (·.2))).insertionSort Ahead) := by
  have perm : ((Iteration.order (merged.map (·.2))).insertionSort Ahead).Perm (merged.map (·.2)) :=
    (List.perm_insertionSort _ _).trans (Iteration.order_perm _)
  have isUrl : ∀ entry ∈ merged, entry.2.url = entry.1 := fun entry member =>
    (merges.found _ _ ((Keyed.mem_iff merges.distinct _ _).mp member)).2.sameUrl
  have urls : (merged.map (·.2)).map (·.url) = merged.map (·.1) := by
    rw [List.map_map]
    exact List.map_congr_left isUrl
  have nodup : (((Iteration.order (merged.map (·.2))).insertionSort Ahead).map (·.url)).Nodup := by
    rw [(perm.map _).nodup_iff,urls]
    exact merges.distinct
  refine ⟨nodup,fun url => ?_,fun hit member => ?_,?_,rfl⟩
  · rw [(perm.map _).mem_iff,urls]
    constructor
    · intro member
      cases found : Keyed.lookup merged url with
      | none => exact absurd member (Keyed.lookup_none.mp found)
      | some hit => exact (merges.found url hit found).1
    · rintro ⟨engine,member,lists⟩
      by_contra missing
      have unlisted := merges.missing url (Keyed.lookup_none.mpr missing) engine member
      rw [lists] at unlisted
      cases unlisted
  · obtain ⟨⟨url,_⟩,isEntry,rfl⟩ := List.mem_map.mp (perm.mem_iff.mp member)
    exact (merges.found _ _ ((Keyed.mem_iff merges.distinct _ _).mp isEntry)).2.fused distinct
  · have apart : ((Iteration.order (merged.map (·.2))).insertionSort Ahead).Pairwise fun left right => left.url ≠ right.url :=
      List.pairwise_map.mp nodup
    exact ((List.pairwise_insertionSort Ahead _).and apart).imp fun both => ahead_before both.1 both.2

theorem fusedScore_perm (perm : engines'.Perm engines) (url : String) : fusedScore engines' url = fusedScore engines url :=
  ((perm.filter _).map _).sum_eq
theorem Ranks.key_iff (ranks : Ranks engines results all) (url : String) (score : ℚ) :
    (url,score) ∈ all.map (fun hit => (hit.url,hit.score)) ↔
      (∃ engine ∈ engines, engine.lists url = true) ∧ score = fusedScore engines url := by
  constructor
  · intro member
    obtain ⟨hit,isHit,same⟩ := List.mem_map.mp member
    obtain ⟨rfl,rfl⟩ := Prod.mk.inj same
    exact ⟨(ranks.urls_iff _).mp (List.mem_map_of_mem isHit),(ranks.fused hit isHit).score⟩
  · rintro ⟨listed,rfl⟩
    obtain ⟨hit,isHit,rfl⟩ := List.mem_map.mp ((ranks.urls_iff url).mpr listed)
    exact List.mem_map.mpr ⟨hit,isHit,by rw [(ranks.fused hit isHit).score]⟩
theorem Ranks.unique (ranks : Ranks engines results all) (ranks' : Ranks engines' results' all') (perm : engines'.Perm engines) :
    results'.map (fun hit => (hit.url,hit.score)) = results.map (fun hit => (hit.url,hit.score)) := by
  have same : ∀ key, key ∈ all'.map (fun hit => (hit.url,hit.score)) ↔ key ∈ all.map (fun hit => (hit.url,hit.score)) := by
    rintro ⟨url,score⟩
    rw [ranks.key_iff,ranks'.key_iff,fusedScore_perm perm]
    simp only [perm.mem_iff]
  have keysApart : ∀ {hits : List SearchHit}, (hits.map (·.url)).Nodup → (hits.map fun hit => (hit.url,hit.score)).Nodup := by
    intro hits nodup
    have firsts : (hits.map fun hit => (hit.url,hit.score)).map Prod.fst = hits.map (·.url) := by
      rw [List.map_map]
      rfl
    exact List.Nodup.of_map Prod.fst (firsts ▸ nodup)
  let before (left right : String × ℚ) : Prop := right.2 < left.2 ∨ (right.2 = left.2 ∧ left.1 < right.1)
  have sorted : (all.map fun hit => (hit.url,hit.score)).Pairwise before := List.pairwise_map.mpr ranks.sorted
  have sorted' : (all'.map fun hit => (hit.url,hit.score)).Pairwise before := List.pairwise_map.mpr ranks'.sorted
  have asymmetric : ∀ a b, a ∈ all'.map (fun hit => (hit.url,hit.score)) → b ∈ all.map (fun hit => (hit.url,hit.score)) →
      before a b → before b a → a = b := by
    rintro a b _ _ (less | ⟨level,first⟩) (less' | ⟨level',first'⟩)
    · exact absurd less' (not_lt.mpr less.le)
    · exact absurd level'.symm less.ne
    · exact absurd level.symm less'.ne
    · exact absurd first' (String.lt_asymm first)
  have together := ((List.perm_ext_iff_of_nodup (keysApart ranks'.urls_nodup) (keysApart ranks.urls_nodup)).mpr same).eq_of_pairwise
    asymmetric sorted' sorted
  rw [ranks.truncated,ranks'.truncated,List.map_take,List.map_take,together]

theorem merges_nothing : Merges [] [] := ⟨List.nodup_nil,nofun,nofun⟩
theorem gathered_merges (distinct : (engines.map (·.id)).Nodup) : Merges engines (engines.foldl Gathered.take {}).merged := by
  have run := Merges.run engines {} merges_nothing
  rw [List.nil_append] at run
  exact run distinct

theorem search_ranks [Iteration] {query : String} (distinct : (engines.map (·.id)).Nodup) (asked : (trim query).isEmpty = false)
    (listed : ∃ engine ∈ engines, engine.items ≠ []) :
    ∃ results all, search (.ok ()) engines query = .ok results ∧ Ranks engines results all := by
  have merges := gathered_merges distinct
  have filled : (engines.foldl Gathered.take {}).merged.isEmpty = false := by
    obtain ⟨engine,member,some_⟩ := listed
    obtain ⟨item,isItem⟩ := List.exists_mem_of_ne_nil _ some_
    by_contra empty
    have isEmpty : (engines.foldl Gathered.take {}).merged = [] := by simpa using empty
    have missing : Keyed.lookup (engines.foldl Gathered.take {}).merged item.url = none := by
      rw [isEmpty]
      rfl
    have unlisted := merges.missing item.url missing engine member
    rw [lists_iff.mpr ⟨item,isItem,rfl⟩] at unlisted
    cases unlisted
  refine ⟨_,_,?_,merges.ranks distinct⟩
  simp only [search,asked,filled,Bool.false_eq_true,if_false]
/-- A search that was asked and that some engine has a result for gives the best fused
    hits, whatever the order of the engines. -/
theorem search_fuses [Iteration] {query : String} (distinct : (engines.map (·.id)).Nodup) (asked : (trim query).isEmpty = false)
    (listed : ∃ engine ∈ engines, engine.items ≠ []) :
    ∃ results all, search (.ok ()) engines query = .ok results ∧ Ranks engines results all ∧
      ∀ (other : Iteration) (engines' : List SearchEngine), engines'.Perm engines →
        ∃ results', @search other (.ok ()) engines' query = .ok results' ∧
          results'.map (fun hit => (hit.url,hit.score)) = results.map (fun hit => (hit.url,hit.score)) := by
  obtain ⟨results,all,found,ranks⟩ := search_ranks distinct asked listed
  refine ⟨results,all,found,ranks,fun other engines' perm => ?_⟩
  have distinct' : (engines'.map (·.id)).Nodup := (perm.map _).nodup_iff.mpr distinct
  have listed' : ∃ engine ∈ engines', engine.items ≠ [] := by simpa only [perm.mem_iff] using listed
  obtain ⟨results',all',found',ranks'⟩ := @search_ranks engines' other query distinct' asked listed'
  exact ⟨results',found',ranks.unique ranks' perm⟩

end Ranking

section Example
local instance exampleIteration : Iteration := ⟨List.reverse,List.reverse_perm⟩

def duckduckgo : SearchEngine :=
  ⟨"duckduckgo",.ok [⟨"P","https://p","short"⟩,⟨"Q","https://q","q"⟩,⟨"P","https://p","longer snippet"⟩]⟩
def brave : SearchEngine := ⟨"brave",.ok [⟨"Q","https://q","other"⟩]⟩
def failing : SearchEngine := ⟨"google",.error "HTTP 503"⟩
theorem search_fuses_agreed : ∃ results all, search (.ok ()) [duckduckgo,failing,brave] " lean " = .ok results ∧
    Ranks [duckduckgo,failing,brave] results all ∧
    ∀ (other : Iteration) (engines' : List SearchEngine), engines'.Perm [duckduckgo,failing,brave] →
      ∃ results', @search other (.ok ()) engines' " lean " = .ok results' ∧
        results'.map (fun hit => (hit.url,hit.score)) = results.map (fun hit => (hit.url,hit.score)) :=
  search_fuses (by decide) (by decide +kernel) ⟨brave,by simp,by simp [SearchEngine.items,brave,Except.toOption]⟩

end Example

end MyCursor.Federation
