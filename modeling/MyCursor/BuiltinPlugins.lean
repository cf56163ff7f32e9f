import Mathlib.Data.List.Nodup
import Mathlib.Logic.Function.Basic
import MyCursor.Transitions

/-!
# Installing built-in plugins

`install` of `plugin/builtin.rs` for one plugin. The version in the manifest on disk
decides whether an attempt does anything; an attempt may stop after any write or
deletion of a file, and the next one starts from what is left.
-/
namespace MyCursor.BuiltinPlugins
open Transitions

/-- The files below the directory of the plugin, by their relative paths. -/
abbrev Directory := String → Option String
abbrev Files := List (String × String)

inductive Operation where
  | Write (name content : String)
  | Delete (name : String)
deriving DecidableEq
def Operation.name : Operation → String
  | .Write name _ | .Delete name => name
def Operation.content : Operation → Option String
  | .Write _ content => some content
  | .Delete _ => none
def perform (directory : Directory) (operation : Operation) : Directory :=
  Function.update directory operation.name operation.content

def manifest : String := "plugin.json"
def find (files : Files) (name : String) : Option String := (files.find? (·.1 = name)).map (·.2)
def known (files : Files) (name : String) : Bool := files.any (·.1 = name)

/-- The writes of `write_plugin`; `write_if_changed` leaves a file alone that has the
    content already. -/
def writes (directory : Directory) : Files → List Operation
  | [] => []
  | (name,content) :: rest =>
    if directory name = some content then writes directory rest
    else .Write name content :: writes (perform directory (.Write name content)) rest
/-- `prune_unknown_files`; `listing` are the files as they are found. -/
def removals (files : Files) (listing : List String) : List Operation :=
  (listing.filter fun name => !known files name).map .Delete

section Install
variable (version : String → Option String)

def embedded_version (files : Files) : Option String := (find files manifest).bind version
def disk_version (directory : Directory) : Option String := (directory manifest).bind version

/-- What an attempt finds when it looks for unknown files, and after how many
    operations it stops if it does not return. -/
structure Attempt where
  listing : List String
  stop : Option Nat
deriving DecidableEq

/-- What an attempt has to do; one without an embedded version fails at once. -/
def operations (files : Files) (directory : Directory) (listing : List String) : List Operation :=
  match embedded_version version files with
  | none => []
  | some embedded =>
    if disk_version version directory = some embedded then [] else writes directory files ++ removals files listing
def performed (files : Files) (directory : Directory) (attempt : Attempt) : List Operation :=
  let all := operations version files directory attempt.listing
  attempt.stop.elim all all.take
def install (files : Files) (directory : Directory) (attempt : Attempt) : Directory :=
  after perform directory (performed version files directory attempt)

/-- The listing has each file once that is there after the writes. -/
structure Lists (files : Files) (directory : Directory) (attempt : Attempt) : Prop where
  nodup : attempt.listing.Nodup
  mem : ∀ name, name ∈ attempt.listing ↔ after perform directory (writes directory files) name ≠ none

/-- The attempt stops before it writes the manifest, or when all is done. -/
def Careful (files : Files) (directory : Directory) (attempt : Attempt) : Prop :=
  manifest ∉ (performed version files directory attempt).map (·.name) ∨
    performed version files directory attempt = operations version files directory attempt.listing

/-- The directory has the embedded files and no other. -/
def Exact (files : Files) (directory : Directory) : Prop := ∀ name, directory name = find files name

end Install

variable {files : Files}

theorem perform_other {directory : Directory} {operations : List Operation} {name : String}
    (other : name ∉ operations.map (·.name)) : after perform directory operations name = directory name := by
  induction operations generalizing directory with
  | nil => rfl
  | cons operation rest ih =>
    rw [List.map_cons,List.mem_cons,not_or] at other
    rw [after_cons,ih other.2]
    exact Function.update_of_ne other.1 ..
theorem perform_mem {directory : Directory} {operations : List Operation} (distinct : (operations.map (·.name)).Nodup)
    {operation : Operation} (member : operation ∈ operations) :
    after perform directory operations operation.name = operation.content := by
  induction operations generalizing directory with
  | nil => cases member
  | cons first rest ih =>
    obtain ⟨apart,others⟩ := List.nodup_cons.mp distinct
    rw [after_cons]
    rcases List.mem_cons.mp member with rfl | later
    · rw [perform_other apart]
      exact Function.update_self ..
    · exact ih others later

theorem writes_eq (distinct : (files.map (·.1)).Nodup) (directory : Directory) :
    writes directory files = (files.filter fun file => directory file.1 ≠ some file.2).map fun file => .Write file.1 file.2 := by
  induction files generalizing directory with
  | nil => rfl
  | cons file rest ih =>
    obtain ⟨name,content⟩ := file
    obtain ⟨apart,others⟩ := List.nodup_cons.mp distinct
    rw [writes]
    by_cases same : directory name = some content
    · rw [if_pos same,ih others,List.filter_cons_of_neg (by simpa using same)]
    · rw [if_neg same,ih others,List.filter_cons_of_pos (by simpa using same),List.map_cons]
      refine congrArg _ (congrArg _ (List.filter_congr fun other member => ?_))
      have differs : other.1 ≠ name := by
        rintro rfl
        exact apart (List.mem_map.mpr ⟨other,member,rfl⟩)
      rw [perform,show (Operation.Write name content).name = name from rfl,Function.update_of_ne differs]

theorem find_mem (distinct : (files.map (·.1)).Nodup) {file : String × String} (member : file ∈ files) :
    find files file.1 = some file.2 := by
  induction files with
  | nil => cases member
  | cons first rest ih =>
    obtain ⟨apart,others⟩ := List.nodup_cons.mp distinct
    rcases List.mem_cons.mp member with rfl | later
    · simp [find]
    · have differs : first.1 ≠ file.1 := by
        intro equal
        exact apart (List.mem_map.mpr ⟨file,later,equal.symm⟩)
      have found := ih others later
      rw [find,List.find?_cons_of_neg (by simpa using differs)]
      exact found
theorem find_known {name content : String} (found : find files name = some content) : (name,content) ∈ files := by
  obtain ⟨file,isFile,rfl⟩ := Option.map_eq_some_iff.mp found
  have same : file.1 = name := by simpa using List.find?_some isFile
  rw [← same]
  exact List.mem_of_find?_eq_some isFile
theorem find_unknown {name : String} : find files name = none ↔ known files name = false := by
  simp [find,known]

/-- The operations are on different files; each is needed, and no other is. -/
structure Plan (files : Files) (directory : Directory) (plan : List Operation) : Prop where
  distinct : (plan.map (·.name)).Nodup
  sound : ∀ operation ∈ plan, directory operation.name ≠ operation.content ∧ find files operation.name = operation.content
  complete : ∀ name, directory name ≠ find files name → name ∈ plan.map (·.name)

section Plans
variable {files : Files} {directory : Directory} {plan : List Operation}

theorem Plan.exact (isPlan : Plan files directory plan) : Exact files (after perform directory plan) := by
  intro name
  by_cases member : name ∈ plan.map (·.name)
  · obtain ⟨operation,isOperation,rfl⟩ := List.mem_map.mp member
    rw [perform_mem isPlan.distinct isOperation,(isPlan.sound operation isOperation).2]
  · rw [perform_other member]
    by_contra differs
    exact member (isPlan.complete name differs)
theorem Plan.inexact (isPlan : Plan files directory plan) {count : Nat} (short : plan.take count ≠ plan) :
    ¬ Exact files (after perform directory (plan.take count)) := by
  intro exact_
  obtain ⟨operation,left⟩ : ∃ operation, operation ∈ plan.drop count := by
    apply List.exists_mem_of_ne_nil
    intro none
    apply short
    rw [← List.take_append_drop count plan,none,List.append_nil,List.take_take,Nat.min_self]
  have distinct := isPlan.distinct
  rw [← List.take_append_drop count plan,List.map_append] at distinct
  have apart : operation.name ∉ (plan.take count).map (·.name) := fun earlier =>
    (List.nodup_append.mp distinct).2.2 _ earlier _ (List.mem_map_of_mem left) rfl
  have needed := isPlan.sound operation (List.mem_of_mem_drop left)
  have same := exact_ operation.name
  rw [perform_other apart,needed.2] at same
  exact needed.1 same

theorem write_plan (distinct : (files.map (·.1)).Nodup) {listing : List String} (nodup : listing.Nodup)
    (lists : ∀ name, name ∈ listing ↔ after perform directory (writes directory files) name ≠ none) :
    Plan files directory (writes directory files ++ removals files listing) := by
  have isWrite : ∀ operation, operation ∈ writes directory files ↔
      ∃ file ∈ files, directory file.1 ≠ some file.2 ∧ .Write file.1 file.2 = operation := by
    intro operation
    rw [writes_eq distinct]
    simp [and_assoc]
  have isRemoval : ∀ operation, operation ∈ removals files listing ↔
      ∃ name ∈ listing, find files name = none ∧ .Delete name = operation := by
    intro operation
    simp [removals,find_unknown,and_assoc]
  have unwritten : ∀ name, find files name = none → after perform directory (writes directory files) name = directory name := by
    intro name unknown
    apply perform_other
    intro member
    obtain ⟨operation,isOperation,rfl⟩ := List.mem_map.mp member
    obtain ⟨file,isFile,_,rfl⟩ := (isWrite operation).mp isOperation
    rw [show (Operation.Write file.1 file.2).name = file.1 from rfl,find_mem distinct isFile] at unknown
    cases unknown
  refine ⟨?_,?_,?_⟩
  · rw [List.map_append]
    refine List.nodup_append.mpr ⟨?_,?_,?_⟩
    · rw [writes_eq distinct,List.map_map]
      exact distinct.sublist (List.filter_sublist.map _)
    · rw [removals,List.map_map,show (Operation.name ∘ Operation.Delete) = id from rfl,List.map_id]
      exact nodup.filter _
    · intro name written other removed equal
      subst equal
      obtain ⟨first,isFirst,rfl⟩ := List.mem_map.mp written
      obtain ⟨second,isSecond,same⟩ := List.mem_map.mp removed
      obtain ⟨file,isFile,_,rfl⟩ := (isWrite first).mp isFirst
      obtain ⟨name,_,unknown,rfl⟩ := (isRemoval second).mp isSecond
      rw [show name = file.1 from same,find_mem distinct isFile] at unknown
      cases unknown
  · intro operation member
    rcases List.mem_append.mp member with write | removal
    · obtain ⟨file,isFile,differs,rfl⟩ := (isWrite operation).mp write
      exact ⟨differs,find_mem distinct isFile⟩
    · obtain ⟨name,listed,unknown,rfl⟩ := (isRemoval operation).mp removal
      refine ⟨?_,unknown⟩
      show directory name ≠ none
      rw [← unwritten name unknown]
      exact (lists name).mp listed
  · intro name differs
    rw [List.map_append,List.mem_append]
    cases found : find files name with
    | some content =>
      refine .inl (List.mem_map.mpr ⟨.Write name content,?_,rfl⟩)
      exact (isWrite _).mpr ⟨(name,content),find_known found,found ▸ differs,rfl⟩
    | none =>
      refine .inr (List.mem_map.mpr ⟨.Delete name,?_,rfl⟩)
      refine (isRemoval _).mpr ⟨name,(lists name).mpr ?_,found,rfl⟩
      rw [unwritten name found]
      exact found ▸ differs

end Plans

section Runs
variable {version : String → Option String} {files : Files} {directory : Directory} {embedded : String} {attempt : Attempt}

theorem operations_current (isEmbedded : embedded_version version files = some embedded)
    (current : disk_version version directory = some embedded) (listing : List String) :
    operations version files directory listing = [] := by
  rw [operations,isEmbedded]
  exact if_pos current
theorem operations_plan (distinct : (files.map (·.1)).Nodup) (isEmbedded : embedded_version version files = some embedded)
    (other : disk_version version directory ≠ some embedded) (lists : Lists files directory attempt) :
    Plan files directory (operations version files directory attempt.listing) := by
  rw [operations,isEmbedded]
  dsimp only
  rw [if_neg other]
  exact write_plan distinct lists.nodup lists.mem
theorem performed_take (version : String → Option String) (files : Files) (directory : Directory) (attempt : Attempt) :
    ∃ count, performed version files directory attempt = (operations version files directory attempt.listing).take count := by
  obtain ⟨listing,stop⟩ := attempt
  cases stop with
  | none => exact ⟨_,(List.take_length).symm⟩
  | some count => exact ⟨count,rfl⟩

theorem install_current (isEmbedded : embedded_version version files = some embedded)
    (current : disk_version version directory = some embedded) : install version files directory attempt = directory := by
  obtain ⟨count,isTake⟩ := performed_take version files directory attempt
  rw [install,isTake,operations_current isEmbedded current,List.take_nil]
  rfl
theorem exact_current (isEmbedded : embedded_version version files = some embedded) (exact_ : Exact files directory) :
    disk_version version directory = some embedded := by
  rw [disk_version,exact_ manifest]
  exact isEmbedded

theorem careful_install (distinct : (files.map (·.1)).Nodup) (isEmbedded : embedded_version version files = some embedded)
    (other : disk_version version directory ≠ some embedded) (lists : Lists files directory attempt)
    (careful : Careful version files directory attempt) :
    disk_version version (install version files directory attempt) ≠ some embedded ∨
      Exact files (install version files directory attempt) := by
  rcases careful with before | all
  · refine .inl ?_
    rw [install,disk_version,perform_other before]
    exact other
  · refine .inr ?_
    rw [install,all]
    exact (operations_plan distinct isEmbedded other lists).exact
theorem careless_install (distinct : (files.map (·.1)).Nodup) (isEmbedded : embedded_version version files = some embedded)
    (other : disk_version version directory ≠ some embedded) (lists : Lists files directory attempt)
    (careless : ¬ Careful version files directory attempt) :
    disk_version version (install version files directory attempt) = some embedded ∧
      ¬ Exact files (install version files directory attempt) := by
  have plan := operations_plan distinct isEmbedded other lists
  rw [Careful,not_or,not_not] at careless
  obtain ⟨written,short⟩ := careless
  obtain ⟨count,isTake⟩ := performed_take version files directory attempt
  rw [isTake] at written short
  rw [install,isTake]
  refine ⟨?_,plan.inexact short⟩
  obtain ⟨operation,isOperation,isManifest⟩ := List.mem_map.mp written
  have prefixDistinct : (((operations version files directory attempt.listing).take count).map (·.name)).Nodup :=
    plan.distinct.sublist ((List.take_sublist ..).map _)
  have content : after perform directory ((operations version files directory attempt.listing).take count) operation.name =
      operation.content := perform_mem prefixDistinct isOperation
  have needed := (plan.sound operation (List.mem_of_mem_take isOperation)).2
  rw [isManifest] at content needed
  rw [disk_version,content,← needed]
  exact isEmbedded

/-- After an attempt that returns, the directory is right exactly if no attempt
    before it stopped between its write of the manifest and its last operation. -/
theorem install_exact_iff (distinct : (files.map (·.1)).Nodup) (isEmbedded : embedded_version version files = some embedded)
    (other : disk_version version directory ≠ some embedded) (attempts : List Attempt) (last : Attempt) (returns : last.stop = none)
    (lists : Meets (install version files) (Lists files) directory (attempts ++ [last])) :
    Exact files (after (install version files) directory (attempts ++ [last])) ↔
      Meets (install version files) (Careful version files) directory attempts := by
  have stays : ∀ (attempts : List Attempt) {directory : Directory}, disk_version version directory = some embedded →
      after (install version files) directory attempts = directory := by
    intro attempts directory current
    induction attempts with
    | nil => rfl
    | cons attempt rest ih => rw [after_cons,install_current isEmbedded current,ih]
  have quiet : ∀ (attempts : List Attempt) {directory : Directory}, disk_version version directory = some embedded →
      Meets (install version files) (Careful version files) directory attempts := by
    intro attempts directory current
    induction attempts with
    | nil => trivial
    | cons attempt rest ih =>
      refine ⟨.inl ?_,?_⟩
      · obtain ⟨count,isTake⟩ := performed_take version files directory attempt
        simp [isTake,operations_current isEmbedded current]
      · rwa [install_current isEmbedded current]
  induction attempts generalizing directory with
  | nil =>
    refine iff_of_true ?_ trivial
    have whole : performed version files directory last = operations version files directory last.listing := by
      rw [performed,returns]
      rfl
    show Exact files (install version files directory last)
    rw [install,whole]
    exact (operations_plan distinct isEmbedded other lists.1).exact
  | cons attempt rest ih =>
    by_cases careful : Careful version files directory attempt
    · rcases careful_install distinct isEmbedded other lists.1 careful with still | exact_
      · exact (ih still lists.2).trans ⟨fun later => ⟨careful,later⟩,fun both => both.2⟩
      · have current := exact_current isEmbedded exact_
        refine iff_of_true ?_ ⟨careful,quiet rest current⟩
        rw [List.cons_append,after_cons,stays _ current]
        exact exact_
    · obtain ⟨current,inexact⟩ := careless_install distinct isEmbedded other lists.1 careful
      refine iff_of_false ?_ fun both => careful both.1
      rw [List.cons_append,after_cons,stays _ current]
      exact inexact

end Runs

def manifestOf (version : String) : String := "\x7b\"version\":\"" ++ version ++ "\"\x7d"
def readVersion (text : String) : Option String := ["0.0.1","0.0.2"].find? fun version => manifestOf version = text
def bundle : Files := [("plugin.json",manifestOf "0.0.2"),("main.ts","new")]
/-- An earlier version with a file that the new one does not have. -/
def earlier : Directory := fun name => find [("plugin.json",manifestOf "0.0.1"),("main.ts","old"),("stale.ts","old")] name
def found : List String := ["main.ts","plugin.json","stale.ts"]

/-- The first attempt stops after the manifest, and the second has nothing to do. -/
theorem half_installed : disk_version readVersion earlier ≠ embedded_version readVersion bundle ∧
      after (install readVersion bundle) earlier [⟨found,some 1⟩,⟨found,none⟩] "main.ts" = some "old" ∧
      after (install readVersion bundle) earlier [⟨found,some 1⟩,⟨found,none⟩] "stale.ts" = some "old" ∧
      ¬ Exact bundle (after (install readVersion bundle) earlier [⟨found,some 1⟩,⟨found,none⟩]) := by
  have main : after (install readVersion bundle) earlier [⟨found,some 1⟩,⟨found,none⟩] "main.ts" = some "old" := by decide +kernel
  refine ⟨by decide +kernel,main,by decide +kernel,?_⟩
  intro exact_
  have same := exact_ "main.ts"
  rw [main] at same
  revert same
  decide +kernel

theorem lists_earlier (stop : Option Nat) : Lists bundle earlier ⟨found,stop⟩ := by
  have isWrites : (writes earlier bundle).map (·.name) = ["plugin.json","main.ts"] := by decide +kernel
  refine ⟨show found.Nodup by decide,fun name => ?_⟩
  by_cases listed : name ∈ found
  · refine iff_of_true listed ?_
    have there : ∀ name ∈ found, after perform earlier (writes earlier bundle) name ≠ none := by decide +kernel
    exact there name listed
  · refine iff_of_false listed (not_not.mpr ?_)
    simp only [found,List.mem_cons,List.not_mem_nil,or_false,not_or] at listed
    rw [perform_other (by simp [isWrites,listed])]
    simp [earlier,find,Ne.symm listed.1,Ne.symm listed.2.1,Ne.symm listed.2.2]

theorem install_exact_iff_retried : Exact bundle (after (install readVersion bundle) earlier ([⟨found,some 0⟩] ++ [⟨found,none⟩])) :=
  (install_exact_iff (by decide) (by decide +kernel : embedded_version readVersion bundle = some "0.0.2") (by decide +kernel)
    [⟨found,some 0⟩] ⟨found,none⟩ rfl ⟨lists_earlier (some 0),lists_earlier none,trivial⟩).mpr ⟨.inl (by decide +kernel),trivial⟩

end MyCursor.BuiltinPlugins
