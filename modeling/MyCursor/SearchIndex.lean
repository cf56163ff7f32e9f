import MyCursor.Keyed

/-!
# The index of a repository
-/
namespace MyCursor.SearchIndex

structure Chunk where
  file_path : String
  start_line : Nat
  end_line : Nat
  language : Option String
  content : String
deriving DecidableEq

end MyCursor.SearchIndex
