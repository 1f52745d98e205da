import Lineage.Json.Word
import Lineage.Quality

/-!
# Qualities and queries in JSON

Both are words.
-/

namespace Lineage

namespace Quality

/-- The printed form. -/
def toJson (q : Quality) : Json := .str q.text

/-- The quality a document holds. -/
def ofJson? (j : Json) : Option Quality := do
  let word ← j.word?
  all.find? (·.text = word)

/-- The quality that a text holds. -/
def read (s : String) : Except Error Quality := Json.readAs ofJson? s

end Quality

namespace Query

/-- The printed form. -/
def toJson (q : Query) : Json := .str q.text

/-- The query a document holds. -/
def ofJson? (j : Json) : Option Query := do
  let word ← j.word?
  all.find? (·.text = word)

/-- The query that a text holds. -/
def read (s : String) : Except Error Query := Json.readAs ofJson? s

end Query

end Lineage
