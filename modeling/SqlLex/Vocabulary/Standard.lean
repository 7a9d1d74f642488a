import SqlLex.Vocabulary.Check

namespace SqlLex

/-!
# The standard vocabulary

The containers and keywords of the common query language.

* `standardContainers`, `standardKeywords` — the tables.
* `TokenKind.spellings` — the standard spellings of a kind.
* `Vocabulary.standard` — the vocabulary of the tables, which are consistent.
-/

/-- The standard containers. -/
def standardContainers : List Container :=
  [⟨'\x27', '\x27', .stringValue⟩,
   ⟨'"', '"', .stringValue⟩,
   ⟨'[', ']', .escapedValue⟩,
   ⟨'\x7b', '\x7d', .placeholderValue⟩,
   ⟨'\x60', '\x60', .escapedValue⟩,
   ⟨'(', ')', .expression⟩]

/-- The standard keywords. -/
def standardKeywords : List KeywordRow :=
  [⟨.select, ["select"]⟩,
   ⟨.from, ["from"]⟩,
   ⟨.as, ["as"]⟩,
   ⟨.where, ["where"]⟩,
   ⟨.innerJoin, ["join", "inner join"]⟩,
   ⟨.leftJoin, ["left join"]⟩,
   ⟨.rightJoin, ["right join"]⟩,
   ⟨.joinOn, ["on"]⟩,
   ⟨.groupBy, ["group by"]⟩,
   ⟨.orderBy, ["order by"]⟩,
   ⟨.limit, ["limit"]⟩,
   ⟨.and, ["and"]⟩,
   ⟨.or, ["or"]⟩,
   ⟨.like, ["like"]⟩,
   ⟨.between, ["between"]⟩,
   ⟨.not, ["not"]⟩,
   ⟨.equals, ["="]⟩,
   ⟨.notEquals, ["<>"]⟩,
   ⟨.greaterThan, [">"]⟩,
   ⟨.greaterThanOrEqual, [">="]⟩,
   ⟨.lessThan, ["<"]⟩,
   ⟨.lessThanOrEqual, ["<="]⟩,
   ⟨.sum, ["sum"]⟩,
   ⟨.count, ["count"]⟩,
   ⟨.isNull, ["is null"]⟩,
   ⟨.isNotNull, ["is not null"]⟩]

/-- The standard spellings of a kind; a kind that is no keyword has none. -/
def TokenKind.spellings (k : TokenKind) : List String :=
  match standardKeywords.find? (·.kind == k) with
  | some row => row.spellings
  | none => []

theorem standardTables_consistent : Consistent standardContainers (entriesOf standardKeywords) where
  openers_nodup := by decide
  canonical := by decide +kernel
  unambiguous := by unfold Unambiguous; decide +kernel

/-- The standard vocabulary. -/
def Vocabulary.standard : Vocabulary :=
  ⟨standardContainers, entriesOf standardKeywords, standardTables_consistent⟩

end SqlLex
