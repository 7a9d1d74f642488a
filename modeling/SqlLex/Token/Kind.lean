namespace SqlLex

/-!
# Kinds of tokens

What a token can be, and the category each kind belongs to.

* `TokenKind` — the kinds, grouped by category.
* `TokenKind.all` — every kind once.
* `TokenKind.name`, `TokenKind.ofName?` — the written name of a kind, and the kind of a name.
* `ofName?_name` — a kind is read back from its name.
-/

/-- What a token is. -/
inductive TokenKind where
  | select | from | as | where | groupBy | orderBy | limit
  | innerJoin | leftJoin | rightJoin | joinOn
  | and | or | like | between | not | isNull | isNotNull
  | equals | notEquals | greaterThan | greaterThanOrEqual | lessThan | lessThanOrEqual
  | sum | count
  | numeric | stringValue | escapedValue | placeholderValue | expression
  | unknown
deriving DecidableEq, Repr

/-- The part that kinds of tokens play in a query. -/
inductive TokenCategory where
  | clause | join | conditional | comparison | aggregate | value | unknown
deriving DecidableEq, Repr

/-- The written name of a category. -/
def TokenCategory.name : TokenCategory → String
  | .clause => "Clause"
  | .join => "Join"
  | .conditional => "Conditional"
  | .comparison => "Comparison"
  | .aggregate => "Aggregate"
  | .value => "Value"
  | .unknown => "Unknown"

namespace TokenKind

/-- Every kind, by category. -/
def all : List TokenKind :=
  [.select, .from, .as, .where, .groupBy, .orderBy, .limit,
   .innerJoin, .leftJoin, .rightJoin, .joinOn,
   .and, .or, .like, .between, .not, .isNull, .isNotNull,
   .equals, .notEquals, .greaterThan, .greaterThanOrEqual, .lessThan, .lessThanOrEqual,
   .sum, .count,
   .numeric, .stringValue, .escapedValue, .placeholderValue, .expression,
   .unknown]

/-- The written name of a kind. -/
def name : TokenKind → String
  | .select => "Select"
  | .from => "From"
  | .as => "As"
  | .where => "Where"
  | .groupBy => "GroupBy"
  | .orderBy => "OrderBy"
  | .limit => "Limit"
  | .innerJoin => "InnerJoin"
  | .leftJoin => "LeftJoin"
  | .rightJoin => "RightJoin"
  | .joinOn => "JoinOn"
  | .and => "And"
  | .or => "Or"
  | .like => "Like"
  | .between => "Between"
  | .not => "Not"
  | .isNull => "IsNull"
  | .isNotNull => "IsNotNull"
  | .equals => "Equals"
  | .notEquals => "NotEquals"
  | .greaterThan => "GreaterThan"
  | .greaterThanOrEqual => "GreaterThanOrEqual"
  | .lessThan => "LessThan"
  | .lessThanOrEqual => "LessThanOrEqual"
  | .sum => "Sum"
  | .count => "Count"
  | .numeric => "Numeric"
  | .stringValue => "StringValue"
  | .escapedValue => "EscapedValue"
  | .placeholderValue => "PlaceholderValue"
  | .expression => "Expression"
  | .unknown => "Unknown"

/-- The kind of the given name. -/
def ofName? (s : String) : Option TokenKind := all.find? (·.name == s)

/-- The category of a kind. -/
def category : TokenKind → TokenCategory
  | .select | .from | .as | .where | .groupBy | .orderBy | .limit => .clause
  | .innerJoin | .leftJoin | .rightJoin | .joinOn => .join
  | .and | .or | .like | .between | .not | .isNull | .isNotNull => .conditional
  | .equals | .notEquals | .greaterThan | .greaterThanOrEqual
  | .lessThan | .lessThanOrEqual => .comparison
  | .sum | .count => .aggregate
  | .numeric | .stringValue | .escapedValue | .placeholderValue | .expression => .value
  | .unknown => .unknown

/-! ### Laws -/

/-- A kind is read back from its name. -/
theorem ofName?_name (k : TokenKind) : ofName? k.name = some k := by cases k <;> decide

/-- Different kinds have different names. -/
theorem name_injective {k l : TokenKind} (h : k.name = l.name) : k = l := by
  have hk := ofName?_name k
  rw [h, ofName?_name l] at hk
  exact (Option.some.inj hk).symm

end TokenKind

end SqlLex
