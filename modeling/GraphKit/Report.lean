/-!
# Reports of failures

Every part of the library has its own type of errors. A `Report` is what a caller sees of one: a
coarse category, and an explanation when the library itself refused the input rather than ran into
something it could not do.
-/

namespace GraphKit

inductive Category where
  | invalidValue
  | wrongType
  | missingKey
  | badIndex
  | missingMember
  | undefinedName
  | unboundResult
  | brokenAssumption
  | unsupported
  | failedLookup
  | runtime
  | overflow
  | divisionByZero
  | malformedText
  | malformedJson
  | undecodable
  | unencodable
  | exit
deriving DecidableEq

/-- What a caller sees of a failure. -/
structure Report where
  category : Category
  message : Option String := none
deriving DecidableEq

end GraphKit
