import Marksmith.Analysis.Index

/-!
What generating reads: the declarations, what their markers say, the settings, and the tag manager
asset.
-/

namespace Marksmith

/-- A project that is generated for. -/
structure Project where
  host : Host
  index : MarkerIndex
  settings : Settings := {}
  /-- The text of the tag manager asset, if there is one. -/
  tagManager : Option String := none

end Marksmith
