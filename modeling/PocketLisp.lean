import PocketLisp.Main
import PocketLisp.Proofs.Alphabet
import PocketLisp.Proofs.Arithmetic
import PocketLisp.Proofs.Congruence
import PocketLisp.Proofs.DepthSetting
import PocketLisp.Proofs.EffectLog
import PocketLisp.Proofs.Endless
import PocketLisp.Proofs.Equality
import PocketLisp.Proofs.Flags
import PocketLisp.Proofs.Frame
import PocketLisp.Proofs.Grammar
import PocketLisp.Proofs.Independence
import PocketLisp.Proofs.Legible
import PocketLisp.Proofs.Literal
import PocketLisp.Proofs.Loop
import PocketLisp.Proofs.LoopFree
import PocketLisp.Proofs.Noninterference
import PocketLisp.Proofs.Ordering
import PocketLisp.Proofs.ParsingLaw
import PocketLisp.Proofs.Relocation
import PocketLisp.Proofs.Renaming
import PocketLisp.Proofs.RoundTrip
import PocketLisp.Proofs.Routing
import PocketLisp.Proofs.Sequence
import PocketLisp.Proofs.SessionFault
import PocketLisp.Proofs.Trace
import PocketLisp.Proofs.Typing
import PocketLisp.Proofs.WellFormed
