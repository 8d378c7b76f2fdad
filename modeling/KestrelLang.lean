import KestrelLang.Host.Catalogue
import KestrelLang.Main
import KestrelLang.Proofs.Code.Acceptance
import KestrelLang.Proofs.Code.Origins
import KestrelLang.Proofs.Code.Reports
import KestrelLang.Proofs.Code.UnitOrder
import KestrelLang.Proofs.Grammar.Derived
import KestrelLang.Proofs.Grammar.LineBreaks
import KestrelLang.Proofs.Grammar.Nesting
import KestrelLang.Proofs.Grammar.Rounds
import KestrelLang.Proofs.Host.Caching
import KestrelLang.Proofs.Host.Completing
import KestrelLang.Proofs.Host.Completion
import KestrelLang.Proofs.Host.Parallel
import KestrelLang.Proofs.Label.Lexical
import KestrelLang.Proofs.Machine.Agreement
import KestrelLang.Proofs.Machine.CallSites
import KestrelLang.Proofs.Machine.Cancellation
import KestrelLang.Proofs.Machine.Depth
import KestrelLang.Proofs.Machine.Discipline
import KestrelLang.Proofs.Machine.FaultPlaces
import KestrelLang.Proofs.Machine.Sentinel
import KestrelLang.Proofs.Machine.Snapshot
import KestrelLang.Proofs.Machine.Unwinding
import KestrelLang.Proofs.Meaning.Preservation
import KestrelLang.Proofs.Value.Arithmetic
import KestrelLang.Proofs.Value.Comparison
import KestrelLang.Proofs.Value.Elements
import KestrelLang.Proofs.Value.Environments
