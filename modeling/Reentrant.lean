import Reentrant.Future.Agenda
import Reentrant.Main
import Reentrant.Proofs.CallerView
import Reentrant.Proofs.CheckedRuns
import Reentrant.Proofs.DirectRefinement
import Reentrant.Proofs.DispatchEffect
import Reentrant.Proofs.DisplayedValues
import Reentrant.Proofs.ForwardPrograms
import Reentrant.Proofs.FrameLimit
import Reentrant.Proofs.FreshStart
import Reentrant.Proofs.JournalRun
import Reentrant.Proofs.JsonRoundTrip
import Reentrant.Proofs.Marshalling
import Reentrant.Proofs.ScriptedPlay
import Reentrant.Proofs.Surfacing
import Reentrant.Proofs.TaskFinish
import Reentrant.Session
import Reentrant.Proofs.PendingHistory
import Reentrant.Proofs.ExactArithmetic
import Reentrant.Proofs.Registration
import Reentrant.Proofs.SymbolResolution
import Reentrant.Proofs.Derivations
import Reentrant.Proofs.LineColumns
import Reentrant.Proofs.PlacedListings
import Reentrant.Proofs.ErrorSpans
