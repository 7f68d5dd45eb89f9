import MessageSchema.Main
import MessageSchema.Proofs.Compile.Acceptance
import MessageSchema.Proofs.Compile.Collisions
import MessageSchema.Proofs.Compile.NameKeys
import MessageSchema.Proofs.Compile.RenamedClosures
import MessageSchema.Proofs.Export.Closed
import MessageSchema.Proofs.Export.LayoutIndependence
import MessageSchema.Proofs.Export.JsonRoundTrip
import MessageSchema.Proofs.Shell.Generation
import MessageSchema.Proofs.Syntax.ArrayBounds
import MessageSchema.Proofs.Syntax.ErrorSpans
import MessageSchema.Proofs.Syntax.LiteralTokens
import MessageSchema.Proofs.Workbench.Dissolving
import MessageSchema.Proofs.Workbench.FullNames
import MessageSchema.Proofs.Workbench.Guards
import MessageSchema.Proofs.Workbench.LimitedDumps
