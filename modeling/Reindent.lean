import Reindent.Main
import Reindent.Proofs.Document.Contents
import Reindent.Proofs.Document.Counts
import Reindent.Proofs.Document.Marker
import Reindent.Proofs.Document.LineCount
import Reindent.Proofs.Pass.BlockText
import Reindent.Proofs.Pass.Routing
import Reindent.Proofs.Pass.OverIndent
import Reindent.Proofs.Pass.Concatenation
import Reindent.Proofs.Pass.Landing
import Reindent.Proofs.Pass.LiftOrder
import Reindent.Proofs.Pass.Treatment
import Reindent.Proofs.Pass.FirstChild
import Reindent.Proofs.Pass.Rigid
import Reindent.Proofs.Pass.ScalarEnd
import Reindent.Proofs.Pass.LooseLine
import Reindent.Proofs.Document.Crlf
import Reindent.Proofs.Diff.Patch
import Reindent.Proofs.Discovery.Once
import Reindent.Proofs.Discovery.Directory
import Reindent.Proofs.CommandLine.Run
import Reindent.Proofs.Line.KeyPattern
import Reindent.Proofs.Pass.Reread
import Reindent.Proofs.Config.Root
