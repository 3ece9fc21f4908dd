import Memberwise.Main
import Memberwise.Derive.Implementation
import Memberwise.Command.Run
import Memberwise.Proofs.Expansion.ComparedFields
import Memberwise.Proofs.Expansion.Edits
import Memberwise.Proofs.Expansion.Words
import Memberwise.Proofs.Equality.ReadBack
import Memberwise.Proofs.Expansion.ReadBack
import Memberwise.Proofs.Token.Partition
import Memberwise.Proofs.Declaration.Agreement
import Memberwise.Proofs.Declaration.Locality
import Memberwise.Proofs.Declaration.Findings
import Memberwise.Proofs.Declaration.Continuation
import Memberwise.Proofs.Declaration.Concatenation
import Memberwise.Proofs.Declaration.MemberBlock
import Memberwise.Proofs.Declaration.Nesting
import Memberwise.Proofs.Expansion.PlainRecord
import Memberwise.Proofs.Equality.PrintedAll
import Memberwise.Proofs.Command.Verdict
import Memberwise.Proofs.Expansion.Dispatch
import Memberwise.Proofs.Expansion.LineEnds
import Memberwise.Proofs.Equality.Precedence
import Memberwise.Proofs.Token.Octets
import Memberwise.Proofs.Command.Markers
import Memberwise.Proofs.Record.Classification
import Memberwise.Proofs.Declaration.Captured
import Memberwise.Proofs.Declaration.Names
import Memberwise.Proofs.Declaration.Progress
import Memberwise.Proofs.Equality.Assembly
import Memberwise.Proofs.Derive.Equality
import Memberwise.Proofs.Command.Wrappers
import Memberwise.Proofs.Diagnostic.Calls
import Memberwise.Proofs.Diagnostic.Flush
import Memberwise.Proofs.Equality.Conjuncts
import Memberwise.Proofs.Diagnostic.LineTable
