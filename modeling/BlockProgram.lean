import BlockProgram.Service.Announcer
import BlockProgram.Web.Preview
import BlockProgram.Main
import BlockProgram.Proofs.Emission.RangeForms
import BlockProgram.Proofs.Emission.CountingLoops
import BlockProgram.Proofs.Program.Freshness
import BlockProgram.Proofs.Program.Parameters
import BlockProgram.Proofs.Live.Delivery
import BlockProgram.Proofs.Live.Answers
import BlockProgram.Proofs.Workspace.Ancestry
import BlockProgram.Proofs.Workspace.Formats
import BlockProgram.Proofs.Workspace.Breakdowns
import BlockProgram.Proofs.Workspace.References
import BlockProgram.Proofs.Block.Encodings
import BlockProgram.Proofs.Emission.Omissions
import BlockProgram.Proofs.Emission.Operands
import BlockProgram.Proofs.Emission.Bracketing
import BlockProgram.Proofs.Program.Lines
import BlockProgram.Proofs.Program.Registry
import BlockProgram.Proofs.Service.Stored
import BlockProgram.Proofs.Text.Quoting
