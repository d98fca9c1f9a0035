import SqlFixture.Main
import SqlFixture.Proofs.Loop
import SqlFixture.Proofs.Chunks
import SqlFixture.Proofs.Outcome
import SqlFixture.Proofs.Segments
import SqlFixture.Proofs.FirstTerminator
import SqlFixture.Proofs.Places
import SqlFixture.Proofs.Directives
import SqlFixture.Proofs.Written
import SqlFixture.Proofs.Provenance
import SqlFixture.Proofs.Rebuild
import SqlFixture.Proofs.Meaning
import SqlFixture.Proofs.Origins
import SqlFixture.Proofs.Relocation
import SqlFixture.Proofs.Joined
import SqlFixture.Proofs.FailFast
import SqlFixture.Proofs.CommentRun
import SqlFixture.Proofs.LeadingComment
import SqlFixture.Proofs.Boundary
import SqlFixture.Proofs.Validity
import SqlFixture.Proofs.Codeless
import SqlFixture.Proofs.TrailingWhitespace
import SqlFixture.Proofs.Checking
import SqlFixture.Proofs.ByteOrder
import SqlFixture.Proofs.LastSource
import SqlFixture.Proofs.Isolation
import SqlFixture.Proofs.Taking
import SqlFixture.Proofs.Dividing
import SqlFixture.Proofs.Wildcards
import SqlFixture.Proofs.FilesBelow
import SqlFixture.Proofs.Leading
import SqlFixture.Proofs.Finding
import SqlFixture.Proofs.Accounting
import SqlFixture.Proofs.Marking
import SqlFixture.Proofs.Complement
import SqlFixture.Proofs.AllBelow
import SqlFixture.Proofs.Replacement
import SqlFixture.Proofs.Defining
import SqlFixture.Proofs.Asserting
import SqlFixture.Proofs.Chains
