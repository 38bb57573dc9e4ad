import Multiway.Json.Members
import Multiway.Json.Reader
import Multiway.Proofs.Copying
import Multiway.Proofs.Defects
import Multiway.Proofs.Deletion
import Multiway.Proofs.Depth
import Multiway.Proofs.Equality
import Multiway.Proofs.History
import Multiway.Proofs.Levels
import Multiway.Proofs.Neighbours
import Multiway.Proofs.Occurrence
import Multiway.Proofs.Opaque
import Multiway.Proofs.Pass
import Multiway.Proofs.Placement
import Multiway.Proofs.Refinement
import Multiway.Proofs.Scan
import Multiway.Proofs.Serial
import Multiway.Proofs.Symmetry
import Multiway.Proofs.Walk
import Multiway.Text.Inspect
import Multiway.Tree.Validate
import Multiway.Values
import Multiway.Workspace
