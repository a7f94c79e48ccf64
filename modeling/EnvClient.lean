import EnvClient.Main
import EnvClient.Proofs.Property.Codec
import EnvClient.Proofs.Property.Resolution
import EnvClient.Proofs.Redaction
import EnvClient.Proofs.Preparation
import EnvClient.Proofs.Requests
import EnvClient.Proofs.Paging
import EnvClient.Proofs.Sending
import EnvClient.Proofs.Command.Trace
import EnvClient.Proofs.Reencoding
import EnvClient.Proofs.Property.Positions
import EnvClient.Proofs.Envelopes
import EnvClient.Proofs.Opening
import EnvClient.Proofs.Command.Exit
import EnvClient.Proofs.Rendering
import EnvClient.Proofs.Sections
import EnvClient.Proofs.Format
import EnvClient.Proofs.Property.Stripping
import EnvClient.Proofs.Tolerance
import EnvClient.Proofs.Segments
import EnvClient.Proofs.Configuration
