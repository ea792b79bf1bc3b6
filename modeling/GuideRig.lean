import GuideRig.Main
import GuideRig.Proofs.Number.Nearest
import GuideRig.Proofs.Telemetry.Batch
import GuideRig.Proofs.Guide.Lexicon
import GuideRig.Proofs.Guide.Page
import GuideRig.Proofs.Http.Exchange
import GuideRig.Proofs.Random
import GuideRig.Proofs.Server.Confinement
import GuideRig.Proofs.Telemetry.Run
import GuideRig.Proofs.Text.Decimal
import GuideRig.Proofs.Json.Number
import GuideRig.Proofs.Json.Machine
import GuideRig.Proofs.Json.Grammar
import GuideRig.Proofs.Json.Unambiguity
import GuideRig.Proofs.Telemetry.ActionCounts
import GuideRig.Proofs.Json.Record
import GuideRig.Proofs.Conf
import GuideRig.Proofs.Conf.Extent
import GuideRig.Proofs.Server.Isolation
import GuideRig.Proofs.Telemetry.Report
import GuideRig.Proofs.Server.Stage
import GuideRig.Proofs.Server.Course
import GuideRig.Proofs.Telemetry.Halves
import GuideRig.Proofs.Telemetry.Indifference
import GuideRig.Proofs.Telemetry.Order
import GuideRig.Proofs.Url.Read
import GuideRig.Proofs.Telemetry.Requests
import GuideRig.Proofs.Url.Path
import GuideRig.Proofs.Telemetry.Destination
import GuideRig.Proofs.Telemetry.Terms
import GuideRig.Proofs.Http.BodyReader
import GuideRig.Proofs.Http.HeadReader
import GuideRig.Proofs.Telemetry.CutOff
import GuideRig.Proofs.Json.Reach
import GuideRig.Proofs.Telemetry.Documents
import GuideRig.Proofs.Server.Config
import GuideRig.Proofs.Telemetry.Blocks
import GuideRig.Proofs.Telemetry.Chance
import GuideRig.Proofs.Cli.Arguments
import GuideRig.Proofs.Cli.Plan
import GuideRig.Proofs.Server.Exit
