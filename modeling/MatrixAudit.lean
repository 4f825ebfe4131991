import MatrixAudit.Command.Desk
import MatrixAudit.Main
import MatrixAudit.Proofs.ChallengeCount
import MatrixAudit.Proofs.VerifierTranscript
import MatrixAudit.Proofs.Agreement
import MatrixAudit.Proofs.AuditorTranscript
import MatrixAudit.Proofs.FileFields
import MatrixAudit.Proofs.FileReading
import MatrixAudit.Proofs.ClientFile
import MatrixAudit.Proofs.DatasetFile
import MatrixAudit.Proofs.FileRelation
import MatrixAudit.Proofs.Corruption
import MatrixAudit.Proofs.DeskSteps
import MatrixAudit.Proofs.OfflineRun
import MatrixAudit.Proofs.ClientDiagnosis
import MatrixAudit.Proofs.DatasetCodec
import MatrixAudit.Proofs.SplitProducts
import MatrixAudit.Proofs.DialogueOutcome
import MatrixAudit.Proofs.LengthAgreement
import MatrixAudit.Proofs.UniformDraws
import MatrixAudit.Proofs.WriteSession
import MatrixAudit.Proofs.BrokenChannels
import MatrixAudit.Proofs.ColumnListing
import MatrixAudit.Proofs.ForgedResponse
import MatrixAudit.Proofs.JsonLiterals
import MatrixAudit.Proofs.JsonLayout
import MatrixAudit.Proofs.SettingsText
import MatrixAudit.Proofs.ReportText
import MatrixAudit.Proofs.ReportTruth
import MatrixAudit.Proofs.PeerSteps
import MatrixAudit.Proofs.CommandVerdict
import MatrixAudit.Proofs.LinearProducts
import MatrixAudit.Proofs.CongruentRuns
import MatrixAudit.Proofs.DatasetRows
import MatrixAudit.Proofs.DrawStream
import MatrixAudit.Proofs.ReportIdentity
import MatrixAudit.Proofs.AccumulatorBounds
import MatrixAudit.Proofs.ResidueOperations
import MatrixAudit.Proofs.ScientificText
