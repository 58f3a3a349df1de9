import SharedInfra.Firewall.SummaryAgreement
import SharedInfra.Firewall.ReadBackSoundness
import SharedInfra.DeploySlots.Agreement
import SharedInfra.Selection.AffectedShards
import SharedInfra.Deploys.PinSafety
import SharedInfra.ChannelKey.KeySafety
import SharedInfra.AnsibleRuntime.InstallHistory
import SharedInfra.AnsibleRuntime.PinAgreement
import SharedInfra.HetznerDeletes.PlanSafety
import SharedInfra.Edge.RouteSafety
import SharedInfra.Edge.BreakGlassUrls
import SharedInfra.Snds.RunHistory
import SharedInfra.ArchiveCheck.ExitStatus
import SharedInfra.Mail.MailboxSecrets
import SharedInfra.Mail.ConfigureFrame
import SharedInfra.Mail.SubmissionSecrets
import SharedInfra.StorageProbe.ProbeSafety
import SharedInfra.PullTrigger.PruneSafety
import SharedInfra.PullTrigger.SweepSafety
import SharedInfra.Alerting.RoutingLaws
import SharedInfra.RoleHarness.EveryStepRan
import SharedInfra.Alerting.SecretValues
import SharedInfra.CiJump.WholeKeys
import SharedInfra.ChannelKey.CutRuns
import SharedInfra.MailStack.StoppedRuns
import SharedInfra.Dns.TranscriptSafety
import SharedInfra.TenantCompose.SecretVerdict
import SharedInfra.TenantCompose.PortSafety
import SharedInfra.PullBootstrap.StaleRecords
import SharedInfra.Dns.RecordComparison
import SharedInfra.HetznerHost.SshNarrowing
import SharedInfra.HetznerHost.SignerBlock
import SharedInfra.Snds.LineIsolation
import SharedInfra.Dnsbl.StateFile
import SharedInfra.MailStack.StampHistory
import SharedInfra.Snds.Redaction
import SharedInfra.DemoBuild.CandidateMeaning
import SharedInfra.HostInputs.SeedingSilence
import SharedInfra.Mail.SendingZone
import SharedInfra.MailAdmin.BlockedIps
import SharedInfra.MailAdmin.AdminRotation
import SharedInfra.AddressPlan.DriftCheck
import SharedInfra.CiKeys.KeyLines
import SharedInfra.HostEgress.Egress
import SharedInfra.ChannelKey.PublicHalf
import SharedInfra.SecretsAudit.ShapedRuns
import SharedInfra.SecretsAudit.Layouts
import SharedInfra.Dnsbl.NameReading
import SharedInfra.Delivery.Environments
