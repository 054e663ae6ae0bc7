import Myscm.Library.Prog
import Myscm.Library.Text
import Myscm.Library.Lines
import Myscm.Library.Utf8
import Myscm.Library.Directory
import Myscm.Library.FileTree
import Myscm.Library.Walks
import Myscm.Library.Subtree
import Myscm.Library.FileCalls
import Myscm.Library.Regex
import Myscm.Common.VersionFile
import Myscm.Server.ImageFormat
import Myscm.Server.Config
import Myscm.Server.AideDbManager
import Myscm.Server.VersionCheck
import Myscm.Server.Rotation
import Myscm.Server.ScanHistory
import Myscm.Server.RotationRecovery
import Myscm.Client.Report
import Myscm.Client.ReportStreams
import Myscm.Client.Archive
import Myscm.Client.SysImgValidator
import Myscm.Client.TemplateFile
import Myscm.Client.SysImgManager
import Myscm.Client.SysImgExtractor
import Myscm.Client.Main
import Myscm.Client.UnsignedImages
import Myscm.Client.VersionRuns
import Myscm.Client.Acceptance
import Myscm.Client.ApplyReadiness
import Myscm.Client.PropertyMarkers
import Myscm.Client.ReportMeaning
import Myscm.Client.ReportRequirements
import Myscm.Client.ReportRoundTrip
import Myscm.Client.TemplateUpdates
import Myscm.Library.Completion
import Myscm.Library.FileEffects
import Myscm.Library.TextWrap
import Myscm.Server.AideEntry
import Myscm.Server.ImageReports
import Myscm.Server.ImageFiles
import Myscm.Client.PatchRoute
import Myscm.Client.ChangedAttributes
import Myscm.Client.Confinement
import Myscm.Client.ExtractionSite
import Myscm.Client.ChosenConfig
import Myscm.Client.DryRun
import Myscm.Client.HostLookups
import Myscm.Client.ImageNames
import Myscm.Client.SFTPDownloader
import Myscm.Client.TemplateSubstitution
import Myscm.Client.ValidatedChanges
import Myscm.Library.AbsPaths
import Myscm.Library.ByteOrder
import Myscm.Library.CopyTree
import Myscm.Library.Countdown
import Myscm.Library.Decoders
import Myscm.Library.Encoders
import Myscm.Old.Io
import Myscm.Old.Packets
import Myscm.Old.UpgradeRequest
import Myscm.Old.UpgradeResponse
import Myscm.Server.AddedEntries
import Myscm.Server.AideCheckParser
import Myscm.Server.AideDbParser
import Myscm.Server.CheckReport
import Myscm.Server.CheckResults
import Myscm.Server.CopiedFiles
import Myscm.Server.DatabaseRequests
import Myscm.Server.GenerateImg
import Myscm.Server.Publication
import Myscm.Server.RecordedRows
import Myscm.Library.Blocks
import Myscm.Library.Gaps
import Myscm.Library.LineReads
import Myscm.Old.DownloadCommand
import Myscm.Old.PackagesManager
import Myscm.Server.GapReport
import Myscm.Library.Erasures
import Myscm.Client.Removals
import Myscm.Library.Frames
import Myscm.Library.EmptyDirs
import Myscm.Client.Untouched
import Myscm.Client.ContentArrival
import Myscm.Library.Machine
import Myscm.Old.MainLoop
import Myscm.Old.Session
import Myscm.Client.Upgrade
import Myscm.Client.Deployment
import Myscm.Library.FileMoves
import Myscm.Library.TreeWalks
import Myscm.Client.TreeMerge
