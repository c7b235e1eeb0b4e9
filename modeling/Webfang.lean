import Webfang.Assets.SingleDownload
import Webfang.Assets.TemporaryFiles
import Webfang.Axtree.Unforgeable
import Webfang.Batch.BatchCounts
import Webfang.Connect.SplicedConfig
import Webfang.Converter.SyntaxHighlight
import Webfang.Crawler.BinaryBytes
import Webfang.Crawler.CheckpointFile
import Webfang.Crawler.CloseVerdict
import Webfang.Crawler.DepthBound
import Webfang.Crawler.LinkExtractor
import Webfang.Crawler.PageBudget
import Webfang.Crawler.PeriodicSaves
import Webfang.Crawler.SinkConservation
import Webfang.Crawler.UrlQueueRuns
import Webfang.Domain.DispositionNames
import Webfang.Domain.ExcerptRepair
import Webfang.Domain.HiddenText
import Webfang.Domain.HtmlCleaner
import Webfang.Domain.IndexPages
import Webfang.Domain.InternalLinks
import Webfang.Domain.PatternMatching
import Webfang.Downloader.CookieBridge
import Webfang.Downloader.GovernedStarts
import Webfang.Downloader.RetryBudget
import Webfang.Downloader.RotatedAgent
import Webfang.Export.AiOutcomes
import Webfang.Export.ExactlyOnce
import Webfang.Export.Promotion
import Webfang.Export.RejectedDocuments
import Webfang.Export.RunDuplicates
import Webfang.Export.StoreConvergence
import Webfang.Export.VectorDimensions
import Webfang.Export.VectorInterleaving
import Webfang.Export.VersionDispatch
import Webfang.Extractor.Srcset
import Webfang.Http.RetryOutcomes
import Webfang.Ingestion.PageVersions
import Webfang.Lint.Completeness
import Webfang.Llm.RemoteEmbedding
import Webfang.Llm.SemanticCleaner
import Webfang.Mcp.Envelope
import Webfang.Mcp.EnvelopeId
import Webfang.Mcp.ExportRuns
import Webfang.Mcp.PathContainment
import Webfang.Mcp.ScrapeMetrics
import Webfang.Mcp.SessionCap
import Webfang.Network.AddressSpellings
import Webfang.Network.AlwaysDenied
import Webfang.Network.PolicyAgreement
import Webfang.Network.PolicyVerdicts
import Webfang.Network.SessionBans
import Webfang.Observability.FileTraceLayer
import Webfang.Output.ConfinedPaths
import Webfang.Output.DistinctFiles
import Webfang.Persistence.LoadAll
import Webfang.Persistence.Retention
import Webfang.Resource.PermitConservation
import Webfang.Selector.CacheSharing
import Webfang.Sitemap.CompressionHandler
import Webfang.Sitemap.DiscoveredUrls
import Webfang.Sitemap.DocumentEntries
import Webfang.Sitemap.PriorityOrder
import Webfang.Sitemap.RobotsDirective
import Webfang.Sitemap.UrlFilters
import Webfang.Vault.SyncRuns
