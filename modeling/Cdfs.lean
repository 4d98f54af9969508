import Cdfs.Basis.Accesses
import Cdfs.Basis.Below
import Cdfs.Basis.Bytes
import Cdfs.Basis.Calls
import Cdfs.Basis.Created
import Cdfs.Basis.Cursor
import Cdfs.Basis.DecimalOrder
import Cdfs.Basis.Effect
import Cdfs.Basis.FileSystem
import Cdfs.Basis.FileSystemRules
import Cdfs.Basis.FsPath
import Cdfs.Basis.Json
import Cdfs.Basis.JsonText
import Cdfs.Basis.Linearize
import Cdfs.Basis.OrderedMap
import Cdfs.Basis.Preserves
import Cdfs.Basis.Region
import Cdfs.Basis.Removal
import Cdfs.Basis.Run
import Cdfs.Basis.SecondaryIndex
import Cdfs.Basis.Shape
import Cdfs.Basis.Throws
import Cdfs.Basis.Utf8
import Cdfs.Basis.Within
import Cdfs.Common.ByteOrder
import Cdfs.Common.LogStream
import Cdfs.Common.Logger
import Cdfs.Controller.ChunkGuard
import Cdfs.Controller.ChunkMerge
import Cdfs.Controller.ChunkSlots
import Cdfs.Controller.Confinement
import Cdfs.Controller.Download
import Cdfs.Controller.DurableUploads
import Cdfs.Controller.EscapedExceptions
import Cdfs.Controller.FileCtl
import Cdfs.Controller.FileCtlRules
import Cdfs.Controller.MergeOutcome
import Cdfs.Controller.MergePlaces
import Cdfs.Controller.MergeRetry
import Cdfs.Controller.MergeRules
import Cdfs.Controller.MergeSuccess
import Cdfs.Controller.MergeVerify
import Cdfs.Controller.MergedFile
import Cdfs.Controller.PublicationPolicy
import Cdfs.Controller.RequestRecords
import Cdfs.Controller.ResumeUpload
import Cdfs.Controller.ReturnedUrl
import Cdfs.Controller.ServerRuns
import Cdfs.Controller.StoredIntegrity
import Cdfs.Controller.UploadDownload
import Cdfs.Controller.UploadIndex
import Cdfs.Controller.UploadLimiter
import Cdfs.Controller.UploadPlaces
import Cdfs.Controller.UploadTrace
import Cdfs.Controller.WorkerPool
import Cdfs.Http.AcceptLoop
import Cdfs.Http.BoundaryPosition
import Cdfs.Http.Dispatch
import Cdfs.Http.HeaderParams
import Cdfs.Http.LatencyMax
import Cdfs.Http.LatencyReports
import Cdfs.Http.Multipart
import Cdfs.Http.MultipartBounds
import Cdfs.Http.QueryLoop
import Cdfs.Http.Router
import Cdfs.Http.Routing
import Cdfs.Http.Session
import Cdfs.Http.SessionLife
import Cdfs.Http.UrlEncoding
import Cdfs.Http.UrlGrammar
import Cdfs.Http.UrlUtils
import Cdfs.Meta.Accounting
import Cdfs.Meta.Catalog
import Cdfs.Meta.ConcurrentCounts
import Cdfs.Meta.ConcurrentSave
import Cdfs.Meta.ConcurrentStore
import Cdfs.Meta.Foreign
import Cdfs.Meta.IndexInvariant
import Cdfs.Meta.Listing
import Cdfs.Meta.Lookup
import Cdfs.Meta.MetaFile
import Cdfs.Meta.MetadataStore
import Cdfs.Meta.PrintedRecords
import Cdfs.Meta.Recount
import Cdfs.Meta.SaveDelete
import Cdfs.Meta.SaveOrder
import Cdfs.Meta.SceneListing
import Cdfs.Meta.Statistics
import Cdfs.Meta.TimeOrder
import Cdfs.Meta.UpdateMeta
import Cdfs.Meta.UploadedShards
import Cdfs.Store.CalmSave
import Cdfs.Store.ConcurrentChunks
import Cdfs.Store.ConcurrentWrite
import Cdfs.Store.CryptoUtils
import Cdfs.Store.FileStore
import Cdfs.Store.ReliableWrite
import Cdfs.Store.SaveFailure
import Cdfs.Store.SaveRead
import Cdfs.Store.ShardFiles
import Cdfs.Store.ShardScan
import Cdfs.Store.SparedFiles
import Cdfs.Store.StorableSave
import Cdfs.Store.StoreAccesses
import Cdfs.Store.WriteDisk
import Cdfs.Store.WriteExceptions
import Cdfs.Store.WritePlaces
