import AndroidSdk.SplitSelect.RuleCollapse
import AndroidSdk.FileTree.Tree
import AndroidSdk.FileTree.ExtractedTree
import AndroidSdk.FileTree.SourceSnapshot
import AndroidSdk.FileTree.ElfValidation
import AndroidSdk.Lib.Text
import AndroidSdk.FileTree.ReferenceLayout
import AndroidSdk.FileTree.LayoutVerdict
import AndroidSdk.Lib.Run
import AndroidSdk.Scripts.DependencyClosure
import AndroidSdk.Scripts.ReleaseChecksum
import AndroidSdk.Zip.Format
import AndroidSdk.Zip.ZipFile
import AndroidSdk.Zip.Layout
import AndroidSdk.Zip.RoundTrip
import AndroidSdk.Zip.AlignedOutput
import AndroidSdk.Lib.SortedVector
import AndroidSdk.SplitSelect.Config
import AndroidSdk.SplitSelect.Selector
import AndroidSdk.SplitSelect.RuleGenerator
import AndroidSdk.Aapt2.IdAssigner
import AndroidSdk.Lib.BinarySearch
import AndroidSdk.Aapt2.ResourceTable
import AndroidSdk.Lib.Criteria
import AndroidSdk.SplitSelect.BetterThanOrder
import AndroidSdk.Lib.Selection
import AndroidSdk.Aapt2.VersionCollapser
import AndroidSdk.Aapt2.TableSplitter
import AndroidSdk.Aapt2.TableView
import AndroidSdk.Aapt2.BinaryTable
import AndroidSdk.Aapt2.TableEntries
import AndroidSdk.Aapt2.Convert
import AndroidSdk.Aapt2.Obfuscator
import AndroidSdk.Aapt2.Container
import AndroidSdk.Aapt2.ProtoFlags
import AndroidSdk.Aidl.ConstExpressions
import AndroidSdk.Aidl.ExactEvaluation
import AndroidSdk.Aidl.CheckApi
import AndroidSdk.Aidl.ApiEvolution
import AndroidSdk.Aapt2.TableMerger
import AndroidSdk.Aapt2.MergedTable
import AndroidSdk.Config.Parse
import AndroidSdk.Config.ParseAlike
import AndroidSdk.Zip.CopiedEntries
import AndroidSdk.Zip.TrueOffsets
import AndroidSdk.Zip.Idempotence
import AndroidSdk.Zip.Removal
import AndroidSdk.SplitSelect.DensityCover
import AndroidSdk.SplitSelect.Partition
import AndroidSdk.SplitSelect.Generate
import AndroidSdk.Lib.Json
import AndroidSdk.SplitSelect.RuleJson
import AndroidSdk.Aapt2.AutoVersioner
import AndroidSdk.FileTree.ElfStructure
import AndroidSdk.FileTree.ReferenceNames
import AndroidSdk.Aapt2.ConfigDominance
import AndroidSdk.Aapt2.DominatorTree
import AndroidSdk.Aapt2.XmlCompatVersioner
import AndroidSdk.FileTree.GeneratedMetadata
import AndroidSdk.FileTree.ReferenceLinks
import AndroidSdk.FileTree.SourceManifest
import AndroidSdk.Lib.Occurrences
import AndroidSdk.Scripts.HostArchives
import AndroidSdk.Scripts.HostElfScan
import AndroidSdk.Androidfw.ModifiedUtf8
import AndroidSdk.Androidfw.IntegerLiteral
import AndroidSdk.Aapt2.EntryOffsets
import AndroidSdk.Aapt2.WritableIds
import AndroidSdk.Aapt2.XmlProto
import AndroidSdk.Androidfw.PoolEncodings
import AndroidSdk.Aapt2.FileSegment
import AndroidSdk.Aapt2.PathOrder
import AndroidSdk.Aapt2.ProductFilter
import AndroidSdk.Aapt2.ResourceValues
import AndroidSdk.Aapt2.StyleMerge
import AndroidSdk.Aapt2.TableClone
import AndroidSdk.Aapt2.TablePartition
import AndroidSdk.Aapt2.ViewLookup
import AndroidSdk.Androidfw.EntryBounds
import AndroidSdk.Androidfw.TypeReaders
import AndroidSdk.Aapt2.AttributeOrder
import AndroidSdk.Aapt2.BuiltString
import AndroidSdk.Aapt2.FlattensProperly
import AndroidSdk.Aapt2.JavaClassGenerator
import AndroidSdk.Aapt2.RTxt
import AndroidSdk.Aapt2.RTxtAlone
import AndroidSdk.Aidl.ConstGraph
import AndroidSdk.Aidl.ConstGraphCheck
import AndroidSdk.Aidl.ConstGraphEvaluate
import AndroidSdk.Aidl.IntegerLiterals
import AndroidSdk.Aidl.OneAnswer
import AndroidSdk.Androidfw.NinePatch
import AndroidSdk.Androidfw.NinePatchChunk
import AndroidSdk.Androidfw.PngChunkFilter
import AndroidSdk.Aapt2.SymbolTable
import AndroidSdk.Androidfw.AttributeFinder
import AndroidSdk.Androidfw.PoolBounds
import AndroidSdk.Androidfw.StringPoolReads
