import AutoRefirst.Adler32
import AutoRefirst.AndroidTableReads
import AutoRefirst.AndroidTree
import AutoRefirst.AuthenticodeDigests
import AutoRefirst.AutoItInflate
import AutoRefirst.AutoItOutputs
import AutoRefirst.ByteSearch
import AutoRefirst.DerEncoding
import AutoRefirst.DirectoryArtifactRuns
import AutoRefirst.DirectoryInventory
import AutoRefirst.DirectoryJsonText
import AutoRefirst.DirectoryRuntime
import AutoRefirst.DominatorTree
import AutoRefirst.DotNetBundleSafety
import AutoRefirst.ElfImplicitWrites
import AutoRefirst.ElfScanInside
import AutoRefirst.ElfUnwindSound
import AutoRefirst.EntropyWindows
import AutoRefirst.FlowDominance
import AutoRefirst.FlutterRoundTrip
import AutoRefirst.GdscriptSupers
import AutoRefirst.GdscriptTail
import AutoRefirst.GenerationChains
import AutoRefirst.GodotContainment
import AutoRefirst.GodotKeyClosure
import AutoRefirst.IntrospectionStreams
import AutoRefirst.JsonReaders
import AutoRefirst.KnownRegions
import AutoRefirst.LebReaders
import AutoRefirst.LuaContract
import AutoRefirst.MachOGeometry
import AutoRefirst.MarshalRemap
import AutoRefirst.MarshalRootFields
import AutoRefirst.MarshalTermination
import AutoRefirst.MethodDispatchPre108
import AutoRefirst.ModelTrust
import AutoRefirst.ModifiedUtf8
import AutoRefirst.NestedElf
import AutoRefirst.NuitkaAmbiguity
import AutoRefirst.NuitkaContainment
import AutoRefirst.OpcodeNormalization
import AutoRefirst.PeExports
import AutoRefirst.PyInstallerDetection
import AutoRefirst.PyInstallerSafety
import AutoRefirst.ReaderDepth
import AutoRefirst.RecursiveGraphOrder
import AutoRefirst.RegisterTrackers
import AutoRefirst.RelationshipAccounting
import AutoRefirst.RelationshipMutations
import AutoRefirst.RelrTable
import AutoRefirst.RepairContract
import AutoRefirst.SpoolRuns
import AutoRefirst.StreamedDigests
import AutoRefirst.UpxRepairContract
import AutoRefirst.WasmConsistency
import AutoRefirst.ZipIngressSafety
