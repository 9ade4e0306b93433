import ShadeGraph.Text.Basic
import ShadeGraph.Text.Utf8
import ShadeGraph.Text.Blank
import ShadeGraph.Text.Printable
import ShadeGraph.Text.Quoted
import ShadeGraph.Text.Fold
import ShadeGraph.Text.Path
import ShadeGraph.Number.Binary32
import ShadeGraph.Number.Shortest
import ShadeGraph.Number.Spelling
import ShadeGraph.Number.Buffer
import ShadeGraph.DataType
import ShadeGraph.Value
import ShadeGraph.Graph.Basic
import ShadeGraph.Graph.Check
import ShadeGraph.Glsl.ReservedWord
import ShadeGraph.Glsl.Literal
import ShadeGraph.Glsl.Identifier
import ShadeGraph.Glsl.Sampler
import ShadeGraph.Glsl.Swizzle
import ShadeGraph.Glsl.TokenTable
import ShadeGraph.Hash
import ShadeGraph.Cbor.Item
import ShadeGraph.Cbor.Parse
import ShadeGraph.Cbor.Record
import ShadeGraph.Graph.Codec
import ShadeGraph.Toml.Quote
import ShadeGraph.Toml.Scalar
import ShadeGraph.Toml.Document
import ShadeGraph.Toml.Parse
import ShadeGraph.Options.Method
import ShadeGraph.Options.Basic
import ShadeGraph.Options.File
import ShadeGraph.Library.Standard
import ShadeGraph.Library.Physical
import ShadeGraph.Library.Basic
import ShadeGraph.Library.Source
import ShadeGraph.Shader.Port
import ShadeGraph.Shader.Stage
import ShadeGraph.Shader.Token
import ShadeGraph.Node.Implementation
import ShadeGraph.Shader.Basic
import ShadeGraph.Shader.Context
import ShadeGraph.Shader.Declaration
import ShadeGraph.Shader.Include
import ShadeGraph.Node.Operand
import ShadeGraph.Node.Variables
import ShadeGraph.Node.Code
import ShadeGraph.Shader.Error
import ShadeGraph.Shader.Create
import ShadeGraph.Fragment.LightApi
import ShadeGraph.Fragment.Color
import ShadeGraph.Fragment.Generator
import ShadeGraph.Fragment.Basic
import ShadeGraph.Fragment.Codec
import ShadeGraph.Cache.Key
import ShadeGraph.Cache.Basic
import ShadeGraph.Command.Host
import ShadeGraph.Command.Disk
import ShadeGraph.Command.Run
import ShadeGraph.Cache.File
import ShadeGraph.Command.Arguments
import ShadeGraph.Main
import ShadeGraph.Number.Range
import ShadeGraph.Text.Sorting
import ShadeGraph.Proofs.Identifier
import ShadeGraph.Proofs.Naming
import ShadeGraph.Proofs.Substitution
import ShadeGraph.Proofs.Brackets
import ShadeGraph.Proofs.Spelling
import ShadeGraph.Proofs.Include
import ShadeGraph.Proofs.IndexedBlock
import ShadeGraph.Proofs.Inventory
import ShadeGraph.Proofs.Creation
import ShadeGraph.Proofs.ScopedWriting
import ShadeGraph.Proofs.RootFunction
import ShadeGraph.Proofs.Generation
import ShadeGraph.Proofs.SoundText
import ShadeGraph.Proofs.CleanText
import ShadeGraph.Proofs.RootNames
import ShadeGraph.Proofs.ParameterTable
import ShadeGraph.Proofs.ContextReuse
import ShadeGraph.Proofs.RootReads
import ShadeGraph.Proofs.Computation
import ShadeGraph.Proofs.PublishedPorts
import ShadeGraph.Proofs.HalfPrecision
import ShadeGraph.Proofs.CborReading
import ShadeGraph.Proofs.CborRecord
import ShadeGraph.Proofs.GraphCodec
import ShadeGraph.Proofs.DecodedGraph
import ShadeGraph.Proofs.StageFrame
import ShadeGraph.Proofs.SettledShader
import ShadeGraph.Proofs.Reencoding
import ShadeGraph.Proofs.MaskedShader
import ShadeGraph.Proofs.ValueIndependence
import ShadeGraph.Proofs.Pieces
import ShadeGraph.Proofs.DiskRoutes
import ShadeGraph.Proofs.CommandSteps
import ShadeGraph.Proofs.FragmentCodec
import ShadeGraph.Proofs.Samples
import ShadeGraph.Proofs.CacheStore
import ShadeGraph.Proofs.CacheTransparency
import ShadeGraph.Proofs.Expansion
import ShadeGraph.Proofs.PixelText
import ShadeGraph.Proofs.LibraryText
import ShadeGraph.Proofs.ExpandedFiles
import ShadeGraph.Proofs.Bracketing
import ShadeGraph.Proofs.HostUniforms
import ShadeGraph.Proofs.LegalNames
import ShadeGraph.Proofs.IdentifierRuns
import ShadeGraph.Proofs.CacheHistory
import ShadeGraph.Proofs.TomlSection
import ShadeGraph.Proofs.OptionsFile
import ShadeGraph.Proofs.PointedText
import ShadeGraph.Proofs.ReturnedColor
import ShadeGraph.Proofs.WellFormed
import ShadeGraph.Proofs.VariableNames
import ShadeGraph.Proofs.Mixing
import ShadeGraph.Proofs.RequestKey
import ShadeGraph.Proofs.Connections
import ShadeGraph.Proofs.LongestMatch
import ShadeGraph.Proofs.IncludeRun
import ShadeGraph.Proofs.IncludeHistory
import ShadeGraph.Proofs.PlainTokens
import ShadeGraph.Proofs.MendedNames
import ShadeGraph.Proofs.SwizzleMembers
import ShadeGraph.Proofs.NearestNumber
import ShadeGraph.Proofs.FixedLiteral
import ShadeGraph.Proofs.WhiteSpace
import ShadeGraph.Proofs.IncludeLine
import ShadeGraph.Proofs.ConfinedPath
import ShadeGraph.Proofs.StoredInteger
import ShadeGraph.Proofs.LightLimit
