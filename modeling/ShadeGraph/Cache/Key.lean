/-
  Keys of cached fragments.

  A key stands for everything that a fragment is generated from: its name, the encoded graph, the options,
  the light interface and the number of environment samples.  All of it goes through one mixing hash.
  Texts are filled up with zeros to whole words, so that their lengths are mixed in first: no two requests
  give the same words.
-/
import ShadeGraph.Fragment.Codec
import ShadeGraph.Hash

namespace ShadeGraph

namespace Options

/-- The item of options: every option under its number. -/
def toItem (o : Options) : Cbor.Item :=
  .map (Cbor.numberedEntry 1 (.unsigned o.lights.toNat) ++
    Cbor.numberedEntry 2 (.int o.specular.code.toInt) ++
    Cbor.numberedEntry 3 (.int o.albedo.code.toInt) ++
    Cbor.numberedEntry 4 (.bool o.verticalFlip) ++ Cbor.numberedEntry 5 (.bool o.transparency))

/-- The canonical encoding of options. -/
def encode (o : Options) : Text := o.toItem.encode

end Options

/-- What a fragment is generated from. -/
structure FragmentSource where
  /-- The name of the fragment. -/
  name : Text
  /-- The graph, as its bytes. -/
  graph : Text
  options : Options
  api : LightApi
  /-- The number of environment samples that is asked for; none stands for the usual number. -/
  samples : Int64
  deriving DecidableEq, Repr

namespace FragmentSource

/-- The number of environment samples that is taken, which only counts where samples are drawn. -/
def effectiveSamples (s : FragmentSource) : Int64 :=
  if s.options.specular ≠ .sampled then 0
  else if s.samples ≤ 0 then FragmentGenerator.defaultSamples
  else s.samples

/-- The words that say how long the parts are and what has no text. -/
def header (s : FragmentSource) : List UInt64 :=
  [s.api.version.toUInt64, s.effectiveSamples.toUInt64, s.name.length.toUInt64,
    s.graph.length.toUInt64, s.options.encode.length.toUInt64]

/-- The hash of a request: the header goes in first, then the name, the graph and the options. -/
def hash (s : FragmentSource) : UInt64 :=
  let state := Hash.absorb 0 (s.header.flatMap Hash.bytesOfWord)
  let state := Hash.absorb state s.name
  let state := Hash.absorb state s.graph
  Hash.absorb state s.options.encode

/-- The key of a request. -/
def key (s : FragmentSource) : Text := Text.hexOfNat s.hash.toNat

end FragmentSource
end ShadeGraph
