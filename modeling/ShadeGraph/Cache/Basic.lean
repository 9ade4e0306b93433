/-
  The cache of fragments.

  A cache is a table from keys to the encodings of fragments, in a file or in memory.  Storing replaces
  what was there under the key, and removing what is not there changes nothing.  A closed cache refuses
  every operation until it is opened again; a file keeps its table over that, memory does not.
-/
import ShadeGraph.Fragment.Codec

namespace ShadeGraph

/-- A table from keys to stored bytes, each key once. -/
structure FragmentTable where
  entries : List (Text × Text)
  deriving DecidableEq, Repr

namespace FragmentTable

/-- The table without entries. -/
def empty : FragmentTable := ⟨[]⟩

/-- The bytes under a key. -/
def find? (t : FragmentTable) (key : Text) : Option Text :=
  (t.entries.find? (·.1 == key)).map (·.2)

/-- The table without a key. -/
def erase (t : FragmentTable) (key : Text) : FragmentTable :=
  ⟨t.entries.filter (·.1 != key)⟩

/-- The table with bytes under a key, in place of what was there. -/
def insert (t : FragmentTable) (key bytes : Text) : FragmentTable :=
  ⟨(t.erase key).entries ++ [(key, bytes)]⟩

/-- The number of entries. -/
def size (t : FragmentTable) : Nat := t.entries.length

/-- The table with other bytes under every key. -/
def map (t : FragmentTable) (f : Text → Text) : FragmentTable :=
  ⟨t.entries.map fun e => (e.1, f e.2)⟩

end FragmentTable

/-- Where a cache keeps its table. -/
inductive CachePlace where
  | memory
  | file
  deriving DecidableEq, Repr

/-- A cache of fragments. -/
structure Cache where
  place : CachePlace
  table : FragmentTable
  isOpen : Bool
  deriving DecidableEq, Repr

/-- What is asked of a cache. -/
inductive CacheRequest where
  | query
  | save
  | delete
  | count
  deriving DecidableEq, Repr

/-- What a cache was doing, for messages. -/
def CacheRequest.activity : CacheRequest → Text
  | .query => "querying fragment"
  | .save => "saving fragment"
  | .delete => "deleting fragment"
  | .count => "counting fragments"

/-- Why a cache cannot do what it is asked. -/
inductive CacheError where
  /-- Nothing is stored under the key. -/
  | notFound
  /-- The cache is closed. -/
  | closed (during : CacheRequest)
  /-- What is stored is no encoding of a fragment. -/
  | undecodable (e : Cbor.DecodeError ValueError)
  deriving DecidableEq, Repr

/-- The message of a cache error, as far as it has a text of its own. -/
def CacheError.message? : CacheError → Option Text
  | .notFound => some "fragment not found"
  | .closed r => some (r.activity ++ ": sql: database is closed")
  | .undecodable e => Fragment.decodeMessage? e

namespace FragmentTable

/-- The fragment under a key. -/
def fragment (t : FragmentTable) (key : Text) : Except CacheError Fragment :=
  match t.find? key with
  | none => .error .notFound
  | some bytes =>
    match Fragment.decode bytes with
    | .ok f => .ok f
    | .error e => .error (.undecodable e)

/-- The table with a fragment under a key. -/
def store (t : FragmentTable) (key : Text) (f : Fragment) : FragmentTable := t.insert key f.encode

end FragmentTable

namespace Cache

/-- A new cache. -/
def create (place : CachePlace) : Cache := ⟨place, .empty, true⟩

/-- Does something with the table of an open cache. -/
def whenOpen {α : Type} (c : Cache) (r : CacheRequest) (f : FragmentTable → Except CacheError α) :
    Except CacheError α :=
  if c.isOpen then f c.table else .error (.closed r)

/-- The fragment under a key. -/
def get (c : Cache) (key : Text) : Except CacheError Fragment :=
  c.whenOpen .query fun t => t.fragment key

/-- The cache with a fragment under a key. -/
def put (c : Cache) (key : Text) (f : Fragment) : Except CacheError Cache :=
  c.whenOpen .save fun t => .ok { c with table := t.store key f }

/-- The cache without a key. -/
def delete (c : Cache) (key : Text) : Except CacheError Cache :=
  c.whenOpen .delete fun t => .ok { c with table := t.erase key }

/-- The number of fragments. -/
def size (c : Cache) : Except CacheError Nat := c.whenOpen .count fun t => .ok t.size

/-- The cache after it is closed. -/
def close (c : Cache) : Cache := { c with isOpen := false }

/-- The cache after it is closed and opened again. -/
def reopen (c : Cache) : Cache :=
  match c.place with
  | .memory => create .memory
  | .file => { c with isOpen := true }

end Cache
end ShadeGraph
