import SecondaryIndex.Codec.Basic
import SecondaryIndex.Layout.Basic

/-!
# Entries of typed items

An entry codec joins a layout with the codecs of the keys and the values of an index. Reading takes
the key or the value from its place in the physical key, without copying it out first.
-/

namespace SecondaryIndex

/-- A layout together with the codecs of the keys and the values of an index. -/
structure EntryCodec (K V : Type) where
  layout : Layout
  keys : Codec K
  values : Codec V

namespace EntryCodec

variable {K V : Type}

/-- The physical key of a pair. -/
def encode (codec : EntryCodec K V) (key : K) (value : V) : Except EncodingError Bytes :=
  codec.layout.join (codec.keys.encode key) (codec.values.encode value)

/-- The inclusive lower bound of the entries of a key. -/
def stem (codec : EntryCodec K V) (key : K) : Except EncodingError Bytes :=
  codec.layout.stem (codec.keys.encode key)

/-- The upper bound of the entries of a key. -/
def ceiling (codec : EntryCodec K V) (key : K) : Except EncodingError Bound :=
  codec.layout.ceiling (codec.keys.encode key)

/-- Both bounds of the entries of a key. -/
def span (codec : EntryCodec K V) (key : K) : Except EncodingError (Bytes × Bound) :=
  codec.layout.span (codec.keys.encode key)

/-- The key of a physical key, read from its place in it. -/
def readKey (codec : EntryCodec K V) (physical : Bytes) : Except EncodingError K := do
  let (key, value) ← codec.layout.split physical
  codec.keys.decode physical (physical.length - value.length - key.length) key.length

/-- The value of a physical key, read from its place in it. -/
def readValue (codec : EntryCodec K V) (physical : Bytes) : Except EncodingError V := do
  let (_, value) ← codec.layout.split physical
  codec.values.decode physical (physical.length - value.length) value.length

end EntryCodec

end SecondaryIndex
