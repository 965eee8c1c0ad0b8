import Ferry.Text.Cut

/-! Addresses of objects: a bucket and a key, written with a slash between them. -/
namespace Ferry.Store

open Ferry.Text

/-- Where an object is. -/
structure Address where
  bucket : String
  key : String
deriving DecidableEq, Repr

namespace Address

/-- A path divided at its first slash. Without one it is all bucket. -/
def ofPath (path : String) : Address :=
  match cutFirst '/' path.toList with
  | some (bucket, key) => ⟨String.ofList bucket, String.ofList key⟩
  | none => ⟨path, ""⟩

/-- What a full address starts with. -/
def scheme : String := "s3://"

/-- A path with or without its scheme, of which one is dropped. -/
def ofUrl (url : String) : Address :=
  match afterLead? scheme.toList url.toList with
  | some path => ofPath (String.ofList path)
  | none => ofPath url

/-- The path of an address. -/
def path (a : Address) : String := a.bucket ++ "/" ++ a.key

end Address
end Ferry.Store
