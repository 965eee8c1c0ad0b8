import Ferry.Json.Record
import Ferry.Time.Stamp

/-!
Objects as the service lists them, page by page, and the source of a copy: the records that travel
as JSON, each with its fields.
-/
namespace Ferry.Store

open Ferry.Json Ferry.Time

/-- The instant of a timestamp, read in the loose form and written by the clocks of a zone, with the
letter where they show universal time. -/
def instantCodec (zone : Zone) : Codec Instant where
  read
    | .string (.ok s) =>
      match Instant.readLoose? s with
      | some t => .ok t
      | none => .error (.invalid "not a timestamp")
    | d => .error (d.mismatch "an RFC 3339 formatted date and time string")
  write t := .string (t.text zone .letter)

/-- An object as a page lists it, its time still as text. -/
structure Listed where
  key : String
  lastModified : String
  size : UInt64
  eTag : Option String
  storageClass : Option String
deriving DecidableEq, Repr

/-- The fields of a listed object whose time is of some type. -/
abbrev objectFields {α : Type} (time : Codec α) : List Field :=
  [.required "Key" .text, .required "LastModified" time, .required "Size" (.word "u64"),
    .maybeText "ETag", .maybeText "StorageClass"]

def Listed.codec : Codec Listed :=
  (Codec.record "ObjectSummary" (objectFields .text)).iso
    (fun (key, time, size, eTag, storageClass, ()) => ⟨key, time, size, eTag, storageClass⟩)
    fun o => (o.key, o.lastModified, o.size, o.eTag, o.storageClass, ())

/-- An object with its time as an instant. -/
structure Object where
  key : String
  lastModified : Instant
  size : UInt64
  eTag : Option String
  storageClass : Option String
deriving DecidableEq, Repr

def Object.codec (zone : Zone) : Codec Object :=
  (Codec.record "ObjectRecord" (objectFields (instantCodec zone))).iso
    (fun (key, time, size, eTag, storageClass, ()) => ⟨key, time, size, eTag, storageClass⟩)
    fun o => (o.key, o.lastModified, o.size, o.eTag, o.storageClass, ())

/-- The listed object with its time read as `time`. -/
def Listed.at (o : Listed) (time : Instant) : Object :=
  ⟨o.key, time, o.size, o.eTag, o.storageClass⟩

/-- Keys that a listing shows as one: all with the same beginning. -/
structure SharedBeginning where
  text : String
deriving DecidableEq, Repr

def SharedBeginning.codec : Codec SharedBeginning :=
  (Codec.record "CommonPrefix" [.required "Prefix" .text]).iso (fun (text, ()) => ⟨text⟩)
    fun s => (s.text, ())

/-- A page of a listing. -/
structure Page where
  contents : List Listed
  shared : List SharedBeginning
  isTruncated : Bool
  nextToken : Option String
deriving DecidableEq, Repr

def Page.codec : Codec Page :=
  (Codec.record "ListObjectsPage"
    [.optional "Contents" (.list Listed.codec) [] List.isEmpty,
      .optional "CommonPrefixes" (.list SharedBeginning.codec) [] List.isEmpty,
      .default "IsTruncated" .flag false, .maybeText "NextContinuationToken"]).iso
    (fun (contents, shared, isTruncated, nextToken, ()) =>
      ⟨contents, shared, isTruncated, nextToken⟩)
    fun p => (p.contents, p.shared, p.isTruncated, p.nextToken, ())

/-- What a copy is made from: an object, in one of its versions or the latest. -/
structure CopySource where
  bucket : String
  key : String
  version : Option String
deriving DecidableEq, Repr

/-- The latest version of an object as the source of a copy. -/
def CopySource.latest (bucket key : String) : CopySource := ⟨bucket, key, none⟩

def CopySource.codec : Codec CopySource :=
  (Codec.record "CopySource"
    [.required "Bucket" .text, .required "Key" .text, .maybeText "VersionId"]).iso
    (fun (bucket, key, version, ()) => ⟨bucket, key, version⟩)
    fun s => (s.bucket, s.key, s.version, ())

end Ferry.Store
