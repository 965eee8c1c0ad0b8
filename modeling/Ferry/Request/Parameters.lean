import Ferry.Request.Options
import Ferry.NameMap

/-!
Which options each operation of the service takes, and under which names. Options fall into groups;
an operation takes whole groups. Absent and empty options set nothing.
-/
namespace Ferry.Request

/-- The operations of the service that options go to. -/
inductive Operation
  | headObject
  | getObject
  | putObject
  | copyObject
  | createMultipartUpload
  | uploadPart
  | uploadPartCopy
deriving DecidableEq, Repr

/-- The groups of options. -/
inductive Group
  /-- What is stored with an object. -/
  | general
  /-- Whether a copy keeps its source's metadata. -/
  | directive
  /-- Encryption with a key of the service. -/
  | encryption
  /-- Encryption with a key of the customer. -/
  | customerKey
  /-- The customer's key of the source of a copy. -/
  | sourceKey
  /-- Who pays. -/
  | payer
deriving DecidableEq, Repr

/-- The groups that an operation takes. -/
def Operation.groups : Operation → List Group
  | .headObject | .getObject | .uploadPart => [.customerKey, .payer]
  | .putObject | .createMultipartUpload => [.general, .encryption, .customerKey, .payer]
  | .copyObject => [.general, .directive, .encryption, .customerKey, .sourceKey, .payer]
  | .uploadPartCopy => [.customerKey, .sourceKey, .payer]

/-- An option that is there and not empty. -/
def present (option : Option String) : Option String := option.filter (· ≠ "")

/-- A customer's key is only sent with its algorithm. -/
def withAlgorithm (algorithm key : Option String) : Option String :=
  if (present algorithm).isSome then key else none

/-- The parameters of a group with the options that they are set from. -/
def Group.parameters (o : Options) : Group → List (String × Option String)
  | .general =>
    [("ACL", o.acl), ("StorageClass", o.storageClass), ("WebsiteRedirectLocation", o.redirect),
      ("ContentType", o.contentType), ("CacheControl", o.cacheControl),
      ("ContentDisposition", o.contentDisposition), ("ContentEncoding", o.contentEncoding),
      ("ContentLanguage", o.contentLanguage), ("Expires", o.expires)]
  | .directive => [("MetadataDirective", o.metadataDirective)]
  | .encryption =>
    [("ServerSideEncryption", o.encryption), ("SSEKMSKeyId", o.encryptionKeyId)]
  | .customerKey =>
    [("SSECustomerAlgorithm", o.customerAlgorithm),
      ("SSECustomerKey", withAlgorithm o.customerAlgorithm o.customerKey)]
  | .sourceKey =>
    [("CopySourceSSECustomerAlgorithm", o.sourceAlgorithm),
      ("CopySourceSSECustomerKey", withAlgorithm o.sourceAlgorithm o.sourceKey)]
  | .payer => [("RequestPayer", o.payer)]

/-- Sets a parameter if its option is there and not empty. -/
def setPresent (params : NameMap String) (entry : String × Option String) : NameMap String :=
  match present entry.2 with
  | some value => params.insert entry.1 value
  | none => params

/-- The parameters of a request with the options that its operation takes. -/
def Operation.apply (op : Operation) (o : Options) (params : NameMap String) : NameMap String :=
  (op.groups.flatMap (·.parameters o)).foldl setPresent params

end Ferry.Request
