import Ferry.Json.Record

/-!
The options of the command line that end up in requests. All are texts, and all may be absent.
-/
namespace Ferry.Request

open Ferry.Json

/-- The options given. -/
structure Options where
  encryption : Option String
  encryptionKeyId : Option String
  customerAlgorithm : Option String
  customerKey : Option String
  sourceAlgorithm : Option String
  sourceKey : Option String
  acl : Option String
  storageClass : Option String
  redirect : Option String
  contentType : Option String
  cacheControl : Option String
  contentDisposition : Option String
  contentEncoding : Option String
  contentLanguage : Option String
  expires : Option String
  metadataDirective : Option String
  payer : Option String
deriving DecidableEq, Repr

/-- An option as a field; absent ones are written as null. -/
abbrev optionField (name : String) : Field := .default name .optionalText none

def Options.codec : Codec Options :=
  (Codec.record "CliParams"
    [optionField "sse", optionField "sse_kms_key_id", optionField "sse_c",
      optionField "sse_c_key", optionField "sse_c_copy_source",
      optionField "sse_c_copy_source_key", optionField "acl", optionField "storage_class",
      optionField "website_redirect", optionField "content_type", optionField "cache_control",
      optionField "content_disposition", optionField "content_encoding",
      optionField "content_language", optionField "expires", optionField "metadata_directive",
      optionField "request_payer"]).iso
    (fun (a, b, c, d, e, f, g, h, i, j, k, l, m, n, o, p, q, ()) =>
      ⟨a, b, c, d, e, f, g, h, i, j, k, l, m, n, o, p, q⟩)
    fun o =>
      (o.encryption, o.encryptionKeyId, o.customerAlgorithm, o.customerKey, o.sourceAlgorithm,
        o.sourceKey, o.acl, o.storageClass, o.redirect, o.contentType, o.cacheControl,
        o.contentDisposition, o.contentEncoding, o.contentLanguage, o.expires,
        o.metadataDirective, o.payer, ())

end Ferry.Request
